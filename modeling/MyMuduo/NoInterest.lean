import MyMuduo.PollerRegistry

/-! A channel without events and the interest set: only an update that switches the
last event of a registered channel off takes it out, any other puts it in. -/

namespace MyMuduo

/-- The events that an operation leaves; `remove` does not set any. -/
def ChannelOp.sets (e : Events) : ChannelOp → Option Events
  | .enableReading => some (e ||| kReadEvent)
  | .disableReading => some (e &&& ~~~kReadEvent)
  | .enableWriting => some (e ||| kWriteEvent)
  | .disableWriting => some (e &&& ~~~kWriteEvent)
  | .disableAll => some kNoneEvent
  | .remove => none

theorem EPollPoller.updatedIndex_none {c : Channel} (h : c.isNoneEvent = true) :
    EPollPoller.updatedIndex c = if c.index_ = .kAdded then .kDeleted else .kAdded := by
  simp [EPollPoller.updatedIndex, h]

namespace Channel

/-- The channel that an operation leaves. -/
def after (c : Channel) (op : ChannelOp) : Channel :=
  match op.sets c.events_ with
  | some e => { c with events_ := e, index_ := EPollPoller.updatedIndex { c with events_ := e } }
  | none => { c with index_ := .kNew }

theorem exec_eq_after {p p' : EPollPoller} {c c' : Channel} (h : Agrees p c) {op : ChannelOp}
    (he : c.exec p op = .ok (p', c')) : c' = c.after op := by
  have hupdate : ∀ e, p.updateChannel { c with events_ := e } = .ok (p', c') →
      c' = { c with events_ := e, index_ := EPollPoller.updatedIndex { c with events_ := e } } := by
    intro e hu
    obtain ⟨q, d, hq, hd, -⟩ := EPollPoller.updateChannel_spec h e
    cases hq.symm.trans hu
    exact hd
  cases op with
  | enableReading => exact hupdate _ he
  | disableReading => exact hupdate _ he
  | enableWriting => exact hupdate _ he
  | disableWriting => exact hupdate _ he
  | disableAll => exact hupdate _ he
  | remove =>
    obtain ⟨q, hq, -⟩ := EPollPoller.removeChannel_spec h
    cases hq.symm.trans he
    rfl

theorem after_index_of_none {c : Channel} {op : ChannelOp} (h : op.sets c.events_ = some kNoneEvent) :
    (c.after op).isNoneEvent = true ∧ (c.after op).index_ = if c.index_ = .kAdded then .kDeleted else .kAdded := by
  have hnone : ({ c with events_ := kNoneEvent } : Channel).isNoneEvent = true := by simp [isNoneEvent]
  rw [after, h]
  exact ⟨hnone, EPollPoller.updatedIndex_none hnone⟩

/-- An operation leaves a channel without events unregistered exactly when it found
it registered, if it left none at all. -/
theorem after_unregistered_iff {c : Channel} {op : ChannelOp} :
    ((c.after op).isNoneEvent = true → (c.after op).index_ ≠ .kAdded) ↔
      (op.sets c.events_ = some kNoneEvent → c.index_ = .kAdded) := by
  by_cases h : op.sets c.events_ = some kNoneEvent
  · obtain ⟨hn, hi⟩ := after_index_of_none h
    rw [hi]
    by_cases hix : c.index_ = .kAdded
    · simp [hix]
    · simp [hix, hn, h]
  · refine iff_of_true (fun hn => ?_) fun hh => absurd hh h
    cases hs : op.sets c.events_ with
    | none => simp [after, hs]
    | some e =>
      rw [after, hs] at hn
      have he : e = kNoneEvent := by simpa [isNoneEvent] using hn
      exact absurd (he ▸ hs) h

end Channel

namespace LoopChannels

variable {S : Set ChannelPtr} {fd : ChannelPtr → Fd}

/-- No channel without events is in the interest set. -/
def Unregistered (S : Set ChannelPtr) (fd : ChannelPtr → Fd) (w : LoopChannels) : Prop :=
  ∀ c ∈ S, (w.channels c).isNoneEvent = true → w.poller.epollfd_ (fd c) = none

/-- An operation that leaves no events finds its channel registered. -/
def FindsRegistered (w : LoopChannels) (l : ChannelPtr × ChannelOp) : Prop :=
  l.2.sets (w.channels l.1).events_ = some kNoneEvent → (w.channels l.1).index_ = .kAdded

theorem Inv.unregistered_iff_index {w : LoopChannels} (h : w.Inv S fd) :
    w.Unregistered S fd ↔ ∀ c ∈ S, (w.channels c).isNoneEvent = true → (w.channels c).index_ ≠ .kAdded := by
  refine forall_congr' fun c => forall_congr' fun hc => imp_congr_right fun _ => ?_
  have he := (h.agrees c hc).epoll_eq
  rw [h.fd_eq] at he
  rw [he, ← Option.not_isSome_iff_eq_none, Channel.interest_isSome]

theorem step_channels {w w' : LoopChannels} {l : ChannelPtr × ChannelOp} (h : w.Inv S fd) (hs : Step S w l w') :
    (∀ c ≠ l.1, w'.channels c = w.channels c) ∧ w'.channels l.1 = (w.channels l.1).after l.2 := by
  obtain ⟨hl, he⟩ := hs
  obtain ⟨⟨p, c⟩, hc, he⟩ := bind_eq_ok.mp he
  cases he
  refine ⟨fun d hd => Function.update_of_ne hd _ _, ?_⟩
  exact (Function.update_self l.1 c w.channels).trans (Channel.exec_eq_after (h.agrees l.1 hl) hc)

theorem step_inv (hfd : Set.InjOn fd S) {w w' : LoopChannels} {l : ChannelPtr × ChannelOp} (h : w.Inv S fd)
    (hs : Step S w l w') : w'.Inv S fd := by
  obtain ⟨t, ht, hi⟩ := h.exec hfd hs.1
  cases ht.symm.trans hs.2
  exact hi

/-- One operation keeps the channels without events out exactly when it does not
leave a channel without events that was not in. -/
theorem step_unregistered_iff (hfd : Set.InjOn fd S) {w w' : LoopChannels} {l : ChannelPtr × ChannelOp}
    (h : w.Inv S fd) (hp : w.Unregistered S fd) (hs : Step S w l w') :
    w'.Unregistered S fd ↔ w.FindsRegistered l := by
  obtain ⟨hothers, hself⟩ := step_channels h hs
  rw [(step_inv hfd h hs).unregistered_iff_index]
  have hp := h.unregistered_iff_index.mp hp
  have hone : (∀ c ∈ S, (w'.channels c).isNoneEvent = true → (w'.channels c).index_ ≠ .kAdded) ↔
      ((w'.channels l.1).isNoneEvent = true → (w'.channels l.1).index_ ≠ .kAdded) := by
    refine ⟨fun hh => hh l.1 hs.1, fun hh c hc => ?_⟩
    by_cases he : c = l.1
    · rw [he]
      exact hh
    · rw [hothers c he]
      exact hp c hc
  rw [hone, hself]
  exact Channel.after_unregistered_iff

/-- A channel without events is in the interest set or not by turns. -/
theorem disableAll_index {w w' : LoopChannels} {c : ChannelPtr} (h : w.Inv S fd)
    (hs : Step S w (c, .disableAll) w') :
    (w'.channels c).index_ = if (w.channels c).index_ = .kAdded then .kDeleted else .kAdded := by
  rw [(step_channels h hs).2]
  exact (Channel.after_index_of_none rfl).2

theorem disableAll_twice (hfd : Set.InjOn fd S) {w w₁ w₂ : LoopChannels} {c : ChannelPtr} (h : w.Inv S fd)
    (h₁ : Step S w (c, .disableAll) w₁) (h₂ : Step S w₁ (c, .disableAll) w₂) :
    (w₂.channels c).index_ ≠ (w₁.channels c).index_ ∧
      (w₂.poller.epollfd_ (fd c)).isSome ≠ (w₁.poller.epollfd_ (fd c)).isSome := by
  have hi₁ := step_inv hfd h h₁
  have hi₂ := step_inv hfd hi₁ h₂
  have hx₁ := disableAll_index h h₁
  have hx₂ := disableAll_index hi₁ h₂
  have he : ∀ {v : LoopChannels}, v.Inv S fd →
      ((v.poller.epollfd_ (fd c)).isSome = true ↔ (v.channels c).index_ = .kAdded) := by
    intro v hv
    have hv' := (hv.agrees c h₁.1).epoll_eq
    rw [hv.fd_eq] at hv'
    rw [hv', Channel.interest_isSome]
  have hne : (w₂.channels c).index_ = .kAdded ↔ ¬ (w₁.channels c).index_ = .kAdded := by
    rw [hx₂]
    split <;> simp_all
  refine ⟨fun hh => ?_, fun hh => ?_⟩
  · rw [hh] at hne
    exact iff_not_self hne
  · have hb := congrArg (· = true) hh
    simp only [he hi₁, he hi₂, hne, eq_iff_iff] at hb
    exact iff_not_self hb.symm

/-- Channels without events stay out of the interest set along a run exactly when
every operation that leaves none finds its channel registered; and a second
`disableAll` in a row always changes both the index and the interest set. -/
theorem unregistered_iff (hfd : Set.InjOn fd S) {w : LoopChannels} {ls : List (ChannelPtr × ChannelOp)} :
    (RunAlways (Step S) (fun _ w => w.Unregistered S fd) (start fd) ls w ↔
      Run (Guarded (Step S) FindsRegistered) (start fd) ls w) ∧
    (Run (Step S) (start fd) ls w → ∀ c w₁ w₂, Step S w (c, .disableAll) w₁ → Step S w₁ (c, .disableAll) w₂ →
      (w₂.channels c).index_ ≠ (w₁.channels c).index_ ∧
        (w₂.poller.epollfd_ (fd c)).isSome ≠ (w₁.poller.epollfd_ (fd c)).isSome) := by
  constructor
  · refine runAlways_iff_guarded (I := Inv S fd) (fun _ l _ hi hs => step_inv (l := l) hfd hi hs)
      (fun _ _ l _ hi hp hs => step_unregistered_iff (l := l) hfd hi hp hs) (start_inv S fd) ?_
    intro c _ _
    rfl
  · intro hr c w₁ w₂ h₁ h₂
    exact disableAll_twice hfd (run_inv hfd hr) h₁ h₂

theorem unregistered_iff_two :
    ∃ w, Run (Step Set.univ) (start fun c => c) [(0, .enableReading), (1, .enableWriting), (0, .disableAll)] w ∧
      ((RunAlways (Step Set.univ) (fun _ w => w.Unregistered Set.univ fun c => c) (start fun c => c)
          [(0, .enableReading), (1, .enableWriting), (0, .disableAll)] w ↔
        Run (Guarded (Step Set.univ) FindsRegistered) (start fun c => c)
          [(0, .enableReading), (1, .enableWriting), (0, .disableAll)] w) ∧
      (Run (Step Set.univ) (start fun c => c) [(0, .enableReading), (1, .enableWriting), (0, .disableAll)] w →
        ∀ c w₁ w₂, Step Set.univ w (c, .disableAll) w₁ → Step Set.univ w₁ (c, .disableAll) w₂ →
          (w₂.channels c).index_ ≠ (w₁.channels c).index_ ∧
            (w₂.poller.epollfd_ c).isSome ≠ (w₁.poller.epollfd_ c).isSome)) := by
  have hfd : Set.InjOn (fun c : ChannelPtr => (c : Fd)) Set.univ := fun a _ b _ h => Int.ofNat.inj h
  obtain ⟨w, hr⟩ := exists_run hfd (fun _ _ => trivial)
  exact ⟨w, hr, unregistered_iff hfd⟩

/-- The second `disableAll` in a row registers the channel again, for no events. -/
theorem registered_without_events : ∃ w, Run (Step Set.univ) (start fun c => c)
      [(0, .enableReading), (0, .disableAll), (0, .disableAll)] w ∧ ¬ w.Unregistered Set.univ fun c => c := by
  have hfd : Set.InjOn (fun c : ChannelPtr => (c : Fd)) Set.univ := fun a _ b _ h => Int.ofNat.inj h
  have hi := start_inv Set.univ fun c : ChannelPtr => (c : Fd)
  obtain ⟨w₁, h₁, hi₁⟩ := hi.exec (l := (0, .enableReading)) hfd trivial
  obtain ⟨w₂, h₂, hi₂⟩ := hi₁.exec (l := (0, .disableAll)) hfd trivial
  obtain ⟨w₃, h₃, hi₃⟩ := hi₂.exec (l := (0, .disableAll)) hfd trivial
  have hs₁ : Step Set.univ _ (0, .enableReading) w₁ := ⟨trivial, h₁⟩
  have hs₂ : Step Set.univ w₁ (0, .disableAll) w₂ := ⟨trivial, h₂⟩
  have hs₃ : Step Set.univ w₂ (0, .disableAll) w₃ := ⟨trivial, h₃⟩
  refine ⟨w₃, .cons hs₁ <| .cons hs₂ <| .single hs₃, fun hu => ?_⟩
  have hx₁ : (w₁.channels 0).index_ = .kAdded := by
    rw [(step_channels hi hs₁).2]
    decide
  have hx₂ := disableAll_index hi₁ hs₂
  have hx₃ := disableAll_index hi₂ hs₃
  rw [hx₁, if_pos rfl] at hx₂
  rw [hx₂, if_neg (by decide)] at hx₃
  have hset : ChannelOp.disableAll.sets (w₂.channels 0).events_ = some kNoneEvent := rfl
  have hnone := (Channel.after_index_of_none hset).1
  rw [← (step_channels hi₂ hs₃).2] at hnone
  exact hi₃.unregistered_iff_index.mp hu 0 trivial hnone hx₃

end LoopChannels

end MyMuduo
