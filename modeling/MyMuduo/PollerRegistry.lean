import MyMuduo.EPollPoller

/-! The registry of a loop: what the descriptor map and the interest set hold for
a channel is read off its index and its events, whatever operations came before. -/

namespace MyMuduo

namespace Channel

/-- The entry of `channels_` at the channel's descriptor. -/
def mapped (c : Channel) : Option ChannelPtr := if c.index_ = .kNew then none else some c.self

/-- The entry of the interest set at the channel's descriptor. -/
def interest (c : Channel) : Option EpollEvent :=
  if c.index_ = .kAdded then some ⟨c.events_, c.self⟩ else none

theorem mapped_eq_some {c : Channel} :
    c.mapped = some c.self ↔ c.index_ = .kAdded ∨ c.index_ = .kDeleted := by
  cases h : c.index_ <;> simp [mapped, h]

theorem interest_isSome {c : Channel} : c.interest.isSome = true ↔ c.index_ = .kAdded := by
  by_cases h : c.index_ = .kAdded <;> simp [interest, h]

end Channel

structure Agrees (p : EPollPoller) (c : Channel) : Prop where
  channels_eq : p.channels_ c.fd_ = c.mapped
  epoll_eq : p.epollfd_ c.fd_ = c.interest

/-- What an operation on the channel of `fd` leaves alone, and that the calls it
issued succeeded. -/
structure ChangedAt (fd : Fd) (p p' : EPollPoller) : Prop where
  channels_others : ∀ fd' ≠ fd, p'.channels_ fd' = p.channels_ fd'
  epoll_others : ∀ fd' ≠ fd, p'.epollfd_ fd' = p.epollfd_ fd'
  calls_ok : ∀ call ∈ p'.calls, call ∈ p.calls ∨ call.ok = true

theorem Agrees.of_changedAt {p p' : EPollPoller} {c : Channel} {fd : Fd} (h : Agrees p c)
    (hc : ChangedAt fd p p') (hfd : c.fd_ ≠ fd) : Agrees p' c :=
  ⟨(hc.channels_others _ hfd).trans h.channels_eq, (hc.epoll_others _ hfd).trans h.epoll_eq⟩

theorem ChangedAt.refl (fd : Fd) (p : EPollPoller) : ChangedAt fd p p :=
  ⟨fun _ _ => rfl, fun _ _ => rfl, fun _ h => Or.inl h⟩

theorem ChangedAt.trans {fd : Fd} {p q r : EPollPoller} (h : ChangedAt fd p q) (h' : ChangedAt fd q r) :
    ChangedAt fd p r where
  channels_others fd' hn := (h'.channels_others fd' hn).trans (h.channels_others fd' hn)
  epoll_others fd' hn := (h'.epoll_others fd' hn).trans (h.epoll_others fd' hn)
  calls_ok call hm := by
    rcases h'.calls_ok call hm with hq | ho
    · exact h.calls_ok call hq
    · exact Or.inr ho

namespace EPollPoller

/-- A valid `epoll_ctl` changes the one entry of the interest set. -/
theorem update_eq {p : EPollPoller} {op : CtlOp} {c : Channel} {set : InterestSet}
    (h : epollCtl p.epollfd_ op c.fd_ ⟨c.events_, c.self⟩ = some set) :
    p.update op c = .ok { p with epollfd_ := set, calls := p.calls ++ [⟨op, c.fd_, true⟩] } := by
  rw [update, h]

/-- The index after `updateChannel`: `kDeleted` when the last event of a
registered channel was switched off, `kAdded` otherwise. -/
def updatedIndex (c : Channel) : Index :=
  if c.index_ = .kAdded ∧ c.isNoneEvent = true then .kDeleted else .kAdded

theorem updatedIndex_ne_kNew (c : Channel) : updatedIndex c ≠ .kNew := by
  unfold updatedIndex
  split <;> simp

theorem updatedIndex_eq_kAdded {c : Channel} (h : c.isNoneEvent = false) : updatedIndex c = .kAdded := by
  rw [updatedIndex, if_neg (by simp [h])]

theorem mem_calls_append {calls : List CtlCall} {op : CtlOp} {fd : Fd} {call : CtlCall}
    (h : call ∈ calls ++ [⟨op, fd, true⟩]) : call ∈ calls ∨ call.ok = true := by
  rcases List.mem_append.mp h with h | h
  · exact Or.inl h
  · exact Or.inr (by rw [List.mem_singleton.mp h])

/-- Adding a channel that is not in the interest set, with or without an entry
in the map. -/
theorem updateChannel_add {p : EPollPoller} {c : Channel} (hi : c.index_ ≠ .kAdded)
    (hch : p.channels_ c.fd_ = c.mapped) (hep : p.epollfd_ c.fd_ = none) :
    ∃ p', p.updateChannel c = .ok (p', { c with index_ := .kAdded }) ∧
      Agrees p' { c with index_ := .kAdded } ∧ ChangedAt c.fd_ p p' := by
  have hctl : epollCtl p.epollfd_ .add c.fd_ ⟨c.events_, c.self⟩ =
      some (Function.update p.epollfd_ c.fd_ (some ⟨c.events_, c.self⟩)) := by simp [epollCtl, hep]
  cases hi' : c.index_ with
  | kNew =>
    refine ⟨⟨Function.update p.channels_ c.fd_ (some c.self),
      Function.update p.epollfd_ c.fd_ (some ⟨c.events_, c.self⟩), p.calls ++ [⟨.add, c.fd_, true⟩]⟩, ?_, ?_, ?_⟩
    · rw [updateChannel, if_pos (Or.inl hi'), if_pos hi']
      exact bind_eq_ok.mpr ⟨_, update_eq hctl, rfl⟩
    · exact ⟨by simp [Channel.mapped], by simp [Channel.interest]⟩
    · exact ⟨fun _ hn => by simp [hn], fun _ hn => by simp [hn], fun _ => mem_calls_append⟩
  | kDeleted =>
    simp only [Channel.mapped, hi'] at hch
    refine ⟨⟨p.channels_,
      Function.update p.epollfd_ c.fd_ (some ⟨c.events_, c.self⟩), p.calls ++ [⟨.add, c.fd_, true⟩]⟩, ?_, ?_, ?_⟩
    · rw [updateChannel, if_pos (Or.inr hi'), if_neg (by simp [hi'])]
      exact bind_eq_ok.mpr ⟨_, update_eq hctl, rfl⟩
    · exact ⟨by simpa [Channel.mapped] using hch, by simp [Channel.interest]⟩
    · exact ⟨fun _ _ => rfl, fun _ hn => by simp [hn], fun _ => mem_calls_append⟩
  | kAdded => exact absurd hi' hi

/-- A registered channel that lost its last event leaves the interest set but
keeps its entry in the map. -/
theorem updateChannel_del {p : EPollPoller} {c : Channel} (hi : c.index_ = .kAdded)
    (he : c.isNoneEvent = true) (hch : p.channels_ c.fd_ = c.mapped)
    (hep : (p.epollfd_ c.fd_).isSome = true) :
    ∃ p', p.updateChannel c = .ok (p', { c with index_ := .kDeleted }) ∧
      Agrees p' { c with index_ := .kDeleted } ∧ ChangedAt c.fd_ p p' := by
  have hctl : epollCtl p.epollfd_ .del c.fd_ ⟨c.events_, c.self⟩ =
      some (Function.update p.epollfd_ c.fd_ none) := by simp [epollCtl, hep]
  simp only [Channel.mapped, hi] at hch
  refine ⟨⟨p.channels_, Function.update p.epollfd_ c.fd_ none, p.calls ++ [⟨.del, c.fd_, true⟩]⟩, ?_, ?_, ?_⟩
  · rw [updateChannel, if_neg (by simp [hi]), if_pos he, update_eq hctl]
    rfl
  · exact ⟨by simpa [Channel.mapped] using hch, by simp [Channel.interest]⟩
  · exact ⟨fun _ _ => rfl, fun _ hn => by simp [hn], fun _ => mem_calls_append⟩

theorem updateChannel_mod {p : EPollPoller} {c : Channel} (hi : c.index_ = .kAdded)
    (he : ¬ c.isNoneEvent = true) (hch : p.channels_ c.fd_ = c.mapped)
    (hep : (p.epollfd_ c.fd_).isSome = true) :
    ∃ p', p.updateChannel c = .ok (p', c) ∧ Agrees p' c ∧ ChangedAt c.fd_ p p' := by
  have hctl : epollCtl p.epollfd_ .mod c.fd_ ⟨c.events_, c.self⟩ =
      some (Function.update p.epollfd_ c.fd_ (some ⟨c.events_, c.self⟩)) := by simp [epollCtl, hep]
  refine ⟨⟨p.channels_, Function.update p.epollfd_ c.fd_ (some ⟨c.events_, c.self⟩),
    p.calls ++ [⟨.mod, c.fd_, true⟩]⟩, ?_, ?_, ?_⟩
  · rw [updateChannel, if_neg (by simp [hi]), if_neg he, update_eq hctl]
    rfl
  · exact ⟨hch, by simp [Channel.interest, hi]⟩
  · exact ⟨fun _ _ => rfl, fun _ hn => by simp [hn], fun _ => mem_calls_append⟩

/-- `updateChannel` on a channel whose registration was in step before its
events were changed. -/
theorem updateChannel_spec {p : EPollPoller} {c : Channel} (h : Agrees p c) (e : Events) :
    ∃ p' c', p.updateChannel { c with events_ := e } = .ok (p', c') ∧
      c' = { c with events_ := e, index_ := updatedIndex { c with events_ := e } } ∧
      Agrees p' c' ∧ ChangedAt c.fd_ p p' := by
  obtain ⟨hch, hep⟩ := h
  by_cases hi : c.index_ = .kAdded
  · have hs : (p.epollfd_ c.fd_).isSome = true := hep ▸ Channel.interest_isSome.mpr hi
    by_cases he : ({ c with events_ := e } : Channel).isNoneEvent = true
    · obtain ⟨p', hu, ha, hc⟩ := updateChannel_del (c := { c with events_ := e }) hi he hch hs
      exact ⟨p', _, hu, by rw [updatedIndex, if_pos ⟨hi, he⟩], ha, hc⟩
    · obtain ⟨p', hu, ha, hc⟩ := updateChannel_mod (c := { c with events_ := e }) hi he hch hs
      exact ⟨p', _, hu, by rw [updatedIndex, if_neg (fun hh => he hh.2), ← hi], ha, hc⟩
  · rw [Channel.interest, if_neg hi] at hep
    obtain ⟨p', hu, ha, hc⟩ := updateChannel_add (c := { c with events_ := e }) hi hch hep
    exact ⟨p', _, hu, by rw [updatedIndex, if_neg (fun hh => hi hh.1)], ha, hc⟩

theorem removeChannel_spec {p : EPollPoller} {c : Channel} (h : Agrees p c) :
    ∃ p', p.removeChannel c = .ok (p', { c with index_ := .kNew }) ∧
      Agrees p' { c with index_ := .kNew } ∧ ChangedAt c.fd_ p p' := by
  have hep := h.epoll_eq
  by_cases hi : c.index_ = .kAdded
  · simp only [Channel.interest, hi] at hep
    have hctl : epollCtl p.epollfd_ .del c.fd_ ⟨c.events_, c.self⟩ =
        some (Function.update p.epollfd_ c.fd_ none) := by simp [epollCtl, hep]
    refine ⟨⟨Function.update p.channels_ c.fd_ none, Function.update p.epollfd_ c.fd_ none,
      p.calls ++ [⟨.del, c.fd_, true⟩]⟩, ?_, ⟨by simp [Channel.mapped], by simp [Channel.interest]⟩, ?_⟩
    · rw [removeChannel, if_pos hi]
      exact bind_eq_ok.mpr ⟨_, update_eq hctl, rfl⟩
    · exact ⟨fun _ hn => by simp [hn], fun _ hn => by simp [hn], fun _ => mem_calls_append⟩
  · simp only [Channel.interest, hi, if_false] at hep
    refine ⟨⟨Function.update p.channels_ c.fd_ none, p.epollfd_, p.calls⟩, ?_,
      ⟨by simp [Channel.mapped], by simpa [Channel.interest] using hep⟩, ?_⟩
    · rw [removeChannel, if_neg hi]
      rfl
    · exact ⟨fun _ hn => by simp [hn], fun _ _ => rfl, fun _ hm => Or.inl hm⟩

end EPollPoller

inductive ChannelOp where
  | enableReading
  | disableReading
  | enableWriting
  | disableWriting
  | disableAll
  | remove
  deriving DecidableEq, Repr

def Channel.exec (c : Channel) (p : EPollPoller) : ChannelOp → Except Fault (EPollPoller × Channel)
  | .enableReading => c.enableReading p
  | .disableReading => c.disableReading p
  | .enableWriting => c.enableWriting p
  | .disableWriting => c.disableWriting p
  | .disableAll => c.disableAll p
  | .remove => c.remove p

/-- Every operation on a channel in step with the poller succeeds, keeps them in
step, and touches nothing at the other descriptors. -/
theorem Channel.exec_spec {p : EPollPoller} {c : Channel} (h : Agrees p c) (op : ChannelOp) :
    ∃ p' c', c.exec p op = .ok (p', c') ∧ c'.self = c.self ∧ c'.fd_ = c.fd_ ∧ Agrees p' c' ∧
      ChangedAt c.fd_ p p' := by
  cases op with
  | enableReading =>
    obtain ⟨p', _, he, rfl, ha, hc⟩ := EPollPoller.updateChannel_spec h (c.events_ ||| kReadEvent)
    exact ⟨p', _, he, rfl, rfl, ha, hc⟩
  | disableReading =>
    obtain ⟨p', _, he, rfl, ha, hc⟩ := EPollPoller.updateChannel_spec h (c.events_ &&& ~~~kReadEvent)
    exact ⟨p', _, he, rfl, rfl, ha, hc⟩
  | enableWriting =>
    obtain ⟨p', _, he, rfl, ha, hc⟩ := EPollPoller.updateChannel_spec h (c.events_ ||| kWriteEvent)
    exact ⟨p', _, he, rfl, rfl, ha, hc⟩
  | disableWriting =>
    obtain ⟨p', _, he, rfl, ha, hc⟩ := EPollPoller.updateChannel_spec h (c.events_ &&& ~~~kWriteEvent)
    exact ⟨p', _, he, rfl, rfl, ha, hc⟩
  | disableAll =>
    obtain ⟨p', _, he, rfl, ha, hc⟩ := EPollPoller.updateChannel_spec h kNoneEvent
    exact ⟨p', _, he, rfl, rfl, ha, hc⟩
  | remove =>
    obtain ⟨p', he, ha, hc⟩ := EPollPoller.removeChannel_spec h
    exact ⟨p', _, he, rfl, rfl, ha, hc⟩

/-- The poller of a loop and the channels, at their addresses. -/
structure LoopChannels where
  poller : EPollPoller
  channels : ChannelPtr → Channel

namespace LoopChannels

def start (fd : ChannelPtr → Fd) : LoopChannels := ⟨EPollPoller.new, fun c => Channel.new c (fd c)⟩

def exec (w : LoopChannels) (l : ChannelPtr × ChannelOp) : Except Fault LoopChannels := do
  let (p, c) ← (w.channels l.1).exec w.poller l.2
  return ⟨p, Function.update w.channels l.1 c⟩

/-- An operation on one of the channels in `S`, returning. -/
def Step (S : Set ChannelPtr) (w : LoopChannels) (l : ChannelPtr × ChannelOp) (w' : LoopChannels) : Prop :=
  l.1 ∈ S ∧ w.exec l = .ok w'

structure Inv (S : Set ChannelPtr) (fd : ChannelPtr → Fd) (w : LoopChannels) : Prop where
  self_eq : ∀ c, (w.channels c).self = c
  fd_eq : ∀ c, (w.channels c).fd_ = fd c
  agrees : ∀ c ∈ S, Agrees w.poller (w.channels c)
  calls_ok : ∀ call ∈ w.poller.calls, call.ok = true

variable {S : Set ChannelPtr} {fd : ChannelPtr → Fd}

theorem start_inv (S : Set ChannelPtr) (fd : ChannelPtr → Fd) : (start fd).Inv S fd where
  self_eq _ := rfl
  fd_eq _ := rfl
  agrees _ _ := ⟨rfl, rfl⟩
  calls_ok _ h := by simp [start, EPollPoller.new] at h

/-- One operation from a state in step: it returns, and the state stays in step. -/
theorem Inv.exec {w : LoopChannels} (h : w.Inv S fd) (hfd : Set.InjOn fd S)
    {l : ChannelPtr × ChannelOp} (hl : l.1 ∈ S) : ∃ w', w.exec l = .ok w' ∧ w'.Inv S fd := by
  obtain ⟨c, op⟩ := l
  obtain ⟨p', c', he, hself, hfd', ha, hc⟩ := Channel.exec_spec (h.agrees c hl) op
  refine ⟨⟨p', Function.update w.channels c c'⟩, ?_, ?_, ?_, ?_, ?_⟩
  · rw [LoopChannels.exec, he, ok_bind]
    rfl
  · intro d
    by_cases hd : d = c
    · simp only [hd, Function.update_self, hself, h.self_eq]
    · simp only [Function.update_of_ne hd, h.self_eq]
  · intro d
    by_cases hd : d = c
    · simp only [hd, Function.update_self, hfd', h.fd_eq]
    · simp only [Function.update_of_ne hd, h.fd_eq]
  · intro d hdS
    by_cases hd : d = c
    · simpa only [hd, Function.update_self] using ha
    · have hne : (w.channels d).fd_ ≠ (w.channels c).fd_ := by
        rw [h.fd_eq, h.fd_eq]
        exact fun he => hd (hfd hdS hl he)
      simpa only [Function.update_of_ne hd] using (h.agrees d hdS).of_changedAt hc hne
  · intro call hm
    rcases hc.calls_ok call hm with hm | ho
    · exact h.calls_ok call hm
    · exact ho

theorem run_inv (hfd : Set.InjOn fd S) {w : LoopChannels} {ls : List (ChannelPtr × ChannelOp)}
    (hr : Run (Step S) (start fd) ls w) : w.Inv S fd := by
  refine hr.invariant (fun s l t hi hs => ?_) (start_inv S fd)
  obtain ⟨t', ht', hi'⟩ := hi.exec hfd hs.1
  cases ht'.symm.trans hs.2
  exact hi'

/-- No sequence of operations is fatal. -/
theorem exists_run (hfd : Set.InjOn fd S) {ls : List (ChannelPtr × ChannelOp)} (hls : ∀ l ∈ ls, l.1 ∈ S) :
    ∃ w, Run (Step S) (start fd) ls w := by
  refine Run.exists_of_progress (fun w l hi hl => ?_) (start_inv S fd) hls
  obtain ⟨w', hw, hi'⟩ := hi.exec hfd hl
  exact ⟨w', ⟨hl, hw⟩, hi'⟩

/-- After any operations on channels with distinct descriptors, the map and the
interest set hold for each channel what its index says, every `epoll_ctl` issued
was valid, and the next operation will not be fatal either. -/
theorem registration_refines (hfd : Set.InjOn fd S) {w : LoopChannels}
    {ls : List (ChannelPtr × ChannelOp)} (hr : Run (Step S) (start fd) ls w) :
    (∀ c ∈ S, (w.poller.channels_ (fd c) = some c ↔
        (w.channels c).index_ = .kAdded ∨ (w.channels c).index_ = .kDeleted) ∧
      (w.poller.hasChannel (w.channels c) = true ↔
        (w.channels c).index_ = .kAdded ∨ (w.channels c).index_ = .kDeleted) ∧
      ((w.poller.epollfd_ (fd c)).isSome = true ↔ (w.channels c).index_ = .kAdded) ∧
      ((w.channels c).index_ = .kAdded →
        w.poller.epollfd_ (fd c) = some ⟨(w.channels c).events_, c⟩)) ∧
    (∀ call ∈ w.poller.calls, call.ok = true) ∧
    ∀ l : ChannelPtr × ChannelOp, l.1 ∈ S → ∃ w', w.exec l = .ok w' := by
  have hi := run_inv hfd hr
  refine ⟨fun c hc => ?_, hi.calls_ok, fun l hl => ?_⟩
  · obtain ⟨hch, hep⟩ := hi.agrees c hc
    have hmap := Channel.mapped_eq_some (c := w.channels c)
    rw [hi.fd_eq] at hch hep
    rw [hi.self_eq] at hmap
    refine ⟨hch ▸ hmap, ?_, hep ▸ Channel.interest_isSome, fun ha => ?_⟩
    · rw [EPollPoller.hasChannel, hi.fd_eq, hi.self_eq, hch, beq_iff_eq]
      exact hmap
    · rw [hep, Channel.interest, if_pos ha, hi.self_eq]
  · obtain ⟨w', hw, -⟩ := hi.exec hfd hl
    exact ⟨w', hw⟩

theorem registration_refines_two :
    ∃ w, Run (Step Set.univ) (start fun c => c)
        [(0, .enableReading), (1, .enableWriting), (0, .disableAll), (1, .remove)] w ∧
      (∀ c : ChannelPtr, c ∈ Set.univ → (w.poller.channels_ c = some c ↔
          (w.channels c).index_ = .kAdded ∨ (w.channels c).index_ = .kDeleted) ∧
        (w.poller.hasChannel (w.channels c) = true ↔
          (w.channels c).index_ = .kAdded ∨ (w.channels c).index_ = .kDeleted) ∧
        ((w.poller.epollfd_ c).isSome = true ↔ (w.channels c).index_ = .kAdded) ∧
        ((w.channels c).index_ = .kAdded →
          w.poller.epollfd_ c = some ⟨(w.channels c).events_, c⟩)) ∧
      (∀ call ∈ w.poller.calls, call.ok = true) ∧
      ∀ l : ChannelPtr × ChannelOp, l.1 ∈ Set.univ → ∃ w', w.exec l = .ok w' := by
  have hfd : Set.InjOn (fun c : ChannelPtr => (c : Fd)) Set.univ := fun a _ b _ h => Int.ofNat.inj h
  obtain ⟨w, hr⟩ := exists_run hfd (fun _ _ => trivial)
  exact ⟨w, hr, registration_refines hfd hr⟩

end LoopChannels

end MyMuduo
