import MyMuduo.ConnectionSpec

/-! The handlers of a connection are composed of a few operations: what is closed
under those is closed under the handlers. Their callbacks are read off the report. -/

namespace MyMuduo

/-- The callbacks of the user, which run at once; the functors are not among them. -/
def ConnCall.isCallback : ConnCall → Bool
  | .connectionCallback _ => true
  | .messageCallback => true
  | .closeCallback => true
  | _ => false

/-- What sending leaves among the calls. -/
def ConnCall.isOutput : ConnCall → Bool
  | .write _ => true
  | .buffered _ _ _ => true
  | .writeComplete => true
  | .highWaterMark _ => true
  | _ => false

theorem ConnCall.not_isCallback_of_isOutput {c : ConnCall} (h : c.isOutput = true) : c.isCallback = false := by
  cases c <;> simp_all [isOutput, isCallback]

namespace LoopConn

/-- A relation that user code keeps, whatever it does. -/
structure UserRule (R : LoopConn → LoopConn → Prop) : Prop where
  refl : ∀ w, R w w
  trans : ∀ {u v w}, R u v → R v w → R u w
  send : ∀ {w w'} {d : Span} {k : WriteOutcome}, w.send d k = .ok w' → R w w'
  shutdown : ∀ w, R w w.shutdown
  setInput : ∀ w b, R w (w.setInput b)

theorem UserRule.user {R : LoopConn → LoopConn → Prop} (hr : UserRule R) {w w' : LoopConn}
    {cs : List UserCall} (h : w.user cs = .ok w') : R w w' := by
  induction cs generalizing w with
  | nil =>
    cases h
    exact hr.refl _
  | cons c cs ih =>
    cases c with
    | send d k =>
      obtain ⟨v, hv, h⟩ := bind_eq_ok.mp h
      exact hr.trans (hr.send hv) (ih h)
    | shutdown => exact hr.trans (hr.shutdown w) (ih h)
    | input op =>
      obtain ⟨⟨out, b⟩, -, h⟩ := bind_eq_ok.mp h
      exact hr.trans (hr.setInput w b) (ih h)

/-- A relation that the handlers keep. -/
structure HandlerRule (R : LoopConn → LoopConn → Prop) : Prop extends UserRule R where
  callback : ∀ {w c}, c.isCallback = true → R w (w.call c)
  disconnect : ∀ {w w'}, (w.setState .kDisconnected).onChannel Channel.disableAll = .ok w' → R w w'
  handleWrite : ∀ {w w'} {k : WriteOutcome}, w.handleWrite k = .ok w' → R w w'

theorem HandlerRule.connectionCallback {R : LoopConn → LoopConn → Prop} (hr : HandlerRule R) {w w' : LoopConn}
    {cs : List UserCall} (h : w.connectionCallback cs = .ok w') : R w w' :=
  hr.trans (hr.callback rfl) (hr.user h)

theorem HandlerRule.handleClose {R : LoopConn → LoopConn → Prop} (hr : HandlerRule R) {w w' : LoopConn}
    {cs : List UserCall} (h : w.handleClose cs = .ok w') : R w w' := by
  obtain ⟨u, hu, h⟩ := bind_eq_ok.mp h
  obtain ⟨v, hv, h⟩ := bind_eq_ok.mp h
  cases h
  exact hr.trans (hr.trans (hr.disconnect hu) (hr.connectionCallback hv)) (hr.callback rfl)

theorem HandlerRule.handleRead {R : LoopConn → LoopConn → Prop} (hr : HandlerRule R) {w w' : LoopConn}
    {k : ReadOutcome} {cs : List UserCall} (h : w.handleRead k cs = .ok w') : R w w' := by
  obtain ⟨⟨n, e, b⟩, -, h⟩ := bind_eq_ok.mp h
  refine hr.trans (hr.setInput w b) ?_
  by_cases hn : 0 < n
  · simp only [hn, if_true] at h
    exact hr.trans (hr.callback rfl) (hr.user h)
  · simp only [hn, if_false] at h
    by_cases hz : n = 0
    · rw [if_pos hz] at h
      exact hr.handleClose h
    · rw [if_neg hz] at h
      cases h
      exact hr.refl _

/-- A report that means the peer has gone and left nothing to read. -/
def Delivery.hangsUp (e : Delivery) : Bool := e.revents &&& EPOLLHUP ≠ 0 ∧ ¬ e.revents &&& EPOLLIN ≠ 0

def Delivery.reads (e : Delivery) : Bool := e.revents &&& (EPOLLIN ||| EPOLLPRI) ≠ 0

/-- A report is handled by up to three handlers in a row. -/
theorem handleEvent_cases {w w' : LoopConn} {e : Delivery} (h : w.handleEventWithGuard e = .ok w') :
    ∃ u v, (e.hangsUp = true ∧ w.handleClose e.onClose = .ok u ∨ e.hangsUp = false ∧ u = w) ∧
      (e.reads = true ∧ u.handleRead e.read e.onRead = .ok v ∨ e.reads = false ∧ v = u) ∧
      (v.handleWrite e.write = .ok w' ∨ w' = v) := by
  obtain ⟨u, hu, h⟩ := bind_eq_ok.mp h
  obtain ⟨v, hv, h⟩ := bind_eq_ok.mp h
  refine ⟨u, v, ?_, ?_, ?_⟩
  · split at hu
    · rename_i hc
      exact Or.inl ⟨decide_eq_true hc, hu⟩
    · rename_i hc
      cases hu
      exact Or.inr ⟨decide_eq_false hc, rfl⟩
  · split at hv
    · rename_i hc
      exact Or.inl ⟨decide_eq_true hc, hv⟩
    · rename_i hc
      cases hv
      exact Or.inr ⟨decide_eq_false hc, rfl⟩
  · split at h
    · exact Or.inl h
    · cases h
      exact Or.inr rfl

theorem HandlerRule.handleEvent {R : LoopConn → LoopConn → Prop} (hr : HandlerRule R) {w w' : LoopConn}
    {e : Delivery} (h : w.handleEventWithGuard e = .ok w') : R w w' := by
  obtain ⟨u, v, hu, hv, hw⟩ := handleEvent_cases h
  have hwu : R w u := by
    rcases hu with ⟨-, hu⟩ | ⟨-, rfl⟩
    · exact hr.handleClose hu
    · exact hr.refl _
  have huv : R u v := by
    rcases hv with ⟨-, hv⟩ | ⟨-, rfl⟩
    · exact hr.handleRead hv
    · exact hr.refl _
  have hvw : R v w' := by
    rcases hw with hw | rfl
    · exact hr.handleWrite hw
    · exact hr.refl _
  exact hr.trans hwu (hr.trans huv hvw)

theorem shutdown_tcp (w : LoopConn) :
    (w.shutdown.tcp = w.tcp ∨ w.tcp.state_ = .kConnected ∧ w.shutdown.tcp = (w.setState .kDisconnecting).tcp) ∧
      w.shutdown.poller = w.poller := by
  unfold shutdown shutdownInLoop
  split
  · rename_i hst
    split
    · exact ⟨Or.inr ⟨hst, rfl⟩, rfl⟩
    · exact ⟨Or.inr ⟨hst, rfl⟩, rfl⟩
  · exact ⟨Or.inl rfl, rfl⟩

theorem Sound.setState {w : LoopConn} (h : w.Sound) (s : StateE) : (w.setState s).Sound :=
  ⟨h.agrees, h.output_inv, h.busy⟩

theorem Sound.shutdown {w : LoopConn} (h : w.Sound) : w.shutdown.Sound := by
  obtain ⟨htcp | ⟨-, htcp⟩, hpo⟩ := w.shutdown_tcp
  · exact h.of_eq htcp hpo
  · exact (h.setState .kDisconnecting).of_eq htcp hpo

theorem Sound.disconnect {w w' : LoopConn} (h : w.Sound)
    (hd : (w.setState .kDisconnected).onChannel Channel.disableAll = .ok w') : w'.Sound ∧ w.Kept w' := by
  obtain ⟨p', c', rfl, he, hk⟩ := disableAll_spec (w := w.setState .kDisconnected) h.agrees hd
  refine ⟨⟨hk.agrees, h.output_inv, fun hw => ?_⟩, hk.self_eq, hk.fd_eq, hk.changed, hk.agrees⟩
  rw [isWriting, show (((w.setState .kDisconnected).setChannel p' c').tcp.channel_) = c' from rfl,
    Channel.isWriting_of_none he] at hw
  cases hw

theorem shutdownInLoop_tcp (w : LoopConn) :
    w.shutdownInLoop.tcp = w.tcp ∧ w.shutdownInLoop.poller = w.poller := by
  unfold shutdownInLoop
  split
  · exact ⟨rfl, rfl⟩
  · exact ⟨rfl, rfl⟩

/-- `connectDestroyed` looks only for `kConnected`, and calls nothing outwards. -/
theorem connectDestroyed_spec {w w' : LoopConn} (hs : w.Sound) (h : w.connectDestroyed = .ok w') :
    w'.Sound ∧ w.Kept w' ∧ w'.calls = w.calls ∧ w'.tcp.channel_.index_ = .kNew ∧
      w'.tcp.state_ = (if w.tcp.state_ = .kConnected then .kDisconnected else w.tcp.state_) ∧
      (w.isWriting = false → w'.isWriting = false) := by
  obtain ⟨v, hv, h⟩ := bind_eq_ok.mp h
  have hvs : v.Sound ∧ w.Kept v ∧ v.calls = w.calls ∧
      v.tcp.state_ = (if w.tcp.state_ = .kConnected then .kDisconnected else w.tcp.state_) ∧
      (w.isWriting = false → v.isWriting = false) := by
    split at hv
    · rename_i hst
      obtain ⟨hs', hk⟩ := hs.disconnect hv
      obtain ⟨p', c', rfl, he, -⟩ := disableAll_spec (w := w.setState .kDisconnected) hs.agrees hv
      exact ⟨hs', hk, rfl, by rw [if_pos hst]; rfl, fun _ => Channel.isWriting_of_none he⟩
    · rename_i hst
      cases hv
      exact ⟨hs, Kept.refl hs.agrees, rfl, by rw [if_neg hst], id⟩
  obtain ⟨hvs, hk, hcalls, hst, hw⟩ := hvs
  obtain ⟨p', rfl, hk'⟩ := remove_spec hvs.agrees h
  exact ⟨⟨hk'.agrees, hvs.output_inv, hvs.busy⟩, hk.trans hk', hcalls, rfl, hst, hw⟩

/-- The handlers keep a connection in step with its poller, and stay at its
descriptor. -/
theorem soundRule : HandlerRule fun w w' => w.Sound → w'.Sound ∧ w.Kept w' where
  refl _ h := ⟨h, Kept.refl h.agrees⟩
  trans h h' hs := by
    obtain ⟨hv, hk⟩ := h hs
    obtain ⟨hw, hk'⟩ := h' hv
    exact ⟨hw, hk.trans hk'⟩
  send {w w' d k} h hs := by
    unfold send at h
    split at h
    · obtain ⟨hs', hk, -⟩ := sendInLoop_sound hs h
      exact ⟨hs', hk⟩
    · cases h
      exact ⟨hs, Kept.refl hs.agrees⟩
  shutdown w hs := by
    refine ⟨hs.shutdown, ?_⟩
    obtain ⟨htcp | ⟨-, htcp⟩, hpo⟩ := w.shutdown_tcp
    · exact ⟨by rw [htcp], by rw [htcp], by rw [hpo]; exact ChangedAt.refl _ _, hs.shutdown.agrees⟩
    · exact ⟨by rw [htcp]; rfl, by rw [htcp]; rfl, by rw [hpo]; exact ChangedAt.refl _ _, hs.shutdown.agrees⟩
  setInput w b hs := ⟨⟨hs.agrees, hs.output_inv, hs.busy⟩, rfl, rfl, ChangedAt.refl _ _, hs.agrees⟩
  callback _ hs := ⟨hs.of_eq rfl rfl, rfl, rfl, ChangedAt.refl _ _, hs.agrees⟩
  disconnect h hs := hs.disconnect h
  handleWrite h hs := by
    obtain ⟨hs', hk, -⟩ := handleWrite_sound hs h
    exact ⟨hs', hk⟩

/-- They keep write interest and pending output together. -/
theorem steadyRule : HandlerRule fun w w' => w.Steady → w'.Steady where
  refl _ h := h
  trans h h' hs := h' (h hs)
  send {w w' d k} h hs := by
    unfold send at h
    split at h
    · exact (sendInLoop_steady hs h).1
    · cases h
      exact hs
  shutdown w hs := by
    obtain ⟨htcp | ⟨hst, htcp⟩, hpo⟩ := w.shutdown_tcp
    · exact hs.of_eq htcp hpo
    · exact (setState_steady hs (s := .kDisconnecting) (by simp [hst]) (by decide)).of_eq htcp hpo
  setInput w b hs := ⟨hs.agrees, hs.output_inv, hs.writing_iff, hs.closed⟩
  callback _ hs := hs.of_eq rfl rfl
  disconnect {w w'} h hs := by
    obtain ⟨p', c', rfl, he, hk⟩ := disableAll_spec (w := w.setState .kDisconnected) hs.agrees h
    exact ⟨hk.agrees, hs.output_inv, fun hh => absurd rfl hh, fun _ => Channel.isWriting_of_none he⟩
  handleWrite h hs := (handleWrite_steady hs h).1

def callbacks (w : LoopConn) : List ConnCall := w.calls.filter ConnCall.isCallback

theorem callbacks_append {w w' : LoopConn} {ds : List ConnCall} (h : w'.calls = w.calls ++ ds) :
    w'.callbacks = w.callbacks ++ ds.filter ConnCall.isCallback := by
  rw [callbacks, h, List.filter_append]
  rfl

theorem callbacks_call (w : LoopConn) {c : ConnCall} (hc : c.isCallback = true) :
    (w.call c).callbacks = w.callbacks ++ [c] := by
  rw [callbacks_append (show (w.call c).calls = w.calls ++ [c] from rfl), List.filter_singleton, hc]
  rfl

theorem firstWrite_calls (w : LoopConn) (d : Span) (k : WriteOutcome) :
    ∃ ds, (w.firstWrite d k).1.calls = w.calls ++ ds ∧ ∀ c ∈ ds, c.isOutput = true := by
  unfold firstWrite
  split
  · cases k with
    | fails e => exact ⟨[.write []], rfl, by simp [ConnCall.isOutput]⟩
    | accepts room e =>
      rw [directWrite_accepts]
      split
      · exact ⟨[.write (d.bytes.take room), .writeComplete], by simp [call], by simp [ConnCall.isOutput]⟩
      · exact ⟨[.write (d.bytes.take room)], rfl, by simp [ConnCall.isOutput]⟩
  · exact ⟨[], by simp, by simp⟩

theorem sendInLoop_calls {w w' : LoopConn} {d : Span} {k : WriteOutcome} (hs : w.Sound)
    (h : w.sendInLoop d k = .ok w') : ∃ ds, w'.calls = w.calls ++ ds ∧ ∀ c ∈ ds, c.isOutput = true := by
  by_cases hst : w.tcp.state_ = .kDisconnected
  · rw [sendInLoop, if_pos hst] at h
    cases h
    exact ⟨[], by simp, by simp⟩
  · obtain ⟨ds, hds, hq⟩ := w.firstWrite_calls d k
    rcases sendInLoop_cases hs hst h with ⟨-, rfl⟩ | ⟨-, -, hb⟩
    · exact ⟨ds, hds, hq⟩
    · obtain ⟨notes, hn, hc⟩ := hb.calls_eq
      refine ⟨ds ++ (notes ++ [.buffered (w.firstWrite d k).2.nwrote (w.firstWrite d k).2.remaining d.len]), ?_, ?_⟩
      · rw [hc, hds]
        simp
      · intro c hm
        rcases List.mem_append.mp hm with hm | hm
        · exact hq c hm
        · rcases List.mem_append.mp hm with hm | hm
          · obtain ⟨m, rfl⟩ := hn c hm
            rfl
          · rw [List.mem_singleton.mp hm]
            rfl

/-- No callback of the user was called, the connection is as closed as it was, and
if it was closed its registration was left alone. -/
structure Quiet (w w' : LoopConn) : Prop where
  callbacks_eq : w'.callbacks = w.callbacks
  closed_iff : w'.tcp.state_ = .kDisconnected ↔ w.tcp.state_ = .kDisconnected
  channel_eq : w.tcp.state_ = .kDisconnected → w.isWriting = false → w'.tcp.channel_ = w.tcp.channel_

theorem Quiet.refl (w : LoopConn) : w.Quiet w := ⟨rfl, Iff.rfl, fun _ _ => rfl⟩

theorem Quiet.trans {u v w : LoopConn} (h : u.Quiet v) (h' : v.Quiet w) : u.Quiet w := by
  refine ⟨h'.callbacks_eq.trans h.callbacks_eq, h'.closed_iff.trans h.closed_iff, fun hst hw => ?_⟩
  have hv := h.channel_eq hst hw
  exact (h'.channel_eq (h.closed_iff.mpr hst) (by rw [isWriting, hv]; exact hw)).trans hv

theorem callbacks_eq_of_calls {w w' : LoopConn} {ds : List ConnCall} (hc : w'.calls = w.calls ++ ds)
    (hq : ∀ c ∈ ds, c.isCallback = false) : w'.callbacks = w.callbacks := by
  rw [callbacks_append hc, List.filter_eq_nil_iff.mpr fun c hm => by simp [hq c hm], List.append_nil]

theorem sendInLoop_quiet {w w' : LoopConn} {d : Span} {k : WriteOutcome} (hs : w.Sound)
    (h : w.sendInLoop d k = .ok w') : w.Quiet w' := by
  obtain ⟨ds, hds, hq⟩ := sendInLoop_calls hs h
  obtain ⟨-, -, hst⟩ := sendInLoop_sound hs h
  refine ⟨callbacks_eq_of_calls hds fun c hm => ConnCall.not_isCallback_of_isOutput (hq c hm), by rw [hst],
    fun hd _ => ?_⟩
  rw [sendInLoop, if_pos hd] at h
  cases h
  rfl

theorem shutdownInLoop_quiet (w : LoopConn) : w.Quiet w.shutdownInLoop := by
  unfold shutdownInLoop
  split
  · exact ⟨callbacks_eq_of_calls rfl (List.forall_mem_singleton.mpr rfl), Iff.rfl, fun _ _ => rfl⟩
  · exact Quiet.refl w

theorem shutdown_quiet (w : LoopConn) : w.Quiet w.shutdown := by
  unfold shutdown
  split
  · rename_i hst
    have hq : w.Quiet (w.setState .kDisconnecting) := ⟨rfl, by simp [setState, hst], fun _ _ => rfl⟩
    exact hq.trans (w.setState .kDisconnecting).shutdownInLoop_quiet
  · exact Quiet.refl w

theorem handleWrite_calls {w w' : LoopConn} {k : WriteOutcome} (hs : w.Sound) (h : w.handleWrite k = .ok w') :
    ∃ ds, w'.calls = w.calls ++ ds ∧ ∀ c ∈ ds, c.isCallback = false := by
  rcases handleWrite_cases hs h with ⟨-, rfl⟩ | ⟨-, rfl⟩ | ⟨sent, -, -, -, rfl⟩ | ⟨-, -, hd⟩
  · exact ⟨[], by simp, by simp⟩
  · exact ⟨[.write []], rfl, by simp [ConnCall.isCallback]⟩
  · exact ⟨[.write sent], rfl, by simp [ConnCall.isCallback]⟩
  · obtain ⟨notes, hn, hc⟩ := hd.calls_eq
    refine ⟨_, hc.trans (by rw [List.append_assoc]; exact List.append_assoc w.calls [.write w.pending] _), ?_⟩
    intro c hm
    rcases List.mem_append.mp hm with hm | hm
    · rw [List.mem_singleton.mp hm]
      rfl
    · rcases List.mem_append.mp hm with hm | hm
      · rw [hn c hm]
        rfl
      · split at hm
        · rw [List.mem_singleton.mp hm]
          rfl
        · cases hm

theorem handleWrite_quiet {w w' : LoopConn} {k : WriteOutcome} (hs : w.Sound) (h : w.handleWrite k = .ok w') :
    w.Quiet w' := by
  obtain ⟨ds, hds, hq⟩ := handleWrite_calls hs h
  obtain ⟨-, -, hst⟩ := handleWrite_sound hs h
  refine ⟨callbacks_eq_of_calls hds hq, by rw [hst], fun _ hw => ?_⟩
  rw [handleWrite, hw] at h
  cases h
  rfl

theorem quietRule : UserRule fun w w' => w.Sound → w'.Sound ∧ w.Quiet w' where
  refl w h := ⟨h, Quiet.refl w⟩
  trans h h' hs := by
    obtain ⟨hv, hq⟩ := h hs
    obtain ⟨hw, hq'⟩ := h' hv
    exact ⟨hw, hq.trans hq'⟩
  send {w w' d k} h hs := by
    refine ⟨(soundRule.send h hs).1, ?_⟩
    unfold send at h
    split at h
    · exact sendInLoop_quiet hs h
    · cases h
      exact Quiet.refl _
  shutdown w hs := ⟨hs.shutdown, w.shutdown_quiet⟩
  setInput w b hs := ⟨⟨hs.agrees, hs.output_inv, hs.busy⟩, rfl, Iff.rfl, fun _ _ => rfl⟩

/-- The two callbacks of `handleClose`. -/
def down : List ConnCall := [.connectionCallback false, .closeCallback]

/-- `handleClose` leaves a closed connection, out of the interest set if it was in
it before. -/
theorem handleClose_spec {w w' : LoopConn} {cs : List UserCall} (hs : w.Sound) (h : w.handleClose cs = .ok w') :
    w'.callbacks = w.callbacks ++ down ∧ w'.tcp.state_ = .kDisconnected ∧ w'.isWriting = false ∧
      (w.tcp.channel_.index_ = .kAdded → w'.tcp.channel_.index_ ≠ .kAdded) := by
  obtain ⟨u, hu, h⟩ := bind_eq_ok.mp h
  obtain ⟨v, hv, h⟩ := bind_eq_ok.mp h
  cases h
  obtain ⟨hus, -⟩ := hs.disconnect hu
  obtain ⟨p', c', rfl, hc, -⟩ := onChannel_update (w := w.setState .kDisconnected) hs.agrees rfl hu
  have hcw : c'.isWriting = false := Channel.isWriting_of_none (by rw [hc])
  generalize hz : ((w.setState .kDisconnected).setChannel p' c') = z at hv hus
  have hzst : z.tcp.state_ = .kDisconnected := by rw [← hz]; rfl
  have hzch : z.tcp.channel_ = c' := by rw [← hz]; rfl
  have hzcb : z.callbacks = w.callbacks := by rw [← hz]; rfl
  obtain ⟨-, hq⟩ := quietRule.user hv (hus.of_eq rfl rfl)
  have hch : v.tcp.channel_ = c' := (hq.channel_eq hzst (by rw [← hzch] at hcw; exact hcw)).trans hzch
  refine ⟨?_, hq.closed_iff.mpr hzst, ?_, fun hi => ?_⟩
  · rw [callbacks_call _ rfl, hq.callbacks_eq, callbacks_call _ rfl, hzcb, hzst]
    simp [down]
  · exact (congrArg Channel.isWriting hch).trans hcw
  · rw [show (v.call .closeCallback).tcp.channel_ = c' from hch, hc]
    have hi : (w.setState .kDisconnected).tcp.channel_.index_ = .kAdded := hi
    simp [EPollPoller.updatedIndex, hi, Channel.isNoneEvent]

theorem iovLen_pos (b : Buffer) : 0 < b.iovLen := by
  have h : 0 < Buffer.extrabufSize := by decide +kernel
  unfold Buffer.iovLen
  split <;> omega

/-- What `readFd` returns tells whether there were bytes, the end, or a failure. -/
theorem readFd_fst {b b' : Buffer} {e e' : Errno} {k : ReadOutcome} {n : Int} (h : b.readFd e k = .ok (n, e', b')) :
    match k with
    | .data [] => n = 0
    | .data (_ :: _) => 0 < n
    | .fails _ => n = -1 := by
  have hlen : ∀ available, k = .data available → n = (available.take b.iovLen).length := by
    rintro available rfl
    obtain ⟨v, -, h⟩ := bind_eq_ok.mp h
    split at h
    · cases h
      rfl
    · obtain ⟨r, -, h⟩ := bind_eq_ok.mp h
      cases h
      rfl
  cases k with
  | fails e'' =>
    cases h
    rfl
  | data available =>
    have hn := hlen available rfl
    have hi := iovLen_pos b
    cases available with
    | nil => simpa using hn
    | cons a as =>
      simp only [List.length_take, List.length_cons] at hn
      simp only
      omega

/-- The callbacks that reading brings: a message, the end, or none. -/
def readCallbacks : ReadOutcome → List ConnCall
  | .data [] => down
  | .data (_ :: _) => [.messageCallback]
  | .fails _ => []

theorem handleRead_spec {w w' : LoopConn} {k : ReadOutcome} {cs : List UserCall} (hs : w.Sound)
    (h : w.handleRead k cs = .ok w') :
    w'.callbacks = w.callbacks ++ readCallbacks k ∧
      (k = .data [] → w'.tcp.state_ = .kDisconnected ∧ w'.isWriting = false ∧
        (w.tcp.channel_.index_ = .kAdded → w'.tcp.channel_.index_ ≠ .kAdded)) ∧
      (k ≠ .data [] → (w'.tcp.state_ = .kDisconnected ↔ w.tcp.state_ = .kDisconnected)) ∧
      (k ≠ .data [] → w.tcp.state_ = .kDisconnected → w.isWriting = false →
        w'.tcp.channel_ = w.tcp.channel_) := by
  obtain ⟨⟨n, e, b⟩, hk, hw'⟩ := bind_eq_ok.mp h
  have hn := readFd_fst hk
  have hi : (w.setInput b).Sound := ⟨hs.agrees, hs.output_inv, hs.busy⟩
  cases k with
  | fails e' =>
    simp only at hn
    subst hn
    cases hw'
    exact ⟨(List.append_nil _).symm, by simp, fun _ => Iff.rfl, fun _ _ _ => rfl⟩
  | data available =>
    cases available with
    | nil =>
      simp only at hn
      subst hn
      obtain ⟨hcb, hst, hw, hix⟩ := handleClose_spec hi hw'
      exact ⟨hcb, fun _ => ⟨hst, hw, hix⟩, fun hne => absurd rfl hne, fun hne => absurd rfl hne⟩
    | cons a as =>
      simp only at hn
      simp only [hn, if_true] at hw'
      obtain ⟨-, hq⟩ := quietRule.user hw' (hi.of_eq rfl rfl)
      refine ⟨?_, by simp, fun _ => hq.closed_iff, fun _ hst hw => hq.channel_eq hst hw⟩
      rw [hq.callbacks_eq, callbacks_call _ rfl]
      rfl

def Delivery.callbacks (e : Delivery) : List ConnCall :=
  (if e.hangsUp then down else []) ++ if e.reads then readCallbacks e.read else []

/-- The report leads to `handleClose`. -/
def Delivery.closes (e : Delivery) : Bool := e.hangsUp || e.reads && e.read == .data []

theorem handleEvent_callbacks {w w' : LoopConn} {e : Delivery} (hs : w.Sound)
    (h : w.handleEventWithGuard e = .ok w') : w'.callbacks = w.callbacks ++ e.callbacks := by
  obtain ⟨u, v, hu, hv, hw⟩ := handleEvent_cases h
  have hcu : u.Sound ∧ u.callbacks = w.callbacks ++ if e.hangsUp then down else [] := by
    rcases hu with ⟨hc, hu⟩ | ⟨hc, rfl⟩
    · exact ⟨(soundRule.handleClose hu hs).1, by rw [(handleClose_spec hs hu).1, hc]; rfl⟩
    · exact ⟨hs, by rw [hc]; simp⟩
  have hcv : v.Sound ∧ v.callbacks = u.callbacks ++ if e.reads then readCallbacks e.read else [] := by
    rcases hv with ⟨hc, hv⟩ | ⟨hc, rfl⟩
    · exact ⟨(soundRule.handleRead hv hcu.1).1, by rw [(handleRead_spec hcu.1 hv).1, hc]; rfl⟩
    · exact ⟨hcu.1, by rw [hc]; simp⟩
  have hcw : w'.callbacks = v.callbacks := by
    rcases hw with hw | rfl
    · exact (handleWrite_quiet hcv.1 hw).callbacks_eq
    · rfl
  rw [hcw, hcv.2, hcu.2, Delivery.callbacks, List.append_assoc]

/-- A report that does not close keeps the connection as closed as it was. One
that does leaves it closed, and out of the interest set if it was in it. -/
theorem handleEvent_spec {w w' : LoopConn} {e : Delivery} (hs : w.Sound)
    (h : w.handleEventWithGuard e = .ok w') :
    (e.closes = false → (w'.tcp.state_ = .kDisconnected ↔ w.tcp.state_ = .kDisconnected)) ∧
      (e.closes = true → w'.tcp.state_ = .kDisconnected) := by
  obtain ⟨u, v, hu, hv, hw⟩ := handleEvent_cases h
  have hus : u.Sound := by
    rcases hu with ⟨-, hu⟩ | ⟨-, rfl⟩
    · exact (soundRule.handleClose hu hs).1
    · exact hs
  have hvs : v.Sound := by
    rcases hv with ⟨-, hv⟩ | ⟨-, rfl⟩
    · exact (soundRule.handleRead hv hus).1
    · exact hus
  have hcw : w'.tcp.state_ = .kDisconnected ↔ v.tcp.state_ = .kDisconnected := by
    rcases hw with hw | rfl
    · exact (handleWrite_quiet hvs hw).closed_iff
    · exact Iff.rfl
  have hcv : v.tcp.state_ = .kDisconnected ↔
      u.tcp.state_ = .kDisconnected ∨ (e.reads && e.read == .data []) = true := by
    rcases hv with ⟨hc, hv⟩ | ⟨hc, rfl⟩
    · obtain ⟨-, hz, hnz, -⟩ := handleRead_spec hus hv
      by_cases hk : e.read = .data []
      · simp [hc, hk, (hz hk).1]
      · simp [hc, hk, hnz hk]
    · simp [hc]
  have hcu : u.tcp.state_ = .kDisconnected ↔ w.tcp.state_ = .kDisconnected ∨ e.hangsUp = true := by
    rcases hu with ⟨hc, hu⟩ | ⟨hc, rfl⟩
    · simp [hc, (handleClose_spec hs hu).2.1]
    · simp [hc]
  rw [hcw, hcv, hcu, Delivery.closes, Bool.or_eq_true, Bool.or_eq_false_iff]
  constructor
  · rintro ⟨h1, h2⟩
    simp [h1, h2]
  · tauto

end LoopConn

end MyMuduo
