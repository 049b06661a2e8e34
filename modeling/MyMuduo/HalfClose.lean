import MyMuduo.Handlers

/-! The half-close when every `send` and `shutdown` comes from the loop's thread:
at most one, with nothing left to send, and owed only while a drain is due. -/

namespace MyMuduo

def ConnCall.isShutdownWrite : ConnCall → Bool
  | .shutdownWrite _ => true
  | _ => false

/-- Every half-close found `outputBuffer_` empty, and no write came after it. -/
def Orderly (calls : List ConnCall) : Prop :=
  ∀ as n bs, calls = as ++ .shutdownWrite n :: bs → n = 0 ∧ ∀ sent, ConnCall.write sent ∉ bs

theorem orderly_append {cs ds : List ConnCall} (hc : Orderly cs) (hd : Orderly ds)
    (hw : (∃ n, .shutdownWrite n ∈ cs) → ∀ sent, ConnCall.write sent ∉ ds) : Orderly (cs ++ ds) := by
  intro as n bs he
  rcases List.append_eq_append_iff.mp he with ⟨as', rfl, hds⟩ | ⟨cs', rfl, hbs⟩
  · exact hd as' n bs hds
  · cases cs' with
    | nil => exact hd [] n bs hbs.symm
    | cons c cs' =>
      obtain ⟨rfl, rfl⟩ := List.cons_eq_cons.mp hbs
      obtain ⟨hn, hq⟩ := hc as n cs' rfl
      refine ⟨hn, fun sent hm => ?_⟩
      rcases List.mem_append.mp hm with hm | hm
      · exact hq sent hm
      · exact hw ⟨n, by simp⟩ sent hm

theorem orderly_of_none {cs : List ConnCall} (h : ∀ c ∈ cs, c.isShutdownWrite = false) : Orderly cs := by
  rintro as n bs rfl
  exact absurd (h (.shutdownWrite n) (by simp)) (by simp [ConnCall.isShutdownWrite])

namespace LoopConn

def shutdowns (w : LoopConn) : Nat := w.calls.countP ConnCall.isShutdownWrite

theorem shutdowns_eq_zero {w : LoopConn} (h : w.shutdowns = 0) : ∀ n, .shutdownWrite n ∉ w.calls := by
  intro n hm
  have := List.countP_eq_zero.mp h _ hm
  exact this rfl

theorem shutdowns_append {w w' : LoopConn} {ds : List ConnCall} (h : w'.calls = w.calls ++ ds) :
    w'.shutdowns = w.shutdowns + ds.countP ConnCall.isShutdownWrite := by
  rw [shutdowns, h, List.countP_append]
  rfl

/-- `destroyed` says whether `connectDestroyed` has taken the channel away. -/
structure HalfCloseInv (destroyed : Prop) (w : LoopConn) : Prop where
  steady : w.Steady
  orderly : Orderly w.calls
  at_most : w.shutdowns ≤ 1
  connected : w.tcp.state_ = .kConnected → w.shutdowns = 0
  disconnecting : w.tcp.state_ = .kDisconnecting →
    w.shutdowns = 0 ∧ w.isWriting = true ∨ w.shutdowns = 1 ∧ w.isWriting = false
  established : w.tcp.state_ ≠ .kConnecting
  listening : ¬ destroyed → w.isWriting = true → w.tcp.channel_.index_ = .kAdded

variable {destroyed : Prop}

/-- While the connection wants to write it has not been half-closed. -/
theorem HalfCloseInv.no_shutdown {w : LoopConn} (h : w.HalfCloseInv destroyed) (hw : w.isWriting = true) :
    w.shutdowns = 0 := by
  cases hst : w.tcp.state_ with
  | kConnecting => exact absurd hst h.established
  | kConnected => exact h.connected hst
  | kDisconnecting =>
    rcases h.disconnecting hst with ⟨h0, -⟩ | ⟨-, hf⟩
    · exact h0
    · rw [hw] at hf
      cases hf
  | kDisconnected =>
    rw [h.steady.closed hst] at hw
    cases hw

/-- Calls that half-close nothing, in a state that stays what it was. -/
theorem HalfCloseInv.append {w w' : LoopConn} {ds : List ConnCall} (h : w.HalfCloseInv destroyed)
    (hs : w'.Steady) (hst : w'.tcp.state_ = w.tcp.state_)
    (hwr : w.tcp.state_ = .kDisconnecting → w'.isWriting = w.isWriting) (hc : w'.calls = w.calls ++ ds)
    (hn : ∀ c ∈ ds, c.isShutdownWrite = false)
    (hq : w.shutdowns = 0 ∨ ∀ sent, ConnCall.write sent ∉ ds)
    (hl : ¬ destroyed → w'.isWriting = true → w'.tcp.channel_.index_ = .kAdded) :
    w'.HalfCloseInv destroyed := by
  have he : w'.shutdowns = w.shutdowns := by
    rw [shutdowns_append hc, List.countP_eq_zero.mpr (fun c hm => by simp [hn c hm])]
    rfl
  refine ⟨hs, ?_, he ▸ h.at_most, ?_, ?_, hst ▸ h.established, hl⟩
  · rw [hc]
    refine orderly_append h.orderly (orderly_of_none hn) ?_
    rintro ⟨n, hm⟩
    rcases hq with hz | hq
    · exact absurd hm (shutdowns_eq_zero hz n)
    · exact hq
  · rw [hst, he]
    exact h.connected
  · intro hd
    rw [hst] at hd
    rw [he, hwr hd]
    exact h.disconnecting hd

/-- Reaching `kDisconnected` with calls that neither write nor half-close. -/
theorem HalfCloseInv.disconnect {w w' : LoopConn} (h : w.HalfCloseInv destroyed) (ds : List ConnCall)
    (hs : w'.Steady) (hst : w'.tcp.state_ = .kDisconnected) (hc : w'.calls = w.calls ++ ds)
    (hn : ∀ c ∈ ds, c.isShutdownWrite = false ∧ ∀ sent, c ≠ .write sent) : w'.HalfCloseInv destroyed := by
  have he : w'.shutdowns = w.shutdowns := by
    rw [shutdowns_append hc, List.countP_eq_zero.mpr (fun c hm => by simp [(hn c hm).1])]
    rfl
  refine ⟨hs, ?_, he ▸ h.at_most, ?_, ?_, ?_, ?_⟩
  · rw [hc]
    exact orderly_append h.orderly (orderly_of_none fun c hm => (hn c hm).1)
      fun _ sent hm => (hn _ hm).2 sent rfl
  · intro hh
    rw [hst] at hh
    cases hh
  · intro hh
    rw [hst] at hh
    cases hh
  · rw [hst]
    decide
  · intro _ hw
    rw [hs.closed hst] at hw
    cases hw

theorem isShutdownWrite_of_isOutput {c : ConnCall} (h : c.isOutput = true) : c.isShutdownWrite = false := by
  cases c <;> simp_all [ConnCall.isOutput, ConnCall.isShutdownWrite]

/-- A send registers the channel, or leaves it alone. -/
theorem sendInLoop_index {w w' : LoopConn} {d : Span} {k : WriteOutcome} (hs : w.Sound)
    (hst : w.tcp.state_ ≠ .kDisconnected) (h : w.sendInLoop d k = .ok w') :
    w'.tcp.channel_.index_ = .kAdded ∨
      w'.isWriting = w.isWriting ∧ w'.tcp.channel_.index_ = w.tcp.channel_.index_ := by
  obtain ⟨htcp, -, -⟩ := w.firstWrite_fst d k
  rcases sendInLoop_cases hs hst h with ⟨-, rfl⟩ | ⟨-, -, hb⟩
  · exact Or.inr ⟨by rw [isWriting, htcp, isWriting], by rw [htcp]⟩
  · rcases hb.index_eq with ⟨hw, hi⟩ | hi
    · exact Or.inr ⟨by rw [hb.writing, ← hw, isWriting, htcp, isWriting], by rw [hi, htcp]⟩
    · exact Or.inl hi

theorem send_halfClose {w w' : LoopConn} {d : Span} {k : WriteOutcome} (hi : w.HalfCloseInv destroyed)
    (h : w.send d k = .ok w') : w'.HalfCloseInv destroyed := by
  by_cases hst : w.tcp.state_ = .kConnected
  · rw [send, if_pos hst] at h
    obtain ⟨hs, -, hst'⟩ := sendInLoop_steady hi.steady h
    obtain ⟨ds, hc, hn⟩ := sendInLoop_calls hi.steady.sound h
    refine hi.append hs hst' (fun hd => by rw [hst] at hd; cases hd) hc
      (fun c hm => isShutdownWrite_of_isOutput (hn c hm)) (Or.inl (hi.connected hst)) ?_
    intro hnd hw
    rcases sendInLoop_index hi.steady.sound (by simp [hst]) h with hx | ⟨hwr, hx⟩
    · exact hx
    · exact hx.trans (hi.listening hnd (hwr ▸ hw))
  · rw [send, if_neg hst] at h
    cases h
    exact hi

/-- The half-close itself, with write interest off and so nothing pending. -/
theorem HalfCloseInv.half_close {w w' : LoopConn} (h : w.HalfCloseInv destroyed) (ds : List ConnCall)
    (h0 : w.shutdowns = 0) (hs : w'.Steady) (hst : w'.tcp.state_ = .kDisconnecting) (hw : w'.isWriting = false)
    (hc : w'.calls = w.calls ++ (ds ++ [.shutdownWrite 0])) (hn : ∀ c ∈ ds, c.isShutdownWrite = false) :
    w'.HalfCloseInv destroyed := by
  have h1 : w'.shutdowns = 1 := by
    rw [shutdowns_append hc, h0, List.countP_append, List.countP_eq_zero.mpr (fun c hm => by simp [hn c hm])]
    rfl
  refine ⟨hs, ?_, Nat.le_of_eq h1, ?_, fun _ => Or.inr ⟨h1, hw⟩, by simp [hst], fun _ hh => ?_⟩
  · rw [hc]
    have hlast : Orderly [.shutdownWrite 0] := by
      intro as n bs he
      cases as with
      | nil =>
        cases he
        exact ⟨rfl, by simp⟩
      | cons a as => simp at he
    refine orderly_append h.orderly (orderly_append (orderly_of_none hn) hlast (by simp)) ?_
    rintro ⟨n, hm⟩
    exact absurd hm (shutdowns_eq_zero h0 n)
  · intro hh
    rw [hst] at hh
    cases hh
  · rw [hw] at hh
    cases hh

theorem shutdown_halfClose {w : LoopConn} (hi : w.HalfCloseInv destroyed) :
    w.shutdown.HalfCloseInv destroyed := by
  by_cases hst : w.tcp.state_ = .kConnected
  · have h0 := hi.connected hst
    have hs := setState_steady hi.steady (s := .kDisconnecting) (by simp [hst]) (by decide)
    rw [shutdown, if_pos hst, shutdownInLoop]
    cases hw : w.isWriting with
    | true =>
      rw [show (w.setState .kDisconnecting).isWriting = true from hw]
      exact ⟨hs, hi.orderly, hi.at_most, fun _ => h0, fun _ => Or.inl ⟨h0, hw⟩, by simp [setState],
        hi.listening⟩
    | false =>
      rw [show (w.setState .kDisconnecting).isWriting = false from hw]
      have hn : w.tcp.outputBuffer_.readableBytes = 0 :=
        hi.steady.sound.readableBytes_eq_zero.mpr ((hi.steady.pending_eq_nil (by simp [hst])).mp hw)
      exact hi.half_close [] h0 (hs.of_eq rfl rfl) rfl hw
        (by rw [show (w.setState .kDisconnecting).tcp.outputBuffer_.readableBytes = 0 from hn]; rfl) (by simp)
  · rw [shutdown, if_neg hst]
    exact hi

theorem call_halfClose {w : LoopConn} (hi : w.HalfCloseInv destroyed) {c : ConnCall}
    (hc : c.isShutdownWrite = false) (hq : ∀ sent, c ≠ .write sent) : (w.call c).HalfCloseInv destroyed := by
  refine hi.append (hi.steady.of_eq rfl rfl) rfl (fun _ => rfl) rfl (by simpa using hc) (Or.inr ?_) hi.listening
  intro sent hm
  exact hq sent (List.mem_singleton.mp hm).symm

theorem setInput_halfClose {w : LoopConn} (hi : w.HalfCloseInv destroyed) (b : Buffer) :
    (w.setInput b).HalfCloseInv destroyed :=
  ⟨⟨hi.steady.agrees, hi.steady.output_inv, hi.steady.writing_iff, hi.steady.closed⟩, hi.orderly, hi.at_most,
    hi.connected, hi.disconnecting, hi.established, hi.listening⟩

/-- Everything `handleClose` and `connectDestroyed` do first on a live connection. -/
theorem disconnect_halfClose {w w' : LoopConn} (hi : w.HalfCloseInv destroyed)
    (h : (w.setState .kDisconnected).onChannel Channel.disableAll = .ok w') :
    w'.HalfCloseInv destroyed ∧ w'.tcp.state_ = .kDisconnected := by
  obtain ⟨p', c', rfl, he, hk⟩ := disableAll_spec (w := w.setState .kDisconnected) hi.steady.agrees h
  have hw := Channel.isWriting_of_none he
  exact ⟨hi.disconnect [] ⟨hk.agrees, hi.steady.output_inv, fun hh => absurd rfl hh, fun _ => hw⟩ rfl
    (by simp [setChannel, setState]) (by simp), rfl⟩

theorem handleWrite_halfClose {w w' : LoopConn} {k : WriteOutcome} (hi : w.HalfCloseInv destroyed)
    (h : w.handleWrite k = .ok w') : w'.HalfCloseInv destroyed := by
  obtain ⟨hs', -, hst'⟩ := handleWrite_steady hi.steady h
  rcases handleWrite_cases hi.steady.sound h with ⟨-, rfl⟩ | ⟨hw, rfl⟩ | ⟨sent, hw, -, -, rfl⟩ | ⟨hw, -, hd⟩
  · exact hi
  · exact hi.append hs' rfl (fun _ => rfl) rfl (by simp [ConnCall.isShutdownWrite]) (Or.inl (hi.no_shutdown hw))
      hi.listening
  · exact hi.append hs' rfl (fun _ => rfl) rfl (by simp [ConnCall.isShutdownWrite]) (Or.inl (hi.no_shutdown hw))
      hi.listening
  · obtain ⟨notes, hn, hc⟩ := hd.calls_eq
    have hq : ∀ c ∈ ConnCall.write w.pending :: notes, c.isShutdownWrite = false := by
      intro c hm
      rcases List.mem_cons.mp hm with rfl | hm
      · rfl
      · rw [hn c hm]
        rfl
    by_cases hst : w.tcp.state_ = .kDisconnecting
    · have hz : (w.wrote w.pending).tcp.outputBuffer_.readableBytes = 0 :=
        (Buffer.retrieve_inv hi.steady.output_inv _).readableBytes_eq_zero.mpr
          ((wrote_pending hi.steady.output_inv w.pending).trans List.drop_length)
      rw [wrote_state, if_pos hst, hz] at hc
      exact hi.half_close _ (hi.no_shutdown hw) hs' (hst'.trans hst) hd.writing
        (by rw [hc]; simp [wrote, call, setOutput]) hq
    · rw [wrote_state, if_neg hst, List.append_nil] at hc
      exact hi.append hs' hst' (fun hh => absurd hh hst) (by rw [hc]; simp [wrote, call, setOutput]) hq
        (Or.inl (hi.no_shutdown hw)) fun _ hh => by rw [hd.writing] at hh; cases hh

theorem halfCloseRule : HandlerRule fun w w' => w.HalfCloseInv destroyed → w'.HalfCloseInv destroyed where
  refl _ h := h
  trans h h' hi := h' (h hi)
  send h hi := send_halfClose hi h
  shutdown _ hi := shutdown_halfClose hi
  setInput _ b hi := setInput_halfClose hi b
  callback {w c} hc hi := by
    cases c with
    | connectionCallback connected => exact call_halfClose hi rfl (by simp)
    | messageCallback => exact call_halfClose hi rfl (by simp)
    | closeCallback => exact call_halfClose hi rfl (by simp)
    | _ => cases hc
  disconnect h hi := (disconnect_halfClose hi h).1
  handleWrite h hi := handleWrite_halfClose hi h

theorem remove_halfClose {w w' : LoopConn} (hi : w.HalfCloseInv destroyed)
    (h : w.onChannel Channel.remove = .ok w') : w'.HalfCloseInv True := by
  obtain ⟨p', rfl, hk⟩ := remove_spec hi.steady.agrees h
  exact ⟨⟨hk.agrees, hi.steady.output_inv, hi.steady.writing_iff, hi.steady.closed⟩, hi.orderly, hi.at_most,
    hi.connected, hi.disconnecting, hi.established, fun hh => absurd trivial hh⟩

theorem connectDestroyed_halfClose {w w' : LoopConn} (hi : w.HalfCloseInv destroyed)
    (h : w.connectDestroyed = .ok w') : w'.HalfCloseInv True := by
  obtain ⟨v, hv, h⟩ := bind_eq_ok.mp h
  by_cases hst : w.tcp.state_ = .kConnected
  · rw [if_pos hst] at hv
    exact remove_halfClose (disconnect_halfClose hi hv).1 h
  · rw [if_neg hst] at hv
    cases hv
    exact remove_halfClose hi h

end LoopConn

/-- What runs on the loop's thread: a report of the poller, user code, such as a
queued functor, and the end of the connection. -/
inductive LoopOp where
  | handleEvent (e : LoopConn.Delivery)
  | user (cs : List UserCall)
  | connectDestroyed

namespace LoopConn

def exec (w : LoopConn) : LoopOp → Except Fault LoopConn
  | .handleEvent e => w.handleEventWithGuard e
  | .user cs => w.user cs
  | .connectDestroyed => w.connectDestroyed

def Step (w : LoopConn) (op : LoopOp) (w' : LoopConn) : Prop := w.exec op = .ok w'

theorem step_halfClose {w w' : LoopConn} {ops : List LoopOp} {op : LoopOp}
    (hi : w.HalfCloseInv (.connectDestroyed ∈ ops)) (h : w.Step op w') :
    w'.HalfCloseInv (.connectDestroyed ∈ ops ++ [op]) := by
  cases op with
  | handleEvent e =>
    have hi' := halfCloseRule.handleEvent h hi
    simpa using hi'
  | user cs =>
    have hi' := halfCloseRule.user h hi
    simpa using hi'
  | connectDestroyed =>
    have hi' := connectDestroyed_halfClose hi h
    simpa using hi'

theorem run_halfClose {w₀ w : LoopConn} {ops : List LoopOp} (hi : w₀.HalfCloseInv False)
    (hr : Run Step w₀ ops w) : w.HalfCloseInv (.connectDestroyed ∈ ops) := by
  refine hr.invariant_labels (I := fun ops w => w.HalfCloseInv (.connectDestroyed ∈ ops))
    (fun _ _ _ _ h hs => step_halfClose h hs) ?_
  simpa using hi

theorem connectEstablished_halfClose {w w' : LoopConn} {cs : List UserCall} (hs : w.Steady)
    (hst : w.tcp.state_ ≠ .kDisconnected) (hc : w.calls = []) (h : w.connectEstablished cs = .ok w') :
    w'.HalfCloseInv False := by
  obtain ⟨v, hv, -, hvst, -, hvc, hvi, hcb⟩ := connectEstablished_cases hs hst h
  have hnil : v.calls = [] := hvc.trans hc
  have h0 : v.shutdowns = 0 := by simp [shutdowns, hnil]
  refine halfCloseRule.connectionCallback hcb ⟨hv, ?_, by omega, fun _ => h0, ?_, by simp [hvst], fun _ _ => hvi⟩
  · exact orderly_of_none (by simp [hnil])
  · intro hh
    rw [hvst] at hh
    cases hh

end LoopConn

end MyMuduo
