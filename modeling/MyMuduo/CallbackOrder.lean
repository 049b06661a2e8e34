import MyMuduo.Handlers

/-! A connection under the reports of its poller, with user code, queued functors
and another thread's `shutdown` in between: what its user is told, and when. -/

namespace MyMuduo

def ReadOutcome.isFailure : ReadOutcome → Bool
  | .fails _ => true
  | .data _ => false

/-- `due`: the channel is among the active channels not yet handled. `tested`: the
threads in `shutdown` that have found `kConnected` and not yet stored. -/
structure ConnRun where
  conn : LoopConn
  due : Bool
  tested : Nat

inductive ConnOp where
  | poll (due : Bool)
  | handleEvent (e : LoopConn.Delivery)
  | user (cs : List UserCall)
  | sendInLoop (d : Span) (k : WriteOutcome)
  | shutdownInLoop
  | shutdownTest
  | shutdownStore
  | connectDestroyed

def ConnOp.callbacks : ConnOp → List ConnCall
  | .handleEvent e => e.callbacks
  | _ => []

/-- How often the reports lead to `handleClose`. -/
def ConnOp.closings : ConnOp → Nat
  | .handleEvent e => (if e.hangsUp then 1 else 0) + if e.reads && e.read == .data [] then 1 else 0
  | _ => 0

namespace ConnRun

/-- Right after `connectEstablished`. -/
def start (w : LoopConn) : ConnRun := ⟨w, false, 0⟩

/-- The poller reports only what is in its interest set. -/
def exec (s : ConnRun) : ConnOp → Option ConnRun
  | .poll due =>
    if s.due = false ∧ (due = true → (s.conn.poller.epollfd_ s.conn.tcp.channel_.fd_).isSome = true) then
      some { s with due := due }
    else none
  | .handleEvent e =>
    if s.due = true then
      (s.conn.handleEventWithGuard e).toOption.map fun conn => { s with conn := conn, due := false }
    else none
  | .user cs => (s.conn.user cs).toOption.map fun conn => { s with conn := conn }
  | .sendInLoop d k => (s.conn.sendInLoop d k).toOption.map fun conn => { s with conn := conn }
  | .shutdownInLoop => some { s with conn := s.conn.shutdownInLoop }
  | .shutdownTest => if s.conn.tcp.state_ = .kConnected then some { s with tested := s.tested + 1 } else none
  | .shutdownStore =>
    if 0 < s.tested then some { s with conn := s.conn.setState .kDisconnecting, tested := s.tested - 1 } else none
  | .connectDestroyed => s.conn.connectDestroyed.toOption.map fun conn => { s with conn := conn }

def Step (s : ConnRun) (op : ConnOp) (s' : ConnRun) : Prop := s.exec op = some s'

/-- What a step does, with what it has tested. -/
inductive Cases (s : ConnRun) : ConnOp → ConnRun → Prop
  | poll {due} (hd : s.due = false)
      (hr : due = true → (s.conn.poller.epollfd_ s.conn.tcp.channel_.fd_).isSome = true) :
      Cases s (.poll due) { s with due := due }
  | handleEvent {e conn} (hd : s.due = true) (h : s.conn.handleEventWithGuard e = .ok conn) :
      Cases s (.handleEvent e) { s with conn := conn, due := false }
  | user {cs conn} (h : s.conn.user cs = .ok conn) : Cases s (.user cs) { s with conn := conn }
  | sendInLoop {d k conn} (h : s.conn.sendInLoop d k = .ok conn) : Cases s (.sendInLoop d k) { s with conn := conn }
  | shutdownInLoop : Cases s .shutdownInLoop { s with conn := s.conn.shutdownInLoop }
  | shutdownTest (hst : s.conn.tcp.state_ = .kConnected) : Cases s .shutdownTest { s with tested := s.tested + 1 }
  | shutdownStore : Cases s .shutdownStore
      { s with conn := s.conn.setState .kDisconnecting, tested := s.tested - 1 }
  | connectDestroyed {conn} (h : s.conn.connectDestroyed = .ok conn) :
      Cases s .connectDestroyed { s with conn := conn }

theorem step_cases {s s' : ConnRun} {op : ConnOp} (h : s.Step op s') : s.Cases op s' := by
  cases op with
  | poll due =>
    simp only [Step, exec, Option.ite_none_right_eq_some, Option.some.injEq] at h
    obtain ⟨⟨hd, hr⟩, rfl⟩ := h
    exact .poll hd hr
  | handleEvent e =>
    simp only [Step, exec, Option.ite_none_right_eq_some, Option.map_eq_some_iff, toOption_eq_some] at h
    obtain ⟨hd, conn, hc, rfl⟩ := h
    exact .handleEvent hd hc
  | user cs =>
    simp only [Step, exec, Option.map_eq_some_iff, toOption_eq_some] at h
    obtain ⟨conn, hc, rfl⟩ := h
    exact .user hc
  | sendInLoop d k =>
    simp only [Step, exec, Option.map_eq_some_iff, toOption_eq_some] at h
    obtain ⟨conn, hc, rfl⟩ := h
    exact .sendInLoop hc
  | shutdownInLoop =>
    cases h
    exact .shutdownInLoop
  | shutdownTest =>
    simp only [Step, exec, Option.ite_none_right_eq_some, Option.some.injEq] at h
    obtain ⟨hst, rfl⟩ := h
    exact .shutdownTest hst
  | shutdownStore =>
    simp only [Step, exec, Option.ite_none_right_eq_some, Option.some.injEq] at h
    obtain ⟨-, rfl⟩ := h
    exact .shutdownStore
  | connectDestroyed =>
    simp only [Step, exec, Option.map_eq_some_iff, toOption_eq_some] at h
    obtain ⟨conn, hc, rfl⟩ := h
    exact .connectDestroyed hc

/-- Only reports bring callbacks, each its own. -/
theorem step_callbacks {s s' : ConnRun} {op : ConnOp} (hs : s.conn.Sound) (h : s.Step op s') :
    s'.conn.Sound ∧ s'.conn.callbacks = s.conn.callbacks ++ op.callbacks := by
  cases step_cases h with
  | poll hd hr => exact ⟨hs, (List.append_nil _).symm⟩
  | handleEvent hd hev => exact ⟨(LoopConn.soundRule.handleEvent hev hs).1, LoopConn.handleEvent_callbacks hs hev⟩
  | user hu =>
    obtain ⟨hs', hq⟩ := LoopConn.quietRule.user hu hs
    exact ⟨hs', hq.callbacks_eq.trans (List.append_nil _).symm⟩
  | sendInLoop hsend =>
    refine ⟨(LoopConn.sendInLoop_sound hs hsend).1, ?_⟩
    exact (LoopConn.sendInLoop_quiet hs hsend).callbacks_eq.trans (List.append_nil _).symm
  | shutdownInLoop =>
    obtain ⟨htcp, hpo⟩ := s.conn.shutdownInLoop_tcp
    exact ⟨hs.of_eq htcp hpo, s.conn.shutdownInLoop_quiet.callbacks_eq.trans (List.append_nil _).symm⟩
  | shutdownTest hst => exact ⟨hs, (List.append_nil _).symm⟩
  | shutdownStore => exact ⟨hs.setState _, (List.append_nil _).symm⟩
  | connectDestroyed hdes =>
    obtain ⟨hs', -, hcalls, -⟩ := LoopConn.connectDestroyed_spec hs hdes
    refine ⟨hs', ?_⟩
    rw [LoopConn.callbacks, hcalls]
    exact (List.append_nil _).symm

/-- The callbacks of a run are those of its reports, in their order. -/
theorem run_callbacks {s₀ s : ConnRun} {ops : List ConnOp} (hs : s₀.conn.Sound) (hr : Run Step s₀ ops s) :
    s.conn.Sound ∧ s.conn.callbacks = s₀.conn.callbacks ++ ops.flatMap ConnOp.callbacks := by
  refine hr.invariant_labels (I := fun ops s => s.conn.Sound ∧
    s.conn.callbacks = s₀.conn.callbacks ++ ops.flatMap ConnOp.callbacks) (fun ops s op s' hi h => ?_) ?_
  · obtain ⟨hs', hc⟩ := step_callbacks hi.1 h
    refine ⟨hs', ?_⟩
    rw [hc, hi.2, List.flatMap_append, List.flatMap_cons, List.flatMap_nil, List.append_nil, List.append_assoc]
  · exact ⟨hs, (List.append_nil _).symm⟩

end ConnRun

/-- `connectionCallback_` up, any number of messages, down, `closeCallback_`; or as
much of it as has come. -/
def UpMessagesDown (callbacks : List ConnCall) : Prop :=
  ∃ n, callbacks <+: .connectionCallback true :: List.replicate n .messageCallback ++ LoopConn.down

namespace ConnRun

/-- A report that hangs up brings no bytes and no end of stream besides, and none
closes a channel that is not registered; and no `shutdown` stores over a close. -/
def ClosesOnce (s : ConnRun) : ConnOp → Prop
  | .handleEvent e => (e.hangsUp = true → e.reads = true → e.read.isFailure = true) ∧
      (e.closes = true → s.conn.tcp.channel_.index_ = .kAdded)
  | .shutdownStore => .closeCallback ∉ s.conn.calls
  | _ => True

/-- The user has not been told of an end, or has, and then nothing more can come. -/
inductive Told (s : ConnRun) : Prop
  | up (n : Nat) : s.conn.callbacks = .connectionCallback true :: List.replicate n .messageCallback → Told s
  | down (n : Nat) : s.conn.callbacks = .connectionCallback true :: List.replicate n .messageCallback ++ LoopConn.down →
      s.conn.tcp.state_ = .kDisconnected → s.conn.isWriting = false → s.conn.tcp.channel_.index_ ≠ .kAdded →
      s.due = false → Told s

theorem Told.upMessagesDown {s : ConnRun} (h : s.Told) : UpMessagesDown s.conn.callbacks := by
  cases h with
  | up n he => exact ⟨n, he ▸ List.prefix_append _ _⟩
  | down n he => exact ⟨n, he ▸ List.prefix_rfl⟩

/-- A report that closes once leaves the channel out of the interest set. -/
theorem handleEvent_closed {w w' : LoopConn} {e : LoopConn.Delivery} (hs : w.Sound)
    (hone : e.hangsUp = true → e.reads = true → e.read.isFailure = true) (hreg : w.tcp.channel_.index_ = .kAdded)
    (hc : e.closes = true) (h : w.handleEventWithGuard e = .ok w') :
    w'.tcp.state_ = .kDisconnected ∧ w'.isWriting = false ∧ w'.tcp.channel_.index_ ≠ .kAdded ∧
      e.callbacks = LoopConn.down := by
  obtain ⟨u, v, hu, hv, hw⟩ := LoopConn.handleEvent_cases h
  have hst := (LoopConn.handleEvent_spec hs h).2 hc
  have hquiet : ∀ {x y : LoopConn}, x.Sound → x.tcp.state_ = .kDisconnected → x.isWriting = false →
      (x.handleWrite e.write = .ok y ∨ y = x) → y.tcp.channel_ = x.tcp.channel_ := by
    rintro x y hx hxst hxw (hy | rfl)
    · exact (LoopConn.handleWrite_quiet hx hy).channel_eq hxst hxw
    · rfl
  have hclosed : v.Sound ∧ v.tcp.state_ = .kDisconnected ∧ v.isWriting = false ∧
      v.tcp.channel_.index_ ≠ .kAdded ∧ e.callbacks = LoopConn.down := by
    rcases hu with ⟨hhup, hu⟩ | ⟨hhup, rfl⟩
    · obtain ⟨-, hust, huw, huix⟩ := LoopConn.handleClose_spec hs hu
      have hus := (LoopConn.soundRule.handleClose hu hs).1
      rcases hv with ⟨hrd, hv⟩ | ⟨hrd, rfl⟩
      · have hfail := hone hhup hrd
        have hne : e.read ≠ .data [] := by
          intro he
          rw [he] at hfail
          cases hfail
        obtain ⟨-, -, hlive, hch⟩ := LoopConn.handleRead_spec hus hv
        have hch := hch hne hust huw
        refine ⟨(LoopConn.soundRule.handleRead hv hus).1, (hlive hne).mpr hust, ?_, ?_, ?_⟩
        · rw [LoopConn.isWriting, hch]
          exact huw
        · rw [hch]
          exact huix hreg
        · cases he : e.read with
          | data available =>
            rw [he] at hfail
            cases hfail
          | fails err => simp [LoopConn.Delivery.callbacks, hhup, hrd, he, LoopConn.readCallbacks]
      · exact ⟨hus, hust, huw, huix hreg, by simp [LoopConn.Delivery.callbacks, hhup, hrd]⟩
    · rw [LoopConn.Delivery.closes, hhup, Bool.false_or, Bool.and_eq_true, beq_iff_eq] at hc
      rcases hv with ⟨hrd, hv⟩ | ⟨hrd, -⟩
      · obtain ⟨-, hend, -⟩ := LoopConn.handleRead_spec hs hv
        obtain ⟨hvst, hvw, hvix⟩ := hend hc.2
        exact ⟨(LoopConn.soundRule.handleRead hv hs).1, hvst, hvw, hvix hreg, by
          simp [LoopConn.Delivery.callbacks, hhup, hrd, hc.2, LoopConn.readCallbacks]⟩
      · rw [hrd] at hc
        cases hc.1
  obtain ⟨hvs, hvst, hvw, hvix, hcb⟩ := hclosed
  have hch := hquiet hvs hvst hvw hw
  exact ⟨hst, by rw [LoopConn.isWriting, hch]; exact hvw, by rw [hch]; exact hvix, hcb⟩

/-- A report that does not close brings a message or nothing. -/
theorem callbacks_of_not_closes {e : LoopConn.Delivery} (h : e.closes = false) :
    e.callbacks = [] ∨ e.callbacks = [.messageCallback] := by
  obtain ⟨hhup, hread⟩ := Bool.or_eq_false_iff.mp h
  rw [LoopConn.Delivery.callbacks, hhup]
  cases hrd : e.reads with
  | false => exact Or.inl rfl
  | true =>
    rw [hrd, Bool.true_and, beq_eq_false_iff_ne] at hread
    cases he : e.read with
    | fails err => exact Or.inl rfl
    | data available =>
      cases available with
      | nil => exact absurd he hread
      | cons a as => exact Or.inr rfl

theorem mem_calls_of_down {s : ConnRun} {cs : List ConnCall} (h : s.conn.callbacks = cs ++ LoopConn.down) :
    .closeCallback ∈ s.conn.calls := by
  have hm : ConnCall.closeCallback ∈ s.conn.callbacks := by
    rw [h]
    simp [LoopConn.down]
  exact List.mem_of_mem_filter hm

theorem step_told {s s' : ConnRun} {op : ConnOp} (hi : s.conn.Sound ∧ s.Told)
    (h : Guarded Step ClosesOnce s op s') : s'.conn.Sound ∧ s'.Told := by
  obtain ⟨hs, ht⟩ := hi
  obtain ⟨hg, h⟩ := h
  obtain ⟨hs', hcb⟩ := step_callbacks hs h
  refine ⟨hs', ?_⟩
  cases ht with
  | up n he =>
    rw [he] at hcb
    cases step_cases h with
    | @handleEvent e conn hd hev =>
      obtain ⟨hone, hreg⟩ := hg
      cases hc : e.closes with
      | true =>
        obtain ⟨hst, hw, hix, hdown⟩ := handleEvent_closed hs hone (hreg hc) hc hev
        exact .down n (hcb.trans (by rw [ConnOp.callbacks, hdown])) hst hw hix rfl
      | false =>
        rcases callbacks_of_not_closes hc with hnil | hmsg
        · exact .up n (hcb.trans (by rw [ConnOp.callbacks, hnil, List.append_nil]))
        · refine .up (n + 1) (hcb.trans ?_)
          rw [ConnOp.callbacks, hmsg, List.replicate_succ', List.cons_append]
    | _ => exact .up n (hcb.trans (List.append_nil _))
  | down n he hst hw hix hdue =>
    rw [he] at hcb
    have hclosed := mem_calls_of_down he
    cases step_cases h with
    | @poll due hd hr =>
      refine .down n (hcb.trans (List.append_nil _)) hst hw hix ?_
      cases due with
      | false => rfl
      | true =>
        have hr := hr rfl
        rw [hs.agrees.epoll_eq, Channel.interest_isSome] at hr
        exact absurd hr hix
    | handleEvent hd hev =>
      rw [hdue] at hd
      cases hd
    | user hu =>
      have hq := (LoopConn.quietRule.user hu hs).2
      have hch := hq.channel_eq hst hw
      exact .down n (hcb.trans (List.append_nil _)) (hq.closed_iff.mpr hst) (by rw [LoopConn.isWriting, hch]; exact hw)
        (by rw [hch]; exact hix) hdue
    | sendInLoop hsend =>
      have hq := LoopConn.sendInLoop_quiet hs hsend
      have hch := hq.channel_eq hst hw
      exact .down n (hcb.trans (List.append_nil _)) (hq.closed_iff.mpr hst) (by rw [LoopConn.isWriting, hch]; exact hw)
        (by rw [hch]; exact hix) hdue
    | shutdownInLoop =>
      obtain ⟨htcp, -⟩ := s.conn.shutdownInLoop_tcp
      exact .down n (hcb.trans (List.append_nil _)) (by rw [htcp]; exact hst)
        (by rw [LoopConn.isWriting, htcp]; exact hw) (by rw [htcp]; exact hix) hdue
    | shutdownTest hconn =>
      rw [hst] at hconn
      cases hconn
    | shutdownStore => exact absurd hclosed hg
    | connectDestroyed hd =>
      obtain ⟨-, -, -, hnew, hst', hw'⟩ := LoopConn.connectDestroyed_spec hs hd
      rw [hst] at hst'
      exact .down n (hcb.trans (List.append_nil _)) hst' (hw' hw) (by rw [hnew]; decide) hdue

/-- The state a connection was constructed in does not come back. -/
theorem openedRule : LoopConn.HandlerRule fun w w' => w.Sound ∧ w.tcp.state_ ≠ .kConnecting →
    w'.Sound ∧ w'.tcp.state_ ≠ .kConnecting where
  refl _ h := h
  trans h h' hs := h' (h hs)
  send {w w' d k} h hs := by
    refine ⟨(LoopConn.soundRule.send h hs.1).1, ?_⟩
    unfold LoopConn.send at h
    split at h
    · rw [(LoopConn.sendInLoop_sound hs.1 h).2.2]
      exact hs.2
    · cases h
      exact hs.2
  shutdown w hs := by
    refine ⟨hs.1.shutdown, ?_⟩
    obtain ⟨htcp | ⟨-, htcp⟩, -⟩ := w.shutdown_tcp
    · rw [htcp]
      exact hs.2
    · rw [htcp]
      exact StateE.noConfusion
  setInput w b hs := ⟨⟨hs.1.agrees, hs.1.output_inv, hs.1.busy⟩, hs.2⟩
  callback _ hs := ⟨hs.1.of_eq rfl rfl, hs.2⟩
  disconnect {w w'} h hs := by
    obtain ⟨p', c', rfl, -⟩ := LoopConn.disableAll_spec (w := w.setState .kDisconnected) hs.1.agrees h
    exact ⟨(hs.1.disconnect h).1, StateE.noConfusion⟩
  handleWrite {w w' k} h hs := by
    obtain ⟨hs', -, hst⟩ := LoopConn.handleWrite_sound hs.1 h
    exact ⟨hs', by rw [hst]; exact hs.2⟩

/-- The user has been told of the connection, and of nothing else. -/
theorem start_told {w₀ : LoopConn} {cs : List UserCall} {w : LoopConn} (hs : w.Steady)
    (hst : w.tcp.state_ ≠ .kDisconnected) (hc : w.calls = []) (h : w.connectEstablished cs = .ok w₀) :
    w₀.Sound ∧ w₀.callbacks = [.connectionCallback true] ∧ w₀.tcp.state_ ≠ .kConnecting := by
  obtain ⟨v, hv, -, hvst, -, hvc, -, hcb⟩ := LoopConn.connectEstablished_cases hs hst h
  have hcall : (v.call (.connectionCallback (v.tcp.state_ = .kConnected))).Sound := hv.sound.of_eq rfl rfl
  obtain ⟨hs₀, hq⟩ := LoopConn.quietRule.user hcb hcall
  refine ⟨hs₀, ?_, ?_⟩
  · rw [hq.callbacks_eq, LoopConn.callbacks_call _ rfl, LoopConn.callbacks, hvc, hc, hvst]
    rfl
  · refine (openedRule.connectionCallback hcb ⟨hv.sound, ?_⟩).2
    rw [hvst]
    exact StateE.noConfusion

instance (s : ConnRun) (op : ConnOp) : Decidable (ClosesOnce s op) := by
  cases op <;> unfold ClosesOnce <;> infer_instance

/-- A new connection, alone on its poller, established and run through `ops`. -/
def trial (f : ConnRun → ConnOp → Option ConnRun) (ops : List ConnOp) : Option ConnRun := do
  let c ← (TcpConnection.new 0 5 false false 0).toOption
  let w ← ((⟨c, EPollPoller.new, []⟩ : LoopConn).connectEstablished []).toOption
  execAll f (start w) ops

theorem exists_run_of_trial {f : ConnRun → ConnOp → Option ConnRun} {r : ConnRun → ConnOp → ConnRun → Prop}
    (hf : ∀ s op t, f s op = some t → r s op t) (ops : List ConnOp) (q : ConnRun → Bool)
    (h : (trial f ops).any q = true) : ∃ c w s, TcpConnection.new 0 5 false false 0 = .ok c ∧
      (⟨c, EPollPoller.new, []⟩ : LoopConn).connectEstablished [] = .ok w ∧ Run r (start w) ops s ∧ q s = true := by
  obtain ⟨s, hs, hq⟩ := (Option.any_eq_true q _).mp h
  obtain ⟨c, hc, hs⟩ := Option.bind_eq_some_iff.mp hs
  obtain ⟨w, hw, hs⟩ := Option.bind_eq_some_iff.mp hs
  exact ⟨c, w, s, toOption_eq_some.mp hc, toOption_eq_some.mp hw, run_of_execAll hf hs, hq⟩

/-- A report with the given bits, of a peer that has sent `available`. -/
def report (revents : Events) (available : List Byte) : ConnOp :=
  .handleEvent ⟨revents, .data available, .accepts 0 0, [], []⟩

theorem not_upMessagesDown_of_cons (c : ConnCall) (cs : List ConnCall) :
    ¬ UpMessagesDown (.connectionCallback true :: LoopConn.down ++ c :: cs) := by
  rintro ⟨n, h⟩
  cases n with
  | zero => simp [LoopConn.down, List.cons_prefix_cons] at h
  | succ n => simp [LoopConn.down, List.cons_prefix_cons, List.replicate_succ] at h

theorem step_opened {s s' : ConnRun} {op : ConnOp} (hs : s.conn.Sound ∧ s.conn.tcp.state_ ≠ .kConnecting)
    (h : s.Step op s') : s'.conn.Sound ∧ s'.conn.tcp.state_ ≠ .kConnecting := by
  cases step_cases h with
  | poll hd hr => exact hs
  | handleEvent hd hev => exact openedRule.handleEvent hev hs
  | user hu => exact openedRule.user hu hs
  | sendInLoop hsend =>
    obtain ⟨hs', -, hst⟩ := LoopConn.sendInLoop_sound hs.1 hsend
    exact ⟨hs', by rw [hst]; exact hs.2⟩
  | shutdownInLoop =>
    obtain ⟨htcp, hpo⟩ := s.conn.shutdownInLoop_tcp
    exact ⟨hs.1.of_eq htcp hpo, by rw [htcp]; exact hs.2⟩
  | shutdownTest hst => exact hs
  | shutdownStore => exact ⟨hs.1.setState _, StateE.noConfusion⟩
  | connectDestroyed hdes =>
    obtain ⟨hs', -, -, -, hst, -⟩ := LoopConn.connectDestroyed_spec hs.1 hdes
    refine ⟨hs', ?_⟩
    rw [hst]
    split
    · exact StateE.noConfusion
    · exact hs.2

/-- Each `handleClose` tells the user once that the connection is gone. -/
theorem count_callbacks (op : ConnOp) : op.callbacks.count (.connectionCallback false) = op.closings := by
  cases op with
  | handleEvent e =>
    simp only [ConnOp.callbacks, ConnOp.closings, LoopConn.Delivery.callbacks, List.count_append]
    congr 1
    · cases e.hangsUp <;> rfl
    · cases e.reads with
      | false => rfl
      | true =>
        cases e.read with
        | fails err => rfl
        | data available => cases available <;> rfl
  | _ => rfl

end ConnRun

end MyMuduo
