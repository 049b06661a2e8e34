import MyMuduo.OutputNotices

/-! Write-complete functors against the busy periods of a connection: the kernel's
answers decide whether the bytes of a period add up when its buffer is empty again. -/

namespace MyMuduo

/-- The sums of a busy period so far: what the sends asked for and what the kernel took. -/
structure Period where
  given : Nat
  accepted : Nat

namespace StepNote

/-- The busy period that the step is part of, with the step counted. A period begins
with a send that finds no write interest and an empty buffer. -/
def period (n : StepNote) (p : Option Period) : Option Period :=
  (if n.begins then some ⟨0, 0⟩ else p).map fun p => ⟨p.given + n.given, p.accepted + n.taken⟩

/-- The functors due at the step: one if a period ends with it, the buffer being empty,
and the kernel has accepted as much as was given. -/
def due (n : StepNote) (p : Option Period) : Nat :=
  match n.period p with
  | some q => if n.size = 0 ∧ q.accepted = q.given then 1 else 0
  | none => 0

/-- The period that is open after the step. -/
def next (n : StepNote) (p : Option Period) : Option Period :=
  if n.size = 0 then none else n.period p

end StepNote

/-- The functors due at each step of a log. -/
def dueAll : Option Period → List StepNote → List Nat
  | _, [] => []
  | p, n :: ns => n.due p :: dueAll (n.next p) ns

def openAfter (p : Option Period) (log : List StepNote) : Option Period := log.foldl (fun p n => n.next p) p

theorem dueAll_concat (p : Option Period) (log : List StepNote) (n : StepNote) :
    dueAll p (log ++ [n]) = dueAll p log ++ [n.due (openAfter p log)] := by
  induction log generalizing p with
  | nil => rfl
  | cons m log ih => rw [List.cons_append, dueAll, ih, dueAll, List.cons_append, openAfter, openAfter, List.foldl_cons]

theorem openAfter_concat (p : Option Period) (log : List StepNote) (n : StepNote) :
    openAfter p (log ++ [n]) = n.next (openAfter p log) := by
  rw [openAfter, List.foldl_append]
  rfl

/-- A send of at least one byte, a writable event or a shutdown. -/
def OutputOp.BeforeClose : OutputOp → Prop
  | .stream (.sendInLoop d _) => 0 < d.len
  | .close _ => False
  | _ => True

namespace OutputOp

theorem given_eq_zero {op : OutputOp} (h : op.isSend = false) : op.given = 0 := by
  cases op with
  | stream op =>
    cases op with
    | sendInLoop d k => cases h
    | handleWrite k => rfl
  | shutdown => rfl
  | close cs => rfl

theorem BeforeClose.given_pos {op : OutputOp} (h : op.BeforeClose) (hsend : op.isSend = true) : 0 < op.given := by
  cases op with
  | stream op =>
    cases op with
    | sendInLoop d k =>
      rw [given, StreamOp.data, Span.bytes_length]
      exact h
    | handleWrite k => cases hsend
  | shutdown => cases hsend
  | close cs => cases hsend

end OutputOp

/-- What a step from `old` bytes does to the sums: no byte is lost, or the buffer stays
empty and some are; and one functor if everything that was there has been accepted. -/
structure Accounted (old given new taken completes : Nat) : Prop where
  balance : old + given = taken + new ∨ old = 0 ∧ new = 0 ∧ taken < given
  completes_eq : completes = if new = 0 ∧ 0 < old + given ∧ taken = old + given then 1 else 0

/-- A connection is in a busy period while its buffer holds something, and the bytes
that the kernel has not taken are those in it. -/
def PeriodInv (size : Nat) : Option Period → Prop
  | none => size = 0
  | some q => 0 < size ∧ q.given = q.accepted + size

/-- The step reports what is due, and leaves the right period open. -/
theorem Accounted.due_next {old : Nat} {op : OutputOp} {p : Option Period} {n : StepNote}
    (ha : Accounted old op.given n.size n.taken n.completes) (hop : op.BeforeClose) (hp : PeriodInv old p)
    (hbegins : n.begins = true ↔ op.isSend = true ∧ old = 0) (hgiven : n.given = op.given) :
    n.completes = n.due p ∧ PeriodInv n.size (n.next p) := by
  obtain ⟨hbal, hcomp⟩ := ha
  cases p with
  | none =>
    have hz : old = 0 := hp
    cases hb : n.begins with
    | true =>
      have hpos := OutputOp.BeforeClose.given_pos hop (hbegins.mp hb).1
      have hper : n.period none = some ⟨0 + op.given, 0 + n.taken⟩ := by
        rw [StepNote.period, hb, ← hgiven]
        rfl
      refine ⟨?_, ?_⟩
      · rw [hcomp, StepNote.due, hper]
        simp only
        congr 1
        exact propext ⟨fun hh => ⟨hh.1, by omega⟩, fun hh => ⟨hh.1, by omega, by omega⟩⟩
      · rw [StepNote.next, hper]
        split
        · assumption
        · exact ⟨by omega, by simp only; omega⟩
    | false =>
      have hsend : op.isSend = false := by
        by_contra hh
        rw [hbegins.mpr ⟨by simpa using hh, hz⟩] at hb
        cases hb
      have hg := OutputOp.given_eq_zero hsend
      have hper : n.period none = none := by
        rw [StepNote.period, hb]
        rfl
      refine ⟨?_, ?_⟩
      · rw [hcomp, StepNote.due, hper, if_neg (by omega)]
      · rw [StepNote.next, hper, ite_self]
        change n.size = 0
        omega
  | some q =>
    obtain ⟨hpos, hsum⟩ : 0 < old ∧ q.given = q.accepted + old := hp
    have hb : n.begins = false := by
      by_contra hh
      have hz := (hbegins.mp (by simpa using hh)).2
      omega
    have hper : n.period (some q) = some ⟨q.given + op.given, q.accepted + n.taken⟩ := by
      rw [StepNote.period, hb, ← hgiven]
      rfl
    refine ⟨?_, ?_⟩
    · rw [hcomp, StepNote.due, hper]
      simp only
      congr 1
      exact propext ⟨fun hh => ⟨hh.1, by omega⟩, fun hh => ⟨hh.1, by omega, by omega⟩⟩
    · rw [StepNote.next, hper]
      split
      · assumption
      · exact ⟨by omega, by simp only; omega⟩

namespace LoopConn

theorem completeNote_eq {w : LoopConn} (h : w.tcp.writeCompleteCallback_ = true) : w.completeNote = [.writeComplete] :=
  if_pos h

theorem tail_counts (w : LoopConn) (remaining : Nat) (nwrote : Int) (len : Nat) :
    (w.highNote remaining ++ [ConnCall.buffered nwrote remaining len]).flatMap ConnCall.sent = [] ∧
      (w.highNote remaining ++ [ConnCall.buffered nwrote remaining len]).count ConnCall.writeComplete = 0 := by
  unfold highNote
  split
  · exact ⟨rfl, rfl⟩
  · exact ⟨rfl, rfl⟩

theorem sendInLoop_accounted {w w' : LoopConn} {d : Span} {k : WriteOutcome} (hs : w.Sound)
    (hst : w.tcp.state_ ≠ .kDisconnected) (hcb : w.tcp.writeCompleteCallback_ = true) (hd : 0 < d.len)
    (h : w.sendInLoop d k = .ok w') : ∃ cs, w'.calls = w.calls ++ cs ∧
      Accounted w.size d.len w'.size (cs.flatMap ConnCall.sent).length (cs.count .writeComplete) := by
  rw [hs.size_eq, (sendInLoop_sound hs h).1.size_eq]
  cases sendInLoop_effect hs hst h with
  | nothing _ hz _ => omega
  | behind hp _ hlen hc =>
    refine ⟨_, hc, ?_⟩
    obtain ⟨hsent, hcount⟩ := w.tail_counts d.len 0 d.len
    rw [hsent, hcount]
    exact ⟨Or.inl (by simp; omega), by rw [if_neg (by omega)]⟩
  | written sent notes hp hp' hle hn hnotes hc =>
    refine ⟨_, hc, ?_⟩
    have hsent : notes.flatMap ConnCall.sent = [] := flatMap_sent_eq_nil fun c hm => by rw [hn c hm]; rfl
    have hflat : (ConnCall.write sent :: notes).flatMap ConnCall.sent = sent := by
      rw [List.flatMap_cons, hsent, List.append_nil]
      rfl
    rw [hflat, hp, hp', List.count_cons_of_ne (by simp), hnotes hd, completeNote_eq hcb]
    simp only [List.length_nil]
    by_cases hall : sent.length = d.len
    · refine ⟨Or.inl (by omega), ?_⟩
      rw [if_pos hall, if_pos ⟨rfl, by omega, by omega⟩]
      rfl
    · refine ⟨Or.inr ⟨rfl, rfl, by omega⟩, ?_⟩
      rw [if_neg hall, if_neg (fun hh => hall (by omega))]
      rfl
  | rest sent nwrote remaining hp hr hsum hp' hc =>
    refine ⟨_, hc, ?_⟩
    obtain ⟨hsent, hcount⟩ := w.tail_counts remaining nwrote d.len
    have hflat : (ConnCall.write sent :: (w.highNote remaining ++ [.buffered nwrote remaining d.len])).flatMap
        ConnCall.sent = sent := by
      rw [List.flatMap_cons, hsent, List.append_nil]
      rfl
    rw [hflat, List.count_cons_of_ne (by simp), hcount, hp, hp', List.length_nil]
    exact ⟨Or.inl (by omega), by rw [if_neg (by omega)]⟩

theorem handleWrite_accounted {w w' : LoopConn} {k : WriteOutcome} (hs : w.Steady)
    (hst : w.tcp.state_ ≠ .kDisconnected) (hcb : w.tcp.writeCompleteCallback_ = true)
    (h : w.handleWrite k = .ok w') : ∃ cs, w'.calls = w.calls ++ cs ∧
      Accounted w.size 0 w'.size (cs.flatMap ConnCall.sent).length (cs.count .writeComplete) := by
  rw [hs.sound.size_eq, (handleWrite_sound hs.sound h).1.size_eq]
  cases (handleWrite_effect hs.sound h).2 with
  | idle hw he =>
    subst he
    refine ⟨[], (List.append_nil _).symm, ?_⟩
    rw [(hs.pending_eq_nil hst).mp hw]
    exact ⟨Or.inl rfl, rfl⟩
  | part sent hne hsum hc =>
    refine ⟨_, hc, ?_⟩
    have hpos := List.length_pos_iff.mpr hne
    have hflat : [ConnCall.write sent].flatMap ConnCall.sent = sent := by simp [ConnCall.sent]
    rw [hflat, List.count_cons_of_ne (by simp), List.count_nil]
    exact ⟨Or.inl (by omega), by rw [if_neg (by omega)]⟩
  | all rest hne hp hrest hc =>
    refine ⟨_, hc, ?_⟩
    have hpos := List.length_pos_iff.mpr hne
    obtain ⟨-, hsent, hcount⟩ := shutdownWrites_quiet hrest
    have hflat : (ConnCall.write w.pending :: (w.completeNote ++ rest)).flatMap ConnCall.sent = w.pending := by
      rw [completeNote_eq hcb, List.flatMap_cons, List.flatMap_append, hsent]
      simp [ConnCall.sent]
    rw [hflat, List.count_cons_of_ne (by simp), List.count_append, hcount, completeNote_eq hcb, hp, List.length_nil]
    refine ⟨Or.inl rfl, ?_⟩
    rw [if_pos ⟨rfl, by omega, rfl⟩]
    rfl

/-- Each step before the close, with what it takes and what it reports. -/
theorem outputStep_accounted {w w' : LoopConn} {op : OutputOp} (hs : w.Steady)
    (hst : w.tcp.state_ ≠ .kDisconnected) (hcb : w.tcp.writeCompleteCallback_ = true) (hop : op.BeforeClose)
    (h : w.OutputStep op w') : ∃ cs, w'.calls = w.calls ++ cs ∧
      Accounted w.size op.given w'.size (cs.flatMap ConnCall.sent).length (cs.count .writeComplete) := by
  cases op with
  | close cs => exact hop.elim
  | shutdown =>
    cases h
    obtain ⟨-, hp, rest, hrest, hc⟩ := w.shutdown_effect
    refine ⟨rest, hc, ?_⟩
    obtain ⟨-, hsent, hcount⟩ := shutdownWrites_quiet hrest
    rw [hs.sound.shutdown.size_eq, hp, ← hs.sound.size_eq, hsent, hcount]
    refine ⟨Or.inl (by simp [OutputOp.given]), ?_⟩
    rw [if_neg (by simp only [OutputOp.given, List.length_nil]; omega)]
  | stream op =>
    cases op with
    | sendInLoop d k =>
      rw [OutputOp.given, StreamOp.data, Span.bytes_length]
      exact sendInLoop_accounted hs.sound hst hcb hop h
    | handleWrite k => exact handleWrite_accounted hs hst hcb h

theorem outputStep_steady {w w' : LoopConn} {op : OutputOp} (hs : w.Steady)
    (hst : w.tcp.state_ ≠ .kDisconnected) (hop : op.BeforeClose) (h : w.OutputStep op w') :
    w'.Steady ∧ w'.tcp.state_ ≠ .kDisconnected := by
  cases op with
  | close cs => exact hop.elim
  | shutdown =>
    cases h
    refine ⟨steadyRule.shutdown w hs, ?_⟩
    obtain ⟨htcp | ⟨-, htcp⟩, -⟩ := w.shutdown_tcp
    · rwa [htcp]
    · rw [htcp]
      simp [setState]
  | stream op =>
    cases op with
    | sendInLoop d k =>
      obtain ⟨hs', -, hst'⟩ := sendInLoop_steady hs h
      exact ⟨hs', hst' ▸ hst⟩
    | handleWrite k =>
      obtain ⟨hs', -, hst'⟩ := handleWrite_steady hs h
      exact ⟨hs', hst' ▸ hst⟩

structure CompleteNoted (p : LoopConn × List StepNote) : Prop where
  steady : p.1.Steady
  live : p.1.tcp.state_ ≠ .kDisconnected
  callback : p.1.tcp.writeCompleteCallback_ = true
  completes_eq : p.2.map StepNote.completes = dueAll none p.2
  period : PeriodInv p.1.size (openAfter none p.2)

/-- Exactly the sends can begin a period. -/
theorem begins_iff {w : LoopConn} (hs : w.Steady) (hst : w.tcp.state_ ≠ .kDisconnected) (op : OutputOp)
    (w' : LoopConn) : (w.stepNote op w').begins = true ↔ op.isSend = true ∧ w.size = 0 := by
  have hz : w.isWriting = false ↔ w.size = 0 := by
    rw [hs.pending_eq_nil hst, hs.sound.size_eq, List.length_eq_zero_iff]
  simp only [stepNote, Bool.and_eq_true, Bool.not_eq_true', beq_iff_eq, hz, and_assoc, and_self]

theorem step_completeNoted {p q : LoopConn × List StepNote} {op : OutputOp} (hi : CompleteNoted p)
    (hs : Noted (Guarded OutputStep fun _ op => op.BeforeClose) noteStep p op q) : CompleteNoted q := by
  obtain ⟨u, log⟩ := p
  obtain ⟨v, log'⟩ := q
  obtain ⟨hsteady, hlive, hcb, hcomp, hper⟩ := hi
  obtain ⟨⟨hop, hstep⟩, hlog⟩ := hs
  obtain rfl : log' = log ++ [u.stepNote op v] := hlog
  simp only at hsteady hlive hcb hcomp hper hop hstep
  obtain ⟨hsteady', hlive'⟩ := outputStep_steady hsteady hlive hop hstep
  have hset := (outputStep_sound hsteady.sound hstep).2
  obtain ⟨cs, hcs, ha⟩ := outputStep_accounted hsteady hlive hcb hop hstep
  have hcalls : (u.stepNote op v).calls = cs := by rw [stepNote, hcs, List.drop_left]
  rw [← hcalls] at ha
  obtain ⟨hdue, hnext⟩ := Accounted.due_next (n := u.stepNote op v) ha hop hper (begins_iff hsteady hlive op v) rfl
  refine ⟨hsteady', hlive', hset.complete_eq.trans hcb, ?_, ?_⟩
  · simp only [List.map_append, List.map_cons, List.map_nil]
    rw [hcomp, dueAll_concat, hdue]
  · simp only [openAfter_concat]
    exact hnext

/-- A write-complete functor is queued at the last step of each busy period whose bytes
the kernel has all accepted, and at no other step. -/
theorem write_complete_accounts {w₀ w : LoopConn} {ops : List OutputOp} {log : List StepNote}
    (h₀ : w₀.Established) (hcb : w₀.tcp.writeCompleteCallback_ = true)
    (hr : Run (Noted (Guarded OutputStep fun _ op => op.BeforeClose) noteStep) (w₀, []) ops (w, log)) :
    log.map StepNote.completes = dueAll none log := by
  obtain ⟨hsteady, hst, hp, -⟩ := h₀.steady
  have hz : w₀.size = 0 := by rw [hsteady.sound.size_eq, hp, List.length_nil]
  exact (hr.invariant (fun _ _ _ hi hs => step_completeNoted hi hs)
    ⟨hsteady, by simp [hst], hcb, rfl, hz⟩).completes_eq

/-- A period that ends with a drain, and one that ends with the direct write. -/
theorem write_complete_accounts_twice : ∃ (w₀ w : LoopConn) (log : List StepNote), w₀.Established ∧
    Run (Noted (Guarded OutputStep fun _ op => op.BeforeClose) noteStep) (w₀, [])
      [.stream (.sendInLoop .ab (.accepts 0 EWOULDBLOCK)), .stream (.handleWrite (.accepts 2 0)),
        .stream (.sendInLoop .ab (.accepts 2 0))] (w, log) ∧
    w.calls.count .writeComplete = 2 ∧ log.map StepNote.completes = dueAll none log := by
  have hok : (do
      let c ← TcpConnection.new 0 5 true false 0
      let w₀ ← (⟨c, EPollPoller.new, []⟩ : LoopConn).connectEstablished []
      let w ← w₀.sendInLoop .ab (.accepts 0 EWOULDBLOCK)
      let w ← w.handleWrite (.accepts 2 0)
      let w ← w.sendInLoop .ab (.accepts 2 0)
      return decide (w₀.tcp.writeCompleteCallback_ = true ∧ w.calls.count ConnCall.writeComplete = 2)).toOption =
        some true := by decide +kernel
  obtain ⟨c, hc, h⟩ := bind_eq_ok.mp (toOption_eq_some.mp hok)
  obtain ⟨w₀, hw₀, h⟩ := bind_eq_ok.mp h
  obtain ⟨w₁, h₁, h⟩ := bind_eq_ok.mp h
  obtain ⟨w₂, h₂, h⟩ := bind_eq_ok.mp h
  obtain ⟨w₃, h₃, h⟩ := bind_eq_ok.mp h
  obtain ⟨hcb, hcount⟩ : w₀.tcp.writeCompleteCallback_ = true ∧ w₃.calls.count .writeComplete = 2 := by
    injection h with h
    exact of_decide_eq_true h
  have h₀ : w₀.Established := ⟨_, _, _, _, _, c, _, hc, ⟨rfl, rfl⟩, hw₀⟩
  have hrun : Run (Guarded OutputStep fun _ op => op.BeforeClose) w₀
      [.stream (.sendInLoop .ab (.accepts 0 EWOULDBLOCK)), .stream (.handleWrite (.accepts 2 0)),
        .stream (.sendInLoop .ab (.accepts 2 0))] w₃ :=
    .snoc (.snoc (.single ⟨show 0 < 2 by decide, h₁⟩) ⟨trivial, h₂⟩) ⟨show 0 < 2 by decide, h₃⟩
  obtain ⟨log, hlog⟩ := hrun.exists_noted noteStep []
  exact ⟨w₀, w₃, log, h₀, hlog, hcount, write_complete_accounts h₀ hcb hlog⟩

end LoopConn

end MyMuduo
