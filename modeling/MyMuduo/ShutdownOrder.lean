import MyMuduo.HalfClose
import MyMuduo.OutputStream
import MyMuduo.ThreadSteps

/-! The half-close and the sends of other threads: what a `send` left in the queue, or
has still to put there, is not waited for by anything but its place in the queue. -/

namespace MyMuduo

/-- At each half-close the kernel has been handed exactly `data`, and nothing is
written afterwards. -/
def HandedOver (data : List Byte) (calls : List ConnCall) : Prop :=
  ∀ before n after, calls = before ++ .shutdownWrite n :: after →
    before.flatMap ConnCall.sent = data ∧ ∀ sent, ConnCall.write sent ∉ after

theorem handedOver_of_none {data : List Byte} {cs : List ConnCall} (h : ∀ n, .shutdownWrite n ∉ cs) :
    HandedOver data cs := by
  rintro before n after rfl
  exact absurd (by simp) (h n)

/-- Calls that neither write nor half-close come after. -/
theorem handedOver_append {data : List Byte} {cs ds : List ConnCall} (h : HandedOver data cs)
    (hd : ∀ c ∈ ds, c.isShutdownWrite = false ∧ ∀ sent, c ≠ .write sent) : HandedOver data (cs ++ ds) := by
  intro before n after he
  rcases List.append_eq_append_iff.mp he with ⟨before', rfl, hds⟩ | ⟨cs', rfl, hafter⟩
  · exact absurd (hd (.shutdownWrite n) (by rw [hds]; simp)).1 (by simp [ConnCall.isShutdownWrite])
  · cases cs' with
    | nil =>
      have hds : .shutdownWrite n :: after = ds := hafter
      exact absurd (hd (.shutdownWrite n) (by simp [← hds])).1 (by simp [ConnCall.isShutdownWrite])
    | cons c cs' =>
      obtain ⟨rfl, rfl⟩ := List.cons_eq_cons.mp hafter
      obtain ⟨hs, hw⟩ := h before n cs' rfl
      refine ⟨hs, fun sent hm => ?_⟩
      rcases List.mem_append.mp hm with hm | hm
      · exact hw sent hm
      · exact (hd _ hm).2 sent rfl

/-- A half-close comes after, when all of `data` has been handed over. -/
theorem handedOver_half_close {data : List Byte} {cs ds : List ConnCall} (n : Nat) (h : HandedOver data cs)
    (hs : (cs ++ ds).flatMap ConnCall.sent = data) (hd : ∀ c ∈ ds, c.isShutdownWrite = false)
    (hw : (∃ n, .shutdownWrite n ∈ cs) → ∀ sent, ConnCall.write sent ∉ ds) :
    HandedOver data (cs ++ (ds ++ [.shutdownWrite n])) := by
  have hcs : HandedOver data (cs ++ ds) := by
    by_cases hex : ∃ n, .shutdownWrite n ∈ cs
    · refine handedOver_append h fun c hm => ⟨hd c hm, ?_⟩
      rintro sent rfl
      exact hw hex sent hm
    · refine handedOver_of_none fun m hm => ?_
      rcases List.mem_append.mp hm with hm | hm
      · exact hex ⟨m, hm⟩
      · cases hd _ hm
  rw [← List.append_assoc]
  intro before m after he
  rcases List.append_eq_append_iff.mp he with ⟨before', rfl, hds⟩ | ⟨cs', hcs', hafter⟩
  · cases before' with
    | nil =>
      cases hds
      exact ⟨by rw [List.append_nil]; exact hs, by simp⟩
    | cons c before' => simp at hds
  · cases cs' with
    | nil =>
      cases hafter
      rw [List.append_nil] at hcs'
      exact ⟨by rw [← hcs']; exact hs, by simp⟩
    | cons c cs' =>
      obtain ⟨rfl, rfl⟩ := List.cons_eq_cons.mp hafter
      obtain ⟨hb, hn⟩ := hcs before m cs' hcs'
      exact ⟨hb, fun sent hm => by simpa using hn sent (by simpa using hm)⟩

/-- The send that a thread has tested and not yet queued. -/
def ThreadPc.sends : ThreadPc → Option Nat
  | .sendTested m => some m.id
  | _ => none

def ConnTask.sends : ConnTask → Option Nat
  | .sendInLoop m => some m.id
  | _ => none

/-- The kernel has room for all of it. -/
def WriteOutcome.takesAll (data : List Byte) : WriteOutcome → Bool
  | .accepts room _ => data.length ≤ room
  | .fails _ => false

namespace ConnSystem

/-- The sends that have passed their test and not reached `sendInLoop`. -/
def dueSends (s : ConnSystem) : List Nat :=
  s.holders.filterMap (fun i => (s.threads i).sends) ++
    (s.queue.batch ++ s.queue.pending).filterMap ConnTask.sends ++ s.todo.filterMap LoopWork.sends

/-- The work is about to call `shutdownWrite`. -/
def halfCloses (s : ConnSystem) : LoopWork → Bool
  | .shutdownInLoop _ => !s.conn.isWriting
  | .write k => s.conn.isWriting && s.state = .kDisconnecting && k.takesAll s.conn.pending
  | _ => false

/-- A `sendInLoop` on a connection that is not closed finds its string as it was, and
keeps the stream intact. -/
def Carries (s : ConnSystem) : LoopWork → Prop
  | .sendSpan _ d k => s.state ≠ .kDisconnected → s.conn.Harmless (.sendInLoop d k)
  | .sendInLoop m k => s.state ≠ .kDisconnected → s.memory.read m.data m.len = m.given ∧
      s.conn.Harmless (.sendInLoop ⟨s.memory, m.data, m.len, m.len_le⟩ k)
  | _ => True

/-- No half-close while a send that passed its test is still due, or after one was given
up, or over bytes that a close has left in the buffer. -/
def InOrder (s : ConnSystem) : SysAction → Prop
  | .work => ∀ w ∈ s.todo.head?, (s.halfCloses w = true → s.dueSends = [] ∧ s.dropped = false ∧
      (s.conn.isWriting = false → s.conn.pending = [])) ∧ s.Carries w
  | _ => True

/-- No half-close has overtaken a send: those that had returned before some `shutdown`
began have run, all bytes had been handed over, and nothing was written after. -/
structure NoOvertake (s : ConnSystem) : Prop where
  ran : 0 < s.conn.shutdowns → ∀ id ∈ s.covered, id ∈ s.ran.map Prod.fst
  handed : HandedOver (s.ran.flatMap Prod.snd) s.conn.calls

/-- A `shutdownInLoop` is on its way. -/
def HalfDue (s : ConnSystem) : Prop :=
  (∃ i, s.threads i = .shutdownStored) ∨ .shutdownInLoop ∈ s.queue.batch ++ s.queue.pending ∨
    ∃ queued, .shutdownInLoop queued ∈ s.todo

/-- What a half-close leaves for good. -/
structure HalfClosed (s : ConnSystem) : Prop where
  due : s.dueSends = []
  dropped : s.dropped = false
  pending : s.conn.pending = []
  state : s.state ≠ .kConnected

structure OrderInv (s : ConnSystem) : Prop where
  sound : s.conn.Sound
  intact : s.dropped = false → s.conn.Intact (s.ran.flatMap Prod.snd)
  between : s.phase ≠ .functors → s.queue.batch = []
  callers : ∀ i, s.threads i ≠ .idle → i ∈ s.holders
  arrived : ∀ id ∈ s.returned, id ∈ s.ran.map Prod.fst ∨ id ∈ s.dueSends
  returned : ∀ id ∈ s.covered, id ∈ s.returned
  stored : s.HalfDue → s.state ≠ .kConnected
  half : 0 < s.conn.shutdowns → s.HalfClosed
  handed : HandedOver (s.ran.flatMap Prod.snd) s.conn.calls

theorem OrderInv.noOvertake {s : ConnSystem} (h : s.OrderInv) : s.NoOvertake := by
  refine ⟨fun hpos id hid => ?_, h.handed⟩
  rcases h.arrived id (h.returned id hid) with hran | hdue
  · exact hran
  · rw [(h.half hpos).due] at hdue
    cases hdue

theorem mem_dueSends {s : ConnSystem} {id : Nat} : id ∈ s.dueSends ↔
    (∃ i ∈ s.holders, (s.threads i).sends = some id) ∨
      (∃ task ∈ s.queue.batch ++ s.queue.pending, task.sends = some id) ∨
        ∃ w ∈ s.todo, w.sends = some id := by
  simp only [dueSends, List.mem_append, List.mem_filterMap, or_assoc]

/-- The connection moves on without writing, half-closing or being connected again. -/
structure QuietConn (w w' : LoopConn) : Prop where
  sound : w'.Sound
  pending_eq : w'.pending = w.pending
  state : w'.tcp.state_ = w.tcp.state_ ∨ w'.tcp.state_ ≠ .kConnected
  calls_eq : ∃ cs, w'.calls = w.calls ++ cs ∧ ∀ c ∈ cs, c.isShutdownWrite = false ∧ c.isOutput = false

theorem QuietConn.refl {w : LoopConn} (hs : w.Sound) : QuietConn w w :=
  ⟨hs, rfl, Or.inl rfl, [], by simp, by simp⟩

theorem QuietConn.shutdowns_eq {w w' : LoopConn} (h : QuietConn w w') : w'.shutdowns = w.shutdowns := by
  obtain ⟨cs, hc, hq⟩ := h.calls_eq
  rw [LoopConn.shutdowns_append hc, List.countP_eq_zero.mpr fun c hm => by simp [(hq c hm).1]]
  rfl

theorem QuietConn.intact {w w' : LoopConn} (h : QuietConn w w') {data : List Byte} (hi : w.Intact data) :
    w'.Intact data := by
  obtain ⟨cs, hc, hq⟩ := h.calls_eq
  refine (LoopConn.intact_of_calls hi cs hc fun offset n len hm => ?_).mpr ?_
  · cases (hq _ hm).2
  · have hsent : cs.flatMap ConnCall.sent = [] := LoopConn.flatMap_sent_eq_nil fun c hm => by
      have := (hq c hm).2
      cases c <;> simp_all [ConnCall.sent, ConnCall.isOutput]
    rw [hsent, List.append_nil, h.pending_eq]
    exact hi.stream_eq

theorem QuietConn.handed {w w' : LoopConn} (h : QuietConn w w') {data : List Byte} (hh : HandedOver data w.calls) :
    HandedOver data w'.calls := by
  obtain ⟨cs, hc, hq⟩ := h.calls_eq
  rw [hc]
  refine handedOver_append hh fun c hm => ⟨(hq c hm).1, ?_⟩
  rintro sent rfl
  cases (hq _ hm).2

/-- A step that reaches no `sendInLoop` and no half-close. Sends come under way only
while the connection is connected. -/
structure QuietStep (s t : ConnSystem) : Prop where
  conn : QuietConn s.conn t.conn
  ran_eq : t.ran = s.ran
  dropped_eq : t.dropped = s.dropped
  between : t.phase ≠ .functors → t.queue.batch = []
  callers : ∀ i, t.threads i ≠ .idle → i ∈ t.holders
  due : ∀ id ∈ t.dueSends, id ∈ s.dueSends ∨ s.state = .kConnected
  kept : ∀ id ∈ s.dueSends, id ∈ t.dueSends
  returned : ∀ id ∈ t.returned, id ∈ s.returned ∨ id ∈ t.dueSends
  covered : ∀ id ∈ t.covered, id ∈ t.returned
  half : t.HalfDue → s.HalfDue ∨ t.state ≠ .kConnected

theorem QuietStep.orderInv {s t : ConnSystem} (h : s.QuietStep t) (hi : s.OrderInv) : t.OrderInv := by
  have hsh := h.conn.shutdowns_eq
  refine ⟨h.conn.sound, fun hd => ?_, h.between, h.callers, fun id hid => ?_, h.covered, fun hhalf => ?_, fun hpos => ?_,
    ?_⟩
  · rw [h.ran_eq]
    exact h.conn.intact (hi.intact (h.dropped_eq ▸ hd))
  · rw [h.ran_eq]
    rcases h.returned id hid with hr | hd
    · exact (hi.arrived id hr).imp_right (h.kept id)
    · exact Or.inr hd
  · rcases h.half hhalf with hs | ht
    · rcases h.conn.state with he | hne
      · exact fun hc => hi.stored hs (he.symm.trans hc)
      · exact hne
    · exact ht
  · obtain ⟨hdue, hdrop, hpend, hst⟩ := hi.half (hsh ▸ hpos)
    refine ⟨List.eq_nil_iff_forall_not_mem.mpr fun id hid => ?_, h.dropped_eq.trans hdrop, h.conn.pending_eq.trans hpend, ?_⟩
    · rcases h.due id hid with hs | hc
      · rw [hdue] at hs
        cases hs
      · exact hst hc
    · rcases h.conn.state with he | hne
      · exact fun hc => hst (he.symm.trans hc)
      · exact hne
  · rw [h.ran_eq]
    exact h.conn.handed hi.handed

theorem reap_orderInv {s : ConnSystem} (h : s.OrderInv) : s.reap.OrderInv :=
  ⟨h.sound, h.intact, h.between, h.callers, h.arrived, h.returned, h.stored,
    fun hp => ⟨(h.half hp).due, (h.half hp).dropped, (h.half hp).pending, (h.half hp).state⟩, h.handed⟩

/-- A thread in the middle of a call holds a reference. -/
theorem dueSends_iff {s : ConnSystem} (hc : ∀ i, s.threads i ≠ .idle → i ∈ s.holders) {id : Nat} :
    id ∈ s.dueSends ↔ (∃ i, (s.threads i).sends = some id) ∨
      (∃ task ∈ s.queue.batch ++ s.queue.pending, task.sends = some id) ∨ ∃ w ∈ s.todo, w.sends = some id := by
  rw [mem_dueSends]
  refine or_congr_left ⟨fun ⟨i, _, h⟩ => ⟨i, h⟩, fun ⟨i, h⟩ => ⟨i, hc i ?_, h⟩⟩
  intro hidle
  rw [hidle] at h
  cases h

/-- The steps of other threads, by what they do to the calls under way and to the queue. -/
theorem quiet_of_thread {s t : ConnSystem} (hi : s.OrderInv) (hl : s.SameLoop t) (hconn : QuietConn s.conn t.conn)
    (hcallers : ∀ i, t.threads i ≠ .idle → i ∈ t.holders) (new : List ConnTask)
    (hp : t.queue.pending = s.queue.pending ++ new)
    (hdue : ∀ id, (∃ i, (t.threads i).sends = some id) ∨ (∃ task ∈ new, task.sends = some id) →
      (∃ i, (s.threads i).sends = some id) ∨ s.state = .kConnected)
    (hkept : ∀ id, (∃ i, (s.threads i).sends = some id) →
      (∃ i, (t.threads i).sends = some id) ∨ ∃ task ∈ new, task.sends = some id)
    (hret : ∀ id ∈ t.returned, id ∈ s.returned ∨ ∃ task ∈ new, task.sends = some id)
    (hcov : ∀ id ∈ t.covered, id ∈ t.returned)
    (hhalf : (∃ i, t.threads i = .shutdownStored) ∨ .shutdownInLoop ∈ new →
      (∃ i, s.threads i = .shutdownStored) ∨ t.state ≠ .kConnected) : s.QuietStep t := by
  have hnew : ∀ id, (∃ task ∈ new, task.sends = some id) → id ∈ t.dueSends := fun id ⟨task, hm, h⟩ =>
    (dueSends_iff hcallers).mpr (Or.inr (Or.inl ⟨task, by rw [hp]; simp [hm], h⟩))
  refine ⟨hconn, hl.ran_eq, hl.dropped_eq, by rw [hl.phase_eq, hl.batch_eq]; exact hi.between, hcallers, fun id hid => ?_,
    fun id hid => ?_, fun id hid => (hret id hid).imp_right (hnew id), hcov, fun hh => ?_⟩
  · rw [dueSends_iff hcallers, hl.todo_eq, hl.batch_eq, hp, ← List.append_assoc] at hid
    rw [dueSends_iff hi.callers]
    rcases hid with hth | ⟨task, hm, h⟩ | hw
    · exact (hdue id (Or.inl hth)).imp_left Or.inl
    · rcases List.mem_append.mp hm with hm | hm
      · exact Or.inl (Or.inr (Or.inl ⟨task, hm, h⟩))
      · exact (hdue id (Or.inr ⟨task, hm, h⟩)).imp_left Or.inl
    · exact Or.inl (Or.inr (Or.inr hw))
  · rcases (dueSends_iff hi.callers).mp hid with hth | ⟨task, hm, h⟩ | hw
    · rcases hkept id hth with hth | htask
      · exact (dueSends_iff hcallers).mpr (Or.inl hth)
      · exact hnew id htask
    · refine (dueSends_iff hcallers).mpr (Or.inr (Or.inl ⟨task, ?_, h⟩))
      rw [hl.batch_eq, hp, ← List.append_assoc]
      exact List.mem_append_left _ hm
    · exact (dueSends_iff hcallers).mpr (Or.inr (Or.inr (by rw [hl.todo_eq]; exact hw)))
  · rcases hh with hth | hm | ⟨queued, hw⟩
    · exact (hhalf (Or.inl hth)).imp_left Or.inl
    · rw [hl.batch_eq, hp, ← List.append_assoc] at hm
      rcases List.mem_append.mp hm with hm | hm
      · exact Or.inl (Or.inr (Or.inl hm))
      · exact (hhalf (Or.inr hm)).imp_left Or.inl
    · exact Or.inl (Or.inr (Or.inr ⟨queued, hl.todo_eq ▸ hw⟩))

/-- A thread's own state changes, and nothing else of the connection. -/
theorem callers_setThread {s : ConnSystem} (hi : s.OrderInv) {i : Tid} (hh : i ∈ s.holders) (pc : ThreadPc) :
    ∀ j, Function.update s.threads i pc j ≠ .idle → j ∈ s.holders := by
  intro j hj
  by_cases hji : j = i
  · rw [hji]
    exact hh
  · rw [Function.update_of_ne hji] at hj
    exact hi.callers j hj

theorem sends_update {f : Tid → ThreadPc} {i : Tid} {pc : ThreadPc} {id : Nat}
    (h : ∃ j, (Function.update f i pc j).sends = some id) : pc.sends = some id ∨ ∃ j, (f j).sends = some id := by
  obtain hv | ⟨j, -, hj⟩ := (Function.exists_update_iff f fun _ pc => pc.sends = some id).mp h
  · exact Or.inl hv
  · exact Or.inr ⟨j, hj⟩

theorem sends_of_update {f : Tid → ThreadPc} (i : Tid) (pc : ThreadPc) {id : Nat} (h : ∃ j, (f j).sends = some id) :
    (f i).sends = some id ∨ ∃ j, (Function.update f i pc j).sends = some id := by
  obtain ⟨j, hj⟩ := h
  by_cases hji : j = i
  · exact Or.inl (hji ▸ hj)
  · exact Or.inr ⟨j, by rwa [Function.update_of_ne hji]⟩

theorem stored_update {f : Tid → ThreadPc} {i : Tid} {pc : ThreadPc} (hpc : pc ≠ .shutdownStored)
    (h : ∃ j, Function.update f i pc j = .shutdownStored) : ∃ j, f j = .shutdownStored := by
  obtain hv | ⟨j, -, hj⟩ := (Function.exists_update_iff f fun _ pc => pc = .shutdownStored).mp h
  · exact absurd hv hpc
  · exact ⟨j, hj⟩

theorem ThreadStep.orderInv {s t : ConnSystem} {a : SysAction} (h : s.ThreadStep a t) (hi : s.OrderInv) :
    t.OrderInv := by
  have hl := h.sameLoop
  have hrefl := QuietConn.refl hi.sound
  have hin : ∀ {i}, s.threads i ≠ .idle → i ∈ s.holders := fun hne => hi.callers _ hne
  refine QuietStep.orderInv ?_ hi
  cases h with
  | @sendTested i m hh hst hid hgiven hidle =>
    refine quiet_of_thread hi hl hrefl (callers_setThread hi hh _) [] (List.append_nil _).symm (fun _ _ => Or.inr hst)
      (fun id hex => ?_) (fun _ hr => Or.inl hr) hi.returned (fun hh => Or.inl ?_)
    · rcases sends_of_update i (.sendTested m) hex with hi | hj
      · rw [hidle] at hi
        cases hi
      · exact Or.inl hj
    · rcases hh with hh | hh
      · exact stored_update (by simp) hh
      · cases hh
  | sendRefused hh =>
    exact quiet_of_thread hi hl hrefl hi.callers [] (List.append_nil _).symm (fun _ hd => Or.inl (by simpa using hd))
      (fun _ hd => Or.inl hd) (fun _ hr => Or.inl hr) hi.returned (fun hh => Or.inl (by simpa using hh))
  | @sendQueued i m hpc =>
    have hh := hin (i := i) (by simp [hpc])
    refine quiet_of_thread hi hl hrefl (callers_setThread hi hh _) [.sendInLoop m] rfl (fun id hd => Or.inl ?_)
      (fun id hex => ?_) (fun id hr => ?_) (fun id hc => ?_) (fun hh => Or.inl ?_)
    · rcases hd with hd | ⟨task, hm, hd⟩
      · exact (sends_update hd).resolve_left (by simp [ThreadPc.sends])
      · rw [List.mem_singleton.mp hm] at hd
        exact ⟨i, by rw [hpc]; exact hd⟩
    · rcases sends_of_update i .idle hex with hi | hj
      · rw [hpc] at hi
        exact Or.inr ⟨.sendInLoop m, by simp, hi⟩
      · exact Or.inl hj
    · rcases List.mem_append.mp hr with hr | hr
      · exact Or.inl hr
      · exact Or.inr ⟨.sendInLoop m, by simp, by rw [List.mem_singleton.mp hr]; rfl⟩
    · exact List.mem_append_left _ (hi.returned id hc)
    · rcases hh with hh | hh
      · exact stored_update (by simp) hh
      · simp at hh
  | @shutdownTested i hh hst hidle =>
    refine quiet_of_thread hi hl hrefl (callers_setThread hi hh _) [] (List.append_nil _).symm (fun _ _ => Or.inr hst)
      (fun id hex => ?_) (fun _ hr => Or.inl hr) (fun id hc => ?_) (fun hh => Or.inl ?_)
    · rcases sends_of_update i .shutdownTested hex with hi | hj
      · rw [hidle] at hi
        cases hi
      · exact Or.inl hj
    · exact (List.mem_append.mp hc).elim (hi.returned id) fun hr => hr
    · rcases hh with hh | hh
      · exact stored_update (by simp) hh
      · cases hh
  | shutdownRefused hh =>
    exact quiet_of_thread hi hl hrefl hi.callers [] (List.append_nil _).symm (fun _ hd => Or.inl (by simpa using hd))
      (fun _ hd => Or.inl hd) (fun _ hr => Or.inl hr)
      (fun id hc => (List.mem_append.mp hc).elim (hi.returned id) fun hr => hr) (fun hh => Or.inl (by simpa using hh))
  | @shutdownStored i hpc =>
    have hh := hin (i := i) (by simp [hpc])
    refine quiet_of_thread hi hl ⟨hi.sound.setState .kDisconnecting, rfl, Or.inr (by simp [LoopConn.setState]), [],
      by simp [LoopConn.setState], by simp⟩ (callers_setThread hi hh _) [] (List.append_nil _).symm
      (fun id hd => Or.inl ?_) (fun id hex => ?_) (fun _ hr => Or.inl hr) hi.returned
      (fun _ => Or.inr (by simp [state, LoopConn.setState]))
    · rcases hd with hd | ⟨task, hm, -⟩
      · exact (sends_update hd).resolve_left (by simp [ThreadPc.sends])
      · cases hm
    · rcases sends_of_update i .shutdownStored hex with hi | hj
      · rw [hpc] at hi
        cases hi
      · exact Or.inl hj
  | @shutdownQueued i hpc =>
    have hh := hin (i := i) (by simp [hpc])
    refine quiet_of_thread hi hl hrefl (callers_setThread hi hh _) [.shutdownInLoop] rfl (fun id hd => Or.inl ?_)
      (fun id hex => ?_) (fun _ hr => Or.inl hr) hi.returned (fun _ => Or.inl ⟨i, hpc⟩)
    · rcases hd with hd | ⟨task, hm, hd⟩
      · exact (sends_update hd).resolve_left (by simp [ThreadPc.sends])
      · rw [List.mem_singleton.mp hm] at hd
        cases hd
    · rcases sends_of_update i .idle hex with hi | hj
      · rw [hpc] at hi
        cases hi
      · exact Or.inl hj
  | copied hr =>
    exact quiet_of_thread hi hl hrefl (fun j hj => List.mem_cons_of_mem _ (hi.callers j hj)) [] (List.append_nil _).symm
      (fun _ hd => Or.inl (by simpa using hd)) (fun _ hd => Or.inl hd) (fun _ hr => Or.inl hr) hi.returned
      (fun hh => Or.inl (by simpa using hh))
  | @dropped i hh hidle =>
    refine quiet_of_thread hi hl hrefl (fun j hj => ?_) [] (List.append_nil _).symm
      (fun _ hd => Or.inl (by simpa using hd)) (fun _ hd => Or.inl hd) (fun _ hr => Or.inl hr) hi.returned
      (fun hh => Or.inl (by simpa using hh))
    have hji : j ≠ i := by
      rintro rfl
      exact hj hidle
    exact (List.mem_erase_of_ne hji).mpr (hi.callers j hj)
  | overwritten =>
    exact quiet_of_thread hi hl hrefl hi.callers [] (List.append_nil _).symm (fun _ hd => Or.inl (by simpa using hd))
      (fun _ hd => Or.inl hd) (fun _ hr => Or.inl hr) hi.returned (fun hh => Or.inl (by simpa using hh))
  | @posted holds hr =>
    exact quiet_of_thread hi hl hrefl hi.callers [.functor holds] rfl
      (fun _ hd => Or.inl (by simpa [push, ConnTask.sends] using hd)) (fun _ hd => Or.inl hd) (fun _ hr => Or.inl hr)
      hi.returned (fun hh => Or.inl (by simpa [push] using hh))
  | removed hr =>
    exact quiet_of_thread hi hl hrefl hi.callers [.connectDestroyed] rfl
      (fun _ hd => Or.inl (by simpa [push, ConnTask.sends] using hd)) (fun _ hd => Or.inl hd) (fun _ hr => Or.inl hr)
      hi.returned (fun hh => Or.inl (by simpa [push] using hh))
  | serverDestroyed hm =>
    exact quiet_of_thread hi hl hrefl hi.callers [.connectDestroyed] rfl
      (fun _ hd => Or.inl (by simpa [push, ConnTask.sends] using hd)) (fun _ hd => Or.inl hd) (fun _ hr => Or.inl hr)
      hi.returned (fun hh => Or.inl (by simpa [push] using hh))

/-- A send in the loop's queue or at hand. -/
def LoopDue (s : ConnSystem) (id : Nat) : Prop :=
  (∃ task ∈ s.queue.batch ++ s.queue.pending, task.sends = some id) ∨ ∃ w ∈ s.todo, w.sends = some id

def LoopHalf (s : ConnSystem) : Prop :=
  .shutdownInLoop ∈ s.queue.batch ++ s.queue.pending ∨ ∃ queued, .shutdownInLoop queued ∈ s.todo

/-- The steps of the loop, by what they do to its queue and to what is at hand. -/
theorem quiet_of_loop {s t : ConnSystem} (hi : s.OrderInv) (hth : t.threads = s.threads) (hho : t.holders = s.holders)
    (hconn : QuietConn s.conn t.conn) (hran : t.ran = s.ran) (hdrop : t.dropped = s.dropped)
    (hret : t.returned = s.returned) (hcov : ∀ id ∈ t.covered, id ∈ t.returned)
    (hbetween : t.phase ≠ .functors → t.queue.batch = [])
    (hdue : ∀ id, t.LoopDue id → s.LoopDue id ∨ s.state = .kConnected) (hkept : ∀ id, s.LoopDue id → t.LoopDue id)
    (hhalf : t.LoopHalf → s.LoopHalf ∨ t.state ≠ .kConnected) : s.QuietStep t := by
  have hcallers : ∀ i, t.threads i ≠ .idle → i ∈ t.holders := by
    rw [hth, hho]
    exact hi.callers
  refine ⟨hconn, hran, hdrop, hbetween, hcallers, fun id hid => ?_, fun id hid => ?_,
    fun id hid => Or.inl (hret ▸ hid), hcov, fun hh => ?_⟩
  · rw [dueSends_iff hcallers, hth] at hid
    rw [dueSends_iff hi.callers]
    rcases hid with hid | hid
    · exact Or.inl (Or.inl hid)
    · exact (hdue id hid).imp_left Or.inr
  · rw [dueSends_iff hi.callers] at hid
    rw [dueSends_iff hcallers, hth]
    exact hid.imp_right (hkept id)
  · rcases hh with ⟨i, hst⟩ | hh
    · exact Or.inl (Or.inl ⟨i, hth ▸ hst⟩)
    · exact (hhalf hh).imp_left Or.inr

theorem callbacks_none {e : LoopConn.Delivery} :
    ∀ w ∈ callbacks e, w.sends = none ∧ ∀ queued, w ≠ .shutdownInLoop queued := by
  intro w hw
  simp only [callbacks, List.mem_append] at hw
  rcases hw with (hw | hw) | hw
  all_goals
    split at hw
    · rw [List.mem_singleton.mp hw]
      exact ⟨rfl, by simp⟩
    · cases hw

theorem users_none {cs : List UserCall} :
    ∀ w ∈ cs.map LoopWork.user, w.sends = none ∧ ∀ queued, w ≠ .shutdownInLoop queued := by
  intro w hw
  obtain ⟨c, -, rfl⟩ := List.mem_map.mp hw
  exact ⟨rfl, by simp⟩

/-- Work taken up that neither sends nor half-closes at once. -/
theorem quiet_of_todo {s t : ConnSystem} (hi : s.OrderInv) (hth : t.threads = s.threads) (hho : t.holders = s.holders)
    (hconn : t.conn = s.conn) (hran : t.ran = s.ran) (hdrop : t.dropped = s.dropped)
    (hret : t.returned = s.returned) (hcov : t.covered = s.covered) (hq : t.queue = s.queue)
    (hbetween : t.phase ≠ .functors → s.queue.batch = [])
    (htodo : ∃ new, t.todo = new ++ s.todo ∧ ∀ w ∈ new, w.sends = none ∧ ∀ queued, w ≠ .shutdownInLoop queued) :
    s.QuietStep t := by
  obtain ⟨new, he, hn⟩ := htodo
  refine quiet_of_loop hi hth hho (by rw [hconn]; exact QuietConn.refl hi.sound) hran hdrop hret (by rw [hret, hcov]; exact hi.returned)
    (hq ▸ hbetween) (fun id hd => Or.inl ?_) (fun id hd => ?_) (fun hh => Or.inl ?_)
  · rw [LoopDue, hq, he] at hd
    refine hd.imp_right fun ⟨w, hm, hw⟩ => ⟨w, ?_, hw⟩
    rcases List.mem_append.mp hm with hm | hm
    · rw [(hn w hm).1] at hw
      cases hw
    · exact hm
  · rw [LoopDue, hq, he]
    exact hd.imp_right fun ⟨w, hm, hw⟩ => ⟨w, List.mem_append_right _ hm, hw⟩
  · rw [LoopHalf, hq, he] at hh
    refine hh.imp_right fun ⟨queued, hm⟩ => ⟨queued, ?_⟩
    rcases List.mem_append.mp hm with hm | hm
    · exact absurd rfl ((hn _ hm).2 queued)
    · exact hm

theorem taskWork_sends (k : WriteOutcome) (cs : List UserCall) (task : ConnTask) (id : Nat) :
    (∃ w ∈ taskWork k cs task, w.sends = some id) ↔ task.sends = some id := by
  cases task with
  | functor holds =>
    constructor
    · rintro ⟨w, hm, hw⟩
      rw [(users_none w hm).1] at hw
      cases hw
    · intro hh
      cases hh
  | _ => simp [taskWork, LoopWork.sends, ConnTask.sends]

theorem taskWork_half {k : WriteOutcome} {cs : List UserCall} {task : ConnTask} {queued : Bool}
    (hm : .shutdownInLoop queued ∈ taskWork k cs task) : task = .shutdownInLoop := by
  cases task with
  | functor holds => exact absurd rfl ((users_none _ hm).2 queued)
  | shutdownInLoop => rfl
  | _ => simp [taskWork] at hm

theorem LoopStep.orderInv {s t : ConnSystem} {a : SysAction} (h : s.LoopStep a t) (hi : s.OrderInv) (ha : a ≠ .work) :
    t.OrderInv := by
  have hrefl := QuietConn.refl hi.sound
  refine QuietStep.orderInv ?_ hi
  cases h with
  | destroyServerHere hm hw =>
    exact quiet_of_todo hi rfl rfl rfl rfl rfl rfl rfl rfl hi.between ⟨[.destroyTest], rfl, by simp [LoopWork.sends]⟩
  | poll hp =>
    exact quiet_of_todo hi rfl rfl rfl rfl rfl rfl rfl rfl (fun _ => hi.between (by simp [hp])) ⟨[], rfl, by simp⟩
  | @handleEvent e hp hr ht =>
    exact quiet_of_todo hi rfl rfl rfl rfl rfl rfl rfl rfl (fun _ => hi.between (by simp [hp]))
      ⟨callbacks e, by simp [ht], callbacks_none⟩
  | @code cs due hp ht =>
    exact quiet_of_todo hi rfl rfl rfl rfl rfl rfl rfl rfl hi.between ⟨cs.map .user, by simp [ht], users_none⟩
  | doPendingFunctors hp =>
    have hb : s.queue.batch = [] := hi.between (by simp [hp])
    refine quiet_of_loop hi rfl rfl hrefl rfl rfl rfl hi.returned (fun hne => absurd rfl hne) (fun id hd => Or.inl ?_)
      (fun id hd => ?_) (fun hh => Or.inl ?_)
    · simpa [LoopDue, Handoff.swap, hb] using hd
    · simpa [LoopDue, Handoff.swap, hb] using hd
    · simpa [LoopHalf, Handoff.swap, hb] using hh
  | @call k cs task queue hp hpop ht =>
    obtain ⟨hb, -, hpe⟩ := Handoff.pop_eq hpop
    refine quiet_of_loop hi rfl rfl hrefl rfl rfl rfl hi.returned (fun hne => absurd hp hne) (fun id hd => Or.inl ?_)
      (fun id hd => ?_) (fun hh => Or.inl ?_)
    · rcases hd with ⟨u, hm, hu⟩ | hw
      · exact Or.inl ⟨u, by rw [hb, ← hpe]; exact List.mem_cons_of_mem _ hm, hu⟩
      · exact Or.inl ⟨task, by simp [hb], (taskWork_sends k cs task id).mp hw⟩
    · rcases hd with ⟨u, hm, hu⟩ | ⟨w, hm, -⟩
      · rw [hb, ← hpe] at hm
        rcases List.mem_cons.mp hm with rfl | hm
        · exact Or.inr ((taskWork_sends k cs _ id).mpr hu)
        · exact Or.inl ⟨u, hm, hu⟩
      · rw [ht] at hm
        cases hm
    · rcases hh with hm | ⟨queued, hm⟩
      · exact Or.inl (by rw [hb, ← hpe]; exact List.mem_cons_of_mem _ hm)
      · exact Or.inl (by rw [hb, taskWork_half hm]; simp)
  | finish hp hb =>
    exact quiet_of_todo hi rfl rfl rfl rfl rfl rfl rfl rfl (fun _ => hb) ⟨[], rfl, by simp⟩
  | work htodo hu h => exact absurd rfl ha

theorem callers_of_work {s t : ConnSystem} {w : LoopWork} {rest : List LoopWork} (hi : s.OrderInv)
    (hf : s.WorkFrame t w rest) (hho : t.holders = s.holders) : ∀ i, t.threads i ≠ .idle → i ∈ t.holders := by
  rw [hf.threads_eq, hho]
  exact hi.callers

theorem due_of_work {s t : ConnSystem} {w : LoopWork} {rest : List LoopWork} (hi : s.OrderInv)
    (htodo : s.todo = w :: rest) (hf : s.WorkFrame t w rest) (hho : t.holders = s.holders) {id : Nat}
    (hid : id ∈ t.dueSends) : id ∈ s.dueSends ∨ s.state = .kConnected := by
  obtain ⟨notes, hnotes, hp⟩ := hf.pending_eq
  rw [dueSends_iff (callers_of_work hi hf hho), hf.threads_eq, hf.batch_eq, hp, ← List.append_assoc] at hid
  rw [dueSends_iff hi.callers]
  rcases hid with hid | ⟨task, hm, ht⟩ | ⟨v, hm, hv⟩
  · exact Or.inl (Or.inl hid)
  · rcases List.mem_append.mp hm with hm | hm
    · exact Or.inl (Or.inr (Or.inl ⟨task, hm, ht⟩))
    · rw [hnotes task hm] at ht
      cases ht
  · rcases hf.mem_todo hm with hm | hm
    · exact Or.inl (Or.inr (Or.inr ⟨v, htodo ▸ List.mem_cons_of_mem _ hm, hv⟩))
    · rcases hm.send with hn | hst
      · rw [hn] at hv
        cases hv
      · exact Or.inr hst

theorem kept_of_work {s t : ConnSystem} {w : LoopWork} {rest : List LoopWork} (hi : s.OrderInv)
    (htodo : s.todo = w :: rest) (hf : s.WorkFrame t w rest) (hho : t.holders = s.holders) {id : Nat}
    (hid : id ∈ s.dueSends) : w.sends = some id ∨ id ∈ t.dueSends := by
  obtain ⟨notes, -, hp⟩ := hf.pending_eq
  obtain ⟨new, he, -⟩ := hf.todo_eq
  rw [dueSends_iff hi.callers, htodo] at hid
  rw [dueSends_iff (callers_of_work hi hf hho), hf.threads_eq, hf.batch_eq, hp, he, ← List.append_assoc]
  rcases hid with hid | ⟨task, hm, ht⟩ | ⟨v, hm, hv⟩
  · exact Or.inr (Or.inl hid)
  · exact Or.inr (Or.inr (Or.inl ⟨task, List.mem_append_left _ hm, ht⟩))
  · rcases List.mem_cons.mp hm with rfl | hm
    · exact Or.inl hv
    · exact Or.inr (Or.inr (Or.inr ⟨v, List.mem_append_right _ hm, hv⟩))

theorem half_of_work {s t : ConnSystem} {w : LoopWork} {rest : List LoopWork} (htodo : s.todo = w :: rest)
    (hf : s.WorkFrame t w rest) (hh : t.HalfDue) : s.HalfDue ∨ t.state ≠ .kConnected := by
  obtain ⟨notes, hnotes, hp⟩ := hf.pending_eq
  rcases hh with ⟨i, hst⟩ | hm | ⟨queued, hm⟩
  · exact Or.inl (Or.inl ⟨i, hf.threads_eq ▸ hst⟩)
  · rw [hf.batch_eq, hp, ← List.append_assoc] at hm
    rcases List.mem_append.mp hm with hm | hm
    · exact Or.inl (Or.inr (Or.inl hm))
    · cases hnotes _ hm
  · rcases hf.mem_todo hm with hm | hm
    · exact Or.inl (Or.inr (Or.inr ⟨queued, htodo ▸ List.mem_cons_of_mem _ hm⟩))
    · exact Or.inr (hm.half queued rfl)

/-- Work that neither sends nor half-closes. -/
theorem quiet_of_work {s t : ConnSystem} {w : LoopWork} {rest : List LoopWork} (hi : s.OrderInv)
    (htodo : s.todo = w :: rest) (hf : s.WorkFrame t w rest) (hw : w.sends = none) (hho : t.holders = s.holders)
    (hconn : QuietConn s.conn t.conn) (hran : t.ran = s.ran) (hdrop : t.dropped = s.dropped)
    (hret : t.returned = s.returned) (hcov : ∀ id ∈ t.covered, id ∈ t.returned) : s.QuietStep t := by
  refine ⟨hconn, hran, hdrop, by rw [hf.phase_eq, hf.batch_eq]; exact hi.between, callers_of_work hi hf hho,
    fun id hid => due_of_work hi htodo hf hho hid, fun id hid => ?_, fun id hid => Or.inl (hret ▸ hid), hcov,
    half_of_work htodo hf⟩
  exact (kept_of_work hi htodo hf hho hid).resolve_left (by simp [hw])

/-- `setState(kDisconnected)` and `disableAll`. -/
theorem quiet_disconnect {w w' : LoopConn} (hs : w.Sound)
    (h : (w.setState .kDisconnected).onChannel Channel.disableAll = .ok w') :
    QuietConn w w' ∧ w'.tcp.state_ = .kDisconnected := by
  have hs' := (hs.disconnect h).1
  obtain ⟨⟨p, c⟩, -, h⟩ := bind_eq_ok.mp h
  cases h
  exact ⟨⟨hs', rfl, Or.inr (by simp [LoopConn.setChannel, LoopConn.setState]), [], (List.append_nil _).symm, by simp⟩, rfl⟩

theorem QuietConn.call {w w' : LoopConn} (h : QuietConn w w') {c : ConnCall}
    (hc : c.isShutdownWrite = false ∧ c.isOutput = false) : QuietConn w (w'.call c) := by
  obtain ⟨hs, hp, hst, cs, hcalls, hq⟩ := h
  refine ⟨hs.of_eq rfl rfl, hp, hst, cs ++ [c], by rw [LoopConn.call, hcalls, List.append_assoc], fun d hm => ?_⟩
  rcases List.mem_append.mp hm with hm | hm
  · exact hq d hm
  · rw [List.mem_singleton.mp hm]
    exact hc

/-- The work whose turn it is, where it is not one that sends, writes or half-closes. -/
theorem quiet_exec {s t : ConnSystem} {w : LoopWork} {rest : List LoopWork} (hi : s.OrderInv)
    (htodo : s.todo = w :: rest) (hw : w.sends = none) (hk : ∀ k, w ≠ .write k) (hh : ∀ q, w ≠ .shutdownInLoop q)
    (h : s.exec rest w = some t) : s.QuietStep t := by
  have hf := exec_frame h
  have hinput : ∀ b, QuietConn s.conn (s.conn.setInput b) := fun b =>
    ⟨⟨hi.sound.agrees, hi.sound.output_inv, hi.sound.busy⟩, rfl, Or.inl rfl, [], (List.append_nil _).symm, by simp⟩
  cases w with
  | close cs =>
    simp only [exec, Option.map_eq_some_iff, toOption_eq_some] at h
    obtain ⟨conn, hconn, rfl⟩ := h
    exact quiet_of_work hi htodo hf hw rfl ((quiet_disconnect hi.sound hconn).1.call ⟨rfl, rfl⟩) rfl rfl rfl hi.returned
  | closeCallback =>
    cases h
    exact quiet_of_work hi htodo hf hw rfl ((QuietConn.refl hi.sound).call ⟨rfl, rfl⟩) rfl rfl rfl hi.returned
  | read k cs =>
    simp only [exec, Option.map_eq_some_iff] at h
    obtain ⟨⟨n, e, b⟩, -, rfl⟩ := h
    simp only at hf ⊢
    split at hf
    · rename_i hn
      rw [if_pos hn]
      exact quiet_of_work hi htodo hf hw rfl ((hinput b).call ⟨rfl, rfl⟩) rfl rfl rfl hi.returned
    · rename_i hn
      rw [if_neg hn]
      exact quiet_of_work hi htodo hf hw rfl (hinput b) rfl rfl rfl hi.returned
  | write k => exact absurd rfl (hk k)
  | user c =>
    cases c with
    | send d k =>
      simp only [exec, execUser] at h
      split at h
      · cases h
        exact quiet_of_work hi htodo hf hw rfl (QuietConn.refl hi.sound) rfl rfl rfl hi.returned
      · cases h
        exact quiet_of_work hi htodo hf hw rfl (QuietConn.refl hi.sound) rfl rfl rfl hi.returned
    | shutdown =>
      cases h
      refine quiet_of_work hi htodo hf hw rfl (QuietConn.refl hi.sound) rfl rfl rfl fun id hc => ?_
      exact (List.mem_append.mp hc).elim (hi.returned id) fun hr => hr
    | input op =>
      simp only [exec, execUser, Option.map_eq_some_iff] at h
      obtain ⟨⟨out, b⟩, -, rfl⟩ := h
      exact quiet_of_work hi htodo hf hw rfl (hinput b) rfl rfl rfl hi.returned
  | sendSpan id d k => cases hw
  | sendInLoop m k => cases hw
  | shutdownStore =>
    cases h
    exact quiet_of_work hi htodo hf hw rfl ⟨hi.sound.setState .kDisconnecting, rfl,
      Or.inr (by simp [proceed, LoopConn.setState]), [], (List.append_nil _).symm, by simp⟩ rfl rfl rfl hi.returned
  | shutdownInLoop queued => exact absurd rfl (hh queued)
  | destroyTest =>
    cases h
    exact quiet_of_work hi htodo hf hw rfl (QuietConn.refl hi.sound) rfl rfl rfl hi.returned
  | destroyStore =>
    simp only [exec, Option.map_eq_some_iff, toOption_eq_some] at h
    obtain ⟨conn, hconn, rfl⟩ := h
    exact quiet_of_work hi htodo hf hw rfl (quiet_disconnect hi.sound hconn).1 rfl rfl rfl hi.returned
  | destroyRemove =>
    simp only [exec, Option.map_eq_some_iff, toOption_eq_some] at h
    obtain ⟨conn, hconn, rfl⟩ := h
    obtain ⟨p', rfl, hk'⟩ := LoopConn.remove_spec hi.sound.agrees hconn
    exact quiet_of_work hi htodo hf hw rfl ⟨⟨hk'.agrees, hi.sound.output_inv, hi.sound.busy⟩, rfl, Or.inl rfl, [],
      (List.append_nil _).symm, by simp⟩ rfl rfl rfl hi.returned

/-- No send reaches `sendInLoop` once there has been a half-close, so one that does
finds the stream as it should be and adds its bytes. -/
theorem sent_orderInv {s t : ConnSystem} {w : LoopWork} {rest : List LoopWork} {id : Nat} {given : List Byte}
    {d : Span} {k : WriteOutcome} (hi : s.OrderInv) (htodo : s.todo = w :: rest) (hf : s.WorkFrame t w rest)
    (hw : w.sends = some id) (hho : t.holders = s.holders) (h : s.conn.sendInLoop d k = .ok t.conn)
    (hran : t.ran = s.ran ++ [(id, given)]) (hdrop : t.dropped = (s.dropped || decide (s.state = .kDisconnected)))
    (hret : t.returned = s.returned ∨ t.returned = s.returned ++ [id]) (hcov : t.covered = s.covered)
    (hcarry : s.state ≠ .kDisconnected → d.bytes = given ∧ s.conn.Harmless (.sendInLoop d k)) : t.OrderInv := by
  have hdue : id ∈ s.dueSends := mem_dueSends.mpr (Or.inr (Or.inr ⟨w, by simp [htodo], hw⟩))
  obtain ⟨hs', -, hst⟩ := LoopConn.sendInLoop_sound hi.sound h
  obtain ⟨ds, hds, hq⟩ := LoopConn.sendInLoop_calls hi.sound h
  have h0 : s.conn.shutdowns = 0 := by
    by_contra hne
    rw [(hi.half (Nat.pos_of_ne_zero hne)).due] at hdue
    cases hdue
  have h0' : t.conn.shutdowns = 0 := by
    rw [LoopConn.shutdowns_append hds, h0,
      List.countP_eq_zero.mpr fun c hm => by simp [LoopConn.isShutdownWrite_of_isOutput (hq c hm)]]
  have hids : ∀ i ∈ s.ran.map Prod.fst, i ∈ t.ran.map Prod.fst := by
    intro i hm
    rw [hran, List.map_append]
    exact List.mem_append_left _ hm
  have hlast : id ∈ t.ran.map Prod.fst := by simp [hran]
  have hback : ∀ i ∈ t.returned, i ∈ s.returned ∨ i = id := by
    intro i hm
    rcases hret with he | he
    · exact Or.inl (he ▸ hm)
    · rw [he] at hm
      exact (List.mem_append.mp hm).imp_right List.mem_singleton.mp
  refine ⟨hs', fun hd => ?_, by rw [hf.phase_eq, hf.batch_eq]; exact hi.between, callers_of_work hi hf hho,
    fun i hm => ?_, fun i hm => ?_, fun hh => ?_, fun hpos => absurd hpos (by omega),
    handedOver_of_none (LoopConn.shutdowns_eq_zero h0')⟩
  · rw [hdrop, Bool.or_eq_false_iff, decide_eq_false_iff_not] at hd
    obtain ⟨hgiven, hharm⟩ := hcarry hd.2
    have hint := (LoopConn.stream_step_iff hi.sound hd.2 (hi.intact hd.1)
      (show s.conn.StreamStep (.sendInLoop d k) t.conn from h)).mpr hharm
    rw [hran, List.flatMap_append, ← hgiven]
    simpa [StreamOp.data] using hint
  · rcases hback i hm with hm | rfl
    · rcases hi.arrived i hm with hr | hd
      · exact Or.inl (hids i hr)
      · rcases kept_of_work hi htodo hf hho hd with he | hd
        · rw [hw] at he
          cases he
          exact Or.inl hlast
        · exact Or.inr hd
    · exact Or.inl hlast
  · have hm := hi.returned i (hcov ▸ hm)
    rcases hret with he | he
    · exact he ▸ hm
    · rw [he]
      exact List.mem_append_left _ hm
  · rcases half_of_work htodo hf hh with hs | hne
    · exact fun hc => hi.stored hs (hst.symm.trans hc)
    · exact hne

/-- Calls of work that half-closes, with all that was given handed over by them. -/
theorem half_orderInv {s t : ConnSystem} {w : LoopWork} {rest : List LoopWork} (ds : List ConnCall) (n : Nat)
    (hi : s.OrderInv) (htodo : s.todo = w :: rest) (hf : s.WorkFrame t w rest) (hho : t.holders = s.holders)
    (hs : t.conn.Sound) (hst : t.state = s.state) (hne : s.state ≠ .kConnected) (hpend : t.conn.pending = [])
    (hcalls : t.conn.calls = s.conn.calls ++ (ds ++ [.shutdownWrite n]))
    (hsent : s.conn.accepted ++ ds.flatMap ConnCall.sent = s.ran.flatMap Prod.snd)
    (hq : ∀ c ∈ ds, c.isShutdownWrite = false ∧ ∀ offset n len, c ≠ .buffered offset n len)
    (hw : 0 < s.conn.shutdowns → ds = []) (hran : t.ran = s.ran) (hdrop : t.dropped = s.dropped)
    (hret : t.returned = s.returned) (hcov : t.covered = s.covered) (hdue : s.dueSends = [])
    (hnd : s.dropped = false) : t.OrderInv := by
  have hdue' : t.dueSends = [] := by
    refine List.eq_nil_iff_forall_not_mem.mpr fun id hid => ?_
    rcases due_of_work hi htodo hf hho hid with hd | hc
    · rw [hdue] at hd
      cases hd
    · exact hne hc
  refine ⟨hs, fun _ => ?_, by rw [hf.phase_eq, hf.batch_eq]; exact hi.between, callers_of_work hi hf hho,
    fun i hm => ?_, by rw [hret, hcov]; exact hi.returned, fun _ => hst ▸ hne,
    fun _ => ⟨hdue', hdrop.trans hnd, hpend, hst ▸ hne⟩, ?_⟩
  · refine (LoopConn.intact_of_calls (hi.intact hnd) _ hcalls fun offset m len hm => ?_).mpr ?_
    · rcases List.mem_append.mp hm with hm | hm
      · exact (hq _ hm).2 offset m len rfl
      · cases List.mem_singleton.mp hm
    · rw [hpend, List.flatMap_append, hran, ← hsent]
      simp [ConnCall.sent]
  · rw [hran]
    rcases hi.arrived i (hret ▸ hm) with hr | hd
    · exact Or.inl hr
    · rw [hdue] at hd
      cases hd
  · rw [hran, hcalls]
    refine handedOver_half_close n hi.handed ?_ (fun c hm => (hq c hm).1) ?_
    · rw [List.flatMap_append]
      exact hsent
    · rintro ⟨m, hm⟩ sent hsm
      have hpos : 0 < s.conn.shutdowns := by
        by_contra hz
        exact LoopConn.shutdowns_eq_zero (by omega) m hm
      rw [hw hpos] at hsm
      cases hsm

theorem shutdownInLoop_orderInv {s t : ConnSystem} {queued : Bool} {rest : List LoopWork} (hi : s.OrderInv)
    (htodo : s.todo = .shutdownInLoop queued :: rest)
    (hg : s.halfCloses (.shutdownInLoop queued) = true → s.dueSends = [] ∧ s.dropped = false ∧
      (s.conn.isWriting = false → s.conn.pending = []))
    (h : s.exec rest (.shutdownInLoop queued) = some t) : t.OrderInv := by
  have hf := exec_frame h
  cases h
  cases hw : s.conn.isWriting with
  | true =>
    have hsame : s.conn.shutdownInLoop = s.conn := by
      rw [LoopConn.shutdownInLoop, hw]
      rfl
    refine (quiet_of_work hi htodo hf rfl rfl ?_ rfl rfl rfl hi.returned).orderInv hi
    change QuietConn s.conn s.conn.shutdownInLoop
    rw [hsame]
    exact QuietConn.refl hi.sound
  | false =>
    obtain ⟨hdue, hnd, hp⟩ := hg (by simp [halfCloses, hw])
    have hconn : s.conn.shutdownInLoop = s.conn.call (.shutdownWrite s.conn.tcp.outputBuffer_.readableBytes) := by
      rw [LoopConn.shutdownInLoop, hw]
      rfl
    have hstream := (hi.intact hnd).stream_eq
    rw [hp hw, List.append_nil] at hstream
    refine half_orderInv [] s.conn.tcp.outputBuffer_.readableBytes hi htodo hf rfl ?_ ?_ (hi.stored (Or.inr (Or.inr ⟨queued, by simp [htodo]⟩)))
      ?_ ?_ (by simpa using hstream) (by simp) (fun _ => rfl) rfl rfl rfl rfl hdue hnd
    all_goals simp only [proceed, hconn]
    · exact hi.sound.of_eq rfl rfl
    · rfl
    · exact hp hw
    · rfl

/-- A half-closed connection has nothing to write; one that is not half-closed drains,
and half-closes with the last byte of what was given. -/
theorem write_orderInv {s t : ConnSystem} {k : WriteOutcome} {rest : List LoopWork} (hi : s.OrderInv)
    (htodo : s.todo = .write k :: rest)
    (hg : s.halfCloses (.write k) = true → s.dueSends = [] ∧ s.dropped = false ∧
      (s.conn.isWriting = false → s.conn.pending = []))
    (h : s.exec rest (.write k) = some t) : t.OrderInv := by
  have hf := exec_frame h
  simp only [exec, Option.map_eq_some_iff, toOption_eq_some] at h
  obtain ⟨conn, hconn, rfl⟩ := h
  obtain ⟨hs', -, hst⟩ := LoopConn.handleWrite_sound hi.sound hconn
  have hintact := fun hd => LoopConn.handleWrite_intact hi.sound (hi.intact hd) hconn
  cases hw : s.conn.isWriting with
  | false =>
    have hsame : conn = s.conn := by
      rw [LoopConn.handleWrite, hw] at hconn
      cases hconn
      rfl
    refine (quiet_of_work hi htodo hf rfl rfl ?_ rfl rfl rfl hi.returned).orderInv hi
    change QuietConn s.conn conn
    rw [hsame]
    exact QuietConn.refl hi.sound
  | true =>
    have hne := hi.sound.busy hw
    have h0 : s.conn.shutdowns = 0 := by
      by_contra hz
      exact hne (hi.half (Nat.pos_of_ne_zero hz)).pending
    have hno : ∀ ds, conn.calls = s.conn.calls ++ ds → (∀ c ∈ ds, c.isShutdownWrite = false) →
        (s.proceed conn rest).OrderInv := by
      intro ds hc hq
      have h0' : conn.shutdowns = 0 := by
        rw [LoopConn.shutdowns_append hc, h0, List.countP_eq_zero.mpr fun c hm => by simp [hq c hm]]
      refine ⟨hs', hintact, by rw [hf.phase_eq, hf.batch_eq]; exact hi.between, callers_of_work hi hf rfl,
        fun i hm => ?_, hi.returned, fun hh => ?_, fun hpos => ?_, handedOver_of_none (LoopConn.shutdowns_eq_zero h0')⟩
      · exact (hi.arrived i hm).imp_right fun hd => (kept_of_work hi htodo hf rfl hd).resolve_left (by simp [LoopWork.sends])
      · rcases half_of_work htodo hf hh with hs | hne
        · exact fun hc => hi.stored hs (hst.symm.trans hc)
        · exact hne
      · have hpos : 0 < conn.shutdowns := hpos
        omega
    rcases LoopConn.handleWrite_cases hi.sound hconn with ⟨hf', -⟩ | ⟨-, he⟩ | ⟨sent, -, -, -, he⟩ | ⟨-, hall, hd⟩
    · rw [hw] at hf'
      cases hf'
    · exact hno [.write []] (by rw [he]; rfl) (by simp [ConnCall.isShutdownWrite])
    · exact hno [.write sent] (by rw [he]; rfl) (by simp [ConnCall.isShutdownWrite])
    · obtain ⟨notes, hn, hc⟩ := hd.calls_eq
      have hnotes : ∀ c ∈ notes, c.isShutdownWrite = false := fun c hm => by rw [hn c hm]; rfl
      rw [LoopConn.wrote_state] at hc
      by_cases hdis : s.conn.tcp.state_ = .kDisconnecting
      · rw [if_pos hdis] at hc
        have htakes : k.takesAll s.conn.pending = true := by
          cases k with
          | fails e => exact absurd hall.symm hne
          | accepts room e =>
            have hlen := congrArg List.length hall
            simp only [sysWrite, List.length_take] at hlen
            simp only [WriteOutcome.takesAll, decide_eq_true_eq]
            omega
        obtain ⟨hdue, hnd, -⟩ := hg (by simp [halfCloses, state, hw, hdis, htakes])
        refine half_orderInv (.write s.conn.pending :: notes)
          (s.conn.wrote s.conn.pending).tcp.outputBuffer_.readableBytes hi htodo hf rfl hs' hst (by simp [state, hdis])
          (hd.pending_eq_nil hi.sound.output_inv) (hc.trans ?_) ?_ (fun c hm => ?_) (fun hpos => by omega) rfl rfl rfl rfl
          hdue hnd
        · rw [List.append_assoc]
          exact List.append_assoc s.conn.calls [.write s.conn.pending] _
        · have hsent : notes.flatMap ConnCall.sent = [] :=
            LoopConn.flatMap_sent_eq_nil fun c hm => by rw [hn c hm]; rfl
          rw [List.flatMap_cons, hsent, List.append_nil]
          exact (hi.intact hnd).stream_eq
        · rcases List.mem_cons.mp hm with rfl | hm
          · exact ⟨rfl, by simp⟩
          · rw [hn c hm]
            exact ⟨rfl, by simp⟩
      · rw [if_neg hdis, List.append_nil] at hc
        refine hno (.write s.conn.pending :: notes) (hc.trans (List.append_assoc s.conn.calls [_] notes)) fun c hm => ?_
        rcases List.mem_cons.mp hm with rfl | hm
        · rfl
        · exact hnotes c hm

theorem work_orderInv {s t : ConnSystem} {w : LoopWork} {rest : List LoopWork} (hi : s.OrderInv)
    (hg : s.InOrder .work) (htodo : s.todo = w :: rest) (h : s.exec rest w = some t) : t.OrderInv := by
  obtain ⟨hhalf, hcarry⟩ := hg w (by simp [htodo])
  have hf := exec_frame h
  cases w with
  | sendSpan id d k =>
    simp only [exec, Option.map_eq_some_iff, toOption_eq_some] at h
    obtain ⟨conn, hconn, rfl⟩ := h
    exact sent_orderInv hi htodo hf rfl rfl hconn rfl rfl (Or.inr rfl) rfl
      fun hst => ⟨rfl, hcarry hst⟩
  | sendInLoop m k =>
    simp only [exec, Option.map_eq_some_iff, toOption_eq_some] at h
    obtain ⟨conn, hconn, rfl⟩ := h
    refine sent_orderInv hi htodo hf rfl rfl hconn rfl rfl
      (Or.inl rfl) rfl fun hst => ?_
    obtain ⟨hmem, hharm⟩ := hcarry hst
    exact ⟨by rw [← hmem]; simp [Span.bytes, Span.read], hharm⟩
  | shutdownInLoop queued => exact shutdownInLoop_orderInv hi htodo hhalf h
  | write k => exact write_orderInv hi htodo hhalf h
  | _ => exact (quiet_exec hi htodo rfl (by simp) (by simp) h).orderInv hi

theorem step_orderInv {s s' : ConnSystem} {a : SysAction} (hi : s.OrderInv) (h : Guarded Step InOrder s a s') :
    s'.OrderInv := by
  obtain ⟨hg, h⟩ := h
  obtain ⟨t, ht | ht, rfl⟩ := step_cases h
  · exact reap_orderInv (ht.orderInv hi)
  · by_cases ha : a = .work
    · subst ha
      cases ht with
      | work htodo hu h => exact reap_orderInv (work_orderInv hi hg htodo h)
    · exact reap_orderInv (ht.orderInv hi ha)

theorem start_orderInv {w : LoopConn} (h : w.Established) (memory : Memory) (cs : List UserCall) :
    (start w memory cs).OrderInv := by
  obtain ⟨hs, hst, -, hc⟩ := h.steady
  have h0 : w.shutdowns = 0 := by
    rw [LoopConn.shutdowns, hc]
    rfl
  refine ⟨hs.sound, fun _ => h.intact, fun _ => rfl, fun i hne => absurd rfl hne, by simp [start], by simp [start],
    fun hh => ?_, fun hpos => ?_, handedOver_of_none (LoopConn.shutdowns_eq_zero h0)⟩
  · rcases hh with ⟨i, hi⟩ | hm | ⟨queued, hm⟩
    · cases hi
    · cases hm
    · exact absurd rfl ((users_none _ hm).2 queued)
  · have hpos : 0 < w.shutdowns := hpos
    omega

instance decidableHarmless (w : LoopConn) : (op : StreamOp) → Decidable (w.Harmless op)
  | .sendInLoop d (.accepts room e) => inferInstanceAs (Decidable (w.pending = [] → d.len ≤ room ∨
      (¬ (e = EPIPE ∨ e = ECONNRESET) ∧ d.read 0 (d.len - room) = d.read room (d.len - room))))
  | .sendInLoop d (.fails _) => inferInstanceAs (Decidable (w.pending = [] → d.len = 0))
  | .handleWrite _ => inferInstanceAs (Decidable True)

instance decidableCarries (s : ConnSystem) : (w : LoopWork) → Decidable (s.Carries w)
  | .sendSpan _ d k => inferInstanceAs (Decidable (s.state ≠ .kDisconnected → s.conn.Harmless (.sendInLoop d k)))
  | .sendInLoop m k => inferInstanceAs (Decidable (s.state ≠ .kDisconnected →
      s.memory.read m.data m.len = m.given ∧ s.conn.Harmless (.sendInLoop ⟨s.memory, m.data, m.len, m.len_le⟩ k)))
  | .close _ | .closeCallback | .read _ _ | .write _ | .user _ | .shutdownStore | .shutdownInLoop _ | .destroyTest
  | .destroyStore | .destroyRemove => inferInstanceAs (Decidable True)

instance decidableInOrder (s : ConnSystem) : (a : SysAction) → Decidable (s.InOrder a)
  | .work => inferInstanceAs (Decidable (∀ w ∈ s.todo.head?, (s.halfCloses w = true → s.dueSends = [] ∧
      s.dropped = false ∧ (s.conn.isWriting = false → s.conn.pending = [])) ∧ s.Carries w))
  | .send _ _ _ | .sendQueue _ | .shutdown _ | .shutdownStore _ | .shutdownQueue _ | .copy _ | .drop _ | .overwrite _
  | .post _ | .removeConnection | .destroyServer | .destroyServerHere | .poll _ | .handleEvent _ | .code _
  | .doPendingFunctors | .call _ _ | .finish => isTrue trivial

end ConnSystem

end MyMuduo
