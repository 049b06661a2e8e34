import MyMuduo.Buffer

/-! A buffer is a queue of bytes: whatever its indices and storage do, its public
operations append at the back and remove from the front. -/

namespace MyMuduo

/-- What a call hands back to its caller. -/
inductive BufferResult where
  | unit
  | string (s : List Byte)
  | count (n : Int)
  deriving DecidableEq, Repr

/-- `writeFd` stands for the write together with the `retrieve` of the count it
wrote, as its caller does it. -/
inductive BufferOp where
  | append (data : List Byte)
  | ensureWritableBytes (len : Nat)
  | retrieve (len : Nat)
  | retrieveAll
  | retrieveAllAsString
  | retrieveAsString (len : Nat)
  | readFd (k : ReadOutcome)
  | writeFd (k : WriteOutcome)
  deriving DecidableEq, Repr

namespace Buffer

def exec (b : Buffer) : BufferOp → Except Fault (BufferResult × Buffer)
  | .append data => do
    let b ← b.append data
    return (.unit, b)
  | .ensureWritableBytes len => do
    let b ← b.ensureWritableBytes len
    return (.unit, b)
  | .retrieve len => .ok (.unit, b.retrieve len)
  | .retrieveAll => .ok (.unit, b.retrieveAll)
  | .retrieveAllAsString => do
    let (s, b) ← b.retrieveAllAsString
    return (.string s, b)
  | .retrieveAsString len => do
    let (s, b) ← b.retrieveAsString len
    return (.string s, b)
  | .readFd k => do
    let (n, _, b) ← b.readFd 0 k
    return (.count n, b)
  | .writeFd k => do
    let w ← b.writeFd k
    return (.count w.n, if 0 < w.n then b.retrieve w.n.toNat else b)

/-- The sizes the operation asks of the vector stay within `max_size`, and a
string is asked for no longer than what is readable. -/
def Admits (b : Buffer) : BufferOp → Prop
  | .append data => b.Fits data.length
  | .ensureWritableBytes len => b.Fits len
  | .retrieveAsString len => len ≤ b.readableBytes
  | .readFd k => b.full.Fits ((b.received k).length - b.writableBytes)
  | _ => True

instance (b : Buffer) (op : BufferOp) : Decidable (b.Admits op) := by
  cases op <;> unfold Admits <;> infer_instance

/-- One operation within its sizes, with what it returned. -/
def Step (b : Buffer) (l : BufferOp × BufferResult) (b' : Buffer) : Prop :=
  b.Admits l.1 ∧ b.exec l.1 = .ok (l.2, b')

end Buffer

/-- The queue: a relation, since a read may take in any part of what the socket
has ready. -/
inductive QueueStep : List Byte → BufferOp × BufferResult → List Byte → Prop where
  | append (q data) : QueueStep q (.append data, .unit) (q ++ data)
  | ensureWritableBytes (q len) : QueueStep q (.ensureWritableBytes len, .unit) q
  | retrieve (q len) : QueueStep q (.retrieve len, .unit) (q.drop len)
  | retrieveAll (q) : QueueStep q (.retrieveAll, .unit) []
  | retrieveAllAsString (q) : QueueStep q (.retrieveAllAsString, .string q) []
  | retrieveAsString (q len) : QueueStep q (.retrieveAsString len, .string (q.take len)) (q.drop len)
  | readFd (q available) (n : Nat) : n ≤ available.length →
      QueueStep q (.readFd (.data available), .count n) (q ++ available.take n)
  | readFdFails (q e) : QueueStep q (.readFd (.fails e), .count (-1)) q
  | writeFd (q room e) :
      QueueStep q (.writeFd (.accepts room e), .count (min room q.length)) (q.drop room)
  | writeFdFails (q e) : QueueStep q (.writeFd (.fails e), .count (-1)) q

namespace Buffer

theorem exec_append {b : Buffer} (h : b.Inv) {data : List Byte} (hf : b.Fits data.length) :
    ∃ b', b.exec (.append data) = .ok (.unit, b') ∧ b'.Inv ∧ b'.readable = b.readable ++ data := by
  rcases append_cases h hf.1 with ⟨-, b', hb, hi, hr⟩ | ⟨hn, -⟩
  · exact ⟨b', by rw [exec, hb, ok_bind]; rfl, hi, hr⟩
  · exact absurd hf hn

theorem exec_ensureWritableBytes {b : Buffer} (h : b.Inv) {len : Nat} (hf : b.Fits len) :
    ∃ b', b.exec (.ensureWritableBytes len) = .ok (.unit, b') ∧ b'.Inv ∧ b'.readable = b.readable := by
  rcases ensureWritableBytes_cases h hf.1 with ⟨-, b', hb, hr⟩ | ⟨hn, -⟩
  · exact ⟨b', by rw [exec, hb, ok_bind]; rfl, hr.inv, hr.readable_eq⟩
  · exact absurd hf hn

theorem exec_retrieveAsString {b : Buffer} (h : b.Inv) {len : Nat} (hl : len ≤ b.readableBytes) :
    b.exec (.retrieveAsString len) = .ok (.string (b.readable.take len), b.retrieve len) := by
  rw [exec, retrieveAsString_eq h hl, ok_bind]
  rfl

theorem exec_retrieveAllAsString {b : Buffer} (h : b.Inv) :
    b.exec .retrieveAllAsString = .ok (.string b.readable, b.retrieveAll) := by
  have ht : b.readable.take b.readableBytes = b.readable := by
    rw [← h.readable_length, List.take_length]
  have hr : b.retrieve b.readableBytes = b.retrieveAll := by
    rw [retrieve, if_neg (Nat.lt_irrefl _)]
  rw [exec, retrieveAllAsString, retrieveAsString_eq h (Nat.le_refl _), ok_bind, ht, hr]
  rfl

theorem exec_readFd_data {b : Buffer} (h : b.Inv) {available : List Byte}
    (hf : b.Admits (.readFd (.data available))) :
    ∃ b' n, n ≤ available.length ∧ b.exec (.readFd (.data available)) = .ok (.count n, b') ∧ b'.Inv ∧
      b'.readable = b.readable ++ available.take n := by
  have hn : (b.received (.data available)).length ≤ available.length := by
    simp [received]
  have ht : available.take (b.received (.data available)).length = b.received (.data available) := by
    simp [received, List.take_eq_take_min]
  rcases readFd_data_cases h 0 available with ⟨-, b', hb, hi, hr⟩ | ⟨hn, -⟩
  · refine ⟨b', _, hn, by rw [exec, hb, ok_bind]; rfl, hi, ?_⟩
    rw [hr, ht]
  · exact absurd hf hn

theorem exec_writeFd {b : Buffer} (h : b.Inv) (k : WriteOutcome) :
    b.exec (.writeFd k) = .ok (.count (sysWrite b.readable k).n,
      if 0 < (sysWrite b.readable k).n then b.retrieve (sysWrite b.readable k).n.toNat else b) := by
  rw [exec, writeFd_eq h, ok_bind]
  rfl

/-- One operation of the buffer is one step of the queue. -/
theorem step_simulates {b b' : Buffer} {l : BufferOp × BufferResult} (h : b.Inv) (hs : b.Step l b') :
    b'.Inv ∧ QueueStep b.readable l b'.readable := by
  obtain ⟨op, out⟩ := l
  obtain ⟨ha, he⟩ := hs
  cases op with
  | append data =>
    obtain ⟨r, hr, hi, hq⟩ := exec_append h ha
    cases hr.symm.trans he
    exact ⟨hi, hq ▸ .append _ _⟩
  | ensureWritableBytes len =>
    obtain ⟨r, hr, hi, hq⟩ := exec_ensureWritableBytes h ha
    cases hr.symm.trans he
    exact ⟨hi, hq ▸ .ensureWritableBytes _ _⟩
  | retrieve len =>
    cases he
    exact ⟨retrieve_inv h len, retrieve_readable h len ▸ .retrieve _ _⟩
  | retrieveAll =>
    cases he
    exact ⟨retrieveAll_inv h, retrieveAll_readable b ▸ .retrieveAll _⟩
  | retrieveAllAsString =>
    cases (exec_retrieveAllAsString h).symm.trans he
    exact ⟨retrieveAll_inv h, retrieveAll_readable b ▸ .retrieveAllAsString _⟩
  | retrieveAsString len =>
    cases (exec_retrieveAsString h ha).symm.trans he
    exact ⟨retrieve_inv h len, retrieve_readable h len ▸ .retrieveAsString _ _⟩
  | readFd k =>
    cases k with
    | data available =>
      obtain ⟨r, n, hn, hr, hi, hq⟩ := exec_readFd_data h ha
      cases hr.symm.trans he
      exact ⟨hi, hq ▸ .readFd _ _ _ hn⟩
    | fails e =>
      cases he
      exact ⟨h, .readFdFails _ _⟩
  | writeFd k =>
    cases (exec_writeFd h k).symm.trans he
    cases k with
    | fails e => exact ⟨h, .writeFdFails _ _⟩
    | accepts room e =>
      have hw := QueueStep.writeFd b.readable room e
      by_cases hpos : 0 < (min room b.readable.length : Int)
      · simp only [sysWrite, hpos, if_true]
        have hd : b.readable.drop (min (room : Int) b.readable.length).toNat = b.readable.drop room := by
          rcases Nat.le_total room b.readable.length with hle | hle
          · rw [show (min (room : Int) b.readable.length).toNat = room by omega]
          · rw [List.drop_eq_nil_of_le (by omega), List.drop_eq_nil_of_le hle]
        exact ⟨retrieve_inv h _, by rw [retrieve_readable h, hd]; exact hw⟩
      · simp only [sysWrite, hpos, if_false]
        have hd : b.readable.drop room = b.readable := by
          rcases (show room = 0 ∨ b.readable.length = 0 by omega) with h0 | h0
          · rw [h0, List.drop_zero]
          · rw [List.length_eq_zero_iff.mp h0, List.drop_nil]
        exact ⟨h, by rw [hd] at hw; exact hw⟩

/-- An admitted operation stays within the storage and returns. -/
theorem exec_returns {b : Buffer} (h : b.Inv) {op : BufferOp} (ha : b.Admits op) :
    ∃ out b', b.exec op = .ok (out, b') := by
  cases op with
  | append data =>
    obtain ⟨r, hr, _⟩ := exec_append h ha
    exact ⟨_, r, hr⟩
  | ensureWritableBytes len =>
    obtain ⟨r, hr, _⟩ := exec_ensureWritableBytes h ha
    exact ⟨_, r, hr⟩
  | retrieve len => exact ⟨_, _, rfl⟩
  | retrieveAll => exact ⟨_, _, rfl⟩
  | retrieveAllAsString => exact ⟨_, _, exec_retrieveAllAsString h⟩
  | retrieveAsString len => exact ⟨_, _, exec_retrieveAsString h ha⟩
  | readFd k =>
    cases k with
    | data available =>
      obtain ⟨r, n, _, hr, _⟩ := exec_readFd_data h ha
      exact ⟨_, r, hr⟩
    | fails e => exact ⟨_, _, rfl⟩
  | writeFd k => exact ⟨_, _, exec_writeFd h k⟩

/-- A failed read or write leaves the buffer as it was. -/
theorem exec_fails {b b' : Buffer} {out : BufferResult} {op : BufferOp} (h : b.Inv)
    (hop : ∃ e, op = .readFd (.fails e) ∨ op = .writeFd (.fails e)) (he : b.exec op = .ok (out, b')) :
    b' = b := by
  obtain ⟨e, rfl | rfl⟩ := hop
  · cases he
    rfl
  · cases (exec_writeFd h (.fails e)).symm.trans he
    rfl

theorem run_simulates {b b' : Buffer} {ls : List (BufferOp × BufferResult)} (h : b.Inv)
    (hr : Run Step b ls b') : b'.Inv ∧ Run QueueStep b.readable ls b'.readable := by
  induction hr with
  | nil => exact ⟨h, .nil⟩
  | snoc _ hs ih =>
    obtain ⟨hi, hq⟩ := step_simulates ih.1 hs
    exact ⟨hi, ih.2.snoc hq⟩

end Buffer

end MyMuduo
