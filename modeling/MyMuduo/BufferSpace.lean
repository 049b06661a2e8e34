import MyMuduo.BufferQueue

/-! Asking a buffer for space and taking bytes out of it, on every buffer that the
public operations can reach with any `size_t` arguments: the sums of the code are
taken modulo 2^64. -/

namespace MyMuduo

/-- A length is a `size_t`, and bytes to be appended lie in memory. -/
def BufferOp.Sized : BufferOp → Prop
  | .append data => data.length ≤ maxSize
  | .ensureWritableBytes len => len < 2 ^ 64
  | .retrieve len => len < 2 ^ 64
  | .retrieveAsString len => len < 2 ^ 64
  | _ => True

theorem copyRange_some {v w : List Byte} {first dest n : Nat} (h : copyRange v first dest n = some w) :
    n = 0 ∨ first + n ≤ v.length := by
  induction n generalizing v first dest with
  | zero => exact Or.inl rfl
  | succ n ih =>
    rw [copyRange] at h
    split at h
    · cases h
    · rename_i a ha
      have hlt : first < v.length := (List.getElem?_eq_some_iff.mp ha).1
      split at h
      · rcases ih h with hn | hn
        · omega
        · rw [List.length_set] at hn
          omega
      · cases h

theorem copyRange_length {v w : List Byte} {first dest n : Nat} (h : copyRange v first dest n = some w) :
    w.length = v.length := by
  induction n generalizing v first dest with
  | zero =>
    cases h
    rfl
  | succ n ih =>
    rw [copyRange] at h
    split at h
    · cases h
    · split at h
      · rw [ih h, List.length_set]
      · cases h

theorem writeRange_some {v w data : List Byte} {pos : Nat} (h : writeRange v pos data = some w) :
    pos + data.length ≤ v.length ∧ w.length = v.length := by
  by_cases hle : pos + data.length ≤ v.length
  · obtain ⟨w', hw, hl, -⟩ := writeRange_eq hle
    cases hw.symm.trans h
    exact ⟨hle, hl⟩
  · rw [writeRange, if_neg hle] at h
    cases h

theorem checked_eq_ok {α : Type} {x : Option α} {a : α} : checked x = .ok a ↔ x = some a := by
  cases x with
  | none => simp [checked]
  | some b => simp [checked]

theorem vectorResize_ok {v w : List Byte} {n : Nat} (h : vectorResize v n = .ok w) : n ≤ maxSize ∧ w.length = n := by
  unfold vectorResize at h
  split at h
  · rename_i hn
    cases h
    exact ⟨hn, by simp; omega⟩
  · cases h

theorem vectorResize_of_le (v : List Byte) {n : Nat} (h : n ≤ maxSize) :
    ∃ w, vectorResize v n = .ok w ∧ w.length = n :=
  ⟨_, if_pos h, by simp; omega⟩

namespace Buffer

/-- `makeSpace` and `ensureWritableBytes` assignment by assignment, so that a throw
leaves behind what has been assigned until then. -/
def makeSpaceM (len : Nat) : ExceptT Fault (StateM Buffer) Unit := do
  let b ← get
  if szAdd b.writableBytes b.prependableBytes < szAdd len kCheapPrepend then
    let v ← liftExcept (vectorResize b.buffer_ (szAdd b.writerIndex_ len))
    modify fun b => { b with buffer_ := v }
  else
    let readable := b.readableBytes
    let v ← liftExcept (checked (copyRange b.buffer_ b.readerIndex_ kCheapPrepend (b.writerIndex_ - b.readerIndex_)))
    modify fun b => { b with buffer_ := v }
    modify fun b => { b with readerIndex_ := kCheapPrepend }
    modify fun b => { b with writerIndex_ := szAdd b.readerIndex_ readable }

def ensureWritableBytesM (len : Nat) : ExceptT Fault (StateM Buffer) Unit := do
  let b ← get
  if b.writableBytes < len then makeSpaceM len

/-- How the call ends, and the buffer after it. -/
def request (b : Buffer) (len : Nat) : Except Fault Unit × Buffer := (ensureWritableBytesM len).run.run b

/-- The end of a call that assigns nothing before it throws. -/
def settle (b : Buffer) : Except Fault Buffer → Except Fault Unit × Buffer
  | .ok b' => (.ok (), b')
  | .error e => (.error e, b)

theorem makeSpaceM_eq (b : Buffer) (len : Nat) : (makeSpaceM len).run.run b = b.settle (b.makeSpace len) := by
  by_cases hc : szAdd b.writableBytes b.prependableBytes < szAdd len kCheapPrepend
  · have hm : (makeSpaceM len).run.run b = (do
        let v ← liftExcept (vectorResize b.buffer_ (szAdd b.writerIndex_ len))
        modify fun b => { b with buffer_ := v } : ExceptT Fault (StateM Buffer) Unit).run.run b :=
      congrFun (if_pos hc) b
    rw [hm, makeSpace, if_pos hc]
    cases vectorResize b.buffer_ (szAdd b.writerIndex_ len) with
    | ok v => rfl
    | error e => rfl
  · have hm : (makeSpaceM len).run.run b = (do
        let v ← liftExcept (checked
          (copyRange b.buffer_ b.readerIndex_ kCheapPrepend (b.writerIndex_ - b.readerIndex_)))
        modify fun b => { b with buffer_ := v }
        modify fun b => { b with readerIndex_ := kCheapPrepend }
        modify fun c => { c with writerIndex_ := szAdd c.readerIndex_ b.readableBytes } :
          ExceptT Fault (StateM Buffer) Unit).run.run b :=
      congrFun (if_neg hc) b
    rw [hm, makeSpace, if_neg hc]
    cases checked (copyRange b.buffer_ b.readerIndex_ kCheapPrepend (b.writerIndex_ - b.readerIndex_)) with
    | ok v => rfl
    | error e => rfl

theorem request_eq (b : Buffer) (len : Nat) : b.request len = b.settle (b.ensureWritableBytes len) := by
  by_cases hc : b.writableBytes < len
  · have hm : b.request len = (makeSpaceM len).run.run b := congrFun (if_pos hc) b
    rw [hm, makeSpaceM_eq, ensureWritableBytes, if_pos hc]
  · have hm : b.request len = (.ok (), b) := congrFun (if_neg hc) b
    rw [hm, ensureWritableBytes, if_neg hc]
    rfl

/-- What holds of the indices whatever the arguments have been: that the storage
reaches up to the writer is not part of it. -/
structure Indexed (b : Buffer) : Prop where
  prepend_le : kCheapPrepend ≤ b.readerIndex_
  reader_le : b.readerIndex_ ≤ b.writerIndex_
  writer_le : b.writerIndex_ ≤ maxSize
  size_le : b.buffer_.length ≤ maxSize

theorem Inv.indexed {b : Buffer} (h : b.Inv) : b.Indexed :=
  ⟨h.prepend_le, h.reader_le, Nat.le_trans h.writer_le h.size_le, h.size_le⟩

theorem Indexed.inv {b : Buffer} (h : b.Indexed) (hw : b.writerIndex_ ≤ b.buffer_.length) : b.Inv :=
  ⟨h.prepend_le, h.reader_le, hw, h.size_le⟩

theorem Indexed.readableBytes_eq {b : Buffer} (h : b.Indexed) : b.readableBytes = b.writerIndex_ - b.readerIndex_ :=
  szSub_eq h.reader_le

/-- With the writer outside of the storage, the free space comes out huge. -/
theorem Indexed.writableBytes_of_lt {b : Buffer} (h : b.Indexed) (hw : b.buffer_.length < b.writerIndex_) :
    b.writableBytes = 2 ^ 64 - (b.writerIndex_ - b.buffer_.length) ∧ maxSize < b.writableBytes := by
  have hm := maxSize_lt
  have hle := h.writer_le
  have he : b.writableBytes = 2 ^ 64 - (b.writerIndex_ - b.buffer_.length) := by
    rw [writableBytes, szSub, if_neg (by omega)]
  exact ⟨he, by omega⟩

theorem szAdd_kCheapPrepend {len : Nat} (h : len < 2 ^ 64) :
    szAdd len kCheapPrepend = if len + 8 < 2 ^ 64 then len + 8 else len + 8 - 2 ^ 64 := by
  rw [szAdd, kCheapPrepend]
  split
  · rename_i hl
    exact Nat.mod_eq_of_lt hl
  · rw [Nat.mod_eq_sub_mod (by omega), Nat.mod_eq_of_lt (by omega)]

theorem szAdd_wraps {a b : Nat} (ha : a < 2 ^ 64) (hb : b < 2 ^ 64) (h : 2 ^ 64 ≤ a + b) :
    szAdd a b = a + b - 2 ^ 64 := by
  rw [szAdd, Nat.mod_eq_sub_mod h, Nat.mod_eq_of_lt (by omega)]

theorem makeSpace_indexed {b b' : Buffer} {len : Nat} (h : b.Indexed) (hb : b.makeSpace len = .ok b') :
    b'.Indexed := by
  obtain ⟨hp, hrw, hw, hs⟩ := h
  have hr : b.readableBytes = b.writerIndex_ - b.readerIndex_ := szSub_eq hrw
  unfold makeSpace at hb
  split at hb
  · obtain ⟨v, hv, hb⟩ := bind_eq_ok.mp hb
    cases hb
    obtain ⟨hn, hl⟩ := vectorResize_ok hv
    exact ⟨hp, hrw, hw, hl ▸ hn⟩
  · obtain ⟨v, hv, hb⟩ := bind_eq_ok.mp hb
    cases hb
    have hl : v.length = b.buffer_.length := copyRange_length (checked_eq_ok.mp hv)
    have hm := maxSize_lt
    have he : szAdd kCheapPrepend b.readableBytes = kCheapPrepend + (b.writerIndex_ - b.readerIndex_) := by
      rw [hr]
      exact szAdd_eq (by omega)
    refine ⟨Nat.le_refl _, ?_, ?_, ?_⟩
    · simp only [he]
      omega
    · simp only [he]
      omega
    · simp only [hl]
      exact hs

theorem ensureWritableBytes_indexed {b b' : Buffer} {len : Nat} (h : b.Indexed)
    (hb : b.ensureWritableBytes len = .ok b') : b'.Indexed := by
  unfold ensureWritableBytes at hb
  split at hb
  · exact makeSpace_indexed h hb
  · cases hb
    exact h

theorem append_indexed {b b' : Buffer} {data : List Byte} (h : b.Indexed)
    (hb : b.append data = .ok b') : b'.Indexed := by
  obtain ⟨r, hr, hb⟩ := bind_eq_ok.mp hb
  obtain ⟨v, hv, hb⟩ := bind_eq_ok.mp hb
  cases hb
  obtain ⟨hp, hrw, hw, hs⟩ := ensureWritableBytes_indexed h hr
  obtain ⟨hroom, hl⟩ := writeRange_some (checked_eq_ok.mp hv)
  have hm := maxSize_lt
  have he : szAdd r.writerIndex_ data.length = r.writerIndex_ + data.length := szAdd_eq (by omega)
  exact ⟨hp, by simp only [he]; omega, by simp only [he]; omega, by simp only; omega⟩

theorem retrieve_indexed {b : Buffer} (h : b.Indexed) (len : Nat) : (b.retrieve len).Indexed := by
  have hr := h.readableBytes_eq
  obtain ⟨hp, hrw, hw, hs⟩ := h
  have hm := maxSize_lt
  unfold retrieve
  split
  · have he : szAdd b.readerIndex_ len = b.readerIndex_ + len := szAdd_eq (by omega)
    exact ⟨by simp only [he]; omega, by simp only [he]; omega, hw, hs⟩
  · exact ⟨Nat.le_refl _, Nat.le_refl _, Nat.le_trans hp (Nat.le_trans hrw hw), hs⟩

theorem readFd_indexed {b b' : Buffer} {n : Int} {e e' : Errno} {k : ReadOutcome} (h : b.Indexed)
    (hb : b.readFd e k = .ok (n, e', b')) : b'.Indexed := by
  by_cases hw : b.writerIndex_ ≤ b.buffer_.length
  · cases k with
    | fails _ =>
      cases hb
      exact h
    | data available =>
      rcases readFd_data_cases (h.inv hw) e available with ⟨-, r, hr, ha⟩ | ⟨-, hr⟩
      · cases hr.symm.trans hb
        exact ha.inv.indexed
      · cases hr.symm.trans hb
  · cases k with
    | fails _ =>
      cases hb
      exact h
    | data available =>
      -- with the writer outside of the storage the read has nowhere to go
      obtain ⟨v, hv, hb⟩ := bind_eq_ok.mp hb
      obtain ⟨hroom, -⟩ := writeRange_some (checked_eq_ok.mp hv)
      omega

/-- An operation with arguments of any size, returning. -/
def Returns (b : Buffer) (l : BufferOp × BufferResult) (b' : Buffer) : Prop :=
  l.1.Sized ∧ b.exec l.1 = .ok (l.2, b')

def Reachable (b : Buffer) : Prop :=
  ∃ initialSize b₀ ls, initialSize < 2 ^ 64 ∧ Buffer.new initialSize = .ok b₀ ∧ Run Returns b₀ ls b

theorem returns_indexed {b b' : Buffer} {l : BufferOp × BufferResult} (h : b.Indexed) (hs : b.Returns l b') :
    b'.Indexed := by
  obtain ⟨op, out⟩ := l
  obtain ⟨-, he⟩ := hs
  cases op with
  | append data =>
    obtain ⟨r, hr, he⟩ := bind_eq_ok.mp he
    cases he
    exact append_indexed h hr
  | ensureWritableBytes len =>
    obtain ⟨r, hr, he⟩ := bind_eq_ok.mp he
    cases he
    exact ensureWritableBytes_indexed h hr
  | retrieve len =>
    cases he
    exact retrieve_indexed h len
  | retrieveAll =>
    cases he
    exact ⟨Nat.le_refl _, Nat.le_refl _, Nat.le_trans h.prepend_le (Nat.le_trans h.reader_le h.writer_le), h.size_le⟩
  | retrieveAllAsString =>
    obtain ⟨⟨out', r⟩, hr, he⟩ := bind_eq_ok.mp he
    obtain ⟨v, -, hr⟩ := bind_eq_ok.mp hr
    cases hr
    cases he
    exact retrieve_indexed h _
  | retrieveAsString len =>
    obtain ⟨⟨out', r⟩, hr, he⟩ := bind_eq_ok.mp he
    obtain ⟨v, -, hr⟩ := bind_eq_ok.mp hr
    cases hr
    cases he
    exact retrieve_indexed h len
  | readFd k =>
    obtain ⟨⟨n, e, r⟩, hr, he⟩ := bind_eq_ok.mp he
    cases he
    exact readFd_indexed h hr
  | writeFd k =>
    obtain ⟨r, -, he⟩ := bind_eq_ok.mp he
    cases he
    split
    · exact retrieve_indexed h _
    · exact h

theorem new_indexed {initialSize : Nat} {b : Buffer} (h : Buffer.new initialSize = .ok b) : b.Indexed := by
  obtain ⟨v, hv, h⟩ := bind_eq_ok.mp h
  cases h
  obtain ⟨hn, hl⟩ := vectorResize_ok hv
  exact ⟨Nat.le_refl _, Nat.le_refl _, show kCheapPrepend ≤ maxSize by decide +kernel, hl ▸ hn⟩

theorem Reachable.indexed {b : Buffer} (h : b.Reachable) : b.Indexed := by
  obtain ⟨initialSize, b₀, ls, -, hnew, hr⟩ := h
  exact hr.invariant (fun _ _ _ hi hs => returns_indexed hi hs) (new_indexed hnew)

/-- What a request for `len` bytes is to end in: a throw that leaves the buffer as it
was, or room for them with the readable bytes untouched. -/
def Granted (b : Buffer) (len : Nat) : Prop :=
  b.request len = (.error .lengthError, b) ∨
    ∃ b', b.request len = (.ok (), b') ∧ len ≤ b'.writableBytes ∧
      (kCheapPrepend ≤ b'.readerIndex_ ∧ b'.readerIndex_ ≤ b'.writerIndex_ ∧
        b'.writerIndex_ ≤ b'.buffer_.length) ∧
      b'.readable = b.readable

theorem granted_iff {b : Buffer} {len : Nat} : b.Granted len ↔
    b.ensureWritableBytes len = .error .lengthError ∨
      ∃ b', b.ensureWritableBytes len = .ok b' ∧ len ≤ b'.writableBytes ∧
        (kCheapPrepend ≤ b'.readerIndex_ ∧ b'.readerIndex_ ≤ b'.writerIndex_ ∧
          b'.writerIndex_ ≤ b'.buffer_.length) ∧
        b'.readable = b.readable := by
  rw [Granted, request_eq]
  cases hb : b.ensureWritableBytes len with
  | ok r => simp [settle]
  | error e => simp [settle]

/-- Longer than any vector: when neither sum wraps, `resize` throws. -/
theorem ensureWritableBytes_throws {b : Buffer} (h : b.Inv) {len : Nat} (hm : maxSize < len)
    (hlen : b.writerIndex_ + len < 2 ^ 64) : b.ensureWritableBytes len = .error .lengthError := by
  have hwb := h.writableBytes_eq
  obtain ⟨hp, hrw, hw, hs⟩ := h
  have hcp : kCheapPrepend = 8 := rfl
  have hms := maxSize_lt
  have h1 : szAdd b.writableBytes b.prependableBytes = b.writableBytes + b.readerIndex_ :=
    szAdd_eq (by simp only [prependableBytes]; omega)
  have h2 : szAdd len kCheapPrepend = len + kCheapPrepend := szAdd_eq (by omega)
  have h3 : szAdd b.writerIndex_ len = b.writerIndex_ + len := szAdd_eq hlen
  rw [ensureWritableBytes, if_pos (by omega), makeSpace, h1, h2, if_pos (by omega), h3, vectorResize,
    if_neg (by omega)]
  rfl

theorem granted_of_fits {b : Buffer} (h : b.Inv) {len : Nat} (hlen : b.writerIndex_ + len < 2 ^ 64) :
    b.Granted len := by
  rw [granted_iff]
  by_cases hm : len ≤ maxSize
  · rcases ensureWritableBytes_cases h hm with ⟨-, r, hr, hi, hroom, hread⟩ | ⟨-, he⟩
    · exact Or.inr ⟨r, hr, by rw [hi.writableBytes_eq]; omega, ⟨hi.prepend_le, hi.reader_le, hi.writer_le⟩, hread⟩
    · exact Or.inl he
  · exact Or.inl (ensureWritableBytes_throws h (by omega) hlen)

/-- A request whose end wraps: the storage is cut behind the reader, or the readable
bytes are moved and nothing is gained. -/
theorem not_granted_of_wraps {b : Buffer} (h : b.Inv) {len : Nat} (hl : len < 2 ^ 64)
    (hlen : 2 ^ 64 ≤ b.writerIndex_ + len) : ¬ b.Granted len := by
  have hwb := h.writableBytes_eq
  have hr := h.readableBytes_eq
  obtain ⟨hp, hrw, hw, hs⟩ := h
  have hcp : kCheapPrepend = 8 := rfl
  have hms := maxSize_lt
  have h1 : szAdd b.writableBytes b.prependableBytes = b.writableBytes + b.readerIndex_ :=
    szAdd_eq (by simp only [prependableBytes]; omega)
  have h2 := szAdd_kCheapPrepend hl
  have h3 : szAdd b.writerIndex_ len = b.writerIndex_ + len - 2 ^ 64 := szAdd_wraps (by omega) hl hlen
  have he : b.ensureWritableBytes len = b.makeSpace len := if_pos (by omega)
  rw [granted_iff, he]
  by_cases hc : len + 8 < 2 ^ 64
  · rw [if_pos hc] at h2
    obtain ⟨v, hv, hvl⟩ := vectorResize_of_le b.buffer_ (show b.writerIndex_ + len - 2 ^ 64 ≤ maxSize by omega)
    have hm : b.makeSpace len = .ok { b with buffer_ := v } := by
      rw [makeSpace, h1, h2, if_pos (by omega), h3, hv]
      rfl
    rw [hm]
    rintro (hh | ⟨b', hb, -, ⟨-, -, hle⟩, -⟩)
    · cases hh
    · cases hb
      simp only at hle
      omega
  · rw [if_neg hc] at h2
    obtain ⟨v, hv, hvl, -⟩ := copyRange_window (v := b.buffer_) (n := b.writerIndex_ - b.readerIndex_) hp (by omega)
    have h4 : szAdd kCheapPrepend b.readableBytes = kCheapPrepend + (b.writerIndex_ - b.readerIndex_) := by
      rw [hr]
      exact szAdd_eq (by omega)
    have hm : b.makeSpace len = .ok ⟨v, kCheapPrepend, kCheapPrepend + (b.writerIndex_ - b.readerIndex_)⟩ := by
      rw [makeSpace, h1, h2, if_neg (by omega), hv]
      simp only [h4]
      rfl
    rw [hm]
    rintro (hh | ⟨b', hb, hroom, -⟩)
    · cases hh
    · cases hb
      rw [writableBytes, szSub_eq (by simp only; omega)] at hroom
      simp only at hroom
      omega

/-- A buffer whose writer is outside of its storage grants nothing. -/
theorem not_granted_of_lt {b : Buffer} (h : b.Indexed) (hw : b.buffer_.length < b.writerIndex_) {len : Nat}
    (hl : len < 2 ^ 64) : ¬ b.Granted len := by
  obtain ⟨hwb, hlt⟩ := h.writableBytes_of_lt hw
  obtain ⟨hp, hrw, hle, hs⟩ := h
  have hcp : kCheapPrepend = 8 := rfl
  have hms := maxSize_lt
  rw [granted_iff, ensureWritableBytes]
  by_cases hlack : b.writableBytes < len
  · rw [if_pos hlack, makeSpace]
    have h3 : szAdd b.writerIndex_ len = b.writerIndex_ + len - 2 ^ 64 := szAdd_wraps (by omega) hl (by omega)
    split
    · obtain ⟨v, hv, hvl⟩ := vectorResize_of_le b.buffer_ (show b.writerIndex_ + len - 2 ^ 64 ≤ maxSize by omega)
      rw [h3, hv, ok_bind]
      rintro (hh | ⟨b', hb, -, ⟨-, -, hh⟩, -⟩)
      · cases hh
      · cases hb
        simp only at hh
        omega
    · cases hv : copyRange b.buffer_ b.readerIndex_ kCheapPrepend (b.writerIndex_ - b.readerIndex_) with
      | none =>
        rintro (hh | ⟨b', hb, -⟩)
        · cases hh
        · cases hb
      | some v =>
        have hvl := copyRange_length hv
        have hempty : b.writerIndex_ = b.readerIndex_ := by
          rcases copyRange_some hv with hn | hn
          · omega
          · omega
        have h4 : szAdd kCheapPrepend b.readableBytes = kCheapPrepend := by
          rw [readableBytes, szSub_eq hrw, hempty, Nat.sub_self]
          exact szAdd_eq (by omega)
        rw [checked_some, ok_bind, h4]
        rintro (hh | ⟨b', hb, hroom, ⟨-, -, hh⟩, -⟩)
        · cases hh
        · cases hb
          simp only at hh
          rw [writableBytes, szSub_eq (by simpa using hh)] at hroom
          simp only at hroom
          omega
  · rw [if_neg hlack]
    rintro (hh | ⟨b', hb, -, ⟨-, -, hh⟩, -⟩)
    · cases hh
    · cases hb
      omega

/-- A request is granted or refused as it should be exactly when the writer is within
the storage and the sum of its index and the length does not wrap. -/
theorem space_request_iff {b : Buffer} (hb : b.Reachable) {len : Nat} (hl : len < 2 ^ 64) :
    b.Granted len ↔ b.writerIndex_ ≤ b.buffer_.length ∧ b.writerIndex_ + len < 2 ^ 64 := by
  have hi := hb.indexed
  by_cases hw : b.writerIndex_ ≤ b.buffer_.length
  · by_cases hlen : b.writerIndex_ + len < 2 ^ 64
    · exact iff_of_true (granted_of_fits (hi.inv hw) hlen) ⟨hw, hlen⟩
    · exact iff_of_false (not_granted_of_wraps (hi.inv hw) hl (by omega)) fun hh => hlen hh.2
  · exact iff_of_false (not_granted_of_lt hi (by omega) hl) fun hh => hw hh.1

theorem Reachable.new {initialSize : Nat} (h : initialSize < 2 ^ 64) {b : Buffer} (hb : Buffer.new initialSize = .ok b) :
    b.Reachable :=
  ⟨initialSize, b, [], h, hb, .nil⟩

theorem Reachable.snoc {b b' : Buffer} (h : b.Reachable) (op : BufferOp) {out : BufferResult} (hop : op.Sized)
    (hb : b.exec op = .ok (out, b')) : b'.Reachable := by
  obtain ⟨initialSize, b₀, ls, hi, hnew, hr⟩ := h
  exact ⟨initialSize, b₀, _, hi, hnew, hr.snoc (a := (op, out)) ⟨hop, hb⟩⟩

/-- The buffer of a connection, asked for more than it has. -/
theorem space_request_iff_new : ∃ b : Buffer, b.Reachable ∧
    (b.Granted 2000 ↔ b.writerIndex_ ≤ b.buffer_.length ∧ b.writerIndex_ + 2000 < 2 ^ 64) := by
  obtain ⟨b, hb, -⟩ := new_inv (show kCheapPrepend + 1024 ≤ maxSize by decide +kernel)
  have hr := Reachable.new (by decide) hb
  exact ⟨b, hr, space_request_iff hr (by decide)⟩

/-- One byte is buffered, and the end of the request wraps to zero: the vector is
resized to nothing, with both indices where they were. -/
theorem space_request_wraps : ∃ b b' : Buffer, b.Reachable ∧ b.ensureWritableBytes (2 ^ 64 - 9) = .ok b' ∧
    b'.buffer_ = [] ∧ b'.readerIndex_ = 8 ∧ b'.writerIndex_ = 9 ∧ ¬ b.Granted (2 ^ 64 - 9) := by
  have hok : (do
      let b ← Buffer.new 1024
      let (_, b) ← b.exec (.append [97])
      let b' ← b.ensureWritableBytes (2 ^ 64 - 9)
      return decide (b.writerIndex_ = 9 ∧ b.writerIndex_ ≤ b.buffer_.length ∧ b'.buffer_ = [] ∧
        b'.readerIndex_ = 8 ∧ b'.writerIndex_ = 9)).toOption = some true := by decide +kernel
  obtain ⟨b₀, hnew, h⟩ := bind_eq_ok.mp (toOption_eq_some.mp hok)
  obtain ⟨⟨out, b⟩, hb, h⟩ := bind_eq_ok.mp h
  obtain ⟨b', hb', h⟩ := bind_eq_ok.mp h
  have hq : b.writerIndex_ = 9 ∧ b.writerIndex_ ≤ b.buffer_.length ∧ b'.buffer_ = [] ∧ b'.readerIndex_ = 8 ∧
      b'.writerIndex_ = 9 := by
    injection h with h
    exact of_decide_eq_true h
  obtain ⟨hw, hle, h1, h2, h3⟩ := hq
  have hreach := (Reachable.new (by decide) hnew).snoc (.append [97]) (show _ ≤ maxSize by decide +kernel) hb
  refine ⟨b, b', hreach, hb', h1, h2, h3, ?_⟩
  exact not_granted_of_wraps (hreach.indexed.inv hle) (by decide) (by omega)

/-- What is returned is what is removed: the first bytes of the readable ones, as many
as asked for as long as there are. -/
def RetrievesFront (b : Buffer) (len : Nat) : Prop :=
  ∃ s b', b.retrieveAsString len = .ok (s, b') ∧ s = b.readable.take len ∧ s.length = min len b.readableBytes ∧
    b.readable = s ++ b'.readable

theorem readRange_some {v w : List Byte} {pos len : Nat} (h : readRange v pos len = some w) :
    pos + len ≤ v.length ∧ w = window v pos (pos + len) := by
  obtain ⟨hle, h⟩ := Option.ite_none_right_eq_some.mp h
  exact ⟨hle, (Option.some.inj h).symm⟩

/-- The string has the length that was asked for, so it is right exactly when there
are as many readable bytes, in a storage that reaches so far. -/
theorem retrieves_front_iff {b : Buffer} (hb : b.Reachable) (len : Nat) :
    b.RetrievesFront len ↔ len ≤ b.readableBytes ∧ b.readerIndex_ + len ≤ b.buffer_.length := by
  have hi := hb.indexed
  have hr := hi.readableBytes_eq
  constructor
  · rintro ⟨s, b', he, -, hlen, -⟩
    obtain ⟨v, hv, he⟩ := bind_eq_ok.mp he
    cases he
    obtain ⟨hle, rfl⟩ := readRange_some (checked_eq_ok.mp hv)
    rw [window_length hle] at hlen
    exact ⟨by omega, hle⟩
  · rintro ⟨hl, hle⟩
    have hw := hi.reader_le
    have htake : b.readable.take len = window b.buffer_ b.readerIndex_ (b.readerIndex_ + len) :=
      window_take len (by omega)
    have hlen : (b.readable.take len).length = len := by
      rw [htake, window_length hle]
      omega
    refine ⟨b.readable.take len, b.retrieve len, ?_, rfl, by omega, ?_⟩
    · rw [retrieveAsString, readRange_eq hle, htake]
      rfl
    · by_cases hlt : len < b.readableBytes
      · have hms := maxSize_lt
        have hwm := hi.writer_le
        have he : szAdd b.readerIndex_ len = b.readerIndex_ + len := szAdd_eq (by omega)
        have hdrop : (b.retrieve len).readable = b.readable.drop len := by
          rw [retrieve, if_pos hlt, readable, he, readable, window_drop]
        rw [hdrop, List.take_append_drop]
      · have hall : b.readable.take len = b.readable := by
          rw [htake, readable, show b.readerIndex_ + len = b.writerIndex_ by omega]
        rw [retrieve, if_neg hlt, retrieveAll_readable, List.append_nil, hall]

theorem retrieves_front_iff_abc : ∃ b : Buffer, b.Reachable ∧ b.readable = [97, 98, 99] ∧
    (b.RetrievesFront 2 ↔ 2 ≤ b.readableBytes ∧ b.readerIndex_ + 2 ≤ b.buffer_.length) := by
  have hok : (do
      let b ← Buffer.new 1024
      let (_, b) ← b.exec (.append [97, 98, 99])
      return decide (b.readable = [97, 98, 99])).toOption = some true := by decide +kernel
  obtain ⟨b₀, hnew, h⟩ := bind_eq_ok.mp (toOption_eq_some.mp hok)
  obtain ⟨⟨out, b⟩, hb, h⟩ := bind_eq_ok.mp h
  have hr := (Reachable.new (by decide) hnew).snoc (.append [97, 98, 99]) (show _ ≤ maxSize by decide +kernel) hb
  injection h with h
  exact ⟨b, hr, of_decide_eq_true h, retrieves_front_iff hr 2⟩

/-- "abc" has been received and consumed, "x" is received and two bytes are asked for:
the second is the "b" of before. -/
theorem retrieves_leftover : ∃ b b' : Buffer, b.Reachable ∧ b.readable = [120] ∧
    b.retrieveAsString 2 = .ok ([120, 98], b') ∧ ¬ b.RetrievesFront 2 := by
  have hok : (do
      let b₀ ← Buffer.new 1024
      let r₁ ← b₀.exec (.append [97, 98, 99])
      let r₂ ← r₁.2.exec (.retrieve 3)
      let r₃ ← r₂.2.exec (.append [120])
      let r ← r₃.2.retrieveAsString 2
      return decide (r₃.2.readable = [120] ∧ r₃.2.readableBytes = 1 ∧ r.1 = [120, 98])).toOption = some true := by
    decide +kernel
  obtain ⟨b₀, hnew, h⟩ := bind_eq_ok.mp (toOption_eq_some.mp hok)
  obtain ⟨⟨o₁, b₁⟩, h₁, h⟩ := bind_eq_ok.mp h
  obtain ⟨⟨o₂, b₂⟩, h₂, h⟩ := bind_eq_ok.mp h
  obtain ⟨⟨o₃, b⟩, h₃, h⟩ := bind_eq_ok.mp h
  obtain ⟨⟨s, b'⟩, hb', h⟩ := bind_eq_ok.mp h
  have hq : b.readable = [120] ∧ b.readableBytes = 1 ∧ s = [120, 98] := by
    injection h with h
    exact of_decide_eq_true h
  obtain ⟨hread, hone, rfl⟩ := hq
  have hreach := (((Reachable.new (by decide) hnew).snoc (.append [97, 98, 99])
    (show _ ≤ maxSize by decide +kernel) h₁).snoc (.retrieve 3) (show 3 < 2 ^ 64 by decide) h₂).snoc
    (.append [120]) (show _ ≤ maxSize by decide +kernel) h₃
  refine ⟨b, b', hreach, hread, hb', ?_⟩
  rintro ⟨s, r, he, -, hlen, -⟩
  cases hb'.symm.trans he
  rw [hone] at hlen
  cases hlen

end Buffer

end MyMuduo
