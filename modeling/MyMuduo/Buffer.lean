import MyMuduo.Platform
import MyMuduo.Lib.Run

/-! The byte buffer of a connection: a vector with a reader and a writer index,
and a reserved prefix in front of the reader. -/

namespace MyMuduo

def kCheapPrepend : Nat := 8

structure Buffer where
  buffer_ : List Byte
  readerIndex_ : Nat
  writerIndex_ : Nat
  deriving DecidableEq, Repr

namespace Buffer

def new (initialSize : Nat) : Except Fault Buffer := do
  let v ← vectorResize [] (szAdd kCheapPrepend initialSize)
  return ⟨v, kCheapPrepend, kCheapPrepend⟩

def readableBytes (b : Buffer) : Nat := szSub b.writerIndex_ b.readerIndex_

def writableBytes (b : Buffer) : Nat := szSub b.buffer_.length b.writerIndex_

def prependableBytes (b : Buffer) : Nat := b.readerIndex_

def retrieveAll (b : Buffer) : Buffer :=
  { b with readerIndex_ := kCheapPrepend, writerIndex_ := kCheapPrepend }

def retrieve (b : Buffer) (len : Nat) : Buffer :=
  if len < b.readableBytes then { b with readerIndex_ := szAdd b.readerIndex_ len } else b.retrieveAll

/-- The copy starts at `peek()` and is as long as the caller asks. -/
def retrieveAsString (b : Buffer) (len : Nat) : Except Fault (List Byte × Buffer) := do
  let result ← checked (readRange b.buffer_ b.readerIndex_ len)
  return (result, b.retrieve len)

def retrieveAllAsString (b : Buffer) : Except Fault (List Byte × Buffer) :=
  b.retrieveAsString b.readableBytes

def makeSpace (b : Buffer) (len : Nat) : Except Fault Buffer :=
  if szAdd b.writableBytes b.prependableBytes < szAdd len kCheapPrepend then do
    let v ← vectorResize b.buffer_ (szAdd b.writerIndex_ len)
    return { b with buffer_ := v }
  else do
    let readable := b.readableBytes
    let v ← checked (copyRange b.buffer_ b.readerIndex_ kCheapPrepend (b.writerIndex_ - b.readerIndex_))
    return ⟨v, kCheapPrepend, szAdd kCheapPrepend readable⟩

def ensureWritableBytes (b : Buffer) (len : Nat) : Except Fault Buffer :=
  if b.writableBytes < len then b.makeSpace len else .ok b

def append (b : Buffer) (data : List Byte) : Except Fault Buffer := do
  let b ← b.ensureWritableBytes data.length
  let v ← checked (writeRange b.buffer_ b.writerIndex_ data)
  return { b with buffer_ := v, writerIndex_ := szAdd b.writerIndex_ data.length }

@[irreducible] def extrabufSize : Nat := 65536

/-- The sum of the lengths in the two-element `iovec`. -/
def iovLen (b : Buffer) : Nat :=
  if b.writableBytes < extrabufSize then b.writableBytes + extrabufSize else b.writableBytes

/-- `readv` fills the free space behind the writer index, then `extrabuf`. The
value of `*saveErrno` is passed through unless the call fails. -/
def readFd (b : Buffer) (saveErrno : Errno) : ReadOutcome → Except Fault (Int × Errno × Buffer)
  | .fails e => .ok (-1, e, b)
  | .data available => do
    let writable := b.writableBytes
    let got := available.take b.iovLen
    let v ← checked (writeRange b.buffer_ b.writerIndex_ (got.take writable))
    if got.length ≤ writable then
      return (got.length, saveErrno, { b with buffer_ := v, writerIndex_ := szAdd b.writerIndex_ got.length })
    else do
      let full : Buffer := { b with buffer_ := v, writerIndex_ := v.length }
      let b ← full.append (got.drop writable)
      return (got.length, saveErrno, b)

def writeFd (b : Buffer) (k : WriteOutcome) : Except Fault Written := do
  let data ← checked (readRange b.buffer_ b.readerIndex_ b.readableBytes)
  return sysWrite data k

/-- What the buffer stands for. -/
def readable (b : Buffer) : List Byte := window b.buffer_ b.readerIndex_ b.writerIndex_

structure Inv (b : Buffer) : Prop where
  prepend_le : kCheapPrepend ≤ b.readerIndex_
  reader_le : b.readerIndex_ ≤ b.writerIndex_
  writer_le : b.writerIndex_ ≤ b.buffer_.length
  size_le : b.buffer_.length ≤ maxSize

theorem Inv.readableBytes_eq {b : Buffer} (h : b.Inv) :
    b.readableBytes = b.writerIndex_ - b.readerIndex_ := by
  exact szSub_eq h.reader_le

theorem Inv.writableBytes_eq {b : Buffer} (h : b.Inv) :
    b.writableBytes = b.buffer_.length - b.writerIndex_ := by
  exact szSub_eq h.writer_le

theorem Inv.readable_length {b : Buffer} (h : b.Inv) : b.readable.length = b.readableBytes := by
  rw [h.readableBytes_eq, readable, window_length h.writer_le]

theorem Inv.readableBytes_eq_zero {b : Buffer} (h : b.Inv) : b.readableBytes = 0 ↔ b.readable = [] := by
  rw [← h.readable_length, List.length_eq_zero_iff]

/-- A request for `len` more bytes that makes `vector::resize` exceed nothing:
either the storage has the room, as it is or after moving the readable bytes to
the front, or the size asked for is at most `max_size`. -/
def Fits (b : Buffer) (len : Nat) : Prop :=
  len ≤ maxSize ∧
    (b.buffer_.length < b.writerIndex_ + len →
      b.buffer_.length + b.readerIndex_ < b.writerIndex_ + len + kCheapPrepend →
      b.writerIndex_ + len ≤ maxSize)

instance (b : Buffer) (len : Nat) : Decidable (b.Fits len) := by
  unfold Fits
  infer_instance

theorem new_inv {initialSize : Nat} (h : kCheapPrepend + initialSize ≤ maxSize) :
    ∃ b, new initialSize = .ok b ∧ b.Inv ∧ b.readable = [] := by
  have hs : szAdd kCheapPrepend initialSize = kCheapPrepend + initialSize :=
    szAdd_eq (by have := maxSize_lt; omega)
  refine ⟨⟨List.replicate (kCheapPrepend + initialSize) 0, kCheapPrepend, kCheapPrepend⟩, ?_, ?_, ?_⟩
  · simp [new, vectorResize, hs, h, bind, Except.bind, pure, Except.pure]
  · exact ⟨Nat.le_refl _, Nat.le_refl _, by simp, by simpa using h⟩
  · simp [readable, window_self]

theorem retrieveAll_inv {b : Buffer} (h : b.Inv) : b.retrieveAll.Inv where
  prepend_le := Nat.le_refl _
  reader_le := Nat.le_refl _
  writer_le := Nat.le_trans h.prepend_le (Nat.le_trans h.reader_le h.writer_le)
  size_le := h.size_le

@[simp] theorem retrieveAll_readable (b : Buffer) : b.retrieveAll.readable = [] :=
  window_self _ _

theorem retrieve_inv {b : Buffer} (h : b.Inv) (len : Nat) : (b.retrieve len).Inv := by
  by_cases hl : len < b.readableBytes
  · have hr := h.readableBytes_eq
    have hw := h.writer_le
    have hs := h.size_le
    have hp := h.prepend_le
    have he : szAdd b.readerIndex_ len = b.readerIndex_ + len := szAdd_eq (by have := maxSize_lt; omega)
    simp only [retrieve, hl, if_true, he]
    exact ⟨by simp only; omega, by simp only; omega, hw, hs⟩
  · simpa only [retrieve, hl, if_false] using retrieveAll_inv h

theorem retrieve_readable {b : Buffer} (h : b.Inv) (len : Nat) :
    (b.retrieve len).readable = b.readable.drop len := by
  by_cases hl : len < b.readableBytes
  · have hr := h.readableBytes_eq
    have hw := h.writer_le
    have hs := h.size_le
    have he : szAdd b.readerIndex_ len = b.readerIndex_ + len := szAdd_eq (by have := maxSize_lt; omega)
    simp only [retrieve, hl, if_true, he, readable, window_drop]
  · have hd : b.readable.drop len = [] := by
      apply List.drop_eq_nil_of_le
      rw [h.readable_length]
      omega
    rw [hd, retrieve, if_neg hl, retrieveAll_readable]

/-- Asking for at most the readable bytes returns exactly those removed. -/
theorem retrieveAsString_eq {b : Buffer} (h : b.Inv) {len : Nat} (hl : len ≤ b.readableBytes) :
    b.retrieveAsString len = .ok (b.readable.take len, b.retrieve len) := by
  have hr := h.readableBytes_eq
  have hw := h.writer_le
  have hrw := h.reader_le
  have hread := readRange_eq (v := b.buffer_) (show b.readerIndex_ + len ≤ b.buffer_.length by omega)
  rw [readable, window_take len (by omega), retrieveAsString, hread]
  rfl

theorem writeFd_eq {b : Buffer} (h : b.Inv) (k : WriteOutcome) :
    b.writeFd k = .ok (sysWrite b.readable k) := by
  have hr := h.readableBytes_eq
  have hw := h.writer_le
  have hrw := h.reader_le
  have hread := readRange_eq (v := b.buffer_) (show b.readerIndex_ + b.readableBytes ≤ b.buffer_.length by omega)
  have he : b.readerIndex_ + b.readableBytes = b.writerIndex_ := by omega
  rw [writeFd, hread, he]
  rfl

theorem vectorResize_window {v w : List Byte} {n i j : Nat} (h : vectorResize v n = .ok w)
    (hn : v.length ≤ n) (hj : j ≤ v.length) : w.length = n ∧ window w i j = window v i j := by
  unfold vectorResize at h
  split at h
  · cases h
    refine ⟨by simp; omega, window_congr i ?_⟩
    rw [List.take_of_length_le hn, List.take_append_of_le_length hj]
  · cases h

theorem vectorResize_eq (v : List Byte) (n : Nat) :
    n ≤ maxSize ∧ (∃ w, vectorResize v n = .ok w) ∨ ¬ n ≤ maxSize ∧ vectorResize v n = .error .lengthError := by
  by_cases h : n ≤ maxSize
  · exact Or.inl ⟨h, _, if_pos h⟩
  · exact Or.inr ⟨h, if_neg h⟩

/-- What a caller may rely on after `ensureWritableBytes len` has returned. -/
structure Roomy (b b' : Buffer) (len : Nat) : Prop where
  inv : b'.Inv
  room : b'.writerIndex_ + len ≤ b'.buffer_.length
  readable_eq : b'.readable = b.readable

/-- Compaction: the readable bytes move down to the reserved prefix. -/
theorem makeSpace_compact {b : Buffer} (h : b.Inv) {len : Nat} (hlen : len ≤ maxSize)
    (hroom : b.writerIndex_ + len + kCheapPrepend ≤ b.buffer_.length + b.readerIndex_) :
    ∃ b', b.makeSpace len = .ok b' ∧ b.Roomy b' len ∧ b'.buffer_.length = b.buffer_.length := by
  have hr := h.readableBytes_eq
  have hwb := h.writableBytes_eq
  obtain ⟨hp, hrw, hw, hs⟩ := h
  have hm := maxSize_lt
  have h1 : szAdd b.writableBytes b.prependableBytes = b.writableBytes + b.readerIndex_ :=
    szAdd_eq (by simp only [prependableBytes]; omega)
  have h2 : szAdd len kCheapPrepend = len + kCheapPrepend := szAdd_eq (by unfold kCheapPrepend; omega)
  have h3 : szAdd kCheapPrepend b.readableBytes = kCheapPrepend + (b.writerIndex_ - b.readerIndex_) := by
    rw [hr]
    exact szAdd_eq (by omega)
  have hno : ¬ b.writableBytes + b.readerIndex_ < len + kCheapPrepend := by omega
  obtain ⟨v, hv, hvl, hvw⟩ := copyRange_window (v := b.buffer_) (n := b.writerIndex_ - b.readerIndex_) hp
    (by omega)
  rw [show b.readerIndex_ + (b.writerIndex_ - b.readerIndex_) = b.writerIndex_ by omega] at hvw
  refine ⟨⟨v, kCheapPrepend, kCheapPrepend + (b.writerIndex_ - b.readerIndex_)⟩, ?_, ⟨?_, ?_, hvw⟩, hvl⟩
  · simp only [makeSpace, h1, h2, hno, if_false, hv, checked_some, h3]
    rfl
  · exact ⟨Nat.le_refl _, by simp only; omega, by simp only; omega, by simp only; omega⟩
  · simp only
    omega

/-- Growth: the storage ends exactly where the request ends. -/
theorem makeSpace_grow {b : Buffer} (h : b.Inv) {len : Nat} (hlen : len ≤ maxSize)
    (hlack : b.buffer_.length < b.writerIndex_ + len)
    (hroom : b.buffer_.length + b.readerIndex_ < b.writerIndex_ + len + kCheapPrepend) :
    (b.writerIndex_ + len ≤ maxSize ∧ ∃ b', b.makeSpace len = .ok b' ∧ b.Roomy b' len ∧
        b'.buffer_.length = b.writerIndex_ + len) ∨
      (¬ b.writerIndex_ + len ≤ maxSize ∧ b.makeSpace len = .error .lengthError) := by
  have hwb := h.writableBytes_eq
  obtain ⟨hp, hrw, hw, hs⟩ := h
  have hm := maxSize_lt
  have h1 : szAdd b.writableBytes b.prependableBytes = b.writableBytes + b.readerIndex_ :=
    szAdd_eq (by simp only [prependableBytes]; omega)
  have h2 : szAdd len kCheapPrepend = len + kCheapPrepend := szAdd_eq (by unfold kCheapPrepend; omega)
  have h3 : szAdd b.writerIndex_ len = b.writerIndex_ + len := szAdd_eq (by omega)
  have hyes : b.writableBytes + b.readerIndex_ < len + kCheapPrepend := by omega
  have hms : b.makeSpace len = (do
      let v ← vectorResize b.buffer_ (b.writerIndex_ + len)
      return { b with buffer_ := v }) := by
    simp only [makeSpace, h1, h2, hyes, if_true, h3]
  rcases vectorResize_eq b.buffer_ (b.writerIndex_ + len) with ⟨hn, v, hv⟩ | ⟨hn, hv⟩
  · obtain ⟨hvl, hvw⟩ := vectorResize_window (i := b.readerIndex_) hv (by omega) hw
    refine Or.inl ⟨hn, { b with buffer_ := v }, ?_, ⟨⟨hp, hrw, ?_, ?_⟩, ?_, hvw⟩, hvl⟩
    · rw [hms, hv]
      rfl
    · simp only
      omega
    · simp only
      omega
    · simp only
      omega
  · refine Or.inr ⟨hn, ?_⟩
    rw [hms, hv]
    rfl

/-- `ensureWritableBytes` makes the room or throws, and throws only when the
request does not fit. -/
theorem ensureWritableBytes_cases {b : Buffer} (h : b.Inv) {len : Nat} (hlen : len ≤ maxSize) :
    (b.Fits len ∧ ∃ b', b.ensureWritableBytes len = .ok b' ∧ b.Roomy b' len) ∨
      (¬ b.Fits len ∧ b.ensureWritableBytes len = .error .lengthError) := by
  have hwb := h.writableBytes_eq
  have hw := h.writer_le
  by_cases hlack : b.writableBytes < len
  · have hlack' : b.buffer_.length < b.writerIndex_ + len := by omega
    simp only [ensureWritableBytes, hlack, if_true]
    by_cases hroom : b.buffer_.length + b.readerIndex_ < b.writerIndex_ + len + kCheapPrepend
    · rcases makeSpace_grow h hlen hlack' hroom with ⟨hn, b', hb, hr, _⟩ | ⟨hn, he⟩
      · exact Or.inl ⟨⟨hlen, fun _ _ => hn⟩, b', hb, hr⟩
      · exact Or.inr ⟨fun hf => hn (hf.2 hlack' hroom), he⟩
    · obtain ⟨b', hb, hr, _⟩ := makeSpace_compact h hlen (by omega)
      exact Or.inl ⟨⟨hlen, fun _ hh => absurd hh hroom⟩, b', hb, hr⟩
  · refine Or.inl ⟨⟨hlen, fun hh => absurd hh (by omega)⟩, b, ?_, ⟨h, by omega, rfl⟩⟩
    simp only [ensureWritableBytes, hlack, if_false]

/-- What `append data` leaves behind when it returns. -/
structure Appended (b b' : Buffer) (data : List Byte) : Prop where
  inv : b'.Inv
  readable_eq : b'.readable = b.readable ++ data

theorem append_cases {b : Buffer} (h : b.Inv) {data : List Byte} (hlen : data.length ≤ maxSize) :
    (b.Fits data.length ∧ ∃ b', b.append data = .ok b' ∧ b.Appended b' data) ∨
      (¬ b.Fits data.length ∧ b.append data = .error .lengthError) := by
  rcases ensureWritableBytes_cases h hlen with ⟨hf, r, hr, hroomy⟩ | ⟨hf, he⟩
  · obtain ⟨⟨hp, hrw, hw, hs⟩, hroom, hread⟩ := hroomy
    obtain ⟨v, hv, hvl, -, hvw⟩ := writeRange_eq (v := r.buffer_) hroom
    have hsz : szAdd r.writerIndex_ data.length = r.writerIndex_ + data.length :=
      szAdd_eq (by have := maxSize_lt; omega)
    refine Or.inl ⟨hf, { r with buffer_ := v, writerIndex_ := r.writerIndex_ + data.length }, ?_, ⟨?_, ?_⟩⟩
    · rw [append, hr, ok_bind, hv, checked_some, ok_bind, hsz]
      rfl
    · exact ⟨hp, by simp only; omega, by simp only; omega, by simp only; omega⟩
    · rw [← hread]
      exact hvw _ hrw
  · refine Or.inr ⟨hf, ?_⟩
    rw [append, he, error_bind]

theorem Appended.of_append {b b' : Buffer} {data : List Byte} (h : b.Inv) (hlen : data.length ≤ maxSize)
    (hb : b.append data = .ok b') : b.Appended b' data := by
  rcases append_cases h hlen with ⟨-, r, hr, ha⟩ | ⟨-, he⟩
  · cases hr.symm.trans hb
    exact ha
  · cases he.symm.trans hb

/-- The part of a read that lands in `extrabuf` is appended to a buffer whose
writer index is at the end of the storage. -/
def full (b : Buffer) : Buffer := { b with writerIndex_ := b.buffer_.length }

def received (b : Buffer) : ReadOutcome → List Byte
  | .data available => available.take b.iovLen
  | .fails _ => []

theorem received_length_le (b : Buffer) (k : ReadOutcome) :
    (b.received k).length ≤ b.writableBytes + extrabufSize := by
  cases k with
  | data available =>
    simp only [received, iovLen, List.length_take]
    split <;> omega
  | fails _ => simp [received]

/-- A successful read appends exactly the bytes received, however they were
split between the free space and `extrabuf`. -/
theorem readFd_data_cases {b : Buffer} (h : b.Inv) (saveErrno : Errno) (available : List Byte) :
    (b.full.Fits ((b.received (.data available)).length - b.writableBytes) ∧
        ∃ b', b.readFd saveErrno (.data available) =
            .ok ((b.received (.data available)).length, saveErrno, b') ∧
          b.Appended b' (b.received (.data available))) ∨
      (¬ b.full.Fits ((b.received (.data available)).length - b.writableBytes) ∧
        b.readFd saveErrno (.data available) = .error .lengthError) := by
  have hwb := h.writableBytes_eq
  have hle := b.received_length_le (.data available)
  have hm := maxSize_lt
  obtain ⟨hp, hrw, hw, hs⟩ := h
  generalize hgot : b.received (.data available) = got at hle ⊢
  have hroom : b.writerIndex_ + (got.take b.writableBytes).length ≤ b.buffer_.length := by
    simp only [List.length_take]
    omega
  obtain ⟨v, hv, hvl, -, hvw⟩ := writeRange_eq hroom
  have hread : b.readFd saveErrno (.data available) =
      (if got.length ≤ b.writableBytes then
        .ok (got.length, saveErrno,
          { b with buffer_ := v, writerIndex_ := szAdd b.writerIndex_ got.length })
      else do
        let r ← ({ b with buffer_ := v, writerIndex_ := v.length } : Buffer).append (got.drop b.writableBytes)
        return (got.length, saveErrno, r)) := by
    rw [readFd, show available.take b.iovLen = got from hgot, hv, checked_some, ok_bind]
    rfl
  rw [hread]
  by_cases hle : got.length ≤ b.writableBytes
  · have htake : got.take b.writableBytes = got := List.take_of_length_le hle
    have hsz : szAdd b.writerIndex_ got.length = b.writerIndex_ + got.length := szAdd_eq (by omega)
    rw [htake] at hvw
    refine Or.inl ⟨⟨by omega, fun hh => absurd hh (by simp only [full]; omega)⟩, _, if_pos hle, ⟨?_, ?_⟩⟩
    · rw [hsz]
      exact ⟨hp, by simp only; omega, by simp only; omega, by simp only; omega⟩
    · rw [readable, hsz]
      exact hvw _ hrw
  · rw [if_neg hle]
    have hlen : (got.take b.writableBytes).length = b.writableBytes := by simp; omega
    have hfull : ({ b with buffer_ := v, writerIndex_ := v.length } : Buffer).Inv :=
      ⟨hp, by simp only; omega, Nat.le_refl _, by simp only; omega⟩
    have hreadable : ({ b with buffer_ := v, writerIndex_ := v.length } : Buffer).readable =
        b.readable ++ got.take b.writableBytes := by
      have he : v.length = b.writerIndex_ + (got.take b.writableBytes).length := by omega
      rw [readable]
      simp only
      rw [he]
      exact hvw _ hrw
    have hfits : ({ b with buffer_ := v, writerIndex_ := v.length } : Buffer).Fits
        (got.drop b.writableBytes).length ↔ b.full.Fits (got.length - b.writableBytes) := by
      simp only [Fits, full, List.length_drop, hvl]
    have hdrop : (got.drop b.writableBytes).length ≤ maxSize := by
      have : extrabufSize ≤ maxSize := by decide +kernel
      simp only [List.length_drop]
      omega
    rcases append_cases hfull hdrop with ⟨hf, r, hr, hri, hrr⟩ | ⟨hf, he⟩
    · refine Or.inl ⟨hfits.mp hf, r, by rw [hr, ok_bind]; rfl, hri, ?_⟩
      rw [hrr, hreadable, List.append_assoc, List.take_append_drop]
    · exact Or.inr ⟨fun hh => hf (hfits.mpr hh), by rw [he, error_bind]⟩

end Buffer

end MyMuduo
