import MyMuduo.BufferSpace

/-! The storage of a buffer along a run: it grows only for want of room, and never
past twice the most that was ever to be held at once. -/

namespace MyMuduo

namespace Buffer

/-- `readableBytes() + len` at the request for space that the operation makes; a read
makes one for what did not fit behind the writer. -/
def demand (b : Buffer) : BufferOp → Nat
  | .append data => b.readableBytes + data.length
  | .ensureWritableBytes len => b.readableBytes + len
  | .readFd k =>
    if (b.received k).length ≤ b.writableBytes then 0
    else b.full.readableBytes + ((b.received k).length - b.writableBytes)
  | _ => 0

/-- The largest demand so far. -/
def peak (most : Nat) (b : Buffer) (l : BufferOp × BufferResult) (_ : Buffer) : Nat := max most (b.demand l.1)

/-- The storage stays as it is, or was too small for the demand and is resized to at
most twice of it. -/
def Grows (b : Buffer) (demand : Nat) (b' : Buffer) : Prop :=
  b'.buffer_.length = b.buffer_.length ∨
    b.buffer_.length < kCheapPrepend + demand ∧ b'.buffer_.length ≤ kCheapPrepend + 2 * demand

theorem ensureWritableBytes_grows {b b' : Buffer} (h : b.Inv) {len : Nat} (hlen : len ≤ maxSize)
    (hb : b.ensureWritableBytes len = .ok b') : b.Grows (b.readableBytes + len) b' := by
  have hwb := h.writableBytes_eq
  have hr := h.readableBytes_eq
  have hw := h.writer_le
  have hrw := h.reader_le
  rw [ensureWritableBytes] at hb
  by_cases hlack : b.writableBytes < len
  · rw [if_pos hlack] at hb
    by_cases hroom : b.buffer_.length + b.readerIndex_ < b.writerIndex_ + len + kCheapPrepend
    · rcases makeSpace_grow h hlen (by omega) hroom with ⟨-, r, hm, -, hl⟩ | ⟨-, hm⟩
      · cases hm.symm.trans hb
        exact Or.inr ⟨by omega, by omega⟩
      · cases hm.symm.trans hb
    · obtain ⟨r, hm, -, hl⟩ := makeSpace_compact h hlen (by omega)
      cases hm.symm.trans hb
      exact Or.inl hl
  · rw [if_neg hlack] at hb
    cases hb
    exact Or.inl rfl

theorem append_grows {b b' : Buffer} (h : b.Inv) {data : List Byte} (hlen : data.length ≤ maxSize)
    (hb : b.append data = .ok b') : b.Grows (b.readableBytes + data.length) b' := by
  obtain ⟨r, hr, hb⟩ := bind_eq_ok.mp hb
  obtain ⟨v, hv, hb⟩ := bind_eq_ok.mp hb
  cases hb
  have hl := (writeRange_some (checked_eq_ok.mp hv)).2
  rcases ensureWritableBytes_grows h hlen hr with he | ⟨h1, h2⟩
  · exact Or.inl (hl.trans he)
  · exact Or.inr ⟨h1, Nat.le_trans (Nat.le_of_eq hl) h2⟩

theorem readFd_grows {b b' : Buffer} {n : Int} {e e' : Errno} {k : ReadOutcome} (h : b.Inv)
    (hb : b.readFd e k = .ok (n, e', b')) : b.Grows (b.demand (.readFd k)) b' := by
  cases k with
  | fails _ =>
    cases hb
    exact Or.inl rfl
  | data available =>
    have hle := b.received_length_le (.data available)
    obtain ⟨v, hv, hb⟩ := bind_eq_ok.mp hb
    change (if (b.received (.data available)).length ≤ b.writableBytes then _ else _) = _ at hb
    have hvl := (writeRange_some (checked_eq_ok.mp hv)).2
    split at hb
    · cases hb
      exact Or.inl hvl
    · rename_i hover
      obtain ⟨r, hr, hb⟩ := bind_eq_ok.mp hb
      cases hb
      have hfull : ({ b with buffer_ := v, writerIndex_ := v.length } : Buffer).Inv := by
        obtain ⟨hp, hrw, hw, hs⟩ := h
        exact ⟨hp, by simp only; omega, Nat.le_refl _, by simp only; omega⟩
      have hdrop : ((available.take b.iovLen).drop b.writableBytes).length =
          (b.received (.data available)).length - b.writableBytes := List.length_drop
      have hmax : extrabufSize ≤ maxSize := by decide +kernel
      have hg := append_grows hfull (by omega) hr
      rw [hdrop] at hg
      rw [demand, if_neg hover]
      simpa only [Grows, full, readableBytes, hvl] using hg

/-- The bytes to be appended lie in memory, and no sum of a request for space wraps. -/
def Unwrapped (b : Buffer) : BufferOp → Prop
  | .append data => data.length ≤ maxSize
  | .ensureWritableBytes len => b.writerIndex_ + len < 2 ^ 64
  | _ => True

/-- An operation that returns, with nothing wrapping. -/
def Works (b : Buffer) (l : BufferOp × BufferResult) (b' : Buffer) : Prop :=
  b.Unwrapped l.1 ∧ b.exec l.1 = .ok (l.2, b')

theorem retrieve_grows (b : Buffer) (len d : Nat) : b.Grows d (b.retrieve len) := by
  unfold retrieve
  split
  · exact Or.inl rfl
  · exact Or.inl rfl

/-- Whatever the operation, the indices stay in order and the storage grows only by
its demand. -/
theorem works_grows {b b' : Buffer} {l : BufferOp × BufferResult} (h : b.Inv) (hs : b.Works l b') :
    b'.Inv ∧ b.Grows (b.demand l.1) b' := by
  obtain ⟨op, out⟩ := l
  obtain ⟨ha, he⟩ := hs
  cases op with
  | append data =>
    obtain ⟨r, hr, he⟩ := bind_eq_ok.mp he
    cases he
    exact ⟨(Appended.of_append h ha hr).inv, append_grows h ha hr⟩
  | ensureWritableBytes len =>
    obtain ⟨r, hr, he⟩ := bind_eq_ok.mp he
    cases he
    have hlen : len ≤ maxSize := by
      by_contra hlt
      cases (ensureWritableBytes_throws h (by omega) ha).symm.trans hr
    rcases ensureWritableBytes_cases h hlen with ⟨-, r', hr', hroomy⟩ | ⟨-, hr'⟩
    · cases hr'.symm.trans hr
      exact ⟨hroomy.inv, ensureWritableBytes_grows h hlen hr⟩
    · cases hr'.symm.trans hr
  | retrieve len =>
    cases he
    exact ⟨retrieve_inv h len, retrieve_grows b len _⟩
  | retrieveAll =>
    cases he
    exact ⟨retrieveAll_inv h, Or.inl rfl⟩
  | retrieveAllAsString =>
    cases (exec_retrieveAllAsString h).symm.trans he
    exact ⟨retrieveAll_inv h, Or.inl rfl⟩
  | retrieveAsString len =>
    obtain ⟨⟨s, r⟩, hr, he⟩ := bind_eq_ok.mp he
    obtain ⟨v, -, hr⟩ := bind_eq_ok.mp hr
    cases hr
    cases he
    exact ⟨retrieve_inv h len, retrieve_grows b len _⟩
  | readFd k =>
    obtain ⟨⟨n, e, r⟩, hr, he⟩ := bind_eq_ok.mp he
    cases he
    refine ⟨?_, readFd_grows h hr⟩
    cases k with
    | fails e =>
      cases hr
      exact h
    | data available =>
      rcases readFd_data_cases h 0 available with ⟨-, r', hr', hread⟩ | ⟨-, hr'⟩
      · cases hr'.symm.trans hr
        exact hread.inv
      · cases hr'.symm.trans hr
  | writeFd k =>
    cases (exec_writeFd h k).symm.trans he
    split
    · exact ⟨retrieve_inv h _, retrieve_grows b _ _⟩
    · exact ⟨h, Or.inl rfl⟩

theorem run_bounded {b₀ b : Buffer} {ls : List (BufferOp × BufferResult)} {bound most : Nat} (h : b₀.Inv)
    (hb : b₀.buffer_.length ≤ bound) (hr : Run (Noted Works peak) (b₀, 0) ls (b, most)) :
    b.Inv ∧ b.buffer_.length ≤ max bound (kCheapPrepend + 2 * most) := by
  refine hr.invariant (I := fun p => p.1.Inv ∧ p.1.buffer_.length ≤ max bound (kCheapPrepend + 2 * p.2)) ?_
    ⟨h, Nat.le_trans hb (Nat.le_max_left _ _)⟩
  rintro ⟨b, most⟩ l ⟨b', most'⟩ ⟨hi, hle⟩ ⟨hs, hm⟩
  obtain rfl : most' = max most (b.demand l.1) := hm
  obtain ⟨hi', hg⟩ := works_grows hi hs
  refine ⟨hi', ?_⟩
  have h1 : most ≤ max most (b.demand l.1) := Nat.le_max_left _ _
  have h2 : b.demand l.1 ≤ max most (b.demand l.1) := Nat.le_max_right _ _
  change b.buffer_.length ≤ max bound (kCheapPrepend + 2 * most) at hle
  change b'.buffer_.length ≤ max bound (kCheapPrepend + 2 * max most (b.demand l.1))
  rcases hg with he | ⟨-, hg⟩
  · change b'.buffer_.length = b.buffer_.length at he
    omega
  · change b'.buffer_.length ≤ kCheapPrepend + 2 * b.demand l.1 at hg
    omega

/-- Whatever passes through a buffer, its storage stays within its first size and
twice the largest demand of the run, and is enlarged only when the demand with the
reserved prefix is more than it holds. -/
theorem storage_bounded {initialSize : Nat} (hsize : kCheapPrepend + initialSize < 2 ^ 64) {b₀ : Buffer}
    (hnew : Buffer.new initialSize = .ok b₀) {ls : List (BufferOp × BufferResult)} {b : Buffer} {most : Nat}
    (hr : Run (Noted Works peak) (b₀, 0) ls (b, most)) :
    b.buffer_.length ≤ max (kCheapPrepend + initialSize) (kCheapPrepend + 2 * most) ∧
      ∀ l b', b.Works l b' → b.buffer_.length < b'.buffer_.length →
        b.buffer_.length < kCheapPrepend + b.demand l.1 := by
  obtain ⟨hi, hlen⟩ : b₀.Inv ∧ b₀.buffer_.length = kCheapPrepend + initialSize := by
    obtain ⟨v, hv, hb⟩ := bind_eq_ok.mp hnew
    rw [szAdd_eq hsize] at hv
    obtain ⟨hle, hl⟩ := vectorResize_ok hv
    obtain ⟨b₁, hnew', hi, -⟩ := new_inv hle
    cases hnew.symm.trans hnew'
    cases hb
    exact ⟨hi, hl⟩
  obtain ⟨hb, hle⟩ := run_bounded hi (Nat.le_of_eq hlen) hr
  refine ⟨hle, fun l b' hs hlt => ?_⟩
  rcases (works_grows hb hs).2 with he | ⟨hg, -⟩
  · omega
  · exact hg

/-- Twenty bytes pass through sixteen, the second ten after the first have been moved
to the front. -/
theorem storage_bounded_sixteen : ∃ b₀ b ls most, Buffer.new 16 = .ok b₀ ∧
    Run (Noted Works peak) (b₀, 0) ls (b, most) ∧ ls.length = 3 ∧ b.buffer_.length = kCheapPrepend + 16 ∧
    b.buffer_.length ≤ max (kCheapPrepend + 16) (kCheapPrepend + 2 * most) ∧
      ∀ l b', b.Works l b' → b.buffer_.length < b'.buffer_.length →
        b.buffer_.length < kCheapPrepend + b.demand l.1 := by
  have hok : (do
      let b ← Buffer.new 16
      let (_, b) ← b.exec (.append (List.replicate 10 1))
      let (_, b) ← b.exec (.retrieve 8)
      let (_, b) ← b.exec (.append (List.replicate 10 2))
      return decide (b.buffer_.length = kCheapPrepend + 16)).toOption = some true := by decide +kernel
  obtain ⟨b₀, hnew, h⟩ := bind_eq_ok.mp (toOption_eq_some.mp hok)
  obtain ⟨⟨o₁, b₁⟩, h₁, h⟩ := bind_eq_ok.mp h
  obtain ⟨⟨o₂, b₂⟩, h₂, h⟩ := bind_eq_ok.mp h
  obtain ⟨⟨o₃, b₃⟩, h₃, h⟩ := bind_eq_ok.mp h
  have hlen : b₃.buffer_.length = kCheapPrepend + 16 := by
    injection h with h
    exact of_decide_eq_true h
  have hrun : Run Works b₀ [(.append (List.replicate 10 1), o₁), (.retrieve 8, o₂),
      (.append (List.replicate 10 2), o₃)] b₃ :=
    .snoc (.snoc (.single ⟨show _ ≤ maxSize by decide +kernel, h₁⟩) ⟨trivial, h₂⟩)
      ⟨show _ ≤ maxSize by decide +kernel, h₃⟩
  obtain ⟨most, hnoted⟩ := hrun.exists_noted peak 0
  exact ⟨b₀, b₃, _, most, hnew, hnoted, rfl, hlen, storage_bounded (by decide) hnew hnoted⟩

end Buffer

end MyMuduo
