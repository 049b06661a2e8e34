import Mathlib.Algebra.Order.Ring.Nat

/-! Decimal notation of integers: no two share one, and it is as long as the number
of digits allows. -/

namespace MyMuduo

def decimal (n : Int) : List Char :=
  if n < 0 then '-' :: Nat.toDigits 10 n.natAbs else Nat.toDigits 10 n.natAbs

theorem toDigits_injective {m n : Nat} (h : Nat.toDigits 10 m = Nat.toDigits 10 n) : m = n := by
  have hd := congrArg (fun ds => Nat.ofDigitChars 10 ds 0) h
  simpa using hd

theorem minus_notMem_toDigits (n : Nat) : '-' ∉ Nat.toDigits 10 n := by
  intro h
  have hd := Nat.isDigit_of_mem_toDigits (by decide) (by decide) h
  simp at hd

theorem decimal_injective {m n : Int} (h : decimal m = decimal n) : m = n := by
  have hno : ∀ (a b : Nat), '-' :: Nat.toDigits 10 a ≠ Nat.toDigits 10 b := fun a b he =>
    minus_notMem_toDigits b (he ▸ List.mem_cons_self)
  unfold decimal at h
  split at h
  · split at h
    · have := toDigits_injective (List.cons.inj h).2
      omega
    · exact absurd h (hno _ _)
  · split at h
    · exact absurd h.symm (hno _ _)
    · have := toDigits_injective h
      omega

theorem decimal_length_le {n : Int} {k : Nat} (hk : 0 < k) (h : n.natAbs < 10 ^ k) : (decimal n).length ≤ k + 1 := by
  have hl := (Nat.length_toDigits_le_iff (b := 10) (by decide) hk).mpr h
  unfold decimal
  split
  · simpa using hl
  · exact Nat.le_succ_of_le hl

theorem decimal_length_le_of_nonneg {n : Int} {k : Nat} (hk : 0 < k) (hn : 0 ≤ n) (h : n.natAbs < 10 ^ k) :
    (decimal n).length ≤ k := by
  rw [decimal, if_neg (Int.not_lt.mpr hn)]
  exact (Nat.length_toDigits_le_iff (by decide) hk).mpr h

end MyMuduo
