import Mathlib.Order.Lattice
import Mathlib.Data.List.Basic

/-! The upward crossings of a level by a sequence of values: where they are, and
that the sequence is below the level between any two of them. -/

namespace MyMuduo

universe u

variable {α : Type u} [LinearOrder α]

/-- The value reached, if the step from `a` to `b` reaches the level. -/
def crossing (m a b : α) : List α := if a < m ∧ m ≤ b then [b] else []

/-- The crossings of a sequence that starts at `a`, one entry for each value after it. -/
def upcrossings (m : α) : α → List α → List (List α)
  | _, [] => []
  | a, b :: bs => crossing m a b :: upcrossings m b bs

theorem crossing_eq_nil {m a b : α} (h : a < m → b < m) : crossing m a b = [] :=
  if_neg fun hh => absurd hh.2 (not_le.mpr (h hh.1))

theorem crossing_ne_nil {m a b : α} (h : crossing m a b ≠ []) : a < m ∧ m ≤ b := by
  by_contra hc
  exact h (if_neg hc)

@[simp] theorem upcrossings_length (m a : α) (bs : List α) : (upcrossings m a bs).length = bs.length := by
  induction bs generalizing a with
  | nil => rfl
  | cons b bs ih => rw [upcrossings, List.length_cons, ih, List.length_cons]

theorem upcrossings_append (m a : α) (bs cs : List α) :
    upcrossings m a (bs ++ cs) = upcrossings m a bs ++ upcrossings m (bs.getLastD a) cs := by
  induction bs generalizing a with
  | nil => rfl
  | cons b bs ih => rw [List.cons_append, upcrossings, ih, upcrossings, List.cons_append, List.getLastD_cons]

theorem upcrossings_concat (m a b : α) (bs : List α) :
    upcrossings m a (bs ++ [b]) = upcrossings m a bs ++ [crossing m (bs.getLastD a) b] :=
  upcrossings_append m a bs [b]

/-- After a crossing the sequence has to come below the level before the next. -/
theorem below_between {m a b c : α} {bs cs ds : List α} {x y : List α} {xs ys zs : List (List α)}
    (h : upcrossings m a (bs ++ b :: (cs ++ c :: ds)) = xs ++ x :: (ys ++ y :: zs))
    (hxs : xs.length = bs.length) (hys : ys.length = cs.length) (hx : x ≠ []) (hy : y ≠ []) :
    ∃ d ∈ cs, d < m := by
  rw [upcrossings_append, upcrossings, upcrossings_append, upcrossings] at h
  have hfront := (List.append_inj h (by rw [upcrossings_length, hxs])).2
  obtain ⟨hx', hrest⟩ := List.cons.inj hfront
  have hback := (List.append_inj hrest (by rw [upcrossings_length, hys])).2
  have hb : m ≤ b := (crossing_ne_nil (hx' ▸ hx)).2
  have hlast : cs.getLastD b < m := (crossing_ne_nil ((List.cons.inj hback).1 ▸ hy)).1
  rcases List.mem_cons.mp (List.getLastD_mem_cons (l := cs) (a := b)) with he | hm
  · rw [he] at hlast
    exact absurd hb (not_le.mpr hlast)
  · exact ⟨_, hm, hlast⟩

end MyMuduo
