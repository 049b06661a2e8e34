import Mathlib.Data.List.Basic

/-! Range-checked access to a contiguous vector. A read or a write outside the
storage has no result; a copy inside one vector moves front to back, one
element at a time, so that an overlap shows. -/

namespace MyMuduo

universe u

variable {α : Type u}

/-- The elements of `v` from index `i` up to index `j`. -/
def window (v : List α) (i j : Nat) : List α :=
  (v.drop i).take (j - i)

def readRange (v : List α) (pos len : Nat) : Option (List α) :=
  if pos + len ≤ v.length then some (window v pos (pos + len)) else none

def writeRange (v : List α) (pos : Nat) (data : List α) : Option (List α) :=
  if pos + data.length ≤ v.length then some (v.take pos ++ data ++ v.drop (pos + data.length)) else none

def copyRange : List α → Nat → Nat → Nat → Option (List α)
  | v, _, _, 0 => some v
  | v, first, dest, n + 1 =>
    match v[first]? with
    | none => none
    | some a => if dest < v.length then copyRange (v.set dest a) (first + 1) (dest + 1) n else none

theorem window_length {v : List α} {i j : Nat} (hj : j ≤ v.length) : (window v i j).length = j - i := by
  simp only [window, List.length_take, List.length_drop]
  omega

theorem window_self (v : List α) (i : Nat) : window v i i = [] := by
  simp [window]

theorem window_eq_drop_take (v : List α) (i j : Nat) : window v i j = (v.take j).drop i := by
  rw [window, List.drop_take]

theorem window_take {v : List α} {i j : Nat} (n : Nat) (h : i + n ≤ j) :
    (window v i j).take n = window v i (i + n) := by
  simp only [window, List.take_take]
  congr 1
  omega

theorem window_drop (v : List α) (i j n : Nat) : (window v i j).drop n = window v (i + n) j := by
  simp only [window, List.drop_take, List.drop_drop]
  congr 1
  omega

/-- Only the elements before `j` matter. -/
theorem window_congr {v w : List α} {j : Nat} (i : Nat) (h : v.take j = w.take j) :
    window v i j = window w i j := by
  rw [window_eq_drop_take, window_eq_drop_take, h]

theorem readRange_eq {v : List α} {pos len : Nat} (h : pos + len ≤ v.length) :
    readRange v pos len = some (window v pos (pos + len)) := by
  simp [readRange, h]

theorem writeRange_eq {v : List α} {pos : Nat} {data : List α} (h : pos + data.length ≤ v.length) :
    ∃ w, writeRange v pos data = some w ∧ w.length = v.length ∧ w.take pos = v.take pos ∧
      ∀ i ≤ pos, window w i (pos + data.length) = window v i pos ++ data := by
  refine ⟨v.take pos ++ data ++ v.drop (pos + data.length), by simp [writeRange, h], ?_, ?_, ?_⟩
  · simp only [List.length_append, List.length_take, List.length_drop]
    omega
  · rw [List.append_assoc, List.take_append_of_le_length (by simp; omega), List.take_take]
    simp
  · intro i hi
    have hl : (v.take pos).length = pos := by simp; omega
    have ht : (v.take pos ++ data ++ v.drop (pos + data.length)).take (pos + data.length) =
        v.take pos ++ data := List.take_left' (by simp [hl])
    rw [window_eq_drop_take, window_eq_drop_take, ht,
      List.drop_append_of_le_length (by omega)]

/-- Moving a range towards the front of its own vector keeps its elements,
overlap or not: a cell is overwritten only after it has been read. -/
theorem copyRange_eq {v : List α} {first dest n : Nat} (hd : dest ≤ first) (hf : first + n ≤ v.length) :
    copyRange v first dest n =
      some (v.take dest ++ window v first (first + n) ++ v.drop (dest + n)) := by
  induction n generalizing v first dest with
  | zero => simp [copyRange, window_self]
  | succ n ih =>
    have hlt : first < v.length := by omega
    have hset : (v.set dest v[first]).take (dest + 1) = v.take dest ++ [v[first]] := by
      rw [List.take_succ_eq_append_getElem (by simp; omega), List.take_set_of_le (Nat.le_refl dest)]
      simp
    have hwin : window (v.set dest v[first]) (first + 1) (first + 1 + n) =
        window v (first + 1) (first + 1 + n) := by
      simp only [window, List.drop_set_of_lt (show dest < first + 1 by omega)]
    have hdrop : (v.set dest v[first]).drop (dest + 1 + n) = v.drop (dest + 1 + n) :=
      List.drop_set_of_lt (by omega)
    have hcons : window v first (first + (n + 1)) = v[first] :: window v (first + 1) (first + 1 + n) := by
      simp only [window, Nat.add_sub_cancel_left]
      rw [List.drop_eq_getElem_cons hlt, List.take_succ_cons]
    have hi := ih (v := v.set dest v[first]) (show dest + 1 ≤ first + 1 by omega) (by simp; omega)
    simp only [copyRange, List.getElem?_eq_getElem hlt, show dest < v.length by omega, if_true, hi,
      hset, hwin, hdrop, hcons]
    simp [Nat.add_assoc, Nat.add_comm 1 n]

theorem copyRange_window {v : List α} {first dest n : Nat} (hd : dest ≤ first)
    (hf : first + n ≤ v.length) :
    ∃ w, copyRange v first dest n = some w ∧ w.length = v.length ∧
      window w dest (dest + n) = window v first (first + n) := by
  refine ⟨_, copyRange_eq hd hf, ?_, ?_⟩
  · have := window_length (i := first) hf
    simp only [List.length_append, List.length_take, List.length_drop, this]
    omega
  · have hl : (v.take dest).length = dest := by simp; omega
    have hw : (window v first (first + n)).length = n := by rw [window_length hf]; omega
    rw [window_eq_drop_take, List.take_left' (by simp only [List.length_append, hl, hw]),
      List.drop_left' hl]

end MyMuduo
