import Mathlib.Data.List.Basic

/-! A queue handed over in batches: producers push behind, one consumer swaps the
whole queue out and takes it from the front. Nothing is lost or overtaken. -/

namespace MyMuduo

universe u

structure Handoff (α : Type u) where
  done : List α
  batch : List α
  pending : List α

namespace Handoff

variable {α : Type u}

def empty : Handoff α := ⟨[], [], []⟩

def push (h : Handoff α) (a : α) : Handoff α := { h with pending := h.pending ++ [a] }

/-- The consumer's own queue is empty when it swaps. -/
def swap (h : Handoff α) : Handoff α := { h with batch := h.pending, pending := [] }

def pop (h : Handoff α) : Option (α × Handoff α) :=
  match h.batch with
  | [] => none
  | a :: batch => some (a, { h with done := h.done ++ [a], batch := batch })

/-- Everything that was ever pushed, in the order of the pushes. -/
def all (h : Handoff α) : List α := h.done ++ h.batch ++ h.pending

@[simp] theorem all_empty : (empty : Handoff α).all = [] := rfl

@[simp] theorem all_push (h : Handoff α) (a : α) : (h.push a).all = h.all ++ [a] := by
  simp [all, push]

theorem all_swap {h : Handoff α} (hb : h.batch = []) : h.swap.all = h.all := by
  simp [all, swap, hb]

theorem pop_eq {h h' : Handoff α} {a : α} (hp : h.pop = some (a, h')) :
    h.batch = a :: h'.batch ∧ h'.done = h.done ++ [a] ∧ h'.pending = h.pending := by
  unfold pop at hp
  split at hp
  · cases hp
  · rename_i b batch hb
    cases hp
    exact ⟨hb, rfl, rfl⟩

theorem all_pop {h h' : Handoff α} {a : α} (hp : h.pop = some (a, h')) : h'.all = h.all := by
  obtain ⟨hb, hd, hpe⟩ := pop_eq hp
  simp [all, hb, hd, hpe]

theorem done_prefix (h : Handoff α) : h.done <+: h.all := by
  rw [all, List.append_assoc]
  exact List.prefix_append _ _

end Handoff

end MyMuduo
