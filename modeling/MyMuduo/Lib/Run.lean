import Mathlib.Logic.Relation

/-! Finite runs of a labelled step relation. An invariant, a guard on the steps
and a property of every prefix are each carried along a run once, here. -/

namespace MyMuduo

universe u v w

variable {σ : Type u} {α : Type v} {step : σ → α → σ → Prop}

/-- The labels `as`, taken in order, lead from `s` to the last index. -/
inductive Run (step : σ → α → σ → Prop) (s : σ) : List α → σ → Prop where
  | nil : Run step s [] s
  | snoc {as : List α} {a : α} {t u : σ} : Run step s as t → step t a u → Run step s (as ++ [a]) u

/-- The steps of `step` taken from a state that admits the label. -/
def Guarded (step : σ → α → σ → Prop) (guard : σ → α → Prop) (s : σ) (a : α) (t : σ) : Prop :=
  guard s a ∧ step s a t

theorem Run.invariant {I : σ → Prop} (hstep : ∀ s a t, I s → step s a t → I t)
    {s t : σ} {as : List α} (hr : Run step s as t) (hs : I s) : I t := by
  induction hr with
  | nil => exact hs
  | snoc _ h ih => exact hstep _ _ _ ih h

/-- As `Run.invariant`, for a property that also speaks of the labels so far. -/
theorem Run.invariant_labels {I : List α → σ → Prop}
    (hstep : ∀ as s a t, I as s → step s a t → I (as ++ [a]) t)
    {s t : σ} {as : List α} (hr : Run step s as t) (hs : I [] s) : I as t := by
  induction hr with
  | nil => exact hs
  | snoc _ h ih => exact hstep _ _ _ _ ih h

theorem Run.mono {step' : σ → α → σ → Prop} (h : ∀ s a t, step s a t → step' s a t)
    {s t : σ} {as : List α} (hr : Run step s as t) : Run step' s as t := by
  induction hr with
  | nil => exact .nil
  | snoc _ hs ih => exact ih.snoc (h _ _ _ hs)

theorem Run.trans {s t u : σ} {as bs : List α} (hr : Run step s as t) (hr' : Run step t bs u) :
    Run step s (as ++ bs) u := by
  induction hr' with
  | nil => simpa using hr
  | snoc _ hs ih => simpa using ih.snoc hs

theorem Run.single {s t : σ} {a : α} (h : step s a t) : Run step s [a] t :=
  Run.snoc .nil h

theorem Run.cons {s t u : σ} {a : α} {as : List α} (h : step s a t) (hr : Run step t as u) :
    Run step s (a :: as) u :=
  (Run.single h).trans hr

/-- When a good state can take any admitted label to a good state, any admitted
labels make a run. -/
theorem Run.exists_of_progress {I : σ → Prop} {ok : α → Prop}
    (hp : ∀ s a, I s → ok a → ∃ t, step s a t ∧ I t) {s : σ} {as : List α} (hs : I s)
    (has : ∀ a ∈ as, ok a) : ∃ t, Run step s as t := by
  induction as generalizing s with
  | nil => exact ⟨s, .nil⟩
  | cons a as ih =>
    obtain ⟨t, ht, hi⟩ := hp s a hs (has a (by simp))
    obtain ⟨u, hu⟩ := ih hi fun b hb => has b (by simp [hb])
    exact ⟨u, Run.cons ht hu⟩

/-- A deterministic step function run over a list of labels. -/
def execAll (f : σ → α → Option σ) : σ → List α → Option σ
  | s, [] => some s
  | s, a :: as => (f s a).bind fun t => execAll f t as

theorem run_of_execAll {f : σ → α → Option σ} (hf : ∀ s a t, f s a = some t → step s a t)
    {s t : σ} {as : List α} (h : execAll f s as = some t) : Run step s as t := by
  induction as generalizing s with
  | nil =>
    cases h
    exact .nil
  | cons a as ih =>
    obtain ⟨r, hr, ht⟩ := Option.bind_eq_some_iff.mp h
    exact Run.cons (hf _ _ _ hr) (ih ht)

/-- The step function, where the guard allows the label. -/
def execGuarded (f : σ → α → Option σ) (guard : σ → α → Prop) [∀ s a, Decidable (guard s a)] (s : σ) (a : α) :
    Option σ :=
  if guard s a then f s a else none

theorem Guarded.of_execGuarded {f : σ → α → Option σ} {guard : σ → α → Prop} [∀ s a, Decidable (guard s a)]
    (hf : ∀ s a t, f s a = some t → step s a t) (s : σ) (a : α) (t : σ) (h : execGuarded f guard s a = some t) :
    Guarded step guard s a t := by
  obtain ⟨hg, h⟩ := Option.ite_none_right_eq_some.mp h
  exact ⟨hg, hf s a t h⟩

/-- A run along which `P`, of the labels so far and the state, never fails. -/
inductive RunAlways (step : σ → α → σ → Prop) (P : List α → σ → Prop) (s : σ) : List α → σ → Prop where
  | nil : P [] s → RunAlways step P s [] s
  | snoc {as : List α} {a : α} {t u : σ} : RunAlways step P s as t → step t a u → P (as ++ [a]) u →
      RunAlways step P s (as ++ [a]) u

theorem RunAlways.run {P : List α → σ → Prop} {s t : σ} {as : List α}
    (hr : RunAlways step P s as t) : Run step s as t := by
  induction hr with
  | nil _ => exact .nil
  | snoc _ hs _ ih => exact ih.snoc hs

theorem RunAlways.holds {P : List α → σ → Prop} {s t : σ} {as : List α}
    (hr : RunAlways step P s as t) : P as t := by
  cases hr with
  | nil h => exact h
  | snoc _ _ h => exact h

/-- When each step from a good state keeps the property exactly if its guard
holds, the runs along which the property never fails are the guarded ones. -/
theorem runAlways_iff_guarded {guard : σ → α → Prop} {I : σ → Prop} {P : List α → σ → Prop}
    (hI : ∀ s a t, I s → step s a t → I t)
    (hP : ∀ as s a t, I s → P as s → step s a t → (P (as ++ [a]) t ↔ guard s a))
    {s t : σ} {as : List α} (hs : I s) (h0 : P [] s) :
    RunAlways step P s as t ↔ Run (Guarded step guard) s as t := by
  constructor
  · intro hr
    induction hr with
    | nil _ => exact .nil
    | snoc hr hstep hp ih =>
      exact ih.snoc ⟨(hP _ _ _ _ (hr.run.invariant hI hs) hr.holds hstep).mp hp, hstep⟩
  · intro hr
    induction hr with
    | nil => exact .nil h0
    | snoc hr hstep ih =>
      have hi := ih.run.invariant hI hs
      exact ih.snoc hstep.2 ((hP _ _ _ _ hi ih.holds hstep.2).mpr hstep.1)

/-- The step relation with a record beside the state, which every step brings up
to date. -/
def Noted {β : Type w} (step : σ → α → σ → Prop) (note : β → σ → α → σ → β) (p : σ × β) (a : α) (q : σ × β) :
    Prop :=
  step p.1 a q.1 ∧ q.2 = note p.2 p.1 a q.1

/-- A record can be kept of every run. -/
theorem Run.exists_noted {β : Type w} (note : β → σ → α → σ → β) (r₀ : β) {s t : σ} {as : List α}
    (hr : Run step s as t) : ∃ r, Run (Noted step note) (s, r₀) as (t, r) := by
  induction hr with
  | nil => exact ⟨r₀, .nil⟩
  | snoc _ h ih =>
    obtain ⟨r, hr⟩ := ih
    exact ⟨note r _ _ _, hr.snoc ⟨h, rfl⟩⟩

end MyMuduo
