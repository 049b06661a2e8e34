import MyMuduo.ThreadSteps

/-! The functors that other threads' `send` and `shutdown` leave in the queue bind
the object and the string by bare pointers: they find both as they were when the
callers see to it that a reference and the bytes last until then. -/

namespace MyMuduo

namespace ConnSystem

def SelfContained (s : ConnSystem) : Prop := ∀ r ∈ s.rawRuns, r.alive = true ∧ r.processed = r.given

/-- A send between its test and its `sendInLoop`. -/
def InFlight (s : ConnSystem) (m : SendArg) : Prop :=
  (∃ t, s.threads t = .sendTested m) ∨ .sendInLoop m ∈ s.queue.batch ++ s.queue.pending ∨
    ∃ k, .sendInLoop m k ∈ s.todo

def rawDue (s : ConnSystem) : Bool :=
  (s.queue.batch ++ s.queue.pending).any ConnTask.isRaw || s.todo.any LoopWork.isRaw

/-- While a functor with a bare `this` is due someone holds a reference, and the
bytes of a send under way are left alone. -/
def Provided (s : ConnSystem) (a : SysAction) : Prop :=
  (s.rawDue = true → s.referenced = true) ∧
    ∀ memory, a = .overwrite memory → ∀ m, s.InFlight m →
      memory.read m.data m.len = s.memory.read m.data m.len

structure DeferredInv (s : ConnSystem) : Prop where
  bytes : ∀ m, s.InFlight m → s.memory.read m.data m.len = m.given
  runs : s.SelfContained
  unreferenced : s.released = true → s.referenced = false
  events : ∀ w ∈ s.todo, w.isEvent = true → s.guarded = true

theorem referenced_eq_false {s : ConnSystem} : s.referenced = false ↔
    s.inMap = false ∧ s.removals = 0 ∧ s.holders = [] ∧ s.guarded = false ∧
      (∀ task ∈ s.taken ++ s.queue.batch ++ s.queue.pending, task.holds = false) ∧
      ∀ w ∈ s.todo, w.isDestroy = false := by
  simp only [referenced, Bool.or_eq_false_iff, decide_eq_false_iff_not, Nat.not_lt, Nat.le_zero,
    Bool.not_eq_false', List.isEmpty_iff, List.any_eq_false, Bool.not_eq_true]
  tauto

theorem reap_deferredInv {s : ConnSystem} (hb : ∀ m, s.InFlight m → s.memory.read m.data m.len = m.given)
    (hr : s.SelfContained) (hu : s.released = true → s.referenced = false)
    (he : ∀ w ∈ s.todo, w.isEvent = true → s.guarded = true) : s.reap.DeferredInv := by
  refine ⟨hb, hr, fun hrel => ?_, fun w hw hev => ?_⟩
  · have hsub : s.referenced = false → s.reap.referenced = false := by
      intro h
      obtain ⟨h1, h2, h3, h4, h5, h6⟩ := referenced_eq_false.mp h
      exact referenced_eq_false.mpr ⟨h1, h2, h3, by simp [reap, h4], h5, h6⟩
    have hrel : (s.released || !s.reap.referenced) = true := hrel
    rcases Bool.or_eq_true_iff.mp hrel with h | h
    · exact hsub (hu h)
    · simpa using h
  · have hne : s.todo.isEmpty = false := by
      cases hs : s.todo with
      | nil =>
        have hw : w ∈ s.todo := hw
        rw [hs] at hw
        cases hw
      | cons v rest => rfl
    simp [reap, he w hw hev, hne]

theorem inFlight_setThread {s : ConnSystem} {t : Tid} {pc : ThreadPc} {m : SendArg}
    (hpc : pc ≠ .sendTested m) (h : (s.setThread t pc).InFlight m) : s.InFlight m := by
  rcases h with ⟨i, hi⟩ | h
  · refine Or.inl ⟨i, ?_⟩
    by_cases hit : i = t
    · subst hit
      simp only [setThread, Function.update_self] at hi
      exact absurd hi hpc
    · simpa only [setThread, Function.update_of_ne hit] using hi
  · exact Or.inr h

theorem inFlight_push {s : ConnSystem} {task : ConnTask} {m : SendArg} (h : (s.push task).InFlight m) :
    s.InFlight m ∨ task = .sendInLoop m := by
  rcases h with h | h | h
  · exact Or.inl (Or.inl h)
  · simp only [push, Handoff.push, ← List.append_assoc, List.mem_append, List.mem_singleton] at h
    rcases h with h | h
    · exact Or.inl (Or.inr (Or.inl (List.mem_append.mpr h)))
    · exact Or.inr h.symm
  · exact Or.inl (Or.inr (Or.inr h))

theorem rawDue_of_todo {s : ConnSystem} {w : LoopWork} {rest : List LoopWork} (h : s.todo = w :: rest)
    (hw : w.isRaw = true) : s.rawDue = true := by
  simp [rawDue, h, hw]

/-- A send that a thread's step has put under way has just read its string. -/
theorem ThreadStep.inFlight {s t : ConnSystem} {a : SysAction} {m : SendArg} (h : s.ThreadStep a t)
    (hm : t.InFlight m) : s.InFlight m ∨ m.given = s.memory.read m.data m.len := by
  cases h with
  | @sendTested i m' hh hst hid hgiven =>
    by_cases he : m' = m
    · exact Or.inr (he ▸ hgiven)
    · exact Or.inl (inFlight_setThread (fun hh => he (by injection hh)) hm)
  | @sendQueued i m' hi =>
    rcases inFlight_push (inFlight_setThread (by simp) hm) with hm | hm
    · exact Or.inl hm
    · cases hm
      exact Or.inl (Or.inl ⟨i, hi⟩)
  | shutdownTested hh hst => exact Or.inl (inFlight_setThread (by simp) hm)
  | @shutdownStored i hi =>
    exact Or.inl (inFlight_setThread (show ThreadPc.shutdownStored ≠ .sendTested m by simp) hm)
  | shutdownQueued hi =>
    rcases inFlight_push (inFlight_setThread (by simp) hm) with hm | hm
    · exact Or.inl hm
    · cases hm
  | posted hr =>
    rcases inFlight_push hm with hm | hm
    · exact Or.inl hm
    · cases hm
  | removed hr =>
    rcases inFlight_push (show (s.push .connectDestroyed).InFlight m from hm) with hm | hm
    · exact Or.inl hm
    · cases hm
  | serverDestroyed hr =>
    rcases inFlight_push (show (s.push .connectDestroyed).InFlight m from hm) with hm | hm
    · exact Or.inl hm
    · cases hm
  | _ => exact Or.inl hm

theorem unreferenced_push {s : ConnSystem} (hu : s.referenced = false) {task : ConnTask} (ht : task.holds = false) :
    (s.push task).referenced = false := by
  obtain ⟨h1, h2, h3, h4, h5, h6⟩ := referenced_eq_false.mp hu
  refine referenced_eq_false.mpr ⟨h1, h2, h3, h4, fun u hm => ?_, h6⟩
  simp only [push, Handoff.push, ← List.append_assoc, List.mem_append, List.mem_singleton] at hm
  rcases hm with hm | rfl
  · exact h5 u (by simpa [or_assoc] using hm)
  · exact ht

/-- Nobody finds a way back to an object without references. -/
theorem ThreadStep.unreferenced {s t : ConnSystem} {a : SysAction} (h : s.ThreadStep a t)
    (hr : s.released = true) (hu : s.referenced = false) : t.referenced = false := by
  obtain ⟨h1, h2, h3, h4, h5, h6⟩ := referenced_eq_false.mp hu
  have hnone : ∀ i, i ∉ s.holders := by simp [h3]
  cases h with
  | sendTested hh => exact absurd hh (hnone _)
  | sendRefused hh => exact absurd hh (hnone _)
  | @sendQueued i m hi => exact unreferenced_push hu (show (ConnTask.sendInLoop m).holds = false from rfl)
  | shutdownTested hh => exact absurd hh (hnone _)
  | shutdownRefused hh => exact absurd hh (hnone _)
  | shutdownStored hi => exact hu
  | shutdownQueued hi => exact unreferenced_push hu (show ConnTask.shutdownInLoop.holds = false from rfl)
  | copied hrel =>
    rw [hr] at hrel
    cases hrel
  | dropped hh => exact absurd hh (hnone _)
  | overwritten => exact hu
  | posted hh => exact unreferenced_push hu (hh hr)
  | removed hrem => omega
  | serverDestroyed hm =>
    rw [h1] at hm
    cases hm

theorem ThreadStep.memory_eq {s t : ConnSystem} {a : SysAction} (h : s.ThreadStep a t) :
    t.memory = s.memory ∨ a = .overwrite t.memory ∧ ∀ m, t.InFlight m → s.InFlight m := by
  cases h with
  | overwritten => exact Or.inr ⟨rfl, fun _ hm => hm⟩
  | _ => exact Or.inl rfl

theorem ThreadStep.deferredInv {s t : ConnSystem} {a : SysAction} (h : s.ThreadStep a t) (hi : s.DeferredInv)
    (hg : s.Provided a) : t.reap.DeferredInv := by
  have hl := h.sameLoop
  refine reap_deferredInv (fun m hm => ?_) ?_ (fun hr => ?_) ?_
  · rcases h.memory_eq with hmem | ⟨ha, hsub⟩
    · rw [hmem]
      rcases h.inFlight hm with hm | hm
      · exact hi.bytes m hm
      · exact hm.symm
    · rw [hg.2 t.memory ha m (hsub m hm)]
      exact hi.bytes m (hsub m hm)
  · rw [SelfContained, hl.rawRuns_eq]
    exact hi.runs
  · rw [hl.released_eq] at hr
    exact h.unreferenced hr (hi.unreferenced hr)
  · rw [hl.todo_eq, hl.guarded_eq]
    exact hi.events

theorem callbacks_not_deferred {e : LoopConn.Delivery} :
    ∀ w ∈ callbacks e, w.isRaw = false ∧ w.isDestroy = false := by
  intro w hw
  simp only [callbacks, List.mem_append] at hw
  rcases hw with (hw | hw) | hw
  all_goals
    split at hw
    · rw [List.mem_singleton.mp hw]
      exact ⟨rfl, rfl⟩
    · cases hw

theorem taskWork_kind {k : WriteOutcome} {cs : List UserCall} {task : ConnTask} :
    ∀ w ∈ taskWork k cs task, w.isEvent = false ∧ (w.isDestroy = true → task.holds = true) ∧
      ∀ m k', w = .sendInLoop m k' → task = .sendInLoop m := by
  intro w hw
  cases task with
  | sendInLoop m =>
    rw [List.mem_singleton.mp hw]
    exact ⟨rfl, by simp [LoopWork.isDestroy], by rintro m' k' ⟨⟩; rfl⟩
  | shutdownInLoop =>
    rw [List.mem_singleton.mp hw]
    exact ⟨rfl, by simp [LoopWork.isDestroy], by simp⟩
  | connectDestroyed =>
    rw [List.mem_singleton.mp hw]
    exact ⟨rfl, fun _ => rfl, by simp⟩
  | functor holds =>
    obtain ⟨c, -, rfl⟩ := List.mem_map.mp hw
    exact ⟨rfl, by simp [LoopWork.isDestroy], by simp⟩

/-- The loop moves on: what is under way, what holds a reference and what is an
event was so before. -/
theorem DeferredInv.of_nextWork {s t : ConnSystem} (hi : s.DeferredInv) (hn : s.NextWork t)
    (hm : t.memory = s.memory) (hre : t.released = s.released) (hf : ∀ m, t.InFlight m → s.InFlight m)
    (hu : s.released = true → s.referenced = false → t.referenced = false)
    (he : ∀ w ∈ t.todo, w.isEvent = true → t.guarded = true) : t.reap.DeferredInv := by
  refine reap_deferredInv (fun m h => ?_) ?_ (fun hr => ?_) he
  · rw [hm]
    exact hi.bytes m (hf m h)
  · rw [SelfContained, hn.rawRuns_eq]
    exact hi.runs
  · rw [hre] at hr
    exact hu hr (hi.unreferenced hr)

theorem LoopStep.deferredInv {s t : ConnSystem} {a : SysAction} (h : s.LoopStep a t) (hi : s.DeferredInv)
    (ha : a ≠ .work) : t.reap.DeferredInv := by
  have hn := h.nextWork ha
  cases h with
  | destroyServerHere hmap hhead =>
    refine hi.of_nextWork hn rfl rfl (fun m hm => hm.imp_right (Or.imp_right ?_)) (fun _ hu => ?_) (fun w hw hev => ?_)
    · rintro ⟨k, hk⟩
      exact ⟨k, by simpa using hk⟩
    · rw [(referenced_eq_false.mp hu).1] at hmap
      cases hmap
    · rcases List.mem_cons.mp hw with rfl | hw
      · cases hev
      · exact hi.events w hw hev
  | poll hp => exact hi.of_nextWork hn rfl rfl (fun _ hm => hm) (fun _ hu => hu) hi.events
  | handleEvent hp hrel =>
    refine hi.of_nextWork hn rfl rfl (fun m hm => hm.imp_right (Or.imp_right ?_)) (fun hr _ => ?_) (fun _ _ _ => rfl)
    · rintro ⟨k, hk⟩
      cases (callbacks_not_deferred _ hk).1
    · rw [hrel] at hr
      cases hr
  | code hp =>
    refine hi.of_nextWork hn rfl rfl (fun m hm => hm.imp_right (Or.imp_right ?_)) (fun _ hu => ?_)
      (fun w hw hev => ?_)
    · rintro ⟨k, hk⟩
      obtain ⟨c, -, hc⟩ := List.mem_map.mp hk
      cases hc
    · obtain ⟨h1, h2, h3, h4, h5, -⟩ := referenced_eq_false.mp hu
      refine referenced_eq_false.mpr ⟨h1, h2, h3, h4, h5, fun w hw => ?_⟩
      obtain ⟨c, -, rfl⟩ := List.mem_map.mp hw
      rfl
    · obtain ⟨c, -, rfl⟩ := List.mem_map.mp hw
      cases hev
  | doPendingFunctors hp =>
    refine hi.of_nextWork hn rfl rfl (fun m hm => hm.imp_right (Or.imp_left fun hb => ?_)) (fun _ hu => ?_) hi.events
    · have hb : ConnTask.sendInLoop m ∈ s.queue.pending := by simpa [Handoff.swap] using hb
      exact List.mem_append.mpr (Or.inr hb)
    · obtain ⟨h1, h2, h3, h4, h5, h6⟩ := referenced_eq_false.mp hu
      refine referenced_eq_false.mpr ⟨h1, h2, h3, h4, fun u hm => h5 u ?_, h6⟩
      simp only [Handoff.swap, List.append_nil, List.mem_append] at hm ⊢
      exact hm.imp_left Or.inl
  | @call k cs task queue hp hpop =>
    obtain ⟨hb, -, hp⟩ := Handoff.pop_eq hpop
    refine hi.of_nextWork hn rfl rfl (fun m hm => ?_) (fun _ hu => ?_) (fun w hw hev => ?_)
    · rcases hm with hm | hm | ⟨k', hk⟩
      · exact Or.inl hm
      · refine Or.inr (Or.inl ?_)
        simp only [hp] at hm
        rw [hb]
        exact List.mem_cons_of_mem _ hm
      · have htask : task = .sendInLoop m := (taskWork_kind _ hk).2.2 m k' rfl
        rw [htask] at hb
        exact Or.inr (Or.inl (by simp [hb]))
    · obtain ⟨h1, h2, h3, h4, h5, -⟩ := referenced_eq_false.mp hu
      have h5' : ∀ u ∈ s.taken ++ task :: queue.batch ++ queue.pending, u.holds = false := by
        rwa [hb, ← hp] at h5
      refine referenced_eq_false.mpr ⟨h1, h2, h3, h4, fun u hm => h5' u ?_, fun w hw => ?_⟩
      · simpa using hm
      · have htask : task.holds = false := h5' task (by simp)
        have hd := (taskWork_kind w hw).2.1
        rw [htask] at hd
        simpa using hd
    · rw [(taskWork_kind w hw).1] at hev
      cases hev
  | finish hp hb =>
    refine hi.of_nextWork hn rfl rfl (fun _ hm => hm) (fun _ hu => ?_) hi.events
    obtain ⟨h1, h2, h3, h4, h5, h6⟩ := referenced_eq_false.mp hu
    refine referenced_eq_false.mpr ⟨h1, h2, h3, h4, fun u hm => h5 u ?_, h6⟩
    simp only [List.nil_append, List.append_assoc, List.mem_append] at hm ⊢
    exact Or.inr hm
  | work htodo hu h => exact absurd rfl ha

/-- A functor with a bare `this` reads `this` and the memory as they are now. -/
theorem exec_rawRuns {s t : ConnSystem} {w : LoopWork} {rest : List LoopWork} (h : s.exec rest w = some t) :
    ∀ r ∈ t.rawRuns, r ∈ s.rawRuns ∨ r.alive = !s.released ∧
      (r.processed = r.given ∨
        ∃ m k, w = .sendInLoop m k ∧ r.processed = s.memory.read m.data m.len ∧ r.given = m.given) := by
  intro r hr
  cases w with
  | sendInLoop m k =>
    simp only [exec, Option.map_eq_some_iff] at h
    obtain ⟨conn, -, rfl⟩ := h
    rcases List.mem_append.mp hr with hr | hr
    · exact Or.inl hr
    · rw [List.mem_singleton.mp hr]
      exact Or.inr ⟨rfl, Or.inr ⟨m, k, rfl, by simp [Span.bytes, Span.read], rfl⟩⟩
  | shutdownInLoop queued =>
    cases h
    rcases List.mem_append.mp hr with hr | hr
    · exact Or.inl hr
    · split at hr
      · rw [List.mem_singleton.mp hr]
        exact Or.inr ⟨rfl, Or.inl rfl⟩
      · cases hr
  | user c =>
    cases c with
    | send d k =>
      simp only [exec, execUser] at h
      split at h
      · cases h
        exact Or.inl hr
      · cases h
        exact Or.inl hr
    | shutdown =>
      cases h
      exact Or.inl hr
    | input op =>
      simp only [exec, execUser, Option.map_eq_some_iff] at h
      obtain ⟨⟨out, b⟩, -, rfl⟩ := h
      exact Or.inl hr
  | read k cs =>
    simp only [exec, Option.map_eq_some_iff] at h
    obtain ⟨⟨n, e, b⟩, -, rfl⟩ := h
    split at hr
    · exact Or.inl hr
    · exact Or.inl hr
  | close cs =>
    simp only [exec, Option.map_eq_some_iff] at h
    obtain ⟨conn, -, rfl⟩ := h
    exact Or.inl hr
  | closeCallback =>
    cases h
    exact Or.inl hr
  | write k =>
    simp only [exec, Option.map_eq_some_iff] at h
    obtain ⟨conn, -, rfl⟩ := h
    exact Or.inl hr
  | sendSpan id d k =>
    simp only [exec, Option.map_eq_some_iff] at h
    obtain ⟨conn, -, rfl⟩ := h
    exact Or.inl hr
  | shutdownStore =>
    cases h
    exact Or.inl hr
  | destroyTest =>
    cases h
    exact Or.inl hr
  | destroyStore =>
    simp only [exec, Option.map_eq_some_iff] at h
    obtain ⟨conn, -, rfl⟩ := h
    exact Or.inl hr
  | destroyRemove =>
    simp only [exec, Option.map_eq_some_iff] at h
    obtain ⟨conn, -, rfl⟩ := h
    exact Or.inl hr

/-- Whatever the loop does for the connection, it does through a reference or for
a functor with a bare `this`. -/
theorem LoopWork.kinds (w : LoopWork) :
    w.isUser = true ∨ w.isEvent = true ∨ w.isDestroy = true ∨ w.isRaw = true := by
  cases w with
  | shutdownInLoop queued => cases queued <;> simp [LoopWork.isUser, LoopWork.isRaw]
  | _ => simp [LoopWork.isUser, LoopWork.isEvent, LoopWork.isDestroy, LoopWork.isRaw]

/-- No work is done on a destroyed object. -/
theorem work_alive {s : ConnSystem} {w : LoopWork} {rest : List LoopWork} (hi : s.DeferredInv)
    (hg : s.rawDue = true → s.referenced = true) (htodo : s.todo = w :: rest)
    (hu : s.released = true → w.isUser = false) : s.released = false := by
  by_contra hr
  have hr : s.released = true := by simpa using hr
  have href := hi.unreferenced hr
  obtain ⟨-, -, -, hgu, -, hde⟩ := referenced_eq_false.mp href
  have hw : w ∈ s.todo := by simp [htodo]
  rcases LoopWork.kinds w with h | h | h | h
  · rw [hu hr] at h
    cases h
  · rw [hi.events w hw h] at hgu
    cases hgu
  · rw [hde w hw] at h
    cases h
  · rw [hg (rawDue_of_todo htodo h)] at href
    cases href

theorem work_deferredInv {s t : ConnSystem} {w : LoopWork} {rest : List LoopWork} (hi : s.DeferredInv)
    (hg : s.Provided .work) (htodo : s.todo = w :: rest) (hu : s.released = true → w.isUser = false)
    (h : s.exec rest w = some t) : t.reap.DeferredInv := by
  have hrel := work_alive hi hg.1 htodo hu
  have hf := exec_frame h
  obtain ⟨notes, hnotes, hp⟩ := hf.pending_eq
  have hsub : ∀ m, t.InFlight m → s.InFlight m := by
    rintro m (⟨i, hm⟩ | hm | ⟨k, hm⟩)
    · exact Or.inl ⟨i, hf.threads_eq ▸ hm⟩
    · rw [hf.batch_eq, hp, ← List.append_assoc] at hm
      rcases List.mem_append.mp hm with hm | hm
      · exact Or.inr (Or.inl hm)
      · cases hnotes _ hm
    · rcases hf.mem_todo hm with hm | hm
      · exact Or.inr (Or.inr ⟨k, htodo ▸ List.mem_cons_of_mem _ hm⟩)
      · cases hm.raw
  refine reap_deferredInv (fun m hm => ?_) (fun r hr => ?_) (fun hr => ?_) (fun v hv hev => ?_)
  · rw [hf.memory_eq]
    exact hi.bytes m (hsub m hm)
  · rcases exec_rawRuns h r hr with hr | ⟨ha, hb⟩
    · exact hi.runs r hr
    · refine ⟨by simpa [hrel] using ha, ?_⟩
      rcases hb with hb | ⟨m, k, rfl, hproc, hgiven⟩
      · exact hb
      · rw [hproc, hgiven]
        exact hi.bytes m (Or.inr (Or.inr ⟨k, by simp [htodo]⟩))
  · rw [hf.released_eq, hrel] at hr
    cases hr
  · rw [hf.guarded_eq]
    rcases hf.mem_todo hv with hv | hv
    · exact hi.events v (htodo ▸ List.mem_cons_of_mem _ hv) hev
    · exact hi.events w (by simp [htodo]) (hv.event hev)

theorem step_deferredInv {s s' : ConnSystem} {a : SysAction} (hi : s.DeferredInv)
    (h : Guarded Step Provided s a s') : s'.DeferredInv := by
  obtain ⟨hg, h⟩ := h
  obtain ⟨t, ht | ht, rfl⟩ := step_cases h
  · exact ht.deferredInv hi hg
  · by_cases ha : a = .work
    · subst ha
      cases ht with
      | work htodo hu h => exact work_deferredInv hi hg htodo hu h
    · exact ht.deferredInv hi ha

theorem start_deferredInv (w : LoopConn) (memory : Memory) (cs : List UserCall) :
    (start w memory cs).DeferredInv := by
  refine ⟨?_, by simp [SelfContained, start], by simp [start], fun v hv hev => ?_⟩
  · rintro m (⟨t, hm⟩ | hm | ⟨k, hm⟩)
    · cases hm
    · cases hm
    · obtain ⟨c, -, hc⟩ := List.mem_map.mp hm
      cases hc
  · obtain ⟨c, -, rfl⟩ := List.mem_map.mp hv
    cases hev

/-- In every run that keeps a reference while functors with a bare `this` are due,
and leaves the bytes of sends under way alone, each such functor finds the object
alive and the bytes that its call was given. -/
theorem deferred_calls_self_contained {w : LoopConn} {memory : Memory} {cs : List UserCall}
    {as : List SysAction} {s : ConnSystem} (hr : Run (Guarded Step Provided) (start w memory cs) as s) :
    s.SelfContained :=
  (hr.invariant (fun _ _ _ hi h => step_deferredInv hi h) (start_deferredInv w memory cs)).runs

/-- `Provided`, for runs in which no string is overwritten. -/
def keepsReference (s : ConnSystem) (a : SysAction) : Bool :=
  (!s.rawDue || s.referenced) && match a with
    | .overwrite _ => false
    | _ => true

theorem provided_of_keepsReference {s : ConnSystem} {a : SysAction} (h : s.keepsReference a = true) :
    s.Provided a := by
  obtain ⟨hr, ha⟩ := Bool.and_eq_true_iff.mp h
  refine ⟨fun hd => by simpa [hd] using hr, fun memory he => ?_⟩
  subst he
  cases ha

/-- Another thread sends and shuts down, and keeps its pointer; the functors run
after the server has taken the connection off its loop. -/
theorem deferred_calls_self_contained_kept : ∃ w as s, w.Established ∧
    Run (Guarded Step Provided) (start w (fun a => a.toNat.toUInt8) []) as s ∧ s.rawRuns.length = 2 ∧
      s.SelfContained := by
  obtain ⟨w, s, hw, hr, hq⟩ := exists_run_of_trial
    (f := fun s a => if s.keepsReference a then s.step a else none)
    (fun s a t h => by
      rw [Option.ite_none_right_eq_some] at h
      exact (⟨provided_of_keepsReference h.1, h.2⟩ : Guarded Step Provided s a t))
    (fun a => a.toNat.toUInt8)
    [.copy 1, .send 1 3 2, .destroyServer, .sendQueue 1, .shutdown 1, .shutdownStore 1, .shutdownQueue 1,
      .finish, .poll false, .doPendingFunctors, .call (.accepts 0 0) [], .work, .work,
      .call (.accepts 2 0) [], .work, .call (.accepts 0 0) [], .work, .finish, .drop 1]
    (fun s => s.rawRuns.length == 2) (by decide +kernel)
  exact ⟨w, _, s, hw, hr, by simpa using hq, deferred_calls_self_contained hr⟩

/-- Another thread's `send` returns and its string is overwritten; the functor
sends what is there then. In a second run the peer closes, the last pointer is
dropped, and the functor runs on the destroyed object. -/
theorem deferred_calls_dangling :
    (∃ w as s, w.Established ∧ Run Step (start w (fun _ => 0) []) as s ∧
      (∃ r ∈ s.rawRuns, r.processed ≠ r.given) ∧ ¬ s.SelfContained) ∧
    ∃ w as s, w.Established ∧ Run Step (start w (fun _ => 0) []) as s ∧
      (∃ r ∈ s.rawRuns, r.alive = false) ∧ ¬ s.SelfContained := by
  constructor
  · obtain ⟨w, s, hw, hr, hq⟩ := exists_run_of_trial (f := step) (fun _ _ _ h => h) (fun _ => 0)
      [.copy 1, .send 1 0 2, .sendQueue 1, .overwrite fun _ => 1, .finish, .poll false, .doPendingFunctors,
        .call (.accepts 2 0) [], .work]
      (fun s => s.rawRuns.any fun r => r.processed != r.given) (by decide +kernel)
    obtain ⟨r, hm, hne⟩ := List.any_eq_true.mp hq
    have hne : r.processed ≠ r.given := by simpa using hne
    exact ⟨w, _, s, hw, hr, ⟨r, hm, hne⟩, fun hs => hne (hs r hm).2⟩
  · obtain ⟨w, s, hw, hr, hq⟩ := exists_run_of_trial (f := step) (fun _ _ _ h => h) (fun _ => 0)
      [.copy 1, .send 1 0 2, .finish, .poll true, .handleEvent ⟨EPOLLHUP, .data [], .accepts 0 0, [], []⟩,
        .work, .work, .removeConnection, .doPendingFunctors, .call (.accepts 0 0) [], .work, .work, .finish,
        .sendQueue 1, .drop 1, .poll false, .doPendingFunctors, .call (.accepts 2 0) [], .work]
      (fun s => s.rawRuns.any fun r => !r.alive) (by decide +kernel)
    obtain ⟨r, hm, hd⟩ := List.any_eq_true.mp hq
    have hd : r.alive = false := by simpa using hd
    exact ⟨w, _, s, hw, hr, ⟨r, hm, hd⟩, fun hs => absurd (hs r hm).1 (by simp [hd])⟩

end ConnSystem

end MyMuduo
