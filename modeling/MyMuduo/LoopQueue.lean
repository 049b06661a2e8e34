import MyMuduo.LoopWakeup

/-! The functors of a loop: each is run once, in the order of the pushes, and a
batch holds only what was queued before its swap. -/

namespace MyMuduo

def LoopAction.isCall {F : Type} : LoopAction F → Bool
  | .call => true
  | _ => false

namespace EventLoop

variable {F : Type}

/-- The functor whose push thread `t` has still to make. -/
def onItsWay (l : EventLoop F) (t : Tid) : List (Tid × F) :=
  match l.requests t with
  | .queueing cb => [(t, cb)]
  | _ => []

structure QueueInv (l : EventLoop F) : Prop where
  queued_eq : l.queue.all = l.queued
  called_eq : ∀ t, l.called.filter (·.1 = t) = l.queued.filter (·.1 = t) ++ l.onItsWay t
  between : (∀ b, l.pc ≠ .running b) → l.queue.batch = []
  marked : ∀ b, l.pc = .running b → l.queue.done.length + l.queue.batch.length = l.swapMark

theorem QueueInv.of_pc {l l' : EventLoop F} (hi : l.QueueInv) (hq : l'.queue = l.queue)
    (hqd : l'.queued = l.queued) (hca : l'.called = l.called) (hr : l'.requests = l.requests)
    (hb : (∀ b, l'.pc ≠ .running b) → l.queue.batch = [])
    (hm : ∀ b, l'.pc = .running b → l.queue.done.length + l.queue.batch.length = l'.swapMark) : l'.QueueInv := by
  refine ⟨by rw [hq, hqd]; exact hi.queued_eq, fun t => ?_, by rw [hq]; exact hb, by rw [hq]; exact hm⟩
  rw [hca, hqd, onItsWay, hr]
  exact hi.called_eq t

theorem ownStep_queueInv {l l' : EventLoop F} {a : LoopAction F} (hi : l.QueueInv) (h : l.OwnStep a l') :
    l'.QueueInv := by
  cases h with
  | loop hpc => exact hi.of_pc rfl rfl rfl rfl (fun _ => hi.between (by simp [hpc])) (by simp)
  | start hpc => exact hi.of_pc rfl rfl rfl rfl (fun _ => hi.between (by simp [hpc])) (by simp)
  | leave hpc hq => exact hi.of_pc rfl rfl rfl rfl (fun _ => hi.between (by simp [hpc])) (by simp)
  | stay hpc hq => exact hi.of_pc rfl rfl rfl rfl (fun _ => hi.between (by simp [hpc])) (by simp)
  | poll hpc hw => exact hi.of_pc rfl rfl rfl rfl (fun _ => hi.between (by simp [hpc])) (by simp)
  | handleRead hpc => exact hi.of_pc rfl rfl rfl rfl (fun _ => hi.between (by simp [hpc])) (by simp)
  | doPendingFunctors hpc => exact hi.of_pc rfl rfl rfl rfl (fun _ => hi.between (by simp [hpc])) (by simp)
  | swap hpc =>
    have hb := hi.between (by simp [hpc])
    refine ⟨(Handoff.all_swap hb).trans hi.queued_eq, hi.called_eq, fun hh => absurd rfl (hh false), fun _ _ => ?_⟩
    have hl := congrArg List.length hi.queued_eq
    simpa [Handoff.all, hb, Handoff.swap] using hl
  | call hpc hpop =>
    obtain ⟨hb, hd, -⟩ := Handoff.pop_eq hpop
    refine ⟨(Handoff.all_pop hpop).trans hi.queued_eq, hi.called_eq, fun hh => absurd rfl (hh true), fun _ _ => ?_⟩
    have hm := hi.marked false hpc
    simp only [hb, List.length_cons] at hm
    simp only [hd, List.length_append, List.length_singleton]
    omega
  | ret hpc => exact hi.of_pc rfl rfl rfl rfl (fun hh => absurd rfl (hh false)) fun _ _ => hi.marked true hpc
  | finish hpc hb => exact hi.of_pc rfl rfl rfl rfl (fun _ => hb) (by simp)

theorem onItsWay_setRequest_of_ne {l : EventLoop F} {t t' : Tid} {r : Request F} (h : t' ≠ t) :
    (l.setRequest t r).onItsWay t' = l.onItsWay t' := by
  simp [onItsWay, setRequest, Function.update_of_ne h]

theorem onItsWay_setRequest {l : EventLoop F} {t t' : Tid} {r : Request F}
    (ho : l.onItsWay t = []) (hr : ∀ cb, r ≠ .queueing cb) : (l.setRequest t r).onItsWay t' = l.onItsWay t' := by
  by_cases h : t' = t
  · rw [h, ho]
    cases r with
    | queueing cb => exact absurd rfl (hr cb)
    | idle => simp [onItsWay, setRequest]
    | pushed => simp [onItsWay, setRequest]
    | stored => simp [onItsWay, setRequest]
  · exact onItsWay_setRequest_of_ne h

/-- A request that neither calls nor pushes leaves the queue alone. -/
theorem QueueInv.of_setRequest {l l' : EventLoop F} {t : Tid} {r : Request F} (hi : l.QueueInv)
    (ho : l.onItsWay t = []) (hr : ∀ cb, r ≠ .queueing cb) (hreq : l'.requests = (l.setRequest t r).requests)
    (hq : l'.queue = l.queue) (hqd : l'.queued = l.queued) (hca : l'.called = l.called) (hpc : l'.pc = l.pc)
    (hm : l'.swapMark = l.swapMark) : l'.QueueInv := by
  refine ⟨by rw [hq, hqd]; exact hi.queued_eq, fun t' => ?_, by rw [hq, hpc]; exact hi.between, by
    rw [hq, hpc, hm]; exact hi.marked⟩
  have hw : l'.onItsWay t' = (l.setRequest t r).onItsWay t' := by rw [onItsWay, hreq, onItsWay]
  rw [hca, hqd, hw, onItsWay_setRequest ho hr]
  exact hi.called_eq t'

theorem requestStep_queueInv {l l' : EventLoop F} {a : LoopAction F} (hi : l.QueueInv)
    (h : l.RequestStep a l') : l'.QueueInv := by
  cases h with
  | @queueInLoop t cb hr hm =>
    refine ⟨hi.queued_eq, fun t' => ?_, hi.between, hi.marked⟩
    have hc := hi.called_eq t'
    change (l.called ++ [(t, cb)]).filter (·.1 = t') =
      l.queued.filter (·.1 = t') ++ (l.setRequest t (.queueing cb)).onItsWay t'
    by_cases ht : t' = t
    · subst ht
      rw [List.filter_append, hc]
      simp [onItsWay, hr, setRequest]
    · rw [onItsWay_setRequest_of_ne ht, List.filter_append, hc]
      simp [Ne.symm ht]
  | @push t cb hr =>
    refine ⟨by rw [Handoff.all_push, hi.queued_eq], fun t' => ?_, hi.between, hi.marked⟩
    have hc := hi.called_eq t'
    change l.called.filter (·.1 = t') =
      (l.queued ++ [(t, cb)]).filter (·.1 = t') ++ (l.setRequest t .pushed).onItsWay t'
    by_cases ht : t' = t
    · subst ht
      rw [hc]
      simp [onItsWay, hr, setRequest, List.filter_append]
    · rw [onItsWay_setRequest_of_ne ht, List.filter_append, hc]
      simp [Ne.symm ht]
  | quit hr hm => exact hi.of_setRequest (r := .stored) (by simp [onItsWay, hr]) (by simp) rfl rfl rfl rfl rfl rfl
  | @wakeup t due hr hdue =>
    have ho : l.onItsWay t = [] := by
      rcases hr with hr | hr
      · simp [onItsWay, hr]
      · simp [onItsWay, hr]
    split
    · exact hi.of_setRequest (r := .idle) ho (by simp) rfl rfl rfl rfl rfl rfl
    · exact hi.of_setRequest (r := .idle) ho (by simp) rfl rfl rfl rfl rfl rfl

theorem step_queueInv {l l' : EventLoop F} {a : LoopAction F} (hi : l.QueueInv) (h : l.Step a l') : l'.QueueInv := by
  rcases step_cases h with ⟨-, hs⟩ | hs
  · exact ownStep_queueInv hi hs
  · exact requestStep_queueInv hi hs

theorem new_queueInv (tid : Tid) : (new tid : EventLoop F).QueueInv :=
  ⟨rfl, fun _ => rfl, fun _ => rfl, by simp [new]⟩

theorem run_queueInv {tid : Tid} {l : EventLoop F} {as : List (LoopAction F)} (hr : Run Step (new tid) as l) :
    l.QueueInv :=
  hr.invariant (fun _ _ _ hi hs => step_queueInv hi hs) (new_queueInv tid)

theorem requestStep_batch {l l' : EventLoop F} {a : LoopAction F} (h : l.RequestStep a l') :
    l'.pc = l.pc ∧ l'.queue.batch = l.queue.batch ∧ a.isCall = false := by
  cases h with
  | queueInLoop hr hm => exact ⟨rfl, rfl, rfl⟩
  | push hr => exact ⟨rfl, rfl, rfl⟩
  | quit hr hm => exact ⟨rfl, rfl, rfl⟩
  | wakeup due hr hdue => split <;> exact ⟨rfl, rfl, rfl⟩

/-- Inside a batch every call uses up one functor and nothing adds one. -/
theorem step_batch {l l' : EventLoop F} {a : LoopAction F} (h : l.Step a l') (hpc : ∃ b, l.pc = .running b)
    (ha : a ≠ .finish) : (∃ b, l'.pc = .running b) ∧
      (if a.isCall = true then 1 else 0) + l'.queue.batch.length = l.queue.batch.length := by
  obtain ⟨b, hpc⟩ := hpc
  rcases step_cases h with ⟨-, hs⟩ | hs
  · cases hs with
    | call hcall hpop =>
      refine ⟨⟨true, rfl⟩, ?_⟩
      simp only [LoopAction.isCall, if_true, (Handoff.pop_eq hpop).1, List.length_cons]
      omega
    | ret hret => exact ⟨⟨false, rfl⟩, by simp [LoopAction.isCall]⟩
    | finish hfin hb => exact absurd rfl ha
    | _ => simp_all
  · obtain ⟨hp, hb, hc⟩ := requestStep_batch hs
    exact ⟨⟨b, hp.trans hpc⟩, by rw [hb, hc]; simp⟩

theorem run_batch {l l' : EventLoop F} {as : List (LoopAction F)} (hr : Run Step l as l')
    (hpc : ∃ b, l.pc = .running b) (has : .finish ∉ as) :
    (∃ b, l'.pc = .running b) ∧
      as.countP LoopAction.isCall + l'.queue.batch.length = l.queue.batch.length := by
  induction hr with
  | nil => exact ⟨hpc, by simp⟩
  | @snoc as a t u _ hs ih =>
    obtain ⟨hpt, ht⟩ := ih fun hm => has (List.mem_append_left _ hm)
    obtain ⟨hpu, hu⟩ := step_batch hs hpt fun he => has (by simp [he])
    refine ⟨hpu, ?_⟩
    rw [List.countP_append, List.countP_singleton]
    omega

/-- What has been executed, what is left of the batch and what is pending are
together what was queued, in order; so each thread's functors run in the order
of its calls. A batch runs only what was queued before its swap, and has at most
as many calls as it holds functors, however many are queued meanwhile. -/
theorem functors_exactly_once {tid : Tid} {l : EventLoop F} {as : List (LoopAction F)}
    (hr : Run Step (new tid) as l) :
    l.queue.done ++ l.queue.batch ++ l.pendingFunctors_ = l.queued ∧
      (∀ t, l.queue.done.filter (·.1 = t) <+: l.called.filter (·.1 = t)) ∧
      (∀ b, l.pc = .running b → l.queue.done <+: l.queued.take l.swapMark) ∧
      ∀ b as' l', l.pc = .running b → Run Step l as' l' → .finish ∉ as' →
        as'.countP LoopAction.isCall ≤ l.queue.batch.length := by
  have hi := run_queueInv hr
  have hdone : l.queue.done <+: l.queued := hi.queued_eq ▸ l.queue.done_prefix
  refine ⟨hi.queued_eq, fun t => ?_, fun b hb => ?_, fun b as' l' hb hr' hf => ?_⟩
  · rw [hi.called_eq t]
    exact (hdone.filter _).trans (List.prefix_append _ _)
  · refine (List.prefix_take_iff).mpr ⟨hdone, ?_⟩
    have := hi.marked b hb
    omega
  · have := (run_batch hr' ⟨b, hb⟩ hf).2
    omega

/-- A functor that queues itself again runs once in its batch. -/
theorem functors_exactly_once_requeue : ∃ l : EventLoop Unit,
    Run Step (new 0) [.queueInLoop 1 (), .push 1, .wakeup 1, .loop, .start, .test, .poll true, .handleRead,
      .doPendingFunctors, .swap, .call, .queueInLoop 0 (), .push 0] l ∧
    l.queue.done ++ l.queue.batch ++ l.pendingFunctors_ = l.queued ∧
      (∀ t, l.queue.done.filter (·.1 = t) <+: l.called.filter (·.1 = t)) ∧
      (∀ b, l.pc = .running b → l.queue.done <+: l.queued.take l.swapMark) ∧
      ∀ b as' l', l.pc = .running b → Run Step l as' l' → .finish ∉ as' →
        as'.countP LoopAction.isCall ≤ l.queue.batch.length := by
  have hr : ∃ l : EventLoop Unit, Run Step (new 0) [.queueInLoop 1 (), .push 1, .wakeup 1, .loop, .start, .test,
      .poll true, .handleRead, .doPendingFunctors, .swap, .call, .queueInLoop 0 (), .push 0] l :=
    ⟨_, run_of_execAll (f := step) (fun _ _ _ h => h) rfl⟩
  obtain ⟨l, hr⟩ := hr
  exact ⟨l, hr, functors_exactly_once hr⟩

end EventLoop

end MyMuduo
