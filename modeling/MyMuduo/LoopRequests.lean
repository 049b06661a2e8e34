import MyMuduo.LoopQueue

/-! What a loop owes to the other threads: to return once one of them has called
`quit`, and to have run by then what that thread had queued before. -/

namespace MyMuduo

/-- The flags of `loop()` have been set, and it has not returned. -/
def LoopPc.isLooping : LoopPc → Bool
  | .outside => false
  | .entering => false
  | _ => true

/-- What is pending will be swapped out before the next test of `quit_`. -/
def LoopPc.beforeSwap : LoopPc → Bool
  | .polling => true
  | .dispatching _ => true
  | .calling => true
  | _ => false

/-- A step of the loop's own code, not of a request. -/
def LoopAction.isOwn {F : Type} : LoopAction F → Bool
  | .queueInLoop _ _ => false
  | .push _ => false
  | .quit _ => false
  | .wakeup _ => false
  | _ => true

namespace EventLoop

variable {F : Type}

/-- The loop's own steps can take it out of `loop()`. -/
def Returns (l : EventLoop F) : Prop :=
  ∃ as l', Run Step l as l' ∧ l'.pc = .outside ∧ ∀ a ∈ as, a.isOwn = true

theorem Returns.of_step {l l' : EventLoop F} {a : LoopAction F} (hown : l.requests l.threadId_ = .idle)
    (h : l.stepLoop a = some l') (ha : a.isOwn = true) (hr : l'.Returns) : l.Returns := by
  obtain ⟨as, l'', hr, hpc, has⟩ := hr
  have hs : l.Step a l' := by
    unfold Step step
    rw [hown, h]
  exact ⟨a :: as, l'', Run.cons hs hr, hpc, List.forall_mem_cons.mpr ⟨ha, has⟩⟩

theorem returns_testing {l : EventLoop F} (hown : l.requests l.threadId_ = .idle) (hq : l.quit_ = true)
    (hpc : l.pc = .testing) : l.Returns :=
  .of_step (a := .test) hown (if_pos hpc) rfl ⟨[], _, .nil, if_pos hq, by simp⟩

/-- The batch runs out, however long it is. -/
theorem returns_running {l : EventLoop F} (hown : l.requests l.threadId_ = .idle) (hq : l.quit_ = true)
    (hpc : l.pc = .running false) : l.Returns := by
  generalize hb : l.queue.batch = batch
  induction batch generalizing l with
  | nil => exact .of_step (a := .finish) hown (if_pos ⟨hpc, hb⟩) rfl (returns_testing hown hq rfl)
  | cons f batch ih =>
    have hpop : l.queue.pop = some (f, ⟨l.queue.done ++ [f], batch, l.queue.pending⟩) := by
      unfold Handoff.pop
      rw [hb]
    generalize hl' : { l with queue := ⟨l.queue.done ++ [f], batch, l.queue.pending⟩, pc := .running true } = l'
    have hcall : l.stepLoop .call = some l' := by
      rw [← hl']
      exact (if_pos hpc).trans (congrArg _ hpop)
    have hret : l'.stepLoop .ret = some { l' with pc := .running false } := if_pos (by rw [← hl'])
    exact .of_step hown hcall rfl <| .of_step (by rw [← hl']; exact hown) hret rfl <|
      ih (by rw [← hl']; exact hown) (by rw [← hl']; exact hq) rfl (by rw [← hl'])

/-- A looping loop that is told to quit returns, unless it sleeps unwoken. -/
theorem returns_of_quit {l : EventLoop F} (hown : l.requests l.threadId_ = .idle) (hq : l.quit_ = true)
    (hl : l.pc.isLooping = true) (hw : l.pc = .polling → 0 < l.wakeupFd_) : l.Returns := by
  have hcalling : ∀ {l : EventLoop F}, l.requests l.threadId_ = .idle → l.quit_ = true → l.pc = .calling →
      l.Returns := fun hown hq hpc => .of_step (a := .swap) hown (if_pos hpc) rfl (returns_running hown hq rfl)
  have hdisp : ∀ {l : EventLoop F}, l.requests l.threadId_ = .idle → l.quit_ = true →
      l.pc = .dispatching false → l.Returns :=
    fun hown hq hpc => .of_step (a := .doPendingFunctors) hown (if_pos hpc) rfl (hcalling hown hq rfl)
  have hread : ∀ {l : EventLoop F}, l.requests l.threadId_ = .idle → l.quit_ = true →
      l.pc = .dispatching true → l.Returns :=
    fun hown hq hpc => .of_step (a := .handleRead) hown (if_pos hpc) rfl (hdisp hown hq rfl)
  cases hpc : l.pc with
  | outside => simp [hpc, LoopPc.isLooping] at hl
  | entering => simp [hpc, LoopPc.isLooping] at hl
  | testing => exact returns_testing hown hq hpc
  | polling => exact .of_step (a := .poll true) hown (if_pos ⟨hpc, fun _ => hw hpc⟩) rfl (hread hown hq rfl)
  | dispatching woken =>
    cases woken with
    | true => exact hread hown hq hpc
    | false => exact hdisp hown hq hpc
  | calling => exact hcalling hown hq hpc
  | running inFunctor =>
    cases inFunctor with
    | true => exact .of_step (a := .ret) hown (if_pos hpc) rfl (returns_running hown hq rfl)
    | false => exact returns_running hown hq hpc

end EventLoop

/-- `stopDue`: another thread has called `quit`, and `loop()` has not returned since.
`promised`: what a thread had queued when it last called `quit` on the looping loop. -/
structure LoopClients (F : Type) where
  loop : EventLoop F
  stopDue : Bool
  promised : Tid → List (Tid × F)

namespace LoopClients

variable {F : Type}

def new (tid : Tid) : LoopClients F := ⟨EventLoop.new tid, false, fun _ => []⟩

def noteStop (s : LoopClients F) : LoopAction F → Bool
  | .quit t => s.stopDue || !s.loop.isInLoopThread t
  | .test => s.stopDue && !s.loop.quit_
  | _ => s.stopDue

def notePromise (s : LoopClients F) : LoopAction F → Tid → List (Tid × F)
  | .quit t =>
    if !s.loop.isInLoopThread t && s.loop.pc.isLooping then
      Function.update s.promised t (s.loop.queued.filter (·.1 = t))
    else s.promised
  | _ => s.promised

def step (s : LoopClients F) (a : LoopAction F) : Option (LoopClients F) :=
  (s.loop.step a).map fun l => ⟨l, s.noteStop a, s.notePromise a⟩

def Step (s : LoopClients F) (a : LoopAction F) (s' : LoopClients F) : Prop := s.step a = some s'

theorem step_iff {s s' : LoopClients F} {a : LoopAction F} :
    s.Step a s' ↔ s.loop.Step a s'.loop ∧ s'.stopDue = s.noteStop a ∧ s'.promised = s.notePromise a := by
  constructor
  · intro h
    obtain ⟨l, hl, rfl⟩ := Option.map_eq_some_iff.mp h
    exact ⟨hl, rfl, rfl⟩
  · rintro ⟨hl, hs, hp⟩
    refine Option.map_eq_some_iff.mpr ⟨s'.loop, hl, ?_⟩
    rw [← hs, ← hp]

/-- `loop()` is not called over functors that nothing announces, and does not clear
an order to quit. -/
def InTime (s : LoopClients F) : LoopAction F → Prop
  | .loop => s.loop.EntersAwake .loop
  | .start => s.stopDue = false
  | _ => True

structure StartInv (s : LoopClients F) : Prop where
  wake : s.loop.WakeInv True
  queue : s.loop.QueueInv
  quits : s.stopDue = true → s.loop.quit_ = true

theorem step_quits {s s' : LoopClients F} {a : LoopAction F} (hi : s.stopDue = true → s.loop.quit_ = true)
    (h : Guarded Step InTime s a s') : s'.stopDue = true → s'.loop.quit_ = true := by
  obtain ⟨hg, h⟩ := h
  obtain ⟨hl, hs, -⟩ := step_iff.mp h
  rw [hs]
  intro hd
  rcases EventLoop.step_cases hl with ⟨-, ho⟩ | hq
  · generalize s'.loop = l' at ho
    cases ho with
    | start hpc =>
      have hg : s.stopDue = false := hg
      have hd : s.stopDue = true := hd
      rw [hg] at hd
      cases hd
    | leave hpc hquit => exact hquit
    | stay hpc hquit => exact hi (by simpa [noteStop, hquit] using hd)
    | _ => exact hi hd
  · generalize s'.loop = l' at hq
    cases hq with
    | quit hr hm => rfl
    | wakeup due hr hdue =>
      split
      · exact hi hd
      · exact hi hd
    | _ => exact hi hd

theorem step_startInv {s s' : LoopClients F} {a : LoopAction F} (hi : s.StartInv)
    (h : Guarded Step InTime s a s') : s'.StartInv := by
  obtain ⟨hl, -, -⟩ := step_iff.mp h.2
  refine ⟨EventLoop.step_wakeInv hi.wake (fun _ => ?_) (Or.inl trivial) hl, EventLoop.step_queueInv hi.queue hl,
    step_quits hi.quits h⟩
  cases a with
  | loop => exact h.1
  | _ => trivial

theorem new_startInv (tid : Tid) : (new tid : LoopClients F).StartInv :=
  ⟨EventLoop.new_wakeInv True tid, EventLoop.new_queueInv tid, fun h => by cases h⟩

/-- A loop that sleeps, with no wakeup written or about to be, owes nobody a return
and has run everything that was queued; and one that owes a return makes it. -/
theorem requests_honoured {tid : Tid} {s : LoopClients F} {as : List (LoopAction F)}
    (hr : Run (Guarded Step InTime) (new tid) as s) :
    (s.loop.pc = .polling → s.loop.wakeupFd_ = 0 →
      (∀ t, t ≠ s.loop.threadId_ → s.loop.requests t ≠ .pushed ∧ s.loop.requests t ≠ .stored) →
      s.stopDue = false ∧ s.loop.queue.done = s.loop.queued) ∧
    (s.stopDue = true → s.loop.quit_ = true ∧
      (s.loop.pc.isLooping = true → s.loop.requests s.loop.threadId_ = .idle →
        (s.loop.pc = .polling → 0 < s.loop.wakeupFd_) → s.loop.Returns)) := by
  have hi : s.StartInv := hr.invariant (I := StartInv) (fun _ _ _ => step_startInv) (new_startInv tid)
  refine ⟨fun hpc hz hno => ?_, fun hd => ⟨hi.quits hd, fun hl hown hw => ?_⟩⟩
  · have hasleep : ¬ (s.loop.pendingFunctors_ ≠ [] ∨ s.loop.quit_ = true) := by
      intro hdue
      rcases hi.wake.awake hpc hdue with hpos | ⟨t, hne, ht⟩
      · omega
      · exact ht.elim (hno t hne).1 (hno t hne).2
    rw [not_or, not_not] at hasleep
    refine ⟨?_, ?_⟩
    · cases hd : s.stopDue with
      | false => rfl
      | true => exact absurd (hi.quits hd) hasleep.2
    · have hb := hi.queue.between (by simp [hpc])
      have hp : s.loop.queue.pending = [] := hasleep.1
      rw [← hi.queue.queued_eq, Handoff.all, hb, hp, List.append_nil, List.append_nil]
  · exact EventLoop.returns_of_quit hown (hi.quits hd) hl hw

/-- Another thread queues a functor and tells the loop to quit, once it loops. -/
theorem requests_honoured_quit : ∃ s : LoopClients Unit,
    Run (Guarded Step InTime) (new 0) [.queueInLoop 1 (), .push 1, .wakeup 1, .loop, .start, .quit 1, .wakeup 1] s ∧
    (s.loop.pc = .polling → s.loop.wakeupFd_ = 0 →
      (∀ t, t ≠ s.loop.threadId_ → s.loop.requests t ≠ .pushed ∧ s.loop.requests t ≠ .stored) →
      s.stopDue = false ∧ s.loop.queue.done = s.loop.queued) ∧
    (s.stopDue = true → s.loop.quit_ = true ∧
      (s.loop.pc.isLooping = true → s.loop.requests s.loop.threadId_ = .idle →
        (s.loop.pc = .polling → 0 < s.loop.wakeupFd_) → s.loop.Returns)) := by
  have hr : Run (Guarded Step InTime) (new 0 : LoopClients Unit)
      [.queueInLoop 1 (), .push 1, .wakeup 1, .loop, .start, .quit 1, .wakeup 1] _ :=
    .cons ⟨trivial, rfl⟩ <| .cons ⟨trivial, rfl⟩ <| .cons ⟨trivial, rfl⟩ <|
      .cons ⟨fun _ => Or.inl (by decide), rfl⟩ <| .cons ⟨rfl, rfl⟩ <| .cons ⟨trivial, rfl⟩ <|
      .cons ⟨trivial, rfl⟩ .nil
  exact ⟨_, hr, requests_honoured hr⟩

/-- `loop()` clears a `quit` that came before it, and then sleeps; and it sleeps over
a functor that its own thread has queued before it. Nobody is left to wake it. -/
theorem requests_lost :
    (∃ s : LoopClients Unit, Run Step (new 0) [.quit 1, .wakeup 1, .loop, .start, .test, .poll true, .handleRead,
        .doPendingFunctors, .swap, .finish, .test] s ∧
      s.loop.pc = .polling ∧ s.loop.wakeupFd_ = 0 ∧ (∀ t, s.loop.requests t = .idle) ∧ s.stopDue = true ∧
      s.loop.quit_ = false) ∧
    ∃ s : LoopClients Unit, Run Step (new 0) [.queueInLoop 0 (), .push 0, .wakeup 0, .loop, .start, .test] s ∧
      s.loop.pc = .polling ∧ s.loop.wakeupFd_ = 0 ∧ (∀ t, s.loop.requests t = .idle) ∧
      s.loop.pendingFunctors_ = [(0, ())] := by
  refine ⟨⟨_, run_of_execAll (f := step) (fun _ _ _ h => h) rfl, rfl, rfl, fun t => ?_, rfl, rfl⟩,
    ⟨_, run_of_execAll (f := step) (fun _ _ _ h => h) rfl, rfl, rfl, fun t => ?_, rfl⟩⟩
  · change Function.update (Function.update (fun _ => (Request.idle : Request Unit)) 1 .stored) 1 .idle t = .idle
    rw [Function.update_idem, Function.update_apply, ite_self]
  · change Function.update (Function.update (Function.update (fun _ => (Request.idle : Request Unit)) 0 _) 0 .pushed)
      0 .idle t = .idle
    rw [Function.update_idem, Function.update_idem, Function.update_apply, ite_self]

/-- No other thread calls `quit` over pending functors of its own once the loop has
swapped. -/
def AfterWork (s : LoopClients F) : LoopAction F → Prop
  | .quit t => t ≠ s.loop.threadId_ → s.loop.pc.isLooping = true → s.loop.pc.beforeSwap = false →
      ∀ f ∈ s.loop.pendingFunctors_, f.1 ≠ t
  | _ => True

structure PromiseInv (s : LoopClients F) : Prop where
  queue : s.loop.QueueInv
  queued : ∀ t, s.promised t <+: s.loop.queue.all.filter (·.1 = t)
  swapped : s.loop.pc.beforeSwap = false →
    ∀ t, s.promised t <+: (s.loop.queue.done ++ s.loop.queue.batch).filter (·.1 = t)

theorem filter_all (h : Handoff (Tid × F)) (t : Tid) : h.all.filter (·.1 = t) =
    (h.done ++ h.batch).filter (·.1 = t) ++ h.pending.filter (·.1 = t) := List.filter_append ..

/-- Steps that make no promise and hand nothing over keep what was promised. -/
theorem PromiseInv.of_eq {s s' : LoopClients F} (hi : s.PromiseInv) (hq : s'.loop.QueueInv)
    (hp : s'.promised = s.promised) (hall : s.loop.queue.all <+: s'.loop.queue.all)
    (hdone : s'.loop.pc.beforeSwap = false → s'.loop.queue.done ++ s'.loop.queue.batch = s'.loop.queue.all ∨
      s.loop.pc.beforeSwap = false ∧
        s'.loop.queue.done ++ s'.loop.queue.batch = s.loop.queue.done ++ s.loop.queue.batch) : s'.PromiseInv := by
  have hqueued : ∀ t, s'.promised t <+: s'.loop.queue.all.filter (·.1 = t) := fun t =>
    hp ▸ (hi.queued t).trans (hall.filter _)
  refine ⟨hq, hqueued, fun hb t => ?_⟩
  rcases hdone hb with he | ⟨hb, he⟩
  · rw [he]
    exact hqueued t
  · rw [he, hp]
    exact hi.swapped hb t

/-- The promise that a call of `quit` makes can still be kept. -/
theorem quit_promised {s : LoopClients F} {t : Tid} (hi : s.PromiseInv) (hg : s.AfterWork (.quit t)) (t' : Tid) :
    s.notePromise (.quit t) t' <+: s.loop.queue.all.filter (·.1 = t') ∧
      (s.loop.pc.beforeSwap = false →
        s.notePromise (.quit t) t' <+: (s.loop.queue.done ++ s.loop.queue.batch).filter (·.1 = t')) := by
  simp only [notePromise]
  split
  · rename_i hc
    simp only [EventLoop.isInLoopThread, Bool.and_eq_true, Bool.not_eq_true', beq_eq_false_iff_ne] at hc
    by_cases ht : t' = t
    · subst ht
      rw [Function.update_self, ← hi.queue.queued_eq]
      refine ⟨List.prefix_rfl, fun hb => ?_⟩
      have hnone : s.loop.queue.pending.filter (·.1 = t') = [] :=
        List.filter_eq_nil_iff.mpr fun f hf => by simpa using hg hc.1 hc.2 hb f hf
      simp only [filter_all, hnone, List.append_nil, List.prefix_rfl]
    · rw [Function.update_of_ne ht]
      exact ⟨hi.queued t', fun hb => hi.swapped hb t'⟩
  · exact ⟨hi.queued t', fun hb => hi.swapped hb t'⟩

theorem step_promiseInv {s s' : LoopClients F} {a : LoopAction F} (hi : s.PromiseInv)
    (h : Guarded Step AfterWork s a s') : s'.PromiseInv := by
  obtain ⟨hg, h⟩ := h
  obtain ⟨l', hl, rfl⟩ := Option.map_eq_some_iff.mp h
  have hq := EventLoop.step_queueInv hi.queue hl
  rcases EventLoop.step_cases hl with ⟨-, ho⟩ | hr
  · cases ho with
    | loop hpc => exact hi.of_eq hq rfl List.prefix_rfl fun _ => Or.inr ⟨by rw [hpc]; rfl, rfl⟩
    | start hpc => exact hi.of_eq hq rfl List.prefix_rfl fun _ => Or.inr ⟨by rw [hpc]; rfl, rfl⟩
    | leave hpc _ => exact hi.of_eq hq rfl List.prefix_rfl fun _ => Or.inr ⟨by rw [hpc]; rfl, rfl⟩
    | stay hpc _ => exact hi.of_eq hq rfl List.prefix_rfl fun hb => by cases hb
    | poll hpc _ => exact hi.of_eq hq rfl List.prefix_rfl fun hb => by cases hb
    | handleRead hpc => exact hi.of_eq hq rfl List.prefix_rfl fun hb => by cases hb
    | doPendingFunctors hpc => exact hi.of_eq hq rfl List.prefix_rfl fun hb => by cases hb
    | swap hpc =>
      have hall := Handoff.all_swap (hi.queue.between (by simp [hpc]))
      exact hi.of_eq hq rfl (by simp only [hall, List.prefix_rfl]) fun _ => Or.inl (List.append_nil _).symm
    | call hpc hpop =>
      obtain ⟨hb, hd, -⟩ := Handoff.pop_eq hpop
      exact hi.of_eq hq rfl (by simp only [Handoff.all_pop hpop, List.prefix_rfl])
        fun _ => Or.inr ⟨by rw [hpc]; rfl, by simp [hb, hd]⟩
    | ret hpc => exact hi.of_eq hq rfl List.prefix_rfl fun _ => Or.inr ⟨by rw [hpc]; rfl, rfl⟩
    | finish hpc _ => exact hi.of_eq hq rfl List.prefix_rfl fun _ => Or.inr ⟨by rw [hpc]; rfl, rfl⟩
  · cases hr with
    | queueInLoop _ _ => exact hi.of_eq hq rfl List.prefix_rfl fun hb => Or.inr ⟨hb, rfl⟩
    | push _ =>
      exact hi.of_eq hq rfl (by simp only [Handoff.all_push, List.prefix_append]) fun hb => Or.inr ⟨hb, rfl⟩
    | quit _ _ =>
      have hp := quit_promised hi hg
      exact ⟨hq, fun t => (hp t).1, fun hb t => (hp t).2 hb⟩
    | wakeup due _ _ =>
      cases due with
      | true => exact hi.of_eq hq rfl List.prefix_rfl fun hb => Or.inr ⟨hb, rfl⟩
      | false => exact hi.of_eq hq rfl List.prefix_rfl fun hb => Or.inr ⟨hb, rfl⟩

/-- When `loop()` has returned, each other thread that called `quit` on it has had
run what it had queued before. -/
theorem queued_before_quit_done {tid : Tid} {s : LoopClients F} {as : List (LoopAction F)}
    (hr : Run (Guarded Step AfterWork) (new tid) as s) (hpc : s.loop.pc = .outside) (t : Tid) :
    s.promised t <+: s.loop.queue.done.filter (·.1 = t) := by
  have hi : s.PromiseInv := hr.invariant (I := PromiseInv) (fun _ _ _ => step_promiseInv)
    ⟨EventLoop.new_queueInv tid, fun _ => List.prefix_rfl, fun _ _ => List.prefix_rfl⟩
  have hs := hi.swapped (by rw [hpc]; rfl) t
  rwa [hi.queue.between (by simp [hpc]), List.append_nil] at hs

theorem queued_before_quit_done_polling : ∃ s : LoopClients Unit,
    Run (Guarded Step AfterWork) (new 0) [.loop, .start, .test, .queueInLoop 1 (), .push 1, .wakeup 1, .quit 1,
      .wakeup 1, .poll true, .handleRead, .doPendingFunctors, .swap, .call, .ret, .finish, .test] s ∧
    s.loop.pc = .outside ∧ s.promised 1 = [(1, ())] ∧ s.promised 1 <+: s.loop.queue.done.filter (·.1 = 1) := by
  have hr : Run (Guarded Step AfterWork) (new 0 : LoopClients Unit) [.loop, .start, .test, .queueInLoop 1 (),
      .push 1, .wakeup 1, .quit 1, .wakeup 1, .poll true, .handleRead, .doPendingFunctors, .swap, .call, .ret,
      .finish, .test] _ :=
    .cons ⟨trivial, rfl⟩ <| .cons ⟨trivial, rfl⟩ <| .cons ⟨trivial, rfl⟩ <| .cons ⟨trivial, rfl⟩ <|
      .cons ⟨trivial, rfl⟩ <| .cons ⟨trivial, rfl⟩ <| .cons ⟨fun _ _ hb => (by cases hb), rfl⟩ <|
      .cons ⟨trivial, rfl⟩ <| .cons ⟨trivial, rfl⟩ <| .cons ⟨trivial, rfl⟩ <| .cons ⟨trivial, rfl⟩ <|
      .cons ⟨trivial, rfl⟩ <| .cons ⟨trivial, rfl⟩ <| .cons ⟨trivial, rfl⟩ <| .cons ⟨trivial, rfl⟩ <|
      .cons ⟨trivial, rfl⟩ .nil
  exact ⟨_, hr, rfl, rfl, queued_before_quit_done hr rfl 1⟩

/-- Between the swap and the test of `quit_`, a push and a `quit` leave the functor
behind. -/
theorem queued_before_quit_left : ∃ s : LoopClients Unit,
    Run Step (new 0) [.loop, .start, .test, .poll false, .doPendingFunctors, .swap, .queueInLoop 1 (), .push 1,
      .wakeup 1, .quit 1, .wakeup 1, .finish, .test] s ∧
    s.loop.pc = .outside ∧ s.promised 1 = [(1, ())] ∧ s.loop.queue.done = [] :=
  ⟨_, run_of_execAll (f := step) (fun _ _ _ h => h) rfl, rfl, rfl, rfl⟩

end LoopClients

end MyMuduo
