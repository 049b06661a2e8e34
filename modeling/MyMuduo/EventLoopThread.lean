import MyMuduo.EventLoop

/-! A loop on the stack of its thread, and the thread that starts and stops it: the
steps of `threadFunc` against those of `~EventLoopThread`. -/

namespace MyMuduo

/-- Where the worker is in `threadFunc`. -/
inductive WorkerPc where
  | notStarted
  | callback
  | publishing
  | published
  | ready
  | looping
  | left
  | clearing
  | cleared
  | unlocked
  | destroyed
  deriving DecidableEq, Repr

/-- The worker is the only thread to hold `mutex_` over more than one step. -/
def WorkerPc.holdsMutex : WorkerPc → Bool
  | .publishing | .published | .clearing | .cleared => true
  | _ => false

/-- `loop()` has returned. -/
def WorkerPc.hasLeft : WorkerPc → Bool
  | .left | .clearing | .cleared | .unlocked | .destroyed => true
  | _ => false

/-- Where the owner is: `tested` to `waking` in `~EventLoopThread`, of which all but
the first with the loop's address at hand. -/
inductive OwnerPc where
  | idle
  | starting
  | tested
  | loaded
  | stored
  | waking
  | joining
  | done
  | crashed
  deriving DecidableEq, Repr

/-- The owner is in `quit` on the loop. -/
def OwnerPc.inQuit : OwnerPc → Bool
  | .loaded | .stored | .waking => true
  | _ => false

/-- The members of the loop that `quit` uses. -/
inductive LoopMember where
  | quit_
  | threadId_
  | wakeupFd_
  deriving DecidableEq, Repr

/-- `loop_` says whether it points to `loop`; `dead` are the uses of the loop after
its destruction. -/
structure EventLoopThread (F : Type) where
  loop_ : Bool
  loop : EventLoop F
  worker : WorkerPc
  owner : OwnerPc
  ownerTid : Tid
  dead : List LoopMember

inductive ThreadAction (F : Type) where
  | start
  | startLoop
  | lock
  | publish
  | unlock
  | loop (a : LoopAction F)
  | clear
  | destroy
  | readLoop
  | loadLoop
  | storeQuit
  | testThread
  | writeWakeup
  | join

/-- The thread that makes a request; none for the loop's own steps. -/
def LoopAction.requester {F : Type} : LoopAction F → Option Tid
  | .queueInLoop t _ => some t
  | .push t => some t
  | .quit t => some t
  | .wakeup t => some t
  | _ => none

namespace EventLoopThread

variable {F : Type}

def new (workerTid ownerTid : Tid) : EventLoopThread F :=
  ⟨false, EventLoop.new workerTid, .notStarted, .idle, ownerTid, []⟩

/-- A member of the loop is used by the owner. -/
def use (s : EventLoopThread F) (m : LoopMember) : EventLoopThread F :=
  if s.worker = .destroyed then { s with dead := s.dead ++ [m] } else s

/-- The worker's part of `a`, which may be a request only in user code on its thread. -/
def execLoop (s : EventLoopThread F) (a : LoopAction F) : Option (EventLoopThread F) :=
  match s.worker, a with
  | .ready, .loop => (s.loop.step .loop).map fun l => { s with loop := l, worker := .looping }
  | .callback, a =>
    if a.requester = some s.loop.threadId_ then (s.loop.step a).map fun l => { s with loop := l } else none
  | .looping, a =>
    if a.requester = none ∨ a.requester = some s.loop.threadId_ then
      (s.loop.step a).map fun l => { s with loop := l, worker := if l.pc = .outside then .left else .looping }
    else none
  | _, _ => none

/-- Both reads of `loop_` in the destructor are made without `mutex_`. -/
def step (s : EventLoopThread F) : ThreadAction F → Option (EventLoopThread F)
  | .start =>
    if s.owner = .idle ∧ s.worker = .notStarted then some { s with owner := .starting, worker := .callback } else none
  | .startLoop =>
    if s.owner = .starting ∧ s.worker.holdsMutex = false ∧ s.loop_ = true then some { s with owner := .idle } else none
  | .lock =>
    match s.worker with
    | .callback => if s.loop.requests s.loop.threadId_ matches .idle then some { s with worker := .publishing } else none
    | .left => some { s with worker := .clearing }
    | _ => none
  | .publish => if s.worker = .publishing then some { s with loop_ := true, worker := .published } else none
  | .unlock =>
    match s.worker with
    | .published => some { s with worker := .ready }
    | .cleared => some { s with worker := .unlocked }
    | _ => none
  | .loop a => s.execLoop a
  | .clear => if s.worker = .clearing then some { s with loop_ := false, worker := .cleared } else none
  | .destroy => if s.worker = .unlocked then some { s with worker := .destroyed } else none
  | .readLoop =>
    if s.owner = .idle then some { s with owner := if s.loop_ then .tested else .done } else none
  | .loadLoop =>
    if s.owner = .tested then some { s with owner := if s.loop_ then .loaded else .crashed } else none
  | .storeQuit =>
    if s.owner = .loaded then
      some { s.use .quit_ with loop := { s.loop with quit_ := true }, owner := .stored }
    else none
  | .testThread =>
    if s.owner = .stored then
      some { s.use .threadId_ with owner := if s.loop.isInLoopThread s.ownerTid then .joining else .waking }
    else none
  | .writeWakeup =>
    if s.owner = .waking then
      some { s.use .wakeupFd_ with loop := s.loop.writeWakeup, owner := .joining }
    else none
  | .join => if s.owner = .joining ∧ s.worker = .destroyed then some { s with owner := .done } else none

def Step (s : EventLoopThread F) (a : ThreadAction F) (s' : EventLoopThread F) : Prop := s.step a = some s'

/-- The worker's test of `quit_` takes it out of `loop()` only when the owner is not
in `quit`, and the owner goes into `quit` only before that. -/
def Apart (s : EventLoopThread F) : ThreadAction F → Prop
  | .loadLoop => s.worker.hasLeft = false
  | .loop .test => s.loop.quit_ = true → s.owner.inQuit = false
  | _ => True

instance (s : EventLoopThread F) (a : ThreadAction F) : Decidable (s.Apart a) := by
  unfold Apart
  split <;> infer_instance

/-- The owner is in `quit` only while the worker has not left `loop()`. -/
structure QuitInv (s : EventLoopThread F) : Prop where
  inside : s.owner.inQuit = true → s.worker.hasLeft = false
  looping : s.worker = .looping → s.loop.pc ≠ .outside
  alive : s.dead = []

theorem use_eq_of_alive {s : EventLoopThread F} (m : LoopMember) (h : s.worker.hasLeft = false) : s.use m = s := by
  unfold use
  rw [if_neg]
  intro hd
  rw [hd] at h
  cases h

/-- Only the test of a set `quit_` takes a loop out of `loop()`. -/
theorem leaves_by_test {l l' : EventLoop F} {a : LoopAction F} (h : l.Step a l') (hpc : l.pc ≠ .outside)
    (hpc' : l'.pc = .outside) : a = .test ∧ l.quit_ = true := by
  rcases EventLoop.step_cases h with ⟨-, ho⟩ | hr
  · cases ho with
    | leave _ hq => exact ⟨rfl, hq⟩
    | _ => cases hpc'
  · cases hr with
    | @wakeup t due _ _ =>
      cases due with
      | true => exact absurd hpc' hpc
      | false => exact absurd hpc' hpc
    | _ => exact absurd hpc' hpc

theorem QuitInv.of_worker {s : EventLoopThread F} {w : WorkerPc} (hi : s.QuitInv)
    (hl : w.hasLeft = s.worker.hasLeft) (hw : w ≠ .looping) (b : Bool) :
    { s with loop_ := b, worker := w }.QuitInv :=
  ⟨fun hh => hl.trans (hi.inside hh), fun hh => absurd hh hw, hi.alive⟩

theorem QuitInv.of_owner {s : EventLoopThread F} {o : OwnerPc} (hi : s.QuitInv)
    (ho : o.inQuit = true → s.worker.hasLeft = false) : { s with owner := o }.QuitInv :=
  ⟨ho, hi.looping, hi.alive⟩

/-- While the worker has not left, nothing that the owner uses is gone. -/
theorem QuitInv.of_use {s : EventLoopThread F} {l : EventLoop F} {o : OwnerPc} (hi : s.QuitInv)
    (ho : s.owner.inQuit = true) (hl : l.pc = s.loop.pc) (m : LoopMember) :
    { s.use m with loop := l, owner := o }.QuitInv := by
  have hw := hi.inside ho
  rw [use_eq_of_alive m hw]
  exact ⟨fun _ => hw, fun hh => by rw [hl]; exact hi.looping hh, hi.alive⟩

theorem execLoop_quitInv {s s' : EventLoopThread F} {a : LoopAction F} (hi : s.QuitInv)
    (hg : s.Apart (.loop a)) (h : s.execLoop a = some s') : s'.QuitInv := by
  unfold execLoop at h
  split at h
  · rename_i hw
    obtain ⟨l, hl, rfl⟩ := Option.map_eq_some_iff.mp h
    refine ⟨fun _ => rfl, fun _ hpc => ?_, hi.alive⟩
    rcases EventLoop.step_cases hl with ⟨-, ho⟩ | hr
    · cases ho
      cases hpc
    · cases hr
  · rename_i hw
    obtain ⟨-, h⟩ := Option.ite_none_right_eq_some.mp h
    obtain ⟨l, hl, rfl⟩ := Option.map_eq_some_iff.mp h
    exact ⟨hi.inside, fun hh => WorkerPc.noConfusion (hw.symm.trans hh), hi.alive⟩
  · rename_i hw
    obtain ⟨-, h⟩ := Option.ite_none_right_eq_some.mp h
    obtain ⟨l, hl, rfl⟩ := Option.map_eq_some_iff.mp h
    by_cases hpc : l.pc = .outside
    · obtain ⟨rfl, hq⟩ := leaves_by_test hl (hi.looping hw) hpc
      refine ⟨fun hh => ?_, fun hh => ?_, hi.alive⟩
      · exact absurd hh (by rw [hg hq]; decide)
      · simp [hpc] at hh
    · exact ⟨fun _ => by simp only [if_neg hpc]; rfl, fun _ => hpc, hi.alive⟩
  · cases h

theorem step_quitInv {s s' : EventLoopThread F} {a : ThreadAction F} (hi : s.QuitInv)
    (h : Guarded Step Apart s a s') : s'.QuitInv := by
  obtain ⟨hg, h⟩ := h
  cases a with
  | loop a => exact execLoop_quitInv hi hg h
  | start =>
    obtain ⟨⟨ho, hw⟩, h⟩ := Option.ite_none_right_eq_some.mp h
    cases h
    exact ⟨fun hh => (by cases hh), fun hh => (by cases hh), hi.alive⟩
  | startLoop =>
    obtain ⟨⟨ho, hw, hl⟩, h⟩ := Option.ite_none_right_eq_some.mp h
    cases h
    exact hi.of_owner fun hh => by cases hh
  | lock =>
    simp only [Step, step] at h
    split at h
    · rename_i hw
      obtain ⟨-, h⟩ := Option.ite_none_right_eq_some.mp h
      cases h
      exact hi.of_worker (by rw [hw]; rfl) WorkerPc.noConfusion _
    · rename_i hw
      cases h
      exact hi.of_worker (by rw [hw]; rfl) WorkerPc.noConfusion _
    · cases h
  | publish =>
    obtain ⟨hw, h⟩ := Option.ite_none_right_eq_some.mp h
    cases h
    exact hi.of_worker (by rw [hw]; rfl) WorkerPc.noConfusion _
  | unlock =>
    simp only [Step, step] at h
    split at h
    · rename_i hw
      cases h
      exact hi.of_worker (by rw [hw]; rfl) WorkerPc.noConfusion _
    · rename_i hw
      cases h
      exact hi.of_worker (by rw [hw]; rfl) WorkerPc.noConfusion _
    · cases h
  | clear =>
    obtain ⟨hw, h⟩ := Option.ite_none_right_eq_some.mp h
    cases h
    exact hi.of_worker (by rw [hw]; rfl) WorkerPc.noConfusion _
  | destroy =>
    obtain ⟨hw, h⟩ := Option.ite_none_right_eq_some.mp h
    cases h
    exact hi.of_worker (by rw [hw]; rfl) WorkerPc.noConfusion _
  | readLoop =>
    obtain ⟨ho, h⟩ := Option.ite_none_right_eq_some.mp h
    cases h
    refine hi.of_owner fun hh => ?_
    split at hh <;> cases hh
  | loadLoop =>
    obtain ⟨ho, h⟩ := Option.ite_none_right_eq_some.mp h
    cases h
    exact hi.of_owner fun _ => hg
  | storeQuit =>
    obtain ⟨ho, h⟩ := Option.ite_none_right_eq_some.mp h
    cases h
    exact hi.of_use (l := { s.loop with quit_ := true }) (by rw [ho]; rfl) rfl .quit_
  | testThread =>
    obtain ⟨ho, h⟩ := Option.ite_none_right_eq_some.mp h
    cases h
    have hu : s.use .threadId_ = s := use_eq_of_alive _ (hi.inside (by rw [ho]; rfl))
    exact hi.of_use (l := (s.use .threadId_).loop) (by rw [ho]; rfl) (by rw [hu]) .threadId_
  | writeWakeup =>
    obtain ⟨ho, h⟩ := Option.ite_none_right_eq_some.mp h
    cases h
    exact hi.of_use (l := s.loop.writeWakeup) (by rw [ho]; rfl) rfl .wakeupFd_
  | join =>
    obtain ⟨ho, h⟩ := Option.ite_none_right_eq_some.mp h
    cases h
    exact hi.of_owner fun hh => by cases hh

/-- The destructor uses no loop that is gone, as long as the worker does not leave
`loop()` while the owner is in `quit`, nor the owner enter `quit` after that. -/
theorem no_dead_use {workerTid ownerTid : Tid} {s : EventLoopThread F} {as : List (ThreadAction F)}
    (hr : Run (Guarded Step Apart) (new workerTid ownerTid) as s) : s.dead = [] :=
  (hr.invariant (I := QuitInv) (fun _ _ _ => step_quitInv)
    ⟨fun _ => rfl, fun hh => (by cases hh), rfl⟩).alive

/-- The owner stops a loop that sleeps. -/
theorem no_dead_use_stop : ∃ s : EventLoopThread Unit,
    Run (Guarded Step Apart) (new 1 0) [.start, .lock, .publish, .unlock, .startLoop, .loop .loop, .loop .start,
      .loop .test, .readLoop, .loadLoop, .storeQuit, .testThread, .writeWakeup, .loop (.poll true), .loop .handleRead,
      .loop .doPendingFunctors, .loop .swap, .loop .finish, .loop .test, .lock, .clear, .unlock, .destroy, .join] s ∧
    s.owner = .done ∧ s.dead = [] := by
  have hr : ∃ s : EventLoopThread Unit, Run (Guarded Step Apart) (new 1 0) [.start, .lock, .publish, .unlock,
      .startLoop, .loop .loop, .loop .start, .loop .test, .readLoop, .loadLoop, .storeQuit, .testThread, .writeWakeup,
      .loop (.poll true), .loop .handleRead, .loop .doPendingFunctors, .loop .swap, .loop .finish, .loop .test, .lock,
      .clear, .unlock, .destroy, .join] s ∧ s.owner = .done :=
    ⟨_, run_of_execAll (f := execGuarded step Apart) (Guarded.of_execGuarded fun _ _ _ h => h) rfl, rfl⟩
  obtain ⟨s, hr, ho⟩ := hr
  exact ⟨s, hr, ho, no_dead_use hr⟩

/-- The loop, awake, sees `quit_` at once, and is gone before `quit` has looked at its
thread and written its descriptor. -/
theorem dead_use : ∃ s : EventLoopThread Unit,
    Run Step (new 1 0) [.start, .lock, .publish, .unlock, .startLoop, .loop .loop, .loop .start, .readLoop, .loadLoop,
      .storeQuit, .loop .test, .lock, .clear, .unlock, .destroy, .testThread, .writeWakeup] s ∧
    s.dead = [.threadId_, .wakeupFd_] :=
  ⟨_, run_of_execAll (f := step) (fun _ _ _ h => h) rfl, rfl⟩

end EventLoopThread

end MyMuduo
