import Mathlib.Logic.Function.Basic
import MyMuduo.Lib.Handoff
import MyMuduo.Lib.Run

/-! An event loop and the threads that queue functors on it or tell it to quit,
one access to shared data a step. -/

namespace MyMuduo

abbrev Tid := Nat

/-- The largest value an eventfd counter takes. -/
def eventfdMax : Nat := 0xfffffffffffffffe

/-- Writing one to the eventfd; the write is refused when the counter is full. -/
def eventfdWrite (counter : Nat) : Nat := if counter < eventfdMax then counter + 1 else counter

theorem eventfdWrite_pos (counter : Nat) : 0 < eventfdWrite counter := by
  unfold eventfdWrite
  split
  · exact Nat.succ_pos _
  · have : 0 < eventfdMax := by decide
    omega

/-- Where the loop's thread is in `loop()`. `polling` runs from the test of
`quit_` to the return of `poll`; `woken` says that the wakeup channel is among
the active channels still to be handled; `inFunctor` that a functor is being run. -/
inductive LoopPc where
  | outside
  | entering
  | testing
  | polling
  | dispatching (woken : Bool)
  | calling
  | running (inFunctor : Bool)
  deriving DecidableEq, Repr

/-- Where a thread is in `queueInLoop` or `quit`: before its push, or between its
push or store and the test that decides on the wakeup. -/
inductive Request (F : Type) where
  | idle
  | queueing (cb : F)
  | pushed
  | stored

/-- `pendingFunctors_` is `queue.pending` and the local `functors` what remains in
`queue.batch`. `called`, `queued` and `swapMark` are history: the calls and the
pushes so far, and how many pushes came before the last swap. -/
structure EventLoop (F : Type) where
  threadId_ : Tid
  quit_ : Bool
  callingPendingFunctors_ : Bool
  wakeupFd_ : Nat
  queue : Handoff (Tid × F)
  pc : LoopPc
  requests : Tid → Request F
  called : List (Tid × F)
  queued : List (Tid × F)
  swapMark : Nat

/-- `call` and `ret` are the two ends of one functor, `wakeup` the end of a
request by thread `t`. -/
inductive LoopAction (F : Type) where
  | loop
  | start
  | test
  | poll (woken : Bool)
  | handleRead
  | doPendingFunctors
  | swap
  | call
  | ret
  | finish
  | queueInLoop (t : Tid) (cb : F)
  | push (t : Tid)
  | quit (t : Tid)
  | wakeup (t : Tid)

namespace EventLoop

variable {F : Type}

def new (tid : Tid) : EventLoop F :=
  ⟨tid, false, false, 0, Handoff.empty, .outside, fun _ => .idle, [], [], 0⟩

def pendingFunctors_ (l : EventLoop F) : List (Tid × F) := l.queue.pending

def isInLoopThread (l : EventLoop F) (t : Tid) : Bool := t == l.threadId_

/-- Code outside the loop's own is running on the loop's thread: before or after
`loop()`, in a channel's callback, or in a functor. -/
def ownTurn (l : EventLoop F) : Bool :=
  match l.pc with
  | .outside | .dispatching _ | .running true => true
  | _ => false

def mayRequest (l : EventLoop F) (t : Tid) : Bool := !l.isInLoopThread t || l.ownTurn

def setRequest (l : EventLoop F) (t : Tid) (r : Request F) : EventLoop F :=
  { l with requests := Function.update l.requests t r }

def writeWakeup (l : EventLoop F) : EventLoop F := { l with wakeupFd_ := eventfdWrite l.wakeupFd_ }

/-- The steps of `loop()` and `doPendingFunctors()` on the loop's thread. -/
def stepLoop (l : EventLoop F) : LoopAction F → Option (EventLoop F)
  | .loop => if l.pc = .outside then some { l with pc := .entering } else none
  | .start => if l.pc = .entering then some { l with quit_ := false, pc := .testing } else none
  | .test => if l.pc = .testing then some { l with pc := if l.quit_ then .outside else .polling } else none
  | .poll woken =>
    if l.pc = .polling ∧ (woken = true → 0 < l.wakeupFd_) then some { l with pc := .dispatching woken } else none
  | .handleRead =>
    if l.pc = .dispatching true then some { l with wakeupFd_ := 0, pc := .dispatching false } else none
  | .doPendingFunctors =>
    if l.pc = .dispatching false then some { l with callingPendingFunctors_ := true, pc := .calling } else none
  | .swap =>
    if l.pc = .calling then
      some { l with queue := l.queue.swap, swapMark := l.queued.length, pc := .running false }
    else none
  | .call =>
    if l.pc = .running false then
      l.queue.pop.map fun (_, queue) => { l with queue := queue, pc := .running true }
    else none
  | .ret => if l.pc = .running true then some { l with pc := .running false } else none
  | .finish =>
    if l.pc = .running false ∧ l.queue.batch = [] then
      some { l with callingPendingFunctors_ := false, pc := .testing }
    else none
  | _ => none

/-- The steps of `queueInLoop` and `quit` on thread `t`. -/
def stepRequest (l : EventLoop F) : LoopAction F → Option (EventLoop F)
  | .queueInLoop t cb =>
    match l.requests t with
    | .idle =>
      if l.mayRequest t then some { l.setRequest t (.queueing cb) with called := l.called ++ [(t, cb)] } else none
    | _ => none
  | .push t =>
    match l.requests t with
    | .queueing cb =>
      some { l.setRequest t .pushed with queue := l.queue.push (t, cb), queued := l.queued ++ [(t, cb)] }
    | _ => none
  | .quit t =>
    match l.requests t with
    | .idle => if l.mayRequest t then some { l.setRequest t .stored with quit_ := true } else none
    | _ => none
  | .wakeup t =>
    match l.requests t with
    | .pushed =>
      let l' := l.setRequest t .idle
      some (if !l.isInLoopThread t || l.callingPendingFunctors_ then l'.writeWakeup else l')
    | .stored =>
      let l' := l.setRequest t .idle
      some (if !l.isInLoopThread t then l'.writeWakeup else l')
    | _ => none
  | _ => none

/-- The loop's thread goes on only when it is not itself inside a request. -/
def step (l : EventLoop F) (a : LoopAction F) : Option (EventLoop F) :=
  match l.requests l.threadId_, l.stepLoop a with
  | .idle, some l' => some l'
  | _, _ => l.stepRequest a

def Step (l : EventLoop F) (a : LoopAction F) (l' : EventLoop F) : Prop := l.step a = some l'

/-- What the loop's own thread does next, with what it has found. -/
inductive OwnStep (l : EventLoop F) : LoopAction F → EventLoop F → Prop
  | loop (hpc : l.pc = .outside) : OwnStep l .loop { l with pc := .entering }
  | start (hpc : l.pc = .entering) : OwnStep l .start { l with quit_ := false, pc := .testing }
  | leave (hpc : l.pc = .testing) (hq : l.quit_ = true) : OwnStep l .test { l with pc := .outside }
  | stay (hpc : l.pc = .testing) (hq : l.quit_ = false) : OwnStep l .test { l with pc := .polling }
  | poll {woken} (hpc : l.pc = .polling) (hw : woken = true → 0 < l.wakeupFd_) :
      OwnStep l (.poll woken) { l with pc := .dispatching woken }
  | handleRead (hpc : l.pc = .dispatching true) :
      OwnStep l .handleRead { l with wakeupFd_ := 0, pc := .dispatching false }
  | doPendingFunctors (hpc : l.pc = .dispatching false) :
      OwnStep l .doPendingFunctors { l with callingPendingFunctors_ := true, pc := .calling }
  | swap (hpc : l.pc = .calling) :
      OwnStep l .swap { l with queue := l.queue.swap, swapMark := l.queued.length, pc := .running false }
  | call {f queue} (hpc : l.pc = .running false) (hpop : l.queue.pop = some (f, queue)) :
      OwnStep l .call { l with queue := queue, pc := .running true }
  | ret (hpc : l.pc = .running true) : OwnStep l .ret { l with pc := .running false }
  | finish (hpc : l.pc = .running false) (hb : l.queue.batch = []) :
      OwnStep l .finish { l with callingPendingFunctors_ := false, pc := .testing }

/-- What a thread does next in a request; `due` is the outcome of its last test. -/
inductive RequestStep (l : EventLoop F) : LoopAction F → EventLoop F → Prop
  | queueInLoop {t cb} (hr : l.requests t = .idle) (hm : l.mayRequest t = true) :
      RequestStep l (.queueInLoop t cb) { l.setRequest t (.queueing cb) with called := l.called ++ [(t, cb)] }
  | push {t cb} (hr : l.requests t = .queueing cb) :
      RequestStep l (.push t)
        { l.setRequest t .pushed with queue := l.queue.push (t, cb), queued := l.queued ++ [(t, cb)] }
  | quit {t} (hr : l.requests t = .idle) (hm : l.mayRequest t = true) :
      RequestStep l (.quit t) { l.setRequest t .stored with quit_ := true }
  | wakeup {t} (due : Bool) (hr : l.requests t = .pushed ∨ l.requests t = .stored)
      (hdue : due = true ↔ t ≠ l.threadId_ ∨ (l.requests t = .pushed ∧ l.callingPendingFunctors_ = true)) :
      RequestStep l (.wakeup t) (if due then (l.setRequest t .idle).writeWakeup else l.setRequest t .idle)

theorem stepLoop_cases {l l' : EventLoop F} {a : LoopAction F} (h : l.stepLoop a = some l') : l.OwnStep a l' := by
  cases a with
  | loop =>
    simp only [stepLoop, Option.ite_none_right_eq_some, Option.some.injEq] at h
    obtain ⟨hpc, rfl⟩ := h
    exact .loop hpc
  | start =>
    simp only [stepLoop, Option.ite_none_right_eq_some, Option.some.injEq] at h
    obtain ⟨hpc, rfl⟩ := h
    exact .start hpc
  | test =>
    simp only [stepLoop, Option.ite_none_right_eq_some, Option.some.injEq] at h
    obtain ⟨hpc, rfl⟩ := h
    by_cases hq : l.quit_ = true
    · rw [if_pos hq]
      exact .leave hpc hq
    · rw [if_neg hq]
      exact .stay hpc (Bool.eq_false_iff.mpr hq)
  | poll woken =>
    simp only [stepLoop, Option.ite_none_right_eq_some, Option.some.injEq] at h
    obtain ⟨⟨hpc, hw⟩, rfl⟩ := h
    exact .poll hpc hw
  | handleRead =>
    simp only [stepLoop, Option.ite_none_right_eq_some, Option.some.injEq] at h
    obtain ⟨hpc, rfl⟩ := h
    exact .handleRead hpc
  | doPendingFunctors =>
    simp only [stepLoop, Option.ite_none_right_eq_some, Option.some.injEq] at h
    obtain ⟨hpc, rfl⟩ := h
    exact .doPendingFunctors hpc
  | swap =>
    simp only [stepLoop, Option.ite_none_right_eq_some, Option.some.injEq] at h
    obtain ⟨hpc, rfl⟩ := h
    exact .swap hpc
  | call =>
    simp only [stepLoop, Option.ite_none_right_eq_some, Option.map_eq_some_iff] at h
    obtain ⟨hpc, ⟨f, queue⟩, hpop, rfl⟩ := h
    exact .call hpc hpop
  | ret =>
    simp only [stepLoop, Option.ite_none_right_eq_some, Option.some.injEq] at h
    obtain ⟨hpc, rfl⟩ := h
    exact .ret hpc
  | finish =>
    simp only [stepLoop, Option.ite_none_right_eq_some, Option.some.injEq] at h
    obtain ⟨⟨hpc, hb⟩, rfl⟩ := h
    exact .finish hpc hb
  | queueInLoop t cb => cases h
  | push t => cases h
  | quit t => cases h
  | wakeup t => cases h

theorem stepRequest_cases {l l' : EventLoop F} {a : LoopAction F} (h : l.stepRequest a = some l') :
    l.RequestStep a l' := by
  cases a with
  | queueInLoop t cb =>
    simp only [stepRequest] at h
    split at h
    · rename_i hr
      obtain ⟨hm, h⟩ := Option.ite_none_right_eq_some.mp h
      cases h
      exact .queueInLoop hr hm
    · cases h
  | push t =>
    simp only [stepRequest] at h
    split at h
    · rename_i cb hr
      cases h
      exact .push hr
    · cases h
  | quit t =>
    simp only [stepRequest] at h
    split at h
    · rename_i hr
      obtain ⟨hm, h⟩ := Option.ite_none_right_eq_some.mp h
      cases h
      exact .quit hr hm
    · cases h
  | wakeup t =>
    simp only [stepRequest] at h
    split at h
    · rename_i hr
      cases h
      exact .wakeup _ (Or.inl hr) (by simp [isInLoopThread, hr])
    · rename_i hr
      cases h
      exact .wakeup _ (Or.inr hr) (by simp [isInLoopThread, hr])
    · cases h
  | loop => cases h
  | start => cases h
  | test => cases h
  | poll woken => cases h
  | handleRead => cases h
  | doPendingFunctors => cases h
  | swap => cases h
  | call => cases h
  | ret => cases h
  | finish => cases h

theorem step_cases {l l' : EventLoop F} {a : LoopAction F} (h : l.Step a l') :
    l.requests l.threadId_ = .idle ∧ l.OwnStep a l' ∨ l.RequestStep a l' := by
  unfold Step step at h
  split at h
  · rename_i l'' hi hs
    cases h
    exact Or.inl ⟨hi, stepLoop_cases hs⟩
  · exact Or.inr (stepRequest_cases h)

end EventLoop

end MyMuduo
