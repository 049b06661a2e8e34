import Mathlib.Data.Set.Function
import MyMuduo.Platform
import MyMuduo.Lib.Run

/-! Channels and the poller that registers them: the map from descriptors to
channels, the kernel's interest set, and the index each channel carries. -/

namespace MyMuduo

abbrev Events := BitVec 32

def EPOLLIN : Events := 0x001

def EPOLLPRI : Events := 0x002

def EPOLLOUT : Events := 0x004

def EPOLLERR : Events := 0x008

def EPOLLHUP : Events := 0x010

def kNoneEvent : Events := 0

def kReadEvent : Events := EPOLLIN ||| EPOLLPRI

def kWriteEvent : Events := EPOLLOUT

/-- The three values of `index_`: -1, 1 and 2. -/
inductive Index where
  | kNew
  | kAdded
  | kDeleted
  deriving DecidableEq, Repr

abbrev ChannelPtr := Nat

/-- `self` is the address of the object, which the poller stores. -/
structure Channel where
  self : ChannelPtr
  fd_ : Fd
  events_ : Events
  revents_ : Events
  index_ : Index
  tied_ : Bool
  deriving DecidableEq, Repr

namespace Channel

def new (self : ChannelPtr) (fd : Fd) : Channel := ⟨self, fd, kNoneEvent, 0, .kNew, false⟩

def isNoneEvent (c : Channel) : Bool := c.events_ == kNoneEvent

def isWriting (c : Channel) : Bool := c.events_ &&& kWriteEvent != 0

def isReading (c : Channel) : Bool := c.events_ &&& kReadEvent != 0

def tie (c : Channel) : Channel := { c with tied_ := true }

end Channel

structure EpollEvent where
  events : Events
  ptr : ChannelPtr
  deriving DecidableEq, Repr

inductive CtlOp where
  | add
  | mod
  | del
  deriving DecidableEq, Repr

abbrev InterestSet := Fd → Option EpollEvent

/-- `epoll_ctl`: adding wants the descriptor absent, the other two present. -/
def epollCtl (set : InterestSet) : CtlOp → Fd → EpollEvent → Option InterestSet
  | .add, fd, event => if (set fd).isSome then none else some (Function.update set fd (some event))
  | .mod, fd, event => if (set fd).isSome then some (Function.update set fd (some event)) else none
  | .del, fd, _ => if (set fd).isSome then some (Function.update set fd none) else none

structure CtlCall where
  operation : CtlOp
  fd : Fd
  ok : Bool
  deriving DecidableEq, Repr

/-- `calls` records each `epoll_ctl` that was issued and whether it succeeded. -/
structure EPollPoller where
  channels_ : Fd → Option ChannelPtr
  epollfd_ : InterestSet
  calls : List CtlCall

namespace EPollPoller

def new : EPollPoller := ⟨fun _ => none, fun _ => none, []⟩

def hasChannel (p : EPollPoller) (c : Channel) : Bool := p.channels_ c.fd_ == some c.self

/-- A failed removal is logged and forgotten; any other failure is fatal. -/
def update (p : EPollPoller) (operation : CtlOp) (c : Channel) : Except Fault EPollPoller :=
  match epollCtl p.epollfd_ operation c.fd_ ⟨c.events_, c.self⟩ with
  | some set => .ok { p with epollfd_ := set, calls := p.calls ++ [⟨operation, c.fd_, true⟩] }
  | none =>
    if operation = .del then .ok { p with calls := p.calls ++ [⟨operation, c.fd_, false⟩] }
    else .error .logFatal

def updateChannel (p : EPollPoller) (c : Channel) : Except Fault (EPollPoller × Channel) :=
  if c.index_ = .kNew ∨ c.index_ = .kDeleted then do
    let p := if c.index_ = .kNew then
      { p with channels_ := Function.update p.channels_ c.fd_ (some c.self) } else p
    let c := { c with index_ := .kAdded }
    let p ← p.update .add c
    return (p, c)
  else if c.isNoneEvent then do
    let p ← p.update .del c
    return (p, { c with index_ := .kDeleted })
  else do
    let p ← p.update .mod c
    return (p, c)

def removeChannel (p : EPollPoller) (c : Channel) : Except Fault (EPollPoller × Channel) := do
  let p := { p with channels_ := Function.update p.channels_ c.fd_ none }
  let p ← if c.index_ = .kAdded then p.update .del c else .ok p
  return (p, { c with index_ := .kNew })

end EPollPoller

namespace Channel

def enableReading (c : Channel) (p : EPollPoller) : Except Fault (EPollPoller × Channel) :=
  p.updateChannel { c with events_ := c.events_ ||| kReadEvent }

def disableReading (c : Channel) (p : EPollPoller) : Except Fault (EPollPoller × Channel) :=
  p.updateChannel { c with events_ := c.events_ &&& ~~~kReadEvent }

def enableWriting (c : Channel) (p : EPollPoller) : Except Fault (EPollPoller × Channel) :=
  p.updateChannel { c with events_ := c.events_ ||| kWriteEvent }

def disableWriting (c : Channel) (p : EPollPoller) : Except Fault (EPollPoller × Channel) :=
  p.updateChannel { c with events_ := c.events_ &&& ~~~kWriteEvent }

def disableAll (c : Channel) (p : EPollPoller) : Except Fault (EPollPoller × Channel) :=
  p.updateChannel { c with events_ := kNoneEvent }

def remove (c : Channel) (p : EPollPoller) : Except Fault (EPollPoller × Channel) :=
  p.removeChannel c

theorem isWriting_of_or {c : Channel} {e : Events} (h : c.events_ = e ||| kWriteEvent) :
    c.isWriting = true := by
  simp only [isWriting, h, kWriteEvent, EPOLLOUT, bne_iff_ne, ne_eq]
  intro he
  have hb := congrArg (fun v => v.getLsbD 2) he
  simp at hb

theorem isWriting_of_and {c : Channel} {e : Events} (h : c.events_ = e &&& ~~~kWriteEvent) :
    c.isWriting = false := by
  simp [isWriting, h, BitVec.and_assoc]

theorem isWriting_of_none {c : Channel} (h : c.events_ = kNoneEvent) : c.isWriting = false := by
  simp [isWriting, h, kNoneEvent]

theorem isWriting_of_read {c c' : Channel} (h : c'.events_ = c.events_ ||| kReadEvent) :
    c'.isWriting = c.isWriting := by
  have hrw : kReadEvent &&& kWriteEvent = 0 := by decide
  simp [isWriting, h, BitVec.and_or_distrib_right, hrw]

theorem isNoneEvent_of_or {c : Channel} {e : Events} (h : c.events_ = e ||| kReadEvent) :
    c.isNoneEvent = false := by
  simp only [isNoneEvent, h, kReadEvent, EPOLLIN, EPOLLPRI, kNoneEvent, beq_eq_false_iff_ne, ne_eq]
  intro he
  have hb := congrArg (fun v => v.getLsbD 0) he
  simp at hb

theorem isNoneEvent_of_isWriting {c : Channel} (h : c.isWriting = true) : c.isNoneEvent = false := by
  by_contra hn
  have he : c.events_ = kNoneEvent := by simpa [isNoneEvent] using hn
  rw [isWriting_of_none he] at h
  cases h

end Channel

end MyMuduo
