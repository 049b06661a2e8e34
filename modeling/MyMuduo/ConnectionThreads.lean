import MyMuduo.ConnectionSpec
import MyMuduo.EventLoop

/-! A connection, the thread of its loop, and other threads that call `send` and
`shutdown` on it. Every access to what they share is a step of its own: `state_`,
the queue of functors, the memory a string lives in, and the references that keep
the object alive. -/

namespace MyMuduo

/-- A send that passed its test. `given` is what the string held at the call. -/
structure SendArg where
  id : Nat
  data : Addr
  len : Nat
  len_le : len ≤ maxSize
  given : List Byte

/-- What a queued functor has bound: `sendInLoop` and `shutdownInLoop` a bare
`this`, `connectDestroyed` a `TcpConnectionPtr`; of others, whether they hold one. -/
inductive ConnTask where
  | sendInLoop (m : SendArg)
  | shutdownInLoop
  | connectDestroyed
  | functor (holds : Bool)

def ConnTask.holds : ConnTask → Bool
  | .connectDestroyed => true
  | .functor holds => holds
  | _ => false

def ConnTask.isRaw : ConnTask → Bool
  | .sendInLoop _ => true
  | .shutdownInLoop => true
  | _ => false

/-- What the loop's thread has still to do for the connection, cut where `state_`
is read or stored. `sendSpan` is the `sendInLoop` of a `send` on this thread. -/
inductive LoopWork where
  | close (cs : List UserCall)
  | closeCallback
  | read (k : ReadOutcome) (cs : List UserCall)
  | write (k : WriteOutcome)
  | user (c : UserCall)
  | sendSpan (id : Nat) (d : Span) (k : WriteOutcome)
  | sendInLoop (m : SendArg) (k : WriteOutcome)
  | shutdownStore
  | shutdownInLoop (queued : Bool)
  | destroyTest
  | destroyStore
  | destroyRemove

def LoopWork.isRaw : LoopWork → Bool
  | .sendInLoop _ _ => true
  | .shutdownInLoop queued => queued
  | _ => false

/-- Work of `handleEvent`, which holds a reference while it runs. -/
def LoopWork.isEvent : LoopWork → Bool
  | .close _ => true
  | .closeCallback => true
  | .read _ _ => true
  | .write _ => true
  | _ => false

/-- Work of user code on the loop's thread, which calls through a reference. -/
def LoopWork.isUser : LoopWork → Bool
  | .user _ => true
  | .sendSpan _ _ _ => true
  | .shutdownStore => true
  | .shutdownInLoop queued => !queued
  | _ => false

def LoopWork.isDestroy : LoopWork → Bool
  | .destroyTest => true
  | .destroyStore => true
  | .destroyRemove => true
  | _ => false

/-- The points at which user code, or no code of the connection, is running. -/
def LoopWork.atUserCode : LoopWork → Bool
  | .close _ => true
  | .closeCallback => true
  | .read _ _ => true
  | .write _ => true
  | .user _ => true
  | _ => false

/-- Work that relies on what its function has just tested or stored. -/
def LoopWork.relies : LoopWork → Bool
  | .closeCallback => true
  | .shutdownStore => true
  | .destroyStore => true
  | .destroyRemove => true
  | _ => false

/-- Where another thread is in `send` or `shutdown`. -/
inductive ThreadPc where
  | idle
  | sendTested (m : SendArg)
  | shutdownTested
  | shutdownStored

/-- `due`: the connection's channel is among the active channels not yet handled. -/
inductive Phase where
  | polling
  | dispatching (due : Bool)
  | functors
  deriving DecidableEq

/-- How a functor with a bare `this` found its object and its argument. -/
structure RawRun where
  alive : Bool
  processed : List Byte
  given : List Byte
  deriving DecidableEq

/-- `taken` are the functors of the current batch that have run: the vector still
holds them. `inMap`, `removals` and `holders` are the references of the server's
map, of its removals under way, and of the users. The rest is history: the sends
returned, those returned before some shutdown began, those that reached
`sendInLoop`, whether one of them was given up, whether `handleClose` has
completed, and how many calls had been made when `connectDestroyed` had. -/
structure ConnSystem where
  conn : LoopConn
  memory : Memory
  queue : Handoff ConnTask
  taken : List ConnTask
  phase : Phase
  todo : List LoopWork
  threads : Tid → ThreadPc
  inMap : Bool
  removals : Nat
  holders : List Tid
  guarded : Bool
  released : Bool
  nextId : Nat
  returned : List Nat
  covered : List Nat
  ran : List (Nat × List Byte)
  dropped : Bool
  closed : Bool
  destroyed : Option Nat
  rawRuns : List RawRun

inductive SysAction where
  | send (t : Tid) (data : Addr) (len : Nat)
  | sendQueue (t : Tid)
  | shutdown (t : Tid)
  | shutdownStore (t : Tid)
  | shutdownQueue (t : Tid)
  | copy (t : Tid)
  | drop (t : Tid)
  | overwrite (memory : Memory)
  | post (holds : Bool)
  | removeConnection
  | destroyServer
  | destroyServerHere
  | poll (due : Bool)
  | handleEvent (e : LoopConn.Delivery)
  | code (cs : List UserCall)
  | doPendingFunctors
  | call (k : WriteOutcome) (cs : List UserCall)
  | finish
  | work

def ConnCall.isNote : ConnCall → Bool
  | .writeComplete => true
  | .highWaterMark _ => true
  | _ => false

namespace ConnSystem

/-- The state right after `connectEstablished` has called the user, who does `cs`. -/
def start (w : LoopConn) (memory : Memory) (cs : List UserCall) : ConnSystem :=
  ⟨w, memory, Handoff.empty, [], .functors, cs.map .user, fun _ => .idle, true, 0, [], false, false, 0, [], [],
    [], false, false, none, []⟩

def state (s : ConnSystem) : StateE := s.conn.tcp.state_

def referenced (s : ConnSystem) : Bool :=
  s.inMap || decide (0 < s.removals) || !s.holders.isEmpty || s.guarded ||
    (s.taken ++ s.queue.batch ++ s.queue.pending).any ConnTask.holds || s.todo.any LoopWork.isDestroy

/-- The object is destroyed with its last reference. The one that `handleEvent`
takes lasts until the event has been handled. -/
def reap (s : ConnSystem) : ConnSystem :=
  let s := { s with guarded := s.guarded && !s.todo.isEmpty }
  { s with released := s.released || !s.referenced }

def setThread (s : ConnSystem) (t : Tid) (pc : ThreadPc) : ConnSystem :=
  { s with threads := Function.update s.threads t pc }

def push (s : ConnSystem) (task : ConnTask) : ConnSystem := { s with queue := s.queue.push task }

/-- The connection has moved on; its new write-complete and high-water functors
are queued, each holding a reference. -/
def proceed (s : ConnSystem) (conn : LoopConn) (rest : List LoopWork) : ConnSystem :=
  let notes := (conn.calls.drop s.conn.calls.length).filter ConnCall.isNote
  { s with
    conn := conn
    todo := rest
    queue := { s.queue with pending := s.queue.pending ++ notes.map fun _ => .functor true } }

/-- A `sendInLoop` has run. -/
def sent (s : ConnSystem) (id : Nat) (given : List Byte) : ConnSystem :=
  { s with ran := s.ran ++ [(id, given)], dropped := s.dropped || decide (s.state = .kDisconnected) }

def execUser (s : ConnSystem) (rest : List LoopWork) : UserCall → Option ConnSystem
  | .send d k =>
    if s.state = .kConnected then some { s with todo := .sendSpan s.nextId d k :: rest, nextId := s.nextId + 1 }
    else some { s with todo := rest }
  | .shutdown =>
    let s := { s with covered := s.covered ++ s.returned }
    some { s with todo := if s.state = .kConnected then .shutdownStore :: rest else rest }
  | .input op =>
    (s.conn.tcp.inputBuffer_.exec op).toOption.map fun (_, b) => s.proceed (s.conn.setInput b) rest

def exec (s : ConnSystem) (rest : List LoopWork) : LoopWork → Option ConnSystem
  | .close cs =>
    ((s.conn.setState .kDisconnected).onChannel Channel.disableAll).toOption.map fun conn =>
      s.proceed (conn.call (.connectionCallback (conn.tcp.state_ = .kConnected)))
        (cs.map .user ++ .closeCallback :: rest)
  | .closeCallback =>
    some { s.proceed (s.conn.call .closeCallback) rest with closed := true, removals := s.removals + 1 }
  | .read k cs =>
    (s.conn.tcp.inputBuffer_.readFd 0 k).toOption.map fun (n, _, b) =>
      if 0 < n then s.proceed ((s.conn.setInput b).call .messageCallback) (cs.map .user ++ rest)
      else s.proceed (s.conn.setInput b) (if n = 0 then .close cs :: rest else rest)
  | .write k => (s.conn.handleWrite k).toOption.map fun conn => s.proceed conn rest
  | .user c => s.execUser rest c
  | .sendSpan id d k =>
    (s.conn.sendInLoop d k).toOption.map fun conn =>
      { (s.sent id d.bytes).proceed conn rest with returned := s.returned ++ [id] }
  | .sendInLoop m k =>
    let d : Span := ⟨s.memory, m.data, m.len, m.len_le⟩
    (s.conn.sendInLoop d k).toOption.map fun conn =>
      { (s.sent m.id m.given).proceed conn rest with
        rawRuns := s.rawRuns ++ [⟨!s.released, d.bytes, m.given⟩] }
  | .shutdownStore => some (s.proceed (s.conn.setState .kDisconnecting) (.shutdownInLoop false :: rest))
  | .shutdownInLoop queued =>
    some { s.proceed s.conn.shutdownInLoop rest with
      rawRuns := s.rawRuns ++ if queued then [⟨!s.released, [], []⟩] else [] }
  | .destroyTest =>
    some { s with todo := (if s.state = .kConnected then .destroyStore else .destroyRemove) :: rest }
  | .destroyStore =>
    ((s.conn.setState .kDisconnected).onChannel Channel.disableAll).toOption.map fun conn =>
      s.proceed conn (.destroyRemove :: rest)
  | .destroyRemove =>
    (s.conn.onChannel Channel.remove).toOption.map fun conn =>
      { s.proceed conn rest with destroyed := s.destroyed.or (some s.conn.calls.length) }

/-- The callbacks of `handleEventWithGuard`, in its order. -/
def callbacks (e : LoopConn.Delivery) : List LoopWork :=
  (if e.revents &&& EPOLLHUP ≠ 0 ∧ ¬ e.revents &&& EPOLLIN ≠ 0 then [.close e.onClose] else []) ++
    (if e.revents &&& (EPOLLIN ||| EPOLLPRI) ≠ 0 then [.read e.read e.onRead] else []) ++
    (if e.revents &&& EPOLLOUT ≠ 0 then [.write e.write] else [])

/-- What a functor of the queue does when it is called; `k` and `cs` are the
kernel's answer and the user's code. -/
def taskWork (k : WriteOutcome) (cs : List UserCall) : ConnTask → List LoopWork
  | .sendInLoop m => [.sendInLoop m k]
  | .shutdownInLoop => [.shutdownInLoop true]
  | .connectDestroyed => [.destroyTest]
  | .functor _ => cs.map .user

/-- The steps of other threads; a thread calls only while it holds a reference. -/
def stepThread (s : ConnSystem) : SysAction → Option ConnSystem
  | .send t data len =>
    match s.threads t with
    | .idle =>
      if h : len ≤ maxSize ∧ t ∈ s.holders then
        if s.state = .kConnected then
          some { s.setThread t (.sendTested ⟨s.nextId, data, len, h.1, s.memory.read data len⟩) with
            nextId := s.nextId + 1 }
        else some s
      else none
    | _ => none
  | .sendQueue t =>
    match s.threads t with
    | .sendTested m => some { (s.push (.sendInLoop m)).setThread t .idle with returned := s.returned ++ [m.id] }
    | _ => none
  | .shutdown t =>
    match s.threads t with
    | .idle =>
      if t ∈ s.holders then
        let s := { s with covered := s.covered ++ s.returned }
        some (if s.state = .kConnected then s.setThread t .shutdownTested else s)
      else none
    | _ => none
  | .shutdownStore t =>
    match s.threads t with
    | .shutdownTested => some { s.setThread t .shutdownStored with conn := s.conn.setState .kDisconnecting }
    | _ => none
  | .shutdownQueue t =>
    match s.threads t with
    | .shutdownStored => some ((s.push .shutdownInLoop).setThread t .idle)
    | _ => none
  | .copy t => if s.released then none else some { s with holders := t :: s.holders }
  | .drop t =>
    match s.threads t with
    | .idle => if t ∈ s.holders then some { s with holders := s.holders.erase t } else none
    | _ => none
  | .overwrite memory => some { s with memory := memory }
  | .post holds => if holds && s.released then none else some (s.push (.functor holds))
  | .removeConnection =>
    if 0 < s.removals then
      some { s.push .connectDestroyed with removals := s.removals - 1, inMap := false }
    else none
  | .destroyServer => if s.inMap then some { s.push .connectDestroyed with inMap := false } else none
  | _ => none

/-- The steps of the loop's thread. -/
def stepLoop (s : ConnSystem) : SysAction → Option ConnSystem
  | .destroyServerHere =>
    if s.inMap = true ∧ s.phase ≠ .polling ∧ (s.todo.head?.all LoopWork.atUserCode) = true then
      some { s with inMap := false, todo := .destroyTest :: s.todo }
    else none
  | .poll due =>
    if s.phase = .polling ∧ (due = true → (s.conn.poller.epollfd_ s.conn.tcp.channel_.fd_).isSome = true) then
      some { s with phase := .dispatching due }
    else none
  | .handleEvent e =>
    if s.phase = .dispatching true ∧ s.todo.isEmpty = true ∧ s.released = false then
      some { s with phase := .dispatching false, todo := callbacks e, guarded := true }
    else none
  | .code cs =>
    match s.phase with
    | .dispatching _ => if s.todo.isEmpty then some { s with todo := cs.map .user } else none
    | _ => none
  | .doPendingFunctors =>
    if s.phase = .dispatching false ∧ s.todo.isEmpty = true then
      some { s with phase := .functors, queue := s.queue.swap }
    else none
  | .call k cs =>
    if s.phase = .functors ∧ s.todo.isEmpty = true then
      s.queue.pop.map fun (task, queue) =>
        { s with queue := queue, taken := s.taken ++ [task], todo := taskWork k cs task }
    else none
  | .finish =>
    if s.phase = .functors ∧ s.todo.isEmpty = true ∧ s.queue.batch.isEmpty = true then
      some { s with phase := .polling, taken := [] }
    else none
  | .work =>
    match s.todo with
    | [] => none
    | w :: rest => if s.released && w.isUser then none else s.exec rest w
  | _ => none

def step (s : ConnSystem) (a : SysAction) : Option ConnSystem :=
  ((s.stepThread a).or (s.stepLoop a)).map reap

def Step (s : ConnSystem) (a : SysAction) (s' : ConnSystem) : Prop := s.step a = some s'

end ConnSystem

end MyMuduo
