import MyMuduo.ConnectionMap
import MyMuduo.ConnectionThreads

/-! A server, its base loop and its io loops: every connection from `accept` to the
last reference to it, and `~TcpServer` on the base loop's thread. Loop 0 is the base
loop, loops 1 to `numThreads_` are those of the pool. -/

namespace MyMuduo

abbrev LoopId := Nat

/-- What a loop's thread has to do. The first four are functors, of which `functor`
is any other one with the references bound in it; then come the callbacks of
`handleEvent` and what user code calls. The last two return from functions that have
kept a reference. -/
inductive ServerWork where
  | connectEstablished (c : ConnPtr)
  | connectDestroyed (c : ConnPtr)
  | removeConnectionInLoop (c : ConnPtr)
  | functor (bound : List ConnPtr)
  | close (c : ConnPtr)
  | closeCallback (c : ConnPtr)
  | read (c : ConnPtr)
  | write (c : ConnPtr)
  | user (c : ConnPtr) (call : UserCall)
  | endEvent (c : ConnPtr)
  | endNewConnection (c : ConnPtr)

namespace ServerWork

/-- The references that last as long as the work. -/
def bound : ServerWork → List ConnPtr
  | .connectEstablished c => [c]
  | .connectDestroyed c => [c]
  | .removeConnectionInLoop c => [c]
  | .functor bound => bound
  | .close c => [c]
  | .closeCallback c => [c]
  | .read c => [c]
  | .write c => [c]
  | .user _ _ => []
  | .endEvent c => [c]
  | .endNewConnection c => [c]

/-- The points of a function at which user code may have been running. -/
def atUserCode : ServerWork → Bool
  | .closeCallback _ => true
  | .write _ => true
  | .user _ _ => true
  | .endEvent _ => true
  | .endNewConnection _ => true
  | _ => false

end ServerWork

/-- `testing` is also where the base loop's thread is outside of `loop()`; when a
loop of the pool has `left`, it has been destroyed. -/
inductive ServerPhase where
  | testing
  | polling
  | dispatching
  | functors
  | left
  deriving DecidableEq, Repr

inductive ActiveChannel where
  | acceptChannel
  | channel (c : ConnPtr) (revents : Events)
  deriving DecidableEq

/-- `taken` are the functors of the current batch that have been called: the vector
still holds them. -/
structure ServerLoop where
  poller : EPollPoller
  queue : Handoff ServerWork
  taken : List ServerWork
  phase : ServerPhase
  active : List ActiveChannel
  todo : List ServerWork
  quit_ : Bool

def ServerLoop.new : ServerLoop := ⟨EPollPoller.new, Handoff.empty, [], .testing, [], [], false⟩

/-- What is still to be done, in the order in which it will be. -/
def ServerLoop.items (L : ServerLoop) : List ServerWork := L.todo ++ L.queue.batch ++ L.queue.pending

def ServerLoop.binds (L : ServerLoop) (c : ConnPtr) : Bool := (L.taken ++ L.items).any fun w => w.bound.contains c

/-- How far `~TcpServer` has come: the loop over `connections_`, and with
`threadPool_` the destructor of each thread, `quit` first and then `join`. -/
inductive ServerStage where
  | alive
  | destroying
  | quitting (i : LoopId)
  | joining (i : LoopId)
  | dead
  deriving DecidableEq, Repr

inductive ServerMember where
  | newConnection
  | removeConnection
  | removeConnectionInLoop
  deriving DecidableEq, Repr

structure ServerConfig where
  name_ : List Char
  listenAddr : InetAddress
  numThreads_ : Nat
  writeCompleteCallback_ : Bool
  highWaterMarkCallback_ : Bool
  highWaterMark_ : Nat

/-- The kernel's answers and what user code does, for one piece of work. -/
structure Reaction where
  read : ReadOutcome
  write : WriteOutcome
  calls : List (ConnPtr × UserCall)

/-- `holders` counts the users' references. The rest is history: the objects
destroyed, those whose `connectEstablished` has run, the threads that have run their
`connectDestroyed`, the uses of the server after its destruction, and the events
handled by destroyed channels. -/
structure ServerSystem where
  config : ServerConfig
  map : ConnectionMap
  next_ : Nat
  stage : ServerStage
  conns : ConnPtr → TcpConnection
  loopOf : ConnPtr → LoopId
  loops : LoopId → ServerLoop
  holders : ConnPtr → Nat
  released : ConnPtr → Bool
  established : ConnPtr → Bool
  destroyedOn : ConnPtr → List LoopId
  lateUses : List ServerMember
  dangling : List ConnPtr

inductive ServerAction where
  | copy (c : ConnPtr)
  | drop (c : ConnPtr)
  | post (l : LoopId) (bound : List ConnPtr)
  | test (l : LoopId)
  | poll (l : LoopId) (active : List ActiveChannel)
  | accept (connfd : Option Fd)
  | handleEvent (l : LoopId)
  | code (l : LoopId) (r : Reaction)
  | doPendingFunctors (l : LoopId)
  | call (l : LoopId)
  | finish (l : LoopId)
  | work (l : LoopId) (r : Reaction)
  | destroyServer
  | destroyItem (c : ConnPtr)
  | destroyMembers
  | quitThread
  | joinThread

/-- `item.second.reset()`: a null entry is as good as none. -/
def ConnectionMap.reset (s : ConnectionMap) (c : ConnPtr) : ConnectionMap :=
  { s with connections_ := Function.update s.connections_ (s.names c) none, removed := c :: s.removed }

theorem ConnectionMap.reset_numbered {s : ConnectionMap} {name_ ipPort_ : List Char} {c : ConnPtr}
    (h : s.Numbered name_ ipPort_) (hc : c < s.created) : (s.reset c).Numbered name_ ipPort_ :=
  ⟨h.next_eq, h.names_eq, List.forall_mem_cons.mpr ⟨hc, h.removed_lt⟩⟩

def ConnectionMap.contains (s : ConnectionMap) (c : ConnPtr) : Bool := s.connections_ (s.names c) == some c

namespace ServerSystem

/-- What lies in memory where no connection has been built yet. -/
def blank : TcpConnection := ⟨.kConnecting, Channel.new 0 0, ⟨[], 0, 0⟩, ⟨[], 0, 0⟩, false, false, 0⟩

/-- After `start`, with the threads in their loops and the listening socket open. -/
def start (config : ServerConfig) : ServerSystem :=
  ⟨config, ConnectionMap.start, 0, .alive, fun _ => blank, fun _ => 0, fun _ => ServerLoop.new, fun _ => 0,
    fun _ => false, fun _ => false, fun _ => [], [], []⟩

def setLoop (s : ServerSystem) (l : LoopId) (L : ServerLoop) : ServerSystem :=
  { s with loops := Function.update s.loops l L }

def setTodo (s : ServerSystem) (l : LoopId) (todo : List ServerWork) : ServerSystem :=
  s.setLoop l { s.loops l with todo := todo }

def setActive (s : ServerSystem) (l : LoopId) (active : List ActiveChannel) : ServerSystem :=
  s.setLoop l { s.loops l with active := active }

def push (s : ServerSystem) (l : LoopId) (w : ServerWork) : ServerSystem :=
  s.setLoop l { s.loops l with queue := (s.loops l).queue.push w }

/-- The connection as its loop's thread has it, with the calls it makes from now on. -/
def view (s : ServerSystem) (c : ConnPtr) : LoopConn := ⟨s.conns c, (s.loops (s.loopOf c)).poller, []⟩

/-- The connection has moved on; its new functors are queued, each with a reference. -/
def put (s : ServerSystem) (c : ConnPtr) (w : LoopConn) : ServerSystem :=
  let L := s.loops (s.loopOf c)
  let notes := (w.calls.filter ConnCall.isNote).map fun _ => ServerWork.functor [c]
  { s.setLoop (s.loopOf c) { L with
      poller := w.poller, queue := { L.queue with pending := L.queue.pending ++ notes } } with
    conns := Function.update s.conns c w.tcp }

/-- A member function of the server runs. -/
def late (s : ServerSystem) (m : ServerMember) : List ServerMember :=
  if s.stage = .dead then s.lateUses ++ [m] else s.lateUses

/-- Some loop holds a reference. -/
def bound (s : ServerSystem) (c : ConnPtr) : Bool :=
  (List.range (s.config.numThreads_ + 1)).any fun l => (s.loops l).binds c

def referenced (s : ServerSystem) (c : ConnPtr) : Bool :=
  s.map.contains c || decide (0 < s.holders c) || s.bound c

/-- An object is destroyed with its last reference. -/
def reap (s : ServerSystem) : ServerSystem :=
  { s with released := fun c => s.released c || decide (c < s.map.created) && !s.referenced c }

def getNextLoop (s : ServerSystem) : LoopId × Nat :=
  if s.config.numThreads_ = 0 then (0, s.next_)
  else (s.next_ + 1, if s.config.numThreads_ ≤ s.next_ + 1 then 0 else s.next_ + 1)

/-- The new object is in the map and belongs to its loop. -/
def enroll (s : ServerSystem) (conn : TcpConnection) : ServerSystem :=
  { s with
    map := s.map.newConnection s.config.name_ s.config.listenAddr.toIpPort
    next_ := s.getNextLoop.2
    conns := Function.update s.conns s.map.created conn
    loopOf := Function.update s.loopOf s.map.created s.getNextLoop.1
    lateUses := s.late .newConnection }

/-- `runInLoop` calls at once on the base loop. -/
def newConnection (s : ServerSystem) (sockfd : Fd) : Option ServerSystem :=
  let c := s.map.created
  let ioLoop := s.getNextLoop.1
  (TcpConnection.new c sockfd s.config.writeCompleteCallback_ s.config.highWaterMarkCallback_
      s.config.highWaterMark_).toOption.map fun conn =>
    if ioLoop = 0 then (s.enroll conn).setTodo 0 [.connectEstablished c, .endNewConnection c]
    else (s.enroll conn).push ioLoop (.connectEstablished c)

def removeConnectionInLoop (s : ServerSystem) (c : ConnPtr) : ServerSystem :=
  { s with map := s.map.removeConnectionInLoop c, lateUses := s.late .removeConnectionInLoop }.push (s.loopOf c)
    (.connectDestroyed c)

def connectDestroyed (s : ServerSystem) (l : LoopId) (c : ConnPtr) : Option ServerSystem :=
  (s.view c).connectDestroyed.toOption.map fun w =>
    { s.put c w with destroyedOn := Function.update s.destroyedOn c (s.destroyedOn c ++ [l]) }

def users (r : Reaction) : List ServerWork := r.calls.map fun u => .user u.1 u.2

/-- The thread of loop `l` takes the first work off its list. -/
def exec (s : ServerSystem) (l : LoopId) (rest : List ServerWork) (r : Reaction) : ServerWork → Option ServerSystem
  | .connectEstablished c =>
    ((s.view c).connectEstablished []).toOption.map fun w =>
      { (s.put c w).setTodo l (users r ++ rest) with established := Function.update s.established c true }
  | .connectDestroyed c => (s.connectDestroyed l c).map fun s => s.setTodo l rest
  | .removeConnectionInLoop c => some ((s.setTodo l rest).removeConnectionInLoop c)
  | .functor _ => some (s.setTodo l (users r ++ rest))
  | .close c =>
    (((s.view c).setState .kDisconnected).onChannel Channel.disableAll).toOption.map fun w =>
      (s.put c w).setTodo l (users r ++ .closeCallback c :: rest)
  | .closeCallback c =>
    let s := { s with lateUses := s.late .removeConnection }
    some (if l = 0 then s.setTodo l (.removeConnectionInLoop c :: rest)
      else (s.setTodo l rest).push 0 (.removeConnectionInLoop c))
  | .read c =>
    ((s.conns c).inputBuffer_.readFd 0 r.read).toOption.map fun (n, _, b) =>
      (s.put c ((s.view c).setInput b)).setTodo l
        (if 0 < n then users r ++ rest else if n = 0 then .close c :: rest else rest)
  | .write c => ((s.view c).handleWrite r.write).toOption.map fun w => (s.put c w).setTodo l rest
  | .user c call =>
    if (c < s.map.created ∧ s.released c = false) ∧ s.loopOf c = l then
      ((s.view c).user [call]).toOption.map fun w => (s.put c w).setTodo l rest
    else none
  | .endEvent _ => some (s.setTodo l rest)
  | .endNewConnection _ => some { s.setTodo l rest with lateUses := s.late .newConnection }

/-- The callbacks of `handleEventWithGuard`, in its order. -/
def handlers (c : ConnPtr) (revents : Events) : List ServerWork :=
  (if revents &&& EPOLLHUP ≠ 0 ∧ ¬ revents &&& EPOLLIN ≠ 0 then [.close c] else []) ++
    (if revents &&& (EPOLLIN ||| EPOLLPRI) ≠ 0 then [.read c] else []) ++
    (if revents &&& EPOLLOUT ≠ 0 then [.write c] else [])

/-- What `epoll_wait` may report on loop `l`. -/
def reports (s : ServerSystem) (l : LoopId) : ActiveChannel → Bool
  | .acceptChannel => l = 0 ∧ s.stage = .alive
  | .channel c _ => ((s.loops l).poller.epollfd_ (s.conns c).channel_.fd_).any fun e => e.ptr = c

/-- The thread of the base loop is not in the middle of `~TcpServer`. -/
def runs (s : ServerSystem) (l : LoopId) : Prop :=
  l ≤ s.config.numThreads_ ∧ (l = 0 → s.stage = .alive ∨ s.stage = .dead)

instance (s : ServerSystem) (l : LoopId) : Decidable (s.runs l) := inferInstanceAs (Decidable (_ ∧ _))

/-- A descriptor that the kernel may hand out. -/
def Closed (s : ServerSystem) (fd : Fd) : Prop :=
  ∀ c, c < s.map.created → s.released c = false → (s.conns c).channel_.fd_ ≠ fd

instance (s : ServerSystem) (fd : Fd) : Decidable (s.Closed fd) := inferInstanceAs (Decidable (∀ c, c < _ → _))

/-- The steps of users, who copy and drop pointers and queue functors on any thread. -/
def stepUser (s : ServerSystem) : ServerAction → Option ServerSystem
  | .copy c =>
    if c < s.map.created ∧ s.released c = false then
      some { s with holders := Function.update s.holders c (s.holders c + 1) }
    else none
  | .drop c =>
    if 0 < s.holders c then some { s with holders := Function.update s.holders c (s.holders c - 1) } else none
  | .post l bound =>
    if l ≤ s.config.numThreads_ ∧ (s.loops l).phase ≠ .left ∧
        ∀ c ∈ bound, c < s.map.created ∧ s.released c = false then
      some (s.push l (.functor bound))
    else none
  | _ => none

/-- The steps of a loop's thread in `loop()`. -/
def stepLoop (s : ServerSystem) : ServerAction → Option ServerSystem
  | .test l =>
    let L := s.loops l
    if s.runs l ∧ L.phase = .testing ∧ L.todo.isEmpty = true then
      some (s.setLoop l (if L.quit_ then
        { L with phase := .left, queue := { L.queue with batch := [], pending := [] } } else { L with phase := .polling }))
    else none
  | .poll l active =>
    if s.runs l ∧ (s.loops l).phase = .polling ∧ active.all (s.reports l) = true then
      some (s.setLoop l { s.loops l with phase := .dispatching, active := active })
    else none
  | .accept connfd =>
    if s.runs 0 ∧ (s.loops 0).phase = .dispatching ∧ (s.loops 0).todo.isEmpty = true then
      match (s.loops 0).active with
      | .acceptChannel :: active =>
        match connfd with
        | none => some (s.setActive 0 active)
        | some fd => if s.Closed fd then (s.setActive 0 active).newConnection fd else none
      | _ => none
    else none
  | .handleEvent l =>
    if s.runs l ∧ (s.loops l).phase = .dispatching ∧ (s.loops l).todo.isEmpty = true then
      match (s.loops l).active with
      | .channel c revents :: active =>
        if s.released c then
          some { s.setActive l active with dangling := s.dangling ++ [c] }
        else
          let guard := if (s.conns c).channel_.tied_ then [.endEvent c] else []
          some ((s.setActive l active).setTodo l (handlers c revents ++ guard))
      | _ => none
    else none
  | .code l r =>
    if s.runs l ∧ (s.loops l).phase = .dispatching ∧ (s.loops l).todo.isEmpty = true then
      some (s.setTodo l (users r))
    else none
  | .doPendingFunctors l =>
    let L := s.loops l
    if s.runs l ∧ L.phase = .dispatching ∧ L.todo.isEmpty = true ∧ L.active.isEmpty = true then
      some (s.setLoop l { L with phase := .functors, queue := L.queue.swap })
    else none
  | .call l =>
    let L := s.loops l
    if s.runs l ∧ L.phase = .functors ∧ L.todo.isEmpty = true then
      L.queue.pop.map fun (w, queue) => s.setLoop l { L with queue := queue, taken := L.taken ++ [w], todo := [w] }
    else none
  | .finish l =>
    let L := s.loops l
    if s.runs l ∧ L.phase = .functors ∧ L.todo.isEmpty = true ∧ L.queue.batch.isEmpty = true then
      some (s.setLoop l { L with phase := .testing, taken := [] })
    else none
  | .work l r =>
    if s.runs l then
      match (s.loops l).todo with
      | [] => none
      | w :: rest => s.exec l rest r w
    else none
  | _ => none

/-- The steps of `~TcpServer`, which may start wherever user code runs. -/
def stepServer (s : ServerSystem) : ServerAction → Option ServerSystem
  | .destroyServer =>
    if s.stage = .alive ∧ (s.loops 0).phase ≠ .polling ∧
        ((s.loops 0).todo.head?.all ServerWork.atUserCode) = true then
      some { s with stage := .destroying }
    else none
  | .destroyItem c =>
    if s.stage = .destroying ∧ c < s.map.created ∧ s.map.contains c = true then
      let s := { s with map := s.map.reset c }
      if s.loopOf c = 0 then s.connectDestroyed 0 c else some (s.push (s.loopOf c) (.connectDestroyed c))
    else none
  | .destroyMembers =>
    if s.stage = .destroying ∧ ∀ c < s.map.created, s.map.contains c = false then
      some { s with stage := if s.config.numThreads_ = 0 then .dead else .quitting 1 }
    else none
  | .quitThread =>
    match s.stage with
    | .quitting i => some { s.setLoop i { s.loops i with quit_ := true } with stage := .joining i }
    | _ => none
  | .joinThread =>
    match s.stage with
    | .joining i =>
      if (s.loops i).phase = .left then
        some { s with stage := if i < s.config.numThreads_ then .quitting (i + 1) else .dead }
      else none
    | _ => none
  | _ => none

def step (s : ServerSystem) (a : ServerAction) : Option ServerSystem :=
  (((s.stepUser a).or (s.stepLoop a)).or (s.stepServer a)).map reap

def Step (s : ServerSystem) (a : ServerAction) (s' : ServerSystem) : Prop := s.step a = some s'

end ServerSystem

end MyMuduo
