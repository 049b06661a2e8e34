import MyMuduo.PollerRegistry
import MyMuduo.BufferQueue

/-! A connection on the thread of its loop: the object, the poller it registers
with, and the calls it makes outwards, in order. The kernel's answers and what
the user's callbacks do are arguments. -/

namespace MyMuduo

inductive StateE where
  | kDisconnected
  | kConnecting
  | kConnected
  | kDisconnecting
  deriving DecidableEq, Repr

abbrev Addr := Int

abbrev Memory := Addr → Byte

def Memory.read (memory : Memory) (a : Addr) : Nat → List Byte
  | 0 => []
  | n + 1 => memory a :: Memory.read memory (a + 1) n

/-- The arguments `data` and `len` of a send, with the memory they point into. -/
structure Span where
  memory : Memory
  data : Addr
  len : Nat
  len_le : len ≤ maxSize

namespace Span

def read (d : Span) (offset : Int) (n : Nat) : List Byte := d.memory.read (d.data + offset) n

/-- `data[0,len)`. -/
def bytes (d : Span) : List Byte := d.read 0 d.len

end Span

/-- The callbacks that may be left unset keep only whether they are set. -/
structure TcpConnection where
  state_ : StateE
  channel_ : Channel
  inputBuffer_ : Buffer
  outputBuffer_ : Buffer
  writeCompleteCallback_ : Bool
  highWaterMarkCallback_ : Bool
  highWaterMark_ : Nat
  deriving DecidableEq

/-- `write` keeps what the kernel took, `buffered` where in an argument of `len`
bytes an append to `outputBuffer_` read, `shutdownWrite` how much was still in
`outputBuffer_`. The two functors are queued, the callbacks run. -/
inductive ConnCall where
  | write (sent : List Byte)
  | buffered (offset : Int) (n len : Nat)
  | shutdownWrite (pending : Nat)
  | writeComplete
  | highWaterMark (size : Nat)
  | connectionCallback (connected : Bool)
  | messageCallback
  | closeCallback
  deriving DecidableEq, Repr

structure LoopConn where
  tcp : TcpConnection
  poller : EPollPoller
  calls : List ConnCall

/-- What user code may do with the connection on the loop's thread. -/
inductive UserCall where
  | send (d : Span) (k : WriteOutcome)
  | shutdown
  | input (op : BufferOp)

def kInitialSize : Nat := 1024

def TcpConnection.new (self : ChannelPtr) (sockfd : Fd) (writeComplete highWater : Bool) (mark : Nat) :
    Except Fault TcpConnection := do
  let input ← Buffer.new kInitialSize
  let output ← Buffer.new kInitialSize
  return ⟨.kConnecting, Channel.new self sockfd, input, output, writeComplete, highWater, mark⟩

namespace LoopConn

def isWriting (w : LoopConn) : Bool := w.tcp.channel_.isWriting

def setState (w : LoopConn) (s : StateE) : LoopConn := { w with tcp := { w.tcp with state_ := s } }

def setOutput (w : LoopConn) (b : Buffer) : LoopConn := { w with tcp := { w.tcp with outputBuffer_ := b } }

def setInput (w : LoopConn) (b : Buffer) : LoopConn := { w with tcp := { w.tcp with inputBuffer_ := b } }

def setChannel (w : LoopConn) (p : EPollPoller) (c : Channel) : LoopConn :=
  { w with poller := p, tcp := { w.tcp with channel_ := c } }

def call (w : LoopConn) (c : ConnCall) : LoopConn := { w with calls := w.calls ++ [c] }

def onChannel (w : LoopConn) (f : Channel → EPollPoller → Except Fault (EPollPoller × Channel)) :
    Except Fault LoopConn := do
  let (p, c) ← f w.tcp.channel_ w.poller
  return w.setChannel p c

def shutdownInLoop (w : LoopConn) : LoopConn :=
  if !w.isWriting then w.call (.shutdownWrite w.tcp.outputBuffer_.readableBytes) else w

def shutdown (w : LoopConn) : LoopConn :=
  if w.tcp.state_ = .kConnected then (w.setState .kDisconnecting).shutdownInLoop else w

/-- The local variables of `sendInLoop`. -/
structure Attempt where
  nwrote : Int
  remaining : Nat
  faultError : Bool
  deriving DecidableEq, Repr

/-- The `else` belongs to the inner `if`: it runs after a successful write that
left something over or has no callback to queue, and reads `errno` there. -/
def directWrite (w : LoopConn) (d : Span) (k : WriteOutcome) : LoopConn × Attempt :=
  let r := sysWrite d.bytes k
  let w := w.call (.write r.sent)
  if 0 ≤ r.n then
    let remaining := szSub d.len r.n.toNat
    if remaining = 0 ∧ w.tcp.writeCompleteCallback_ = true then
      (w.call .writeComplete, ⟨r.n, remaining, false⟩)
    else
      (w, ⟨0, remaining, r.errno ≠ EWOULDBLOCK ∧ (r.errno = EPIPE ∨ r.errno = ECONNRESET)⟩)
  else (w, ⟨r.n, d.len, false⟩)

def firstWrite (w : LoopConn) (d : Span) (k : WriteOutcome) : LoopConn × Attempt :=
  if !w.isWriting ∧ w.tcp.outputBuffer_.readableBytes = 0 then w.directWrite d k else (w, ⟨0, d.len, false⟩)

/-- The crossing of the high-water mark is noted before the append. -/
def noteHighWater (w : LoopConn) (remaining : Nat) : LoopConn :=
  let oldLen := w.tcp.outputBuffer_.readableBytes
  if w.tcp.highWaterMark_ ≤ szAdd oldLen remaining ∧ oldLen < w.tcp.highWaterMark_ ∧
      w.tcp.highWaterMarkCallback_ = true then w.call (.highWaterMark (szAdd oldLen remaining)) else w

def bufferTail (w : LoopConn) (d : Span) (nwrote : Int) (remaining : Nat) : Except Fault LoopConn := do
  let w := w.noteHighWater remaining
  let b ← w.tcp.outputBuffer_.append (d.read nwrote remaining)
  let w := (w.setOutput b).call (.buffered nwrote remaining d.len)
  if !w.isWriting then w.onChannel Channel.enableWriting else .ok w

def sendInLoop (w : LoopConn) (d : Span) (k : WriteOutcome) : Except Fault LoopConn :=
  if w.tcp.state_ = .kDisconnected then .ok w
  else
    let (w, r) := w.firstWrite d k
    if r.faultError = false ∧ 0 < r.remaining then w.bufferTail d r.nwrote r.remaining else .ok w

def send (w : LoopConn) (d : Span) (k : WriteOutcome) : Except Fault LoopConn :=
  if w.tcp.state_ = .kConnected then w.sendInLoop d k else .ok w

def user : LoopConn → List UserCall → Except Fault LoopConn
  | w, [] => .ok w
  | w, .send d k :: cs => do
    let w ← w.send d k
    w.user cs
  | w, .shutdown :: cs => w.shutdown.user cs
  | w, .input op :: cs => do
    let (_, b) ← w.tcp.inputBuffer_.exec op
    (w.setInput b).user cs

def connectionCallback (w : LoopConn) (cs : List UserCall) : Except Fault LoopConn :=
  (w.call (.connectionCallback (w.tcp.state_ = .kConnected))).user cs

def connectEstablished (w : LoopConn) (cs : List UserCall) : Except Fault LoopConn := do
  let w := (w.setState .kConnected).setChannel w.poller w.tcp.channel_.tie
  let w ← w.onChannel Channel.enableReading
  w.connectionCallback cs

def connectDestroyed (w : LoopConn) : Except Fault LoopConn := do
  let w ← (if w.tcp.state_ = .kConnected then (w.setState .kDisconnected).onChannel Channel.disableAll
    else .ok w : Except Fault LoopConn)
  w.onChannel Channel.remove

def handleClose (w : LoopConn) (cs : List UserCall) : Except Fault LoopConn := do
  let w ← (w.setState .kDisconnected).onChannel Channel.disableAll
  let w ← w.connectionCallback cs
  return w.call .closeCallback

def handleRead (w : LoopConn) (k : ReadOutcome) (cs : List UserCall) : Except Fault LoopConn := do
  let (n, _, b) ← w.tcp.inputBuffer_.readFd 0 k
  let w := w.setInput b
  if 0 < n then (w.call .messageCallback).user cs
  else if n = 0 then w.handleClose cs
  else .ok w

def noteWriteComplete (w : LoopConn) : LoopConn :=
  if w.tcp.writeCompleteCallback_ = true then w.call .writeComplete else w

/-- What `handleWrite` does once the buffer has been emptied. -/
def drained (w : LoopConn) : Except Fault LoopConn := do
  let w ← w.onChannel Channel.disableWriting
  let w := w.noteWriteComplete
  return if w.tcp.state_ = .kDisconnecting then w.shutdownInLoop else w

def handleWrite (w : LoopConn) (k : WriteOutcome) : Except Fault LoopConn :=
  if w.isWriting then do
    let r ← w.tcp.outputBuffer_.writeFd k
    let w := w.call (.write r.sent)
    if 0 < r.n then
      let w := w.setOutput (w.tcp.outputBuffer_.retrieve r.n.toNat)
      if w.tcp.outputBuffer_.readableBytes = 0 then w.drained else .ok w
    else .ok w
  else .ok w

/-- One report of `epoll_wait` for the channel, with the kernel's answers and the
user's reactions. `handleError` only logs. -/
structure Delivery where
  revents : Events
  read : ReadOutcome
  write : WriteOutcome
  onClose : List UserCall
  onRead : List UserCall

def handleEventWithGuard (w : LoopConn) (e : Delivery) : Except Fault LoopConn := do
  let w ← (if e.revents &&& EPOLLHUP ≠ 0 ∧ ¬ e.revents &&& EPOLLIN ≠ 0 then w.handleClose e.onClose
    else .ok w : Except Fault LoopConn)
  let w ← (if e.revents &&& (EPOLLIN ||| EPOLLPRI) ≠ 0 then w.handleRead e.read e.onRead
    else .ok w : Except Fault LoopConn)
  if e.revents &&& EPOLLOUT ≠ 0 then w.handleWrite e.write else .ok w

end LoopConn

end MyMuduo
