import MyMuduo.ServerDestruction
import MyMuduo.ServerPlacement
import MyMuduo.BufferStorage
import MyMuduo.BusyPeriods
import MyMuduo.ShutdownOrder
import MyMuduo.LoopRequests
import MyMuduo.TerminalState
import MyMuduo.DeferredCalls
import MyMuduo.WriteInterest
import MyMuduo.NoInterest
import MyMuduo.CallbackOrder
import MyMuduo.EventLoopThread
