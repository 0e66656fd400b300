import HighPerformanceServer.Connection
import HighPerformanceServer.Heap
import Mathlib.Data.List.Basic
/-!
# The objects of the server: connections, timers, the timer queue, epoll and the pool

| here | there |
| --- | --- |
| `TimerStamp`               | `struct timer_stamp` and its methods (`requestData.cpp:467-510`) |
| `deleteRequest`            | `~requestData` (`requestData.cpp:74-85`) |
| `separateTimer`            | `requestData::separateTimer` (`requestData.cpp:366-371`) |
| `deleteTimer`              | `~timer_stamp` (`requestData.cpp:475-481`) |
| `acceptAdd`, `acceptPush`  | `acceptConnection` up to `epoll_add`, and behind it (`main.cpp:77-100`) |
| `rearmPush`                | the critical section of `handleRequest` (`requestData.cpp:202-206`) |
| `epollMod`                 | its `epoll_mod` (`requestData.cpp:208-209`) |
| `handleExpiredEvent`       | `handle_expired_event` (`main.cpp:143-155`) |

An operation that touches an object which is not live is a `Fault`. `clock` is the last value
`gettimeofday` returned, in milliseconds; every reading takes a later or equal one. A
`std::priority_queue` is the list of its entries, of which it hands out one of least
`expired_time`. The comparisons of `push` read `expired_time` of queued timers only, and these
are live (`Pairing.queued`).
-/

namespace HPServer

open CppStd

/-- The address of a `requestData`. -/
abbrev ReqId := Nat

structure TimerStamp where
  deleted : Bool
  expiredTime : Nat
  requestData : Option ReqId
deriving DecidableEq

namespace TimerStamp

def new (requestData : ReqId) (now timeout : Nat) : TimerStamp :=
  ⟨false, now + timeout, some requestData⟩

def setDeleted (t : TimerStamp) : TimerStamp := { t with deleted := true }

def isvalid (t : TimerStamp) (now : Nat) : Bool × TimerStamp :=
  if now < t.expiredTime then (true, t) else (false, t.setDeleted)

def clearReq (t : TimerStamp) : TimerStamp := { t with requestData := none }.setDeleted

end TimerStamp

/-- `requestData::addTimer` (`requestData.cpp:87-89`). -/
def RequestData.addTimer (r : RequestData) (mtimer : TimerId) : RequestData :=
  if r.timer = none then { r with timer := some mtimer } else r

/-- `TIMER_TIME_OUT` (`main.cpp:31`), also the literal of `requestData.cpp:203`. -/
def TIMER_TIME_OUT : Nat := 500

/-- `QUEUE_SIZE`, `PATH` (`main.cpp:25`, `:21`). -/
def QUEUE_SIZE : Nat := 65535
def PATH : Bytes := ascii "/"

structure Server where
  request : Heap ReqId RequestData
  timer : Heap TimerId TimerStamp
  myTimerQueue : List TimerId
  /-- An event of the connection may be delivered. -/
  armed : ReqId → Bool
  pool : List ReqId
  clock : Nat

inductive Fault where
  | requestUsed (R : ReqId)
  | requestDeleted (R : ReqId)
  | timerUsed (T : TimerId)
  | timerDeleted (T : TimerId)
deriving DecidableEq

namespace Server

/-- Nothing accepted yet. -/
def start (clock : Nat) : Server where
  request := fun _ => .unborn
  timer := fun _ => .unborn
  myTimerQueue := []
  armed := fun _ => false
  pool := []
  clock := clock

def getRequest (s : Server) (R : ReqId) : Except Fault RequestData :=
  match s.request R with
  | .live r => .ok r
  | .unborn | .freed => .error (.requestUsed R)

def getTimer (s : Server) (T : TimerId) : Except Fault TimerStamp :=
  match s.timer T with
  | .live t => .ok t
  | .unborn | .freed => .error (.timerUsed T)

def setRequest (s : Server) (R : ReqId) (r : RequestData) : Server :=
  { s with request := Function.update s.request R (.live r) }

def setTimer (s : Server) (T : TimerId) (t : TimerStamp) : Server :=
  { s with timer := Function.update s.timer T (.live t) }

def setArmed (s : Server) (R : ReqId) (b : Bool) : Server :=
  { s with armed := Function.update s.armed R b }

/-- `timer->clearReq()`, when there is a timer. -/
def clearReq (s : Server) : Option TimerId → Except Fault Server
  | none => .ok s
  | some T => do
    let t ← s.getTimer T
    return s.setTimer T t.clearReq

def separateTimer (s : Server) (R : ReqId) : Except Fault Server := do
  let r ← s.getRequest R
  let s ← s.clearReq r.timer
  return s.setRequest R r.separateTimer

def deleteRequest (s : Server) (R : ReqId) : Except Fault Server :=
  match s.request R with
  | .live r => do
    let s ← (s.setArmed R false).clearReq r.timer
    return { s with request := Function.update s.request R .freed }
  | .unborn | .freed => .error (.requestDeleted R)

def deleteTimer (s : Server) (T : TimerId) : Except Fault Server :=
  match s.timer T with
  | .live t => do
    let s ← match t.requestData with
      | some R => s.deleteRequest R
      | none => .ok s
    return { s with timer := Function.update s.timer T .freed }
  | .unborn | .freed => .error (.timerDeleted T)

/-- `new timer_stamp(R, 500)`. -/
def newTimer (s : Server) (T : TimerId) (R : ReqId) (now : Nat) : Server :=
  { s.setTimer T (.new R now TIMER_TIME_OUT) with clock := now }

/-- `myTimerQueue.push(mtimer)`. -/
def push (s : Server) (T : TimerId) : Server := { s with myTimerQueue := T :: s.myTimerQueue }

/-- `new requestData` and `epoll_add`, whose failure nobody looks at. -/
def acceptAdd (s : Server) (epollFd fd : Int) (R : ReqId) (added : Bool) : Server :=
  (s.setRequest R (.new epollFd fd PATH)).setArmed R added

def acceptPush (s : Server) (R : ReqId) (T : TimerId) (now : Nat) : Except Fault Server := do
  let s := s.newTimer T R now
  let r ← s.getRequest R
  return (s.setRequest R (r.addTimer T)).push T

def rearmPush (s : Server) (R : ReqId) (T : TimerId) (now : Nat) : Except Fault Server := do
  let s := s.newTimer T R now
  let r ← s.getRequest R
  return (s.setRequest R { r with timer := some T }).push T

/-- `epoll_mod` reads `epollfd` and `fd` of the object. -/
def epollMod (s : Server) (R : ReqId) (done : Bool) : Except Fault Server := do
  let _ ← s.getRequest R
  return if done then s.setArmed R true else s

/-- `pool.add`, once there is room. -/
def poolAdd (s : Server) (R : ReqId) : Server := { s with pool := s.pool ++ [R] }

/-- `EPOLLONESHOT`: a delivered event disarms. -/
def disarm (s : Server) (Rs : List ReqId) : Server :=
  { s with armed := fun R => if R ∈ Rs then false else s.armed R }

/-! ## The expiry sweep -/

/-- What `timerCmp` compares. -/
def expiredTime (s : Server) (T : TimerId) : Nat :=
  match s.timer T with
  | .live t => t.expiredTime
  | .unborn | .freed => 0

/-- `myTimerQueue.top()` may be `T`. -/
def IsTop (s : Server) (T : TimerId) : Prop :=
  T ∈ s.myTimerQueue ∧ ∀ T' ∈ s.myTimerQueue, s.expiredTime T ≤ s.expiredTime T'

instance (s : Server) (T : TimerId) : Decidable (s.IsTop T) :=
  inferInstanceAs (Decidable (_ ∧ ∀ T' ∈ s.myTimerQueue, s.expiredTime T ≤ s.expiredTime T'))

/-- `myTimerQueue.pop(); delete timer_now_ptr;` -/
def popDelete (s : Server) (T : TimerId) : Except Fault Server :=
  { s with myTimerQueue := s.myTimerQueue.erase T }.deleteTimer T

/-- One pass of the loop for each entry of the script: the timer on top, and what the clock shows
while it is looked at. The loop stops at a timer that stays, or with the queue empty; any other
script is none of a run. -/
def handleExpiredEvent : List (TimerId × Nat) → Server → Option (Except Fault Server)
  | [], s => if s.myTimerQueue = [] then some (.ok s) else none
  | (T, now) :: script, s =>
    if s.IsTop T ∧ s.clock ≤ now then
      let s := { s with clock := now }
      match s.getTimer T with
      | .error f => some (.error f)
      | .ok t =>
        if t.deleted then
          match s.popDelete T with
          | .error f => some (.error f)
          | .ok s => handleExpiredEvent script s
        else
          match t.isvalid now with
          | (true, _) => if script = [] then some (.ok s) else none
          | (false, t) =>
            match (s.setTimer T t).popDelete T with
            | .error f => some (.error f)
            | .ok s => handleExpiredEvent script s
    else none

end Server

end HPServer
