import HighPerformanceServer.Lts
import HighPerformanceServer.Monitor
import HighPerformanceServer.Threadpool
/-!
# The C thread pool, lock by lock

The functions of `Threadpool.lean` are what is done under `pool->lock`; here taking the lock, giving
it up, and what runs without it are steps of their own.

| here | there |
| --- | --- |
| `CreatorPc`, `creatorStep` | the loop of `threadpool_create` (threadpool.cpp:34-42) |
| `CallerPc`, `callerStep`   | `threadpool_add` (:53-96), `threadpool_destroy` (:98-140), `threadpool_free` (:142-161) |
| `ThreadPc`, `threadStep`   | `threadpool_thread` (:163-198) |

`pool->active_thread_num++` (:41) is a read and a write; `--pool->active_thread_num` (:193) is made
with the lock. Any of the `pthread_create` and `pthread_join` calls may fail; the calls on the lock
and the condition succeed. Caller 0 is the thread in `threadpool_create`: it calls
`threadpool_destroy(pool, 0)` when a worker cannot be started, else returns the pool, and from then
on any thread may call. `threadpool_free` locks the mutex and destroys it; nobody holds it then. Once
the arrays are freed only the freeing thread goes on, and the workers, if they can.
-/

namespace HPServer

open Monitor

variable {Task : Type}

inductive CreatorPc where
  /-- About to start worker `i` (:34). -/
  | creating (i : Nat)
  /-- At `thread_count_in_pool++` for it. -/
  | counting (i : Nat)
  /-- At `active_thread_num++` for it. -/
  | reading (i : Nat)
  | writing (i : Nat) (read : Int)
  | created
  | failed

inductive CallerPc (Task : Type) where
  /-- Outside the functions, with the result of the last one. -/
  | returned (ret : Option Int)
  | addLocking (task : Task)
  | adding (task : Task)
  | addUnlocking (err : Int)
  | destroyLocking (flags : Nat)
  | destroying (flags : Nat)
  | broadcasting
  | destroyUnlocking
  | joining (i : Nat) (err : Int)
  /-- At the test of `threadpool_free` (:143). -/
  | freeing
  /-- The arrays are freed, the mutex is not (:155). -/
  | freed

inductive ThreadPc (Task : Type) where
  | unborn
  | locking
  /-- With the lock, at the `while` test. -/
  | looking
  | asleep
  | woken
  | unlocking (task : Option Task)
  | running (task : Option Task)
  /-- Out of the loop and counted down, with the lock. -/
  | leaving
  | exited

inductive CThread where
  | caller (c : Nat)
  | worker (w : Nat)
deriving DecidableEq

/-- `dequeued` is history. -/
structure CPool (Task : Type) where
  pool : Threadpool Task
  lock : Option CThread
  creator : CreatorPc
  caller : Nat → CallerPc Task
  worker : Nat → ThreadPc Task
  freed : Bool
  dequeued : List (Option Task)

inductive CPoolStep (Task : Type) where
  | pthreadCreate (started : Bool)
  /-- The creator's next step. -/
  | create
  /-- A call of `threadpool_add`; `none` is a null `function`. -/
  | callAdd (c : Nat) (task : Option Task)
  | callDestroy (c : Nat) (flags : Nat)
  /-- A caller's next step. -/
  | caller (c : Nat)
  /-- The queue part of `threadpool_add`; `signalled` is the worker its signal wakes. -/
  | add (c : Nat) (signalled : Option Nat)
  | pthreadJoin (c : Nat) (joined : Bool)
  /-- A worker's next step. -/
  | thread (w : Nat)
  | spurious (w : Nat)

def CallerPc.inside : CallerPc Task → Prop
  | .adding _ | .addUnlocking _ | .destroying _ | .broadcasting | .destroyUnlocking => True
  | .returned _ | .addLocking _ | .destroyLocking _ | .joining _ _ | .freeing | .freed => False

def ThreadPc.inside : ThreadPc Task → Prop
  | .looking | .unlocking _ | .leaving => True
  | .unborn | .locking | .asleep | .woken | .running _ | .exited => False

/-- On `notify`. -/
def ThreadPc.wake : ThreadPc Task → Option (ThreadPc Task)
  | .asleep => some .woken
  | _ => none

def ThreadPc.isExited : ThreadPc Task → Bool
  | .exited => true
  | _ => false

def CallerPc.isFreed : CallerPc Task → Bool
  | .freed => true
  | _ => false

namespace CPool

def setCaller (s : CPool Task) (c : Nat) (x : CallerPc Task) : CPool Task :=
  { s with caller := Function.update s.caller c x }

def setWorker (s : CPool Task) (w : Nat) (x : ThreadPc Task) : CPool Task :=
  { s with worker := Function.update s.worker w x }

def withLock (s : CPool Task) (lock : Option CThread) : CPool Task := { s with lock := lock }

def withPool (s : CPool Task) (pool : Threadpool Task) : CPool Task := { s with pool := pool }

def goCreator (s : CPool Task) (pc : CreatorPc) : CPool Task := { s with creator := pc }

def pthreadCreate (threadNum : Nat) (s : CPool Task) (started : Bool) : Option (CPool Task) :=
  match s.creator with
  | .creating i =>
    if i < threadNum then
      if started then some ((s.setWorker i .locking).goCreator (.counting i))
      else some ((s.setCaller 0 (.destroyLocking 0)).goCreator .failed)
    else none
  | _ => none

def creatorStep (threadNum : Nat) (s : CPool Task) : Option (CPool Task) :=
  match s.creator with
  | .creating i => if i < threadNum then none else some (s.goCreator .created)
  | .counting i =>
    some ((s.withPool { s.pool with threadCountInPool := s.pool.threadCountInPool + 1 }).goCreator
      (.reading i))
  | .reading i => some (s.goCreator (.writing i s.pool.activeThreadNum))
  | .writing i read =>
    some ((s.withPool { s.pool with activeThreadNum := read + 1 }).goCreator (.creating (i + 1)))
  | .created | .failed => none

/-- A caller gets the pool when `threadpool_create` has returned it. -/
def callAdd (s : CPool Task) (c : Nat) (task : Option Task) : Option (CPool Task) :=
  match s.creator, s.freed, s.caller c with
  | .created, false, .returned _ =>
    match task with
    | some task => some (s.setCaller c (.addLocking task))
    | none => some (s.setCaller c (.returned (some THREADPOOL_INVALID)))
  | _, _, _ => none

def callDestroy (s : CPool Task) (c : Nat) (flags : Nat) : Option (CPool Task) :=
  match s.creator, s.freed, s.caller c with
  | .created, false, .returned _ => some (s.setCaller c (.destroyLocking flags))
  | _, _, _ => none

def acquire (s : CPool Task) (c : Nat) (x : CallerPc Task) : Option (CPool Task) :=
  if s.lock = none then some ((s.withLock (some (.caller c))).setCaller c x) else none

def callerStep (s : CPool Task) (c : Nat) : Option (CPool Task) :=
  match s.caller c with
  | .addLocking task => s.acquire c (.adding task)
  | .addUnlocking err => some ((s.withLock none).setCaller c (.returned (some err)))
  | .destroyLocking flags => s.acquire c (.destroying flags)
  | .destroying flags =>
    match threadpoolDestroy flags s.pool with
    | (0, pool) => some ((s.withPool pool).setCaller c .broadcasting)
    -- the `break` behind the first test is in front of the unlock (:112-115)
    | (err, pool) => some ((s.withPool pool).setCaller c (.returned (some err)))
  | .broadcasting =>
    some ({ s with worker := broadcast ThreadPc.wake s.worker }.setCaller c .destroyUnlocking)
  | .destroyUnlocking => some ((s.withLock none).setCaller c (.joining 0 0))
  | .joining i err =>
    if i < s.pool.threadCountInPool then none
    else if err = 0 then some (s.setCaller c .freeing)
    else some (s.setCaller c (.returned (some err)))
  | .freeing =>
    if s.pool.activeThreadNum > 0 then some (s.setCaller c (.returned (some 0)))
    else some ({ s with freed := true }.setCaller c .freed)
  | .freed => if s.lock = none then some (s.setCaller c (.returned (some 0))) else none
  | .returned _ | .adding _ => none

def addStep (threadNum : Nat) (s : CPool Task) (c : Nat) (signalled : Option Nat) :
    Option (CPool Task) :=
  match s.caller c with
  | .adding task =>
    match enqueue task true s.pool with
    | (0, pool) => do
      let worker ← signal ThreadPc.wake threadNum s.worker signalled
      return { s.withPool pool with worker := worker }.setCaller c (.addUnlocking 0)
    | (err, pool) =>
      if signalled = none then some ((s.withPool pool).setCaller c (.addUnlocking err)) else none
  | _ => none

def pthreadJoin (s : CPool Task) (c : Nat) (joined : Bool) : Option (CPool Task) :=
  match s.caller c with
  | .joining i err =>
    if i < s.pool.threadCountInPool then
      if joined then
        if (s.worker i).isExited then some (s.setCaller c (.joining (i + 1) err)) else none
      else some (s.setCaller c (.joining (i + 1) THREADPOOL_THREAD_FAILURE))
    else none
  | _ => none

def threadStep (s : CPool Task) (w : Nat) : Option (CPool Task) :=
  match s.worker w with
  | .locking | .woken =>
    if s.lock = none then some ((s.withLock (some (.worker w))).setWorker w .looking) else none
  | .looking =>
    match threadpoolThread s.pool with
    | (.wait, pool) => some (((s.withPool pool).withLock none).setWorker w .asleep)
    | (.exit, pool) => some ((s.withPool pool).setWorker w .leaving)
    | (.run task, pool) =>
      some ({ s.withPool pool with dequeued := s.dequeued ++ [task] }.setWorker w (.unlocking task))
  | .unlocking task => some ((s.withLock none).setWorker w (.running task))
  | .running _ => some (s.setWorker w .locking)
  | .leaving => some ((s.withLock none).setWorker w .exited)
  | .unborn | .asleep | .exited => none

def spurious (s : CPool Task) (w : Nat) : Option (CPool Task) :=
  (s.worker w).wake.map (s.setWorker w)

def step (threadNum : Nat) (s : CPool Task) : CPoolStep Task → Option (CPool Task)
  | .pthreadCreate started => s.pthreadCreate threadNum started
  | .create => s.creatorStep threadNum
  | .callAdd c task => s.callAdd c task
  | .callDestroy c flags => s.callDestroy c flags
  | .caller c => if s.freed = true ∧ (s.caller c).isFreed = false then none else s.callerStep c
  | .add c signalled => if s.freed then none else s.addStep threadNum c signalled
  | .pthreadJoin c joined => if s.freed then none else s.pthreadJoin c joined
  | .thread w => s.threadStep w
  | .spurious w => s.spurious w

/-- In front of the first `pthread_create`. -/
def start (pool : Threadpool Task) : CPool Task where
  pool := { pool with threadCountInPool := 0, activeThreadNum := 0 }
  lock := none
  creator := .creating 0
  caller := fun _ => .returned none
  worker := fun _ => .unborn
  freed := false
  dequeued := []

end CPool

def cPool (Task : Type) (threadNum queueSize : Int) : Lts (CPool Task) (CPoolStep Task) where
  init s := ∃ pool, threadpoolCreate threadNum queueSize = some pool ∧ s = .start pool
  step := CPool.step threadNum.toNat

end HPServer
