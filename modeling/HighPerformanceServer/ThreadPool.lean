import HighPerformanceServer.CppStd
import HighPerformanceServer.Lts
import HighPerformanceServer.Monitor
import HighPerformanceServer.Ring
import HighPerformanceServer.Threadpool
/-!
# The C++ thread pool: `ThreadPool` (threadpool.h:128-156, threadpool.cpp:200-297, :345-355)

Any number of producers call `add`, the workers run `do_thread`, one thread runs the destructor.
A step is one test, one store, or one call on `lock` or on a condition; the stores of a critical
section, the notify behind them and the unlock are one step, since the destructor's steps, the only
ones that do not need the lock, can be moved past them.

| here | there |
| --- | --- |
| `ThreadPool`            | the members, without lock, conditions and thread ids |
| `ThreadPool.create`     | `create` (:218-242) when the allocations and `pthread_create` succeed |
| `AddPc`, `addStep`      | `add` (:244-265) |
| `DoThreadPc`, `doThreadStep` | `do_thread` (:267-297) |
| `DestructorPc`          | `~ThreadPool` (:208-216) |
| `spuriousAdd`, `spuriousDoThread` | `pthread_cond_wait` may return without a notify |

`pthread_exit` (:276) runs the destructor of the guard in scope, so a worker that leaves unlocks.
`active_thread_count` is counted and never read, and left out. Behind the joins the destructor
frees the queue; no thread reads it then. The queue has a slot for every index here: the indices stay
inside the array that `create` allocates when it keeps its limits (`indices_allocated`), as it does for
requests below 2^31 (`create_clamped_iff`).
-/

namespace HPServer

open CppStd

variable {Task : Type}

inductive Status where
  | RUNNING | SHUTDOWN
deriving DecidableEq

/-- A null `function` never gets into the queue (:245); a slot no `add` has written is `none`. -/
structure ThreadPool (Task : Type) where
  queue : Nat → Option Task
  threadCount : Nat
  queueSize : Nat
  queueFront : Nat
  queueRear : Nat
  waitingTaskNum : Nat
  status : Status

namespace ThreadPool

/-- `std::min((int) n, limit)`. -/
def clamp (n : UInt32) (limit : Int) : Int := min (sizeToInt n.toNat) limit

def create (threadNum queueCapacity : UInt32) : ThreadPool Task :=
  let (threadNum, queueCapacity) :=
    if threadNum = 0 ∨ queueCapacity = 0 then (3, 3) else (threadNum, queueCapacity)
  { queue := fun _ => none
    threadCount := (clamp threadNum MAX_THREADS % 4294967296).toNat
    queueSize := toSize (clamp queueCapacity MAX_QUEUE)
    queueFront := 0
    queueRear := 0
    waitingTaskNum := 0
    status := .RUNNING }

/-- The stores of `add` (:257-261). -/
def store (pool : ThreadPool Task) (task : Task) : ThreadPool Task :=
  { pool with
    queue := Function.update pool.queue pool.queueRear (some task)
    queueRear := (pool.queueRear + 1) % pool.queueSize
    waitingTaskNum := pool.waitingTaskNum + 1 }

/-- The stores of `do_thread` (:281-283). -/
def dequeue (pool : ThreadPool Task) : ThreadPool Task :=
  { pool with
    queueFront := (pool.queueFront + 1) % pool.queueSize
    waitingTaskNum := pool.waitingTaskNum - 1 }

def front (pool : ThreadPool Task) : Option Task := pool.queue pool.queueFront

/-- The `waiting_task_num` slots from `queue_front` on. -/
def pending (pool : ThreadPool Task) : List (Option Task) :=
  Ring.window pool.queue pool.queueSize pool.queueFront pool.waitingTaskNum

end ThreadPool

/-- Where a producer is; `returned` is outside `add`, with the last result. -/
inductive AddPc (Task : Type) where
  | returned (ret : Option Int)
  /-- At the guard (:250). -/
  | locking (task : Task)
  /-- At the capacity test (:251). -/
  | testing (task : Task)
  /-- In `queue_has_spare.wait()`, before it gives up the lock (:252). -/
  | waiting (task : Task)
  | asleep (task : Task)
  /-- Woken, to lock again. -/
  | woken (task : Task)
  /-- At the status test (:254). -/
  | checking (task : Task)
  | storing (task : Task)

inductive DoThreadPc (Task : Type) where
  /-- At the guard (:272). -/
  | locking
  /-- At the `while` test (:273). -/
  | testing
  /-- In `queue_has_task.wait()`, before it gives up the lock (:274). -/
  | waiting
  | asleep
  | woken
  /-- At the status test (:276). -/
  | checking
  | dequeuing
  | running (task : Option Task)
  | exited

inductive DestructorPc where
  | notCalled
  /-- `status` is stored, `notifyAll` is to come. -/
  | stored
  | joining (i : Nat)
  | joined
deriving DecidableEq

inductive PoolThread where
  | producer (p : Nat)
  | worker (w : Nat)
deriving DecidableEq

/-- `stored` and `dequeued` are history: what `add` put into slots, and what was taken out. -/
structure PoolSys (Task : Type) where
  pool : ThreadPool Task
  lock : Option PoolThread
  producer : Nat → AddPc Task
  worker : Nat → DoThreadPc Task
  destructor : DestructorPc
  stored : List Task
  dequeued : List (Option Task)

inductive PoolMove (Task : Type) where
  /-- A call of `add`; `none` is a null `function` or `argument`. -/
  | call (p : Nat) (task : Option Task)
  | add (p : Nat)
  /-- The stores of `add`; `notified` is the worker its notify wakes. -/
  | store (p : Nat) (notified : Option Nat)
  | spuriousAdd (p : Nat)
  | doThread (w : Nat)
  /-- The stores of `do_thread`; `notified` is the producer its notify wakes. -/
  | dequeue (w : Nat) (notified : Option Nat)
  | spuriousDoThread (w : Nat)
  | shutdown
  | notifyAll
  | join

/-- Inside the critical section. -/
def AddPc.inside : AddPc Task → Prop
  | .testing _ | .waiting _ | .checking _ | .storing _ => True
  | .returned _ | .locking _ | .asleep _ | .woken _ => False

/-- On `queue_has_spare`. -/
def AddPc.wake : AddPc Task → Option (AddPc Task)
  | .asleep task => some (.woken task)
  | _ => none

def DoThreadPc.inside : DoThreadPc Task → Prop
  | .testing | .waiting | .checking | .dequeuing => True
  | .locking | .asleep | .woken | .running _ | .exited => False

/-- On `queue_has_task`. -/
def DoThreadPc.wake : DoThreadPc Task → Option (DoThreadPc Task)
  | .asleep => some .woken
  | _ => none

namespace PoolSys

def setProducer (s : PoolSys Task) (p : Nat) (x : AddPc Task) : PoolSys Task :=
  { s with producer := Function.update s.producer p x }

def setWorker (s : PoolSys Task) (w : Nat) (x : DoThreadPc Task) : PoolSys Task :=
  { s with worker := Function.update s.worker w x }

def withLock (s : PoolSys Task) (lock : Option PoolThread) : PoolSys Task := { s with lock := lock }

def call (s : PoolSys Task) (p : Nat) (task : Option Task) : Option (PoolSys Task) :=
  match s.producer p, task with
  | .returned _, some task => some (s.setProducer p (.locking task))
  | .returned _, none => some (s.setProducer p (.returned (some (-1))))
  | _, _ => none

def addStep (s : PoolSys Task) (p : Nat) : Option (PoolSys Task) :=
  match s.producer p with
  | .locking task =>
    if s.lock = none then some ((s.withLock (some (.producer p))).setProducer p (.testing task))
    else none
  | .testing task =>
    if s.pool.status = .RUNNING ∧ s.pool.queueSize = s.pool.waitingTaskNum then
      some (s.setProducer p (.waiting task))
    else some (s.setProducer p (.checking task))
  | .waiting task => some ((s.withLock none).setProducer p (.asleep task))
  | .woken task =>
    if s.lock = none then some ((s.withLock (some (.producer p))).setProducer p (.checking task))
    else none
  | .checking task =>
    if s.pool.status = .SHUTDOWN then some ((s.withLock none).setProducer p (.returned (some 0)))
    else some (s.setProducer p (.storing task))
  | .returned _ | .asleep _ | .storing _ => none

def storeStep (s : PoolSys Task) (p : Nat) (notified : Option Nat) : Option (PoolSys Task) :=
  match s.producer p with
  | .storing task => do
    let worker ← Monitor.signal DoThreadPc.wake s.pool.threadCount s.worker notified
    return { s with
      pool := s.pool.store task
      lock := none
      producer := Function.update s.producer p (.returned (some 0))
      worker := worker
      stored := s.stored ++ [task] }
  | _ => none

def doThreadStep (s : PoolSys Task) (w : Nat) : Option (PoolSys Task) :=
  match s.worker w with
  | .locking | .woken =>
    if s.lock = none then some ((s.withLock (some (.worker w))).setWorker w .testing) else none
  | .testing =>
    if s.pool.status = .RUNNING ∧ s.pool.waitingTaskNum = 0 then some (s.setWorker w .waiting)
    else some (s.setWorker w .checking)
  | .waiting => some ((s.withLock none).setWorker w .asleep)
  | .checking =>
    if s.pool.status = .SHUTDOWN then some ((s.withLock none).setWorker w .exited)
    else some (s.setWorker w .dequeuing)
  | .running _ => some (s.setWorker w .locking)
  | .asleep | .dequeuing | .exited => none

def dequeueStep (producers : Nat) (s : PoolSys Task) (w : Nat) (notified : Option Nat) :
    Option (PoolSys Task) :=
  match s.worker w with
  | .dequeuing => do
    let producer ← Monitor.signal AddPc.wake producers s.producer notified
    return { s with
      pool := s.pool.dequeue
      lock := none
      producer := producer
      worker := Function.update s.worker w (.running s.pool.front)
      dequeued := s.dequeued ++ [s.pool.front] }
  | _ => none

def spuriousAdd (s : PoolSys Task) (p : Nat) : Option (PoolSys Task) :=
  (s.producer p).wake.map (s.setProducer p)

def spuriousDoThread (s : PoolSys Task) (w : Nat) : Option (PoolSys Task) :=
  (s.worker w).wake.map (s.setWorker w)

def isExited : DoThreadPc Task → Bool
  | .exited => true
  | _ => false

/-- The destructor takes no lock. -/
def destructorStep (s : PoolSys Task) : PoolMove Task → Option (PoolSys Task)
  | .shutdown =>
    if s.destructor = .notCalled then
      some { s with pool := { s.pool with status := .SHUTDOWN }, destructor := .stored }
    else none
  | .notifyAll =>
    if s.destructor = .stored then
      some { s with
        worker := Monitor.broadcast DoThreadPc.wake s.worker
        destructor := .joining 0 }
    else none
  | .join =>
    match s.destructor with
    | .joining i =>
      if i < s.pool.threadCount then
        if isExited (s.worker i) then some { s with destructor := .joining (i + 1) } else none
      else some { s with destructor := .joined }
    | _ => none
  | _ => none

def step (producers : Nat) (s : PoolSys Task) (a : PoolMove Task) : Option (PoolSys Task) :=
  match a with
  | .call p task => if p < producers then s.call p task else none
  | .add p => s.addStep p
  | .store p notified => s.storeStep p notified
  | .spuriousAdd p => s.spuriousAdd p
  | .doThread w => if w < s.pool.threadCount then s.doThreadStep w else none
  | .dequeue w notified => s.dequeueStep producers w notified
  | .spuriousDoThread w => s.spuriousDoThread w
  | .shutdown | .notifyAll | .join => s.destructorStep a

def start (pool : ThreadPool Task) : PoolSys Task where
  pool := pool
  lock := none
  producer := fun _ => .returned none
  worker := fun _ => .locking
  destructor := .notCalled
  stored := []
  dequeued := []

end PoolSys

/-- From behind a successful `create` on, with `producers` threads that call `add`. -/
def threadPool (Task : Type) (threadNum queueCapacity : UInt32) (producers : Nat) :
    Lts (PoolSys Task) (PoolMove Task) where
  init s := s = .start (.create threadNum queueCapacity)
  step := PoolSys.step producers

/-! ## What a step can do -/

/-- On the way into a sleep, or asleep. -/
def AddPc.blocked : AddPc Task → Prop
  | .waiting _ | .asleep _ => True
  | _ => False

def DoThreadPc.blocked : DoThreadPc Task → Prop
  | .waiting | .asleep => True
  | _ => False

theorem AddPc.wake_eq {x y : AddPc Task} (h : x.wake = some y) :
    ∃ task, x = .asleep task ∧ y = .woken task := by
  cases x <;> cases h
  exact ⟨_, rfl, rfl⟩

theorem DoThreadPc.wake_eq {z z' : DoThreadPc Task} (h : z.wake = some z') :
    z = .asleep ∧ z' = .woken := by
  cases z <;> cases h
  exact ⟨rfl, rfl⟩

namespace PoolSys

variable {s s' : PoolSys Task} {p w : Nat}

theorem storeStep_cases {notified : Option Nat} (hs : s.storeStep p notified = some s') :
    ∃ task worker, s.producer p = .storing task ∧
      Monitor.signal DoThreadPc.wake s.pool.threadCount s.worker notified = some worker ∧
      s' = { s with
        pool := s.pool.store task
        lock := none
        producer := Function.update s.producer p (.returned (some 0))
        worker := worker
        stored := s.stored ++ [task] } := by
  unfold storeStep at hs
  split at hs
  · rename_i hp
    obtain ⟨worker, hsignal, hs⟩ := Option.bind_eq_some_iff.1 hs
    exact ⟨_, worker, hp, hsignal, (Option.some.inj hs).symm⟩
  · cases hs

theorem dequeueStep_cases {producers : Nat} {notified : Option Nat}
    (hs : s.dequeueStep producers w notified = some s') :
    ∃ producer, s.worker w = .dequeuing ∧
      Monitor.signal AddPc.wake producers s.producer notified = some producer ∧
      s' = { s with
        pool := s.pool.dequeue
        lock := none
        producer := producer
        worker := Function.update s.worker w (.running s.pool.front)
        dequeued := s.dequeued ++ [s.pool.front] } := by
  unfold dequeueStep at hs
  split at hs
  · rename_i hw
    obtain ⟨producer, hsignal, hs⟩ := Option.bind_eq_some_iff.1 hs
    exact ⟨producer, hw, hsignal, (Option.some.inj hs).symm⟩
  · cases hs

theorem destructorStep_cases {a : PoolMove Task} (hs : s.destructorStep a = some s') :
    (a = .shutdown ∧ s.destructor = .notCalled ∧
      s' = { s with pool := { s.pool with status := .SHUTDOWN }, destructor := .stored }) ∨
    (a = .notifyAll ∧ s.destructor = .stored ∧
      s' = { s with worker := Monitor.broadcast DoThreadPc.wake s.worker, destructor := .joining 0 }) ∨
    ∃ i d, a = .join ∧ s.destructor = .joining i ∧ (d = .joining (i + 1) ∨ d = .joined) ∧
      s' = { s with destructor := d } := by
  unfold destructorStep at hs
  split at hs
  · split at hs
    · rename_i hd
      exact Or.inl ⟨rfl, hd, (Option.some.inj hs).symm⟩
    · cases hs
  · split at hs
    · rename_i hd
      exact Or.inr (Or.inl ⟨rfl, hd, (Option.some.inj hs).symm⟩)
    · cases hs
  · split at hs
    · rename_i i hd
      refine Or.inr (Or.inr ⟨i, ?_⟩)
      split at hs
      · split at hs <;> cases hs
        exact ⟨_, rfl, hd, Or.inl rfl, rfl⟩
      · cases hs
        exact ⟨_, rfl, hd, Or.inr rfl, rfl⟩
    · cases hs
  · cases hs

/-- What a step does, by the thread that takes it. -/
inductive Effect (producers : Nat) (s : PoolSys Task) (a : PoolMove Task) : PoolSys Task → Prop where
  /-- Producer `p` goes to `x`. It gets blocked only by a test that reads `RUNNING`. -/
  | producer (p : Nat) (lock : Option PoolThread) (x : AddPc Task)
      (mine : p < producers ∨ ∀ ret, s.producer p ≠ .returned ret)
      (wakes : ∀ task, x = .woken task → a = .spuriousAdd p)
      (blocks : x.blocked → s.pool.status = .RUNNING ∨ ∃ task, s.producer p = .waiting task)
      (stays : (s.producer p).blocked → x.blocked ∨ a = .spuriousAdd p) :
      Effect producers s a ((s.withLock lock).setProducer p x)
  /-- Worker `w` goes to `z`. It gets blocked, or on to its stores, only by a test that reads
  `RUNNING`. -/
  | worker (w : Nat) (lock : Option PoolThread) (z : DoThreadPc Task)
      (leaves : s.worker w ≠ .dequeuing)
      (blocks : z.blocked → s.pool.status = .RUNNING ∨ (s.worker w).blocked)
      (dequeues : z = .dequeuing → s.pool.status ≠ .SHUTDOWN) :
      Effect producers s a ((s.withLock lock).setWorker w z)
  | store (p : Nat) (task : Task) (worker : Nat → DoThreadPc Task) (hp : s.producer p = .storing task)
      (woken : Monitor.Woken DoThreadPc.wake s.worker worker) :
      Effect producers s a { s with
        pool := s.pool.store task
        lock := none
        producer := Function.update s.producer p (.returned (some 0))
        worker := worker
        stored := s.stored ++ [task] }
  | dequeue (w : Nat) (notified : Option Nat) (producer : Nat → AddPc Task)
      (hw : s.worker w = .dequeuing)
      (signal : Monitor.signal AddPc.wake producers s.producer notified = some producer) :
      Effect producers s a { s with
        pool := s.pool.dequeue
        lock := none
        producer := producer
        worker := Function.update s.worker w (.running s.pool.front)
        dequeued := s.dequeued ++ [s.pool.front] }
  | destructor {s' : PoolSys Task} (hs : s.destructorStep a = some s') : Effect producers s a s'

section Effect

variable {producers : Nat} {a : PoolMove Task}

theorem call_effect {task : Option Task} (hp : p < producers) (hs : s.call p task = some s') :
    Effect producers s a s' := by
  unfold call at hs
  split at hs
  · rename_i hpc
    cases hs
    refine .producer p s.lock _ (Or.inl hp) ?_ ?_ ?_ <;> simp [hpc, AddPc.blocked]
  · rename_i hpc
    cases hs
    refine .producer p s.lock _ (Or.inl hp) ?_ ?_ ?_ <;> simp [hpc, AddPc.blocked]
  · cases hs

theorem addStep_effect (hs : s.addStep p = some s') : Effect producers s a s' := by
  unfold addStep at hs
  split at hs <;> rename_i hpc
  case h_1 | h_4 =>
    split at hs <;> cases hs
    refine .producer p _ _ (Or.inr ?_) ?_ ?_ ?_ <;> simp [hpc, AddPc.blocked]
  case h_2 =>
    split at hs
    · rename_i hfull
      cases hs
      refine .producer p s.lock _ (Or.inr ?_) ?_ ?_ ?_ <;> simp [hpc, hfull.1, AddPc.blocked]
    · cases hs
      refine .producer p s.lock _ (Or.inr ?_) ?_ ?_ ?_ <;> simp [hpc, AddPc.blocked]
  case h_3 =>
    cases hs
    refine .producer p _ _ (Or.inr ?_) ?_ ?_ ?_ <;> simp [hpc, AddPc.blocked]
  case h_5 =>
    split at hs <;> cases hs
    · refine .producer p _ _ (Or.inr ?_) ?_ ?_ ?_ <;> simp [hpc, AddPc.blocked]
    · refine .producer p s.lock _ (Or.inr ?_) ?_ ?_ ?_ <;> simp [hpc, AddPc.blocked]
  all_goals cases hs

theorem doThreadStep_effect (hs : s.doThreadStep w = some s') : Effect producers s a s' := by
  unfold doThreadStep at hs
  split at hs <;> rename_i hpc
  case h_1 | h_2 =>
    split at hs <;> cases hs
    refine .worker w _ _ ?_ ?_ ?_ <;> simp [hpc, DoThreadPc.blocked]
  case h_3 =>
    split at hs
    · rename_i hidle
      cases hs
      refine .worker w s.lock _ ?_ ?_ ?_ <;> simp [hpc, hidle.1, DoThreadPc.blocked]
    · cases hs
      refine .worker w s.lock _ ?_ ?_ ?_ <;> simp [hpc, DoThreadPc.blocked]
  case h_4 =>
    cases hs
    refine .worker w _ _ ?_ ?_ ?_ <;> simp [hpc, DoThreadPc.blocked]
  case h_5 =>
    split at hs
    · cases hs
      refine .worker w _ _ ?_ ?_ ?_ <;> simp [hpc, DoThreadPc.blocked]
    · rename_i hstatus
      cases hs
      refine .worker w s.lock _ ?_ ?_ ?_ <;> simp [hpc, hstatus, DoThreadPc.blocked]
  case h_6 =>
    cases hs
    refine .worker w s.lock _ ?_ ?_ ?_ <;> simp [hpc, DoThreadPc.blocked]
  all_goals cases hs

theorem step_effect (hs : s.step producers a = some s') : Effect producers s a s' := by
  cases a with
  | call p task =>
    obtain ⟨hp, hs⟩ := Option.ite_none_right_eq_some.1 hs
    exact call_effect hp hs
  | add p => exact addStep_effect hs
  | store p notified =>
    obtain ⟨task, worker, hp, hsignal, rfl⟩ := storeStep_cases hs
    exact .store p task worker hp (Monitor.signal_woken hsignal)
  | spuriousAdd p =>
    obtain ⟨x, hx, rfl⟩ := Option.map_eq_some_iff.1 hs
    obtain ⟨task, hpc, rfl⟩ := AddPc.wake_eq hx
    refine .producer p s.lock _ (Or.inr ?_) ?_ ?_ ?_ <;> simp [hpc, AddPc.blocked]
  | doThread w => exact doThreadStep_effect (Option.ite_none_right_eq_some.1 hs).2
  | dequeue w notified =>
    obtain ⟨producer, hw, hsignal, rfl⟩ := dequeueStep_cases hs
    exact .dequeue w notified producer hw hsignal
  | spuriousDoThread w =>
    obtain ⟨z, hz, rfl⟩ := Option.map_eq_some_iff.1 hs
    obtain ⟨hpc, rfl⟩ := DoThreadPc.wake_eq hz
    refine .worker w s.lock _ ?_ ?_ ?_ <;> simp [hpc, DoThreadPc.blocked]
  | shutdown | notifyAll | join => exact .destructor hs

end Effect

/-- There are `producers` of them; the others never call `add`. -/
def Idle (producers : Nat) (s : PoolSys Task) : Prop :=
  ∀ p, producers ≤ p → ∃ ret, s.producer p = .returned ret

section Idle

variable {producers : Nat} {x : AddPc Task}

theorem Idle.lt (h : Idle producers s) (hp : ∀ ret, s.producer p ≠ .returned ret) : p < producers := by
  by_contra hge
  obtain ⟨ret, hret⟩ := h p (by omega)
  exact hp ret hret

theorem Idle.update (h : Idle producers s) (hp : p < producers) (q : Nat) (hq : producers ≤ q) :
    ∃ ret, Function.update s.producer p x q = .returned ret := by
  rw [Function.update_of_ne (by omega)]
  exact h q hq

theorem Idle.step {a : PoolMove Task} (h : Idle producers s) (hs : s.step producers a = some s') :
    Idle producers s' := by
  cases step_effect hs with
  | producer p lock x hp => exact h.update (hp.elim id h.lt)
  | worker => exact h
  | store p task worker hp => exact h.update (h.lt (by simp [hp]))
  | dequeue w notified producer hw hsignal =>
    intro p hp
    obtain ⟨ret, hret⟩ := h p hp
    rcases Monitor.signal_woken hsignal p with e | e
    · exact ⟨ret, e.trans hret⟩
    · rw [hret] at e
      cases e
  | destructor hs =>
    obtain ⟨-, -, rfl⟩ | ⟨-, -, rfl⟩ | ⟨_, _, -, -, -, rfl⟩ := destructorStep_cases hs <;> exact h

theorem Idle.start (producers : Nat) (pool : ThreadPool Task) : Idle producers (PoolSys.start pool) :=
  fun _ _ => ⟨none, rfl⟩

end Idle

end PoolSys

end HPServer
