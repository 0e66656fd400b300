import HighPerformanceServer.Ring
import Mathlib.Data.Int.Basic
/-!
# The C thread pool: `threadpool_t` (threadpool.cpp:3-198)

The code between `pthread_mutex_lock` and the unlock, wait or exit behind it is one step; each
function of this file is such a step, with the outcome of the `pthread` calls it makes.

| here | there |
| --- | --- |
| `Shutdown`          | `0`, `immediate_shutdown`, `graceful_shutdown` (`threadpool.h:27-30`) |
| `Threadpool`        | `threadpool_t` (`threadpool.h:101-113`) without its lock, condition and thread ids |
| `threadpoolCreate`  | `threadpool_create` (:3-51) when every call succeeds; `none` is `nullptr` |
| `threadpoolAdd`     | `threadpool_add` (:53-96) |
| `threadpoolDestroy` | `threadpool_destroy` up to the joins (:106-125) |
| `threadpoolThread`  | `threadpool_thread` from the lock, or from the return of a wait, on (:169-195) |

A task is what `function` and `argument` name together; a slot no `threadpool_add` has written is
`none`. Memory outside the `queue_size` slots is not modelled as such: the indices stay inside
(`ThreadpoolRuns.lean`).
-/

namespace HPServer

variable {Task : Type}

inductive Shutdown where
  | running | immediate | graceful
deriving DecidableEq, Repr

def THREADPOOL_INVALID : Int := -1
def THREADPOOL_LOCK_FAILURE : Int := -2
def THREADPOOL_QUEUE_FULL : Int := -3
def THREADPOOL_SHUTDOWN : Int := -4
def THREADPOOL_THREAD_FAILURE : Int := -5
def THREADPOOL_GRACEFUL : Nat := 1
def MAX_THREADS : Int := 1024
def MAX_QUEUE : Int := 65535

structure Threadpool (Task : Type) where
  queue : Nat → Option Task
  threadCountInPool : Int
  queueSize : Int
  head : Int
  tail : Int
  pendingTaskCount : Int
  shutdown : Shutdown
  activeThreadNum : Int

def threadpoolCreate (threadNum queueSize : Int) : Option (Threadpool Task) :=
  if threadNum ≤ 0 ∨ threadNum > MAX_THREADS ∨ queueSize ≤ 0 ∨ queueSize > MAX_QUEUE then none
  else some
    { queue := fun _ => none
      threadCountInPool := threadNum
      queueSize := queueSize
      head := 0
      tail := 0
      pendingTaskCount := 0
      shutdown := .running
      activeThreadNum := threadNum }

/-- Whether `pthread_mutex_lock`, `pthread_cond_signal` and `pthread_mutex_unlock` return `0`. -/
structure PthreadCalls where
  lock : Bool
  signal : Bool
  unlock : Bool

def PthreadCalls.succeed : PthreadCalls := ⟨true, true, true⟩

/-- The queue part of `threadpool_add`, under the lock. -/
def enqueue (task : Task) (signal : Bool) (pool : Threadpool Task) : Int × Threadpool Task :=
  let next := (pool.tail + 1).tmod pool.queueSize
  if pool.pendingTaskCount = pool.queueSize then (THREADPOOL_QUEUE_FULL, pool)
  else if pool.shutdown ≠ .running then (THREADPOOL_SHUTDOWN, pool)
  else
    let pool := { pool with
      queue := Function.update pool.queue pool.tail.toNat (some task)
      tail := next
      pendingTaskCount := pool.pendingTaskCount + 1 }
    (if signal then 0 else THREADPOOL_LOCK_FAILURE, pool)

/-- `task = none` is a null `function`. -/
def threadpoolAdd (calls : PthreadCalls) (task : Option Task) (pool : Threadpool Task) :
    Int × Threadpool Task :=
  match task with
  | none => (THREADPOOL_INVALID, pool)
  | some task =>
    if calls.lock then
      let (err, pool) := enqueue task calls.signal pool
      (if calls.unlock then err else THREADPOOL_LOCK_FAILURE, pool)
    else (THREADPOOL_LOCK_FAILURE, pool)

/-- `flags & THREADPOOL_GRACEFUL` chooses the shutdown; a second call fails. -/
def threadpoolDestroy (flags : Nat) (pool : Threadpool Task) : Int × Threadpool Task :=
  if pool.shutdown ≠ .running then (THREADPOOL_SHUTDOWN, pool)
  else (0, { pool with
    shutdown := if flags &&& THREADPOOL_GRACEFUL ≠ 0 then .graceful else .immediate })

/-- What a worker does with the lock: sleep on `notify`, leave its loop, or unlock and run what it
took out of the queue. -/
inductive Turn (Task : Type) where
  | wait
  | exit
  | run (task : Option Task)

def threadpoolThread (pool : Threadpool Task) : Turn Task × Threadpool Task :=
  if pool.pendingTaskCount = 0 ∧ pool.shutdown = .running then (.wait, pool)
  else if pool.shutdown = .immediate ∨ (pool.shutdown = .graceful ∧ pool.pendingTaskCount = 0) then
    (.exit, { pool with activeThreadNum := pool.activeThreadNum - 1 })
  else
    (.run (pool.queue pool.head.toNat), { pool with
      head := (pool.head + 1).tmod pool.queueSize
      pendingTaskCount := pool.pendingTaskCount - 1 })

/-- The tasks waiting in the queue, from `head` on. -/
def Threadpool.pending (pool : Threadpool Task) : List (Option Task) :=
  Ring.window pool.queue pool.queueSize.toNat pool.head.toNat pool.pendingTaskCount.toNat

/-- The ring is in shape. -/
structure RingInv (pool : Threadpool Task) : Prop where
  size : 0 < pool.queueSize
  head : 0 ≤ pool.head ∧ pool.head < pool.queueSize
  tail : 0 ≤ pool.tail ∧ pool.tail < pool.queueSize
  count : 0 ≤ pool.pendingTaskCount ∧ pool.pendingTaskCount ≤ pool.queueSize
  wrap : pool.tail = (pool.head + pool.pendingTaskCount) % pool.queueSize

theorem ringInv_create {threadNum queueSize : Int} {pool : Threadpool Task}
    (h : threadpoolCreate threadNum queueSize = some pool) :
    RingInv pool ∧ pool.pending = [] ∧ pool.shutdown = .running ∧ 0 < pool.threadCountInPool := by
  unfold threadpoolCreate at h
  split at h
  · cases h
  · rename_i hbounds
    cases h
    rw [not_or, not_or, not_or] at hbounds
    have hpos : 0 < queueSize := by omega
    exact ⟨⟨hpos, ⟨Int.le_refl 0, hpos⟩, ⟨Int.le_refl 0, hpos⟩, ⟨Int.le_refl 0, Int.le_of_lt hpos⟩,
      by simp⟩, rfl, rfl, by dsimp only; omega⟩

theorem toNat_wrap {a b size : Int} (ha : 0 ≤ a) (hb : 0 ≤ b) (hs : 0 < size) :
    ((a + b) % size).toNat = (a.toNat + b.toNat) % size.toNat := by
  rw [Int.toNat_emod (by omega) (by omega), Int.toNat_add ha hb]

/-- The three ways through the queue part of `threadpool_add`. -/
theorem enqueue_cases {pool : Threadpool Task} (h : RingInv pool) (task : Task) (signal : Bool) :
    (pool.pendingTaskCount = pool.queueSize ∧
      enqueue task signal pool = (THREADPOOL_QUEUE_FULL, pool)) ∨
    (pool.pendingTaskCount ≠ pool.queueSize ∧ pool.shutdown ≠ .running ∧
      enqueue task signal pool = (THREADPOOL_SHUTDOWN, pool)) ∨
    ∃ pool', pool.pendingTaskCount ≠ pool.queueSize ∧ pool.shutdown = .running ∧
      enqueue task signal pool = (if signal then 0 else THREADPOOL_LOCK_FAILURE, pool') ∧
      RingInv pool' ∧ pool'.pending = pool.pending ++ [some task] ∧
      pool'.shutdown = pool.shutdown ∧ pool'.threadCountInPool = pool.threadCountInPool := by
  simp only [enqueue]
  by_cases hfull : pool.pendingTaskCount = pool.queueSize
  · rw [if_pos hfull]; exact Or.inl ⟨hfull, rfl⟩
  rw [if_neg hfull]
  by_cases hdown : pool.shutdown ≠ .running
  · rw [if_pos hdown]; exact Or.inr (Or.inl ⟨hfull, hdown, rfl⟩)
  rw [if_neg hdown]
  obtain ⟨hsize, ⟨hh0, hh⟩, ⟨ht0, ht⟩, ⟨hc0, hc⟩, hwrap⟩ := h
  have hnext : (pool.tail + 1).tmod pool.queueSize = (pool.tail + 1) % pool.queueSize :=
    Int.tmod_eq_emod_of_nonneg (by omega)
  rw [hnext]
  refine Or.inr (Or.inr ⟨_, hfull, not_not.1 hdown, rfl, ?_, ?_, rfl, rfl⟩)
  · refine ⟨hsize, ⟨hh0, hh⟩, ⟨Int.emod_nonneg _ (by omega), Int.emod_lt_of_pos _ hsize⟩,
      ⟨by dsimp only; omega, by dsimp only; omega⟩, ?_⟩
    dsimp only
    rw [hwrap, Int.emod_add_emod, Int.add_assoc]
  · have hcount : (pool.pendingTaskCount + 1).toNat = pool.pendingTaskCount.toNat + 1 := by omega
    have htail : pool.tail.toNat =
        (pool.head.toNat + pool.pendingTaskCount.toNat) % pool.queueSize.toNat := by
      rw [hwrap, toNat_wrap hh0 hc0 hsize]
    simp only [Threadpool.pending]
    rw [hcount, htail, Ring.window_push (by omega)]

/-- The three results of `threadpool_add` when the `pthread` calls succeed. -/
theorem threadpoolAdd_cases {pool : Threadpool Task} (h : RingInv pool) (task : Task) :
    threadpoolAdd .succeed (some task) pool = (THREADPOOL_QUEUE_FULL, pool) ∨
    (pool.shutdown ≠ .running ∧
      threadpoolAdd .succeed (some task) pool = (THREADPOOL_SHUTDOWN, pool)) ∨
    ∃ pool', pool.shutdown = .running ∧ threadpoolAdd .succeed (some task) pool = (0, pool') ∧
      RingInv pool' ∧ pool'.pending = pool.pending ++ [some task] ∧
      pool'.shutdown = pool.shutdown ∧ pool'.threadCountInPool = pool.threadCountInPool := by
  have hadd : threadpoolAdd .succeed (some task) pool = enqueue task true pool := rfl
  rw [hadd]
  rcases enqueue_cases h task true with ⟨-, e⟩ | ⟨-, hdown, e⟩ | ⟨pool', -, hrun, e, hnew⟩
  · exact Or.inl e
  · exact Or.inr (Or.inl ⟨hdown, e⟩)
  · exact Or.inr (Or.inr ⟨pool', hrun, e, hnew⟩)

/-- The three turns of a worker. -/
theorem threadpoolThread_cases {pool : Threadpool Task} (h : RingInv pool) :
    (pool.shutdown = .running ∧ threadpoolThread pool = (.wait, pool)) ∨
    (pool.shutdown ≠ .running ∧ (pool.shutdown ≠ .immediate → pool.pendingTaskCount = 0) ∧
      threadpoolThread pool = (.exit, { pool with activeThreadNum := pool.activeThreadNum - 1 })) ∨
    ∃ task pool', pool.shutdown ≠ .immediate ∧ threadpoolThread pool = (.run task, pool') ∧
      RingInv pool' ∧ pool.pending = task :: pool'.pending ∧
      pool'.shutdown = pool.shutdown ∧ pool'.threadCountInPool = pool.threadCountInPool := by
  obtain ⟨hsize, ⟨hh0, hh⟩, ⟨ht0, ht⟩, ⟨hc0, hc⟩, hwrap⟩ := h
  unfold threadpoolThread
  by_cases hwait : pool.pendingTaskCount = 0 ∧ pool.shutdown = .running
  · rw [if_pos hwait]; exact Or.inl ⟨hwait.2, rfl⟩
  rw [if_neg hwait]
  by_cases hexit : pool.shutdown = .immediate ∨ (pool.shutdown = .graceful ∧ pool.pendingTaskCount = 0)
  · rw [if_pos hexit]
    refine Or.inr (Or.inl ⟨?_, ?_, rfl⟩)
    · rcases hexit with h | ⟨h, -⟩ <;> rw [h] <;> simp
    · intro hne; exact (hexit.resolve_left hne).2
  rw [if_neg hexit]
  rw [not_or] at hexit
  have hpos : 0 < pool.pendingTaskCount := by
    by_contra hle
    have hzero : pool.pendingTaskCount = 0 := by omega
    cases hs : pool.shutdown with
    | running => exact hwait ⟨hzero, hs⟩
    | immediate => exact hexit.1 hs
    | graceful => exact hexit.2 ⟨hs, hzero⟩
  have hnext : (pool.head + 1).tmod pool.queueSize = (pool.head + 1) % pool.queueSize :=
    Int.tmod_eq_emod_of_nonneg (by omega)
  rw [hnext]
  refine Or.inr (Or.inr ⟨_, _, hexit.1, rfl, ?_, ?_, rfl, rfl⟩)
  · refine ⟨hsize, ⟨Int.emod_nonneg _ (by omega), Int.emod_lt_of_pos _ hsize⟩, ⟨ht0, ht⟩,
      ⟨by dsimp only; omega, by dsimp only; omega⟩, ?_⟩
    dsimp only
    rw [hwrap, Int.emod_add_emod]; congr 1; omega
  · obtain ⟨n, hn⟩ : ∃ n, pool.pendingTaskCount.toNat = n + 1 := ⟨pool.pendingTaskCount.toNat - 1, by omega⟩
    have hcount : (pool.pendingTaskCount - 1).toNat = n := by omega
    have hhead : ((pool.head + 1) % pool.queueSize).toNat =
        (pool.head.toNat + 1) % pool.queueSize.toNat := toNat_wrap hh0 (by decide) hsize
    simp only [Threadpool.pending]
    rw [hcount, hn, hhead, Ring.window_pop (by omega)]

end HPServer
