import HighPerformanceServer.Threadpool
/-!
# What an error code of `threadpool_add` says about the queue

A caller that reads an error still owns its argument, so the error must leave the queue alone.
Every check of `threadpool_add` does: the bad function (threadpool.cpp:59-61), the lock (:62-64),
the full queue (:69-72), the shutdown (:74-77). The codes of `pthread_cond_signal` and
`pthread_mutex_unlock` (:85-93) come after the writes to the ring, overwrite `err` and take
nothing back.
-/

namespace HPServer

variable {Task : Type} {pool pool' : Threadpool Task}

/-- What no failing call may touch. -/
structure SameQueue (pool pool' : Threadpool Task) : Prop where
  head : pool'.head = pool.head
  tail : pool'.tail = pool.tail
  count : pool'.pendingTaskCount = pool.pendingTaskCount
  shutdown : pool'.shutdown = pool.shutdown
  pending : pool'.pending = pool.pending

theorem SameQueue.refl (pool : Threadpool Task) : SameQueue pool pool := ⟨rfl, rfl, rfl, rfl, rfl⟩

/-- An error leaves the queue as it was; `0` puts the task behind the ones already there. -/
structure AddAtomic (calls : PthreadCalls) (task : Option Task) (pool : Threadpool Task) : Prop where
  error : (threadpoolAdd calls task pool).1 ≠ 0 → SameQueue pool (threadpoolAdd calls task pool).2
  stored : (threadpoolAdd calls task pool).1 = 0 →
    ∃ t, task = some t ∧ (threadpoolAdd calls task pool).2.pending = pool.pending ++ [some t]

/-- The calls that get past every check. -/
structure Accepts (calls : PthreadCalls) (task : Option Task) (pool : Threadpool Task) : Prop where
  function : task ≠ none
  lock : calls.lock = true
  space : pool.pendingTaskCount ≠ pool.queueSize
  running : pool.shutdown = .running

/-- A call turned away by a check reports an error and changes nothing, whatever the unlock
returns. -/
theorem threadpoolAdd_rejected {calls : PthreadCalls} {task : Option Task} (h : RingInv pool)
    (hno : ¬ Accepts calls task pool) :
    (threadpoolAdd calls task pool).1 ≠ 0 ∧ (threadpoolAdd calls task pool).2 = pool := by
  cases task with
  | none => exact ⟨show THREADPOOL_INVALID ≠ 0 by decide, rfl⟩
  | some task =>
    simp only [threadpoolAdd]
    split
    · rename_i hlock
      rcases enqueue_cases h task calls.signal with ⟨-, e⟩ | ⟨-, -, e⟩ | ⟨pool', hspace, hrun, -⟩
      · rw [e]
        refine ⟨?_, rfl⟩
        dsimp only
        split <;> decide
      · rw [e]
        refine ⟨?_, rfl⟩
        dsimp only
        split <;> decide
      · exact absurd ⟨by simp, hlock, hspace, hrun⟩ hno
    · exact ⟨show THREADPOOL_LOCK_FAILURE ≠ 0 by decide, rfl⟩

/-- A call that passes the checks stores its task, and only then learns of a failed signal or
unlock. -/
theorem threadpoolAdd_accepted {calls : PthreadCalls} {task : Option Task} (h : RingInv pool)
    (hyes : Accepts calls task pool) :
    ∃ t pool', task = some t ∧ RingInv pool' ∧ pool'.pending = pool.pending ++ [some t] ∧
      pool'.shutdown = pool.shutdown ∧
      threadpoolAdd calls task pool =
        (if calls.signal = true ∧ calls.unlock = true then 0 else THREADPOOL_LOCK_FAILURE, pool') := by
  obtain ⟨t, rfl⟩ := Option.ne_none_iff_exists'.1 hyes.function
  rcases enqueue_cases h t calls.signal with ⟨hfull, -⟩ | ⟨-, hdown, -⟩ |
    ⟨pool', -, -, e, hinv, hpending, hshutdown, -⟩
  · exact absurd hfull hyes.space
  · exact absurd hyes.running hdown
  refine ⟨t, pool', rfl, hinv, hpending, hshutdown, ?_⟩
  simp only [threadpoolAdd, hyes.lock, if_true, e]
  cases calls.signal <;> cases calls.unlock <;> rfl

/-- **Bug** (threadpool.cpp:85-93). A task that was stored is reported as refused exactly when the
signal or the unlock behind it fails. -/
theorem threadpoolAdd_atomic_iff {calls : PthreadCalls} {task : Option Task} (h : RingInv pool) :
    AddAtomic calls task pool ↔
      (Accepts calls task pool → calls.signal = true ∧ calls.unlock = true) := by
  constructor
  · intro hatomic hyes
    obtain ⟨t, pool', -, -, hpending, -, e⟩ := threadpoolAdd_accepted h hyes
    by_contra hfail
    have hsame := hatomic.error
    rw [e, if_neg hfail] at hsame
    have herr : THREADPOOL_LOCK_FAILURE ≠ 0 := by decide
    have hlen := congrArg List.length ((hsame herr).pending.symm.trans hpending)
    rw [List.length_append, List.length_singleton] at hlen
    omega
  · intro hok
    by_cases hyes : Accepts calls task pool
    · obtain ⟨t, pool', htask, -, hpending, -, e⟩ := threadpoolAdd_accepted h hyes
      rw [if_pos (hok hyes)] at e
      constructor
      · intro herr
        rw [e] at herr
        exact absurd rfl herr
      · intro _
        rw [e]
        exact ⟨t, htask, hpending⟩
    · obtain ⟨herr, hpool⟩ := threadpoolAdd_rejected h hyes
      constructor
      · intro _
        rw [hpool]
        exact SameQueue.refl pool
      · intro hzero
        exact absurd hzero herr

def onePlace : Threadpool Nat :=
  { queue := fun _ => none, threadCountInPool := 1, queueSize := 1, head := 0, tail := 0,
    pendingTaskCount := 0, shutdown := .running, activeThreadNum := 1 }

theorem onePlace_create : threadpoolCreate 1 1 = some onePlace := by
  simp [threadpoolCreate, onePlace, MAX_THREADS, MAX_QUEUE]

theorem onePlace_atomic : AddAtomic .succeed (some 7) onePlace :=
  (threadpoolAdd_atomic_iff (ringInv_create onePlace_create).1).2 fun _ => ⟨rfl, rfl⟩

/-- The unlock fails, the caller is told so, and its task is in the queue. -/
theorem onePlace_not_atomic :
    ¬ ∀ (pool : Threadpool Nat) (calls : PthreadCalls) (task : Option Nat), RingInv pool →
      AddAtomic calls task pool := by
  intro h
  have hsame := (h onePlace ⟨true, true, false⟩ (some 7) (ringInv_create onePlace_create).1).error
  have hcount := (hsame (by decide)).count
  exact absurd hcount (by decide)

/-- The next worker runs what `threadpool_add` called an error. -/
theorem failed_add_runs {calls : PthreadCalls} {task : Task} (h : RingInv pool)
    (hyes : Accepts calls (some task) pool) (hempty : pool.pending = [])
    (hfail : ¬ (calls.signal = true ∧ calls.unlock = true)) :
    (threadpoolAdd calls (some task) pool).1 = THREADPOOL_LOCK_FAILURE ∧
      (threadpoolThread (threadpoolAdd calls (some task) pool).2).1 = .run (some task) := by
  obtain ⟨t, pool', ht, hinv, hpending, hshutdown, e⟩ := threadpoolAdd_accepted h hyes
  cases ht
  rw [hempty, List.nil_append] at hpending
  rw [e, if_neg hfail]
  refine ⟨rfl, ?_⟩
  have hrun : pool'.shutdown = .running := hshutdown.trans hyes.running
  rcases threadpoolThread_cases hinv with ⟨-, e'⟩ | ⟨hdown, -⟩ | ⟨t', pool'', -, e', -, hpop, -⟩
  · have hcount : pool'.pendingTaskCount ≠ 0 := by
      intro hzero
      rw [Threadpool.pending, hzero] at hpending
      cases hpending
    rw [threadpoolThread, if_neg (fun hw => hcount hw.1)] at e'
    split at e' <;> cases e'
  · exact absurd hrun hdown
  · rw [hpending] at hpop
    rw [e', (List.cons.inj hpop).1]

end HPServer
