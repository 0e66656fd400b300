import HighPerformanceServer.ThreadpoolRuns
import HighPerformanceServer.ThreadpoolWakeups
/-!
# A graceful shutdown of the C thread pool comes to its end

From the broadcast of `threadpool_destroy` on no worker waits, and `threadpool_add` turns every task
away. What is left to do is finite: each task in the queue is taken and run, each worker leaves, and
each join returns (`workLeft`). Until the last join some step of these is possible, when the tasks
return: the return of a task (threadpool.cpp:190) is one of the steps.
-/

namespace HPServer

open Function Monitor

variable {Task : Type}

/-- The steps a worker has before it, when it takes no further task. -/
def Worker.stepsLeft : Worker Task → Nat
  | .running _ _ | .waiting => 2
  | .top | .woken => 1
  | .exited => 0

namespace PoolState

/-- A task is taken and run to its end, which costs two steps. -/
def workLeft (s : PoolState Task) : Nat :=
  2 * s.pool.pendingTaskCount.toNat + total Worker.stepsLeft s.threads s.worker +
    match s.destroyer with
    | .notCalled => 0
    | .joining i => s.threads + 1 - i
    | .joined => 0

def isAdd : PoolLabel Task → Bool
  | .add _ _ => true
  | .spurious _ | .turn _ | .finish _ | .destroy | .join => false

/-- Behind the broadcast. -/
structure ShuttingDown (s : PoolState Task) : Prop where
  inv : PoolInv s
  called : s.destroyer ≠ .notCalled
  graceful : s.pool.shutdown = .graceful
  awake : ∀ w, s.worker w ≠ .waiting

variable {s s' : PoolState Task} {w : Nat}

namespace ShuttingDown

/-- `threadpool_add` turns the task away. -/
theorem add (h : ShuttingDown s) {task : Task} {signalled : Option Nat}
    (hs : s.add task signalled = some s') : s' = s := by
  unfold PoolState.add at hs
  rcases threadpoolAdd_cases h.inv.ring task with ht | ⟨-, ht⟩ | ⟨pool, hrun, -⟩
  · rw [ht] at hs
    simp only [THREADPOOL_QUEUE_FULL] at hs
    split at hs <;> cases hs
    rfl
  · rw [ht] at hs
    simp only [THREADPOOL_SHUTDOWN] at hs
    split at hs <;> cases hs
    rfl
  · cases hrun.symm.trans h.graceful

/-- Worker `w` goes to `x`, and may have taken a task. -/
theorem workLeft_setWorker {x : Worker Task} (hw : w < s.threads)
    (hthreads : s'.pool.threadCountInPool = s.pool.threadCountInPool)
    (hworker : s'.worker = update s.worker w x) (hdestroyer : s'.destroyer = s.destroyer)
    (hless : 2 * s'.pool.pendingTaskCount.toNat + x.stepsLeft + 1 ≤
      2 * s.pool.pendingTaskCount.toNat + (s.worker w).stepsLeft) : 1 + s'.workLeft ≤ s.workLeft := by
  have htotal : total Worker.stepsLeft s.threads (update s.worker w x) + (s.worker w).stepsLeft =
      total Worker.stepsLeft s.threads s.worker + x.stepsLeft := total_update hw
  have hsame : s'.threads = s.threads := congrArg Int.toNat hthreads
  simp only [workLeft, hsame, hworker, hdestroyer]
  omega

theorem turn (h : ShuttingDown s) (hs : s.turn w = some s') :
    ShuttingDown s' ∧ 1 + s'.workLeft ≤ s.workLeft := by
  have hinv := h.inv.turn hs
  obtain ⟨hlt, hready, hturn⟩ := turn_cases hs
  have hone : (s.worker w).stepsLeft = 1 := by rcases hready with e | e <;> rw [e] <;> rfl
  have hawake : ∀ x : Worker Task, x ≠ .waiting → ∀ v, update s.worker w x v ≠ .waiting := by
    intro x hx v
    by_cases hvw : v = w
    · subst hvw
      rwa [update_self]
    · rw [update_of_ne hvw]
      exact h.awake v
  obtain ⟨hrun, -, ht⟩ | ⟨-, -, ht⟩ | ⟨hpos, ht⟩ := threadpoolThread_pending s.pool h.inv.ring.count.1 <;>
    rw [ht] at hturn
  · cases hrun.symm.trans h.graceful
  · obtain ⟨_, e, rfl⟩ | ⟨pool, e, rfl⟩ | ⟨_, _, e, -⟩ := hturn <;> cases e
    refine ⟨⟨hinv, h.called, h.graceful, hawake .exited (by simp)⟩,
      workLeft_setWorker hlt rfl rfl rfl ?_⟩
    show 2 * s.pool.pendingTaskCount.toNat + 0 + 1 ≤ _
    omega
  · obtain ⟨_, e, -⟩ | ⟨pool, e, -⟩ | ⟨task, pool, e, rfl⟩ := hturn <;> cases e
    refine ⟨⟨hinv, h.called, h.graceful, hawake (.running _ _) (by simp)⟩,
      workLeft_setWorker hlt rfl rfl rfl ?_⟩
    show 2 * (s.pool.pendingTaskCount - 1).toNat + 2 + 1 ≤ _
    omega

theorem finish (h : ShuttingDown s) (hs : s.finish w = some s') :
    ShuttingDown s' ∧ 1 + s'.workLeft ≤ s.workLeft := by
  have hinv := h.inv.finish hs
  unfold PoolState.finish at hs
  split at hs <;> cases hs
  rename_i ticket task hw
  have hlt : w < s.threads := by
    by_contra hge
    cases hw.symm.trans (h.inv.idle w (Nat.le_of_not_lt hge))
  refine ⟨⟨hinv, h.called, h.graceful, fun v => ?_⟩, workLeft_setWorker hlt rfl rfl rfl ?_⟩
  · show update s.worker w .top v ≠ .waiting
    by_cases hvw : v = w
    · subst hvw
      rw [update_self]
      simp
    · rw [update_of_ne hvw]
      exact h.awake v
  · show 2 * s.pool.pendingTaskCount.toNat + 1 + 1 ≤ _
    rw [hw]
    exact Nat.le_refl _

theorem join (h : ShuttingDown s) (hs : s.join = some s') :
    ShuttingDown s' ∧ 1 + s'.workLeft ≤ s.workLeft := by
  have hinv := h.inv.join hs
  unfold PoolState.join at hs
  split at hs
  · rename_i i hd
    have hi := (h.inv.joins i hd).1
    split at hs
    · split at hs <;> cases hs
      refine ⟨⟨hinv, by simp, h.graceful, h.awake⟩, ?_⟩
      simp only [workLeft, hd, threads] at hi ⊢
      omega
    · cases hs
      refine ⟨⟨hinv, by simp, h.graceful, h.awake⟩, ?_⟩
      simp only [workLeft, hd, threads] at hi ⊢
      omega
  all_goals cases hs

/-- **One step**: an addition changes nothing, and any other step uses up work. -/
theorem step (h : ShuttingDown s) {a : PoolLabel Task} (hs : s.step a = some s') :
    ShuttingDown s' ∧ (!isAdd a).toNat + s'.workLeft ≤ s.workLeft := by
  cases a with
  | add task signalled =>
    obtain rfl := h.add hs
    exact ⟨h, (Nat.zero_add _).le⟩
  | spurious w =>
    obtain ⟨hwait, -⟩ := Option.ite_none_right_eq_some.1 hs
    cases hw : s.worker w with
    | waiting => exact absurd hw (h.awake w)
    | top | woken | running | exited => rw [hw] at hwait; cases hwait
  | turn w => exact h.turn hs
  | finish w => exact h.finish hs
  | destroy =>
    have hs : s.destroy = some s' := hs
    unfold PoolState.destroy at hs
    split at hs
    · rename_i hnot _
      exact absurd hnot h.called
    · cases hs
  | join => exact h.join hs

/-- **Until the last join** some step is possible. -/
theorem exists_step (h : ShuttingDown s) (hd : s.destroyer ≠ .joined) :
    ∃ a s', isAdd a = false ∧ s.step a = some s' := by
  cases hpc : s.destroyer with
  | notCalled => exact absurd hpc h.called
  | joined => exact absurd hpc hd
  | joining i =>
    by_cases hi : i < s.threads
    · cases hw : s.worker i with
      | exited =>
        refine ⟨.join, { s with destroyer := .joining (i + 1) }, rfl, ?_⟩
        simp [PoolState.step, PoolState.join, hpc, hi, hw, isExited]
      | running ticket task => exact ⟨.finish i, _, rfl, by simp only [PoolState.step, PoolState.finish, hw]; rfl⟩
      | waiting => exact absurd hw (h.awake i)
      | top | woken =>
        obtain ⟨t, pool, ht⟩ : ∃ t pool, threadpoolThread s.pool = (t, pool) := ⟨_, _, rfl⟩
        cases t <;> exact ⟨.turn i, _, rfl, by simp only [PoolState.step, PoolState.turn, if_pos hi, hw, ht]; rfl⟩
    · refine ⟨.join, { s with destroyer := .joined }, rfl, ?_⟩
      simp [PoolState.step, PoolState.join, hpc, hi]

/-- The broadcast. -/
theorem destroy (h : PoolInv s) (hs : s.destroy = some s') : ShuttingDown s' := by
  have hinv := h.destroy hs
  unfold PoolState.destroy threadpoolDestroy at hs
  split at hs
  · rename_i hpool
    split at hpool <;> cases hpool
    cases hs
    refine ⟨hinv, by simp, rfl, fun w => ?_⟩
    show (if isWaiting (s.worker w) then .woken else s.worker w) ≠ .waiting
    cases s.worker w <;> simp [isWaiting]
  · cases hs

theorem signal_destroyer {signalled : Option Nat} (hs : s.signal signalled = some s') :
    s'.destroyer = s.destroyer := by
  unfold PoolState.signal at hs
  split at hs <;> split at hs <;> cases hs <;> rfl

/-- Only `threadpool_destroy` starts the joins. -/
theorem of_step (h : PoolInv s) {a : PoolLabel Task} (hs : s.step a = some s')
    (hnot : s.destroyer = .notCalled) (hcalled : s'.destroyer ≠ .notCalled) : ShuttingDown s' := by
  cases a with
  | destroy => exact destroy h hs
  | add task signalled =>
    have hs : s.add task signalled = some s' := hs
    unfold PoolState.add at hs
    split at hs
    · exact absurd ((signal_destroyer hs).trans hnot) hcalled
    · split at hs <;> cases hs
      exact absurd hnot hcalled
  | spurious w =>
    obtain ⟨-, hs⟩ := Option.ite_none_right_eq_some.1 hs
    cases hs
    exact absurd hnot hcalled
  | turn w =>
    obtain ⟨-, -, ⟨_, -, rfl⟩ | ⟨_, -, rfl⟩ | ⟨_, _, -, rfl⟩⟩ := turn_cases hs <;> exact absurd hnot hcalled
  | finish w =>
    have hs : s.finish w = some s' := hs
    unfold PoolState.finish at hs
    split at hs <;> cases hs
    exact absurd hnot hcalled
  | join =>
    have hs : s.join = some s' := hs
    simp only [PoolState.join, hnot] at hs
    cases hs

theorem reach {threadNum queueSize : Int} (h : (threadpool Task threadNum queueSize).Reachable s)
    (hcalled : s.destroyer ≠ .notCalled) : ShuttingDown s := by
  induction h with
  | init h =>
    obtain ⟨pool, -, rfl⟩ := h
    exact absurd rfl hcalled
  | @step s _ _ h _ hs ih =>
    by_cases hnot : s.destroyer = .notCalled
    · exact of_step (poolInv_reachable h) hs hnot hcalled
    · exact ((ih hnot).step hs).1

end ShuttingDown

/-- **A graceful shutdown ends** when the tasks return: from the broadcast on, whatever the workers, the
joins and further calls of `threadpool_add` do, at most `workLeft` steps other than these calls are
left, and some of them is possible until every worker has been joined. -/
theorem shutdown_ends {threadNum queueSize : Int} {s s' : PoolState Task} {as : List (PoolLabel Task)}
    (h : (threadpool Task threadNum queueSize).Reachable s) (hcalled : s.destroyer ≠ .notCalled)
    (hrun : (threadpool Task threadNum queueSize).Run (fun _ _ => True) s as s') :
    as.countP (!isAdd ·) ≤ s.workLeft ∧
    (s'.destroyer = .joined ∨ ∃ a s'', isAdd a = false ∧ s'.step a = some s'') := by
  obtain ⟨hdown, hle⟩ := hrun.countP_le workLeft (!isAdd ·) (fun _ => 0)
    (fun _ _ _ h _ hs => h.step hs) (ShuttingDown.reach h hcalled)
  have hsum : (as.map fun _ => 0).sum = 0 := by simp
  refine ⟨by omega, ?_⟩
  by_cases hjoined : s'.destroyer = .joined
  · exact Or.inl hjoined
  · exact Or.inr (hdown.exists_step hjoined)

/-- Two tasks and two workers, when the broadcast is made. -/
def destroyLoaded : List (PoolLabel Nat) := [.turn 0, .add 7 (some 0), .add 8 none, .turn 1, .destroy]

theorem destroyLoaded_ends : ∃ s, (threadpool Nat 2 2).Reachable s ∧ s.workLeft = 8 ∧
    [PoolLabel.turn 0, .add 9 none, .finish 1, .finish 0].countP (!isAdd ·) ≤ s.workLeft := by
  have hreach : (threadpool Nat 2 2).Reachable _ :=
    Lts.reach_of_replay destroyLoaded (.init ⟨_, rfl, rfl⟩) rfl
  exact ⟨_, hreach, rfl, (shutdown_ends hreach (by simp)
    (Lts.run_of_replay (fun _ _ _ => trivial) rfl)).1⟩

end PoolState

end HPServer
