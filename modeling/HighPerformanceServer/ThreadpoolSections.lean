import HighPerformanceServer.Simulation
import HighPerformanceServer.ThreadpoolRuns
import HighPerformanceServer.ThreadpoolWakeups
/-!
# The C thread pool, lock by lock, is a pool of critical sections

`ThreadpoolRuns.lean` takes what is done under `pool->lock` as one step; `ThreadpoolLock.lean` splits
it. As long as every shutdown is graceful and no `pthread_create` or `pthread_join` fails, each run of
the second is a run of the first, with one step for each critical section, end of a task and join.

| here | there |
| --- | --- |
| `shown (.add c _)`       | the section of `threadpool_add` (threadpool.cpp:62-91) |
| `shown (.thread w)`      | the section of `threadpool_thread` (:169-189), and the end of a task (:190) |
| `shown (.caller c)`      | the section of `threadpool_destroy` (:106-125), and the end of its joins |
| `shown (.pthreadJoin ..)`| one turn of the loop over the joins (:128-132) |

Between the store of `shutdown` and the broadcast (:117-121) a worker that sleeps counts as woken:
it can no longer sleep on. A worker that `threadpool_create` has not started counts as one that has
not come to the lock.
-/

namespace HPServer

open Function Monitor

variable {Task : Type}

/-! ## The counters of threads do not matter -/

def Threadpool.withThreads (pool : Threadpool Task) (threads active : Int) : Threadpool Task :=
  { pool with threadCountInPool := threads, activeThreadNum := active }

theorem enqueue_withThreads (task : Task) (signal : Bool) (pool : Threadpool Task) (threads active : Int) :
    enqueue task signal (pool.withThreads threads active) =
      ((enqueue task signal pool).1, (enqueue task signal pool).2.withThreads threads active) := by
  unfold enqueue Threadpool.withThreads
  dsimp only
  split
  · rfl
  · split <;> rfl

theorem threadpoolThread_withThreads (pool : Threadpool Task) (threads active : Int) :
    ∃ active', threadpoolThread (pool.withThreads threads active) =
      ((threadpoolThread pool).1, (threadpoolThread pool).2.withThreads threads active') := by
  unfold threadpoolThread Threadpool.withThreads
  dsimp only
  split
  · exact ⟨_, rfl⟩
  · split <;> exact ⟨_, rfl⟩

/-! ## Where the pool of critical sections has everybody -/

/-- `shutdown` is that of the pool. -/
inductive ThreadPc.Shows (shutdown : Shutdown) : ThreadPc Task → Worker Task → Prop
  | unborn : Shows shutdown .unborn .top
  | locking : Shows shutdown .locking .top
  | first : Shows shutdown .looking .top
  | again : Shows shutdown .looking .woken
  | asleep : shutdown = .running → Shows shutdown .asleep .waiting
  /-- The broadcast is about to be made. -/
  | overslept : shutdown ≠ .running → Shows shutdown .asleep .woken
  | woken : Shows shutdown .woken .woken
  | unlocking (ticket : Nat) (task : Option Task) : Shows shutdown (.unlocking task) (.running ticket task)
  | running (ticket : Nat) (task : Option Task) : Shows shutdown (.running task) (.running ticket task)
  | leaving : Shows shutdown .leaving .exited
  | exited : Shows shutdown .exited .exited

namespace ThreadPc.Shows

variable {shutdown : Shutdown} {z : ThreadPc Task} {y : Worker Task} {task : Option Task}

theorem asleep_cases (h : Shows shutdown .asleep y) :
    (shutdown = .running ∧ y = .waiting) ∨ (shutdown ≠ .running ∧ y = .woken) := by
  cases h with
  | asleep hrun => exact Or.inl ⟨hrun, rfl⟩
  | overslept hdown => exact Or.inr ⟨hdown, rfl⟩

theorem looking_cases (h : Shows shutdown .looking y) : y = .top ∨ y = .woken := by
  cases h with
  | first => exact Or.inl rfl
  | again => exact Or.inr rfl

theorem exited_eq (h : Shows shutdown .exited y) : y = .exited := by
  cases h with
  | exited => rfl

/-- A worker comes to the lock. -/
theorem look (h : Shows shutdown z y) (hz : z = .locking ∨ z = .woken) : Shows shutdown .looking y := by
  rcases hz with rfl | rfl
  · cases h with
    | locking => exact .first
  · cases h with
    | woken => exact .again

/-- Who sleeps is as good as woken when the pool is shut down. -/
theorem stop (h : z.Shows .running y) :
    z.Shows .graceful (if PoolState.isWaiting y then .woken else y) := by
  cases h with
  | asleep => exact .overslept (by simp)
  | overslept hdown => exact absurd rfl hdown
  | _ => constructor

/-- The broadcast. -/
theorem broadcast (h : z.Shows shutdown y) (hdown : shutdown ≠ .running) :
    (z.wake.getD z).Shows shutdown y := by
  cases h with
  | asleep hrun => exact absurd hrun hdown
  | overslept => exact .woken
  | _ => constructor

end ThreadPc.Shows

def CallerPc.Shows (destroyer : Destroyer) : CallerPc Task → Prop
  | .destroyLocking flags | .destroying flags => flags &&& THREADPOOL_GRACEFUL ≠ 0
  | .broadcasting | .destroyUnlocking => destroyer = .joining 0
  | .joining i err => destroyer = .joining i ∧ err = 0
  | .freeing | .freed => destroyer = .joined
  | .returned _ | .addLocking _ | .adding _ | .addUnlocking _ => True

theorem CallerPc.shows_congr {x : CallerPc Task} (hx : ¬x.hasShutDown) {destroyer destroyer' : Destroyer} :
    x.Shows destroyer ↔ x.Shows destroyer' := by
  cases x with
  | broadcasting | destroyUnlocking | joining | freeing | freed => exact absurd trivial hx
  | returned | addLocking | adding | addUnlocking | destroyLocking | destroying => exact Iff.rfl

/-- No `pthread_create` has failed. -/
def CreatorPc.Within (n : Nat) (threads : Int) : CreatorPc → Prop
  | .creating i => i ≤ n
  | .counting i | .reading i | .writing i _ => i < n
  | .created => threads = n
  | .failed => False

/-- Every shutdown is graceful, and no call of `pthread_create` or `pthread_join` fails. -/
def CPoolStep.isGraceful : CPoolStep Task → Bool
  | .pthreadCreate started => started
  | .pthreadJoin _ joined => joined
  | .callDestroy _ flags => flags &&& THREADPOOL_GRACEFUL != 0
  | .create | .callAdd _ _ | .caller _ | .add _ _ | .thread _ | .spurious _ => true

theorem PoolState.add_refused {t : PoolState Task} {task : Task} {err : Int} (herr : err ≠ 0)
    (h : threadpoolAdd .succeed (some task) t.pool = (err, t.pool)) : t.add task none = some t := by
  unfold PoolState.add
  rw [h]
  split
  · rename_i heq
    exact absurd (congrArg Prod.fst heq) herr
  · rename_i heq
    cases heq
    rfl

namespace CPool

def Graceful (_ : CPool Task) (a : CPoolStep Task) : Prop := a.isGraceful = true

/-- The critical section, end of a task or join that a step is. -/
def shown (s : CPool Task) : CPoolStep Task → Option (PoolLabel Task)
  | .add c signalled =>
    match s.caller c with
    | .adding task => some (.add task signalled)
    | _ => none
  | .caller c =>
    match s.caller c with
    | .destroying _ => if s.pool.shutdown = .running then some .destroy else none
    | .joining _ _ => some .join
    | _ => none
  | .pthreadJoin _ _ => some .join
  | .thread w =>
    match s.worker w with
    | .looking => some (.turn w)
    | .running _ => some (.finish w)
    | _ => none
  | .spurious w => if s.pool.shutdown = .running then some (.spurious w) else none
  | .pthreadCreate _ | .create | .callAdd _ _ | .callDestroy _ _ => none

/-- The task for which `threadpool_add` is about to return `0`. -/
def accepts (s : CPool Task) : CPoolStep Task → List Task
  | .add c _ =>
    match s.caller c with
    | .adding task => if (enqueue task true s.pool).1 = 0 then [task] else []
    | _ => []
  | _ => []

/-- The task that a worker has just run to its end. -/
def finishes (s : CPool Task) : CPoolStep Task → List (Option Task)
  | .thread w =>
    match s.worker w with
    | .running task => [task]
    | _ => []
  | _ => []

structure Shows (n : Nat) (s : CPool Task) (t : PoolState Task) : Prop where
  creator : s.creator.Within n s.pool.threadCountInPool
  pool : ∃ active, t.pool = s.pool.withThreads n active
  dequeued : t.dequeued = s.dequeued
  worker : ∀ w, (s.worker w).Shows s.pool.shutdown (t.worker w)
  caller : ∀ c, (s.caller c).Shows t.destroyer
  one : ∀ c d, (s.caller c).hasShutDown → (s.caller d).hasShutDown → c = d
  running : s.pool.shutdown = .running → t.destroyer = .notCalled
  freed : s.freed = true → t.destroyer = .joined

/-- What the pool of critical sections makes of a step. -/
structure Mirrors (s : CPool Task) (a : CPoolStep Task) (t t' : PoolState Task) : Prop where
  step : (s.shown a = none ∧ t' = t) ∨ ∃ b, s.shown a = some b ∧ t.step b = some t'
  accepted : t'.accepted = t.accepted ++ s.accepts a
  finished : t'.finished.map Prod.snd = t.finished.map Prod.snd ++ s.finishes a

variable {s s' : CPool Task} {t t' : PoolState Task} {c w n : Nat} {x : CallerPc Task} {z : ThreadPc Task}
  {y : Worker Task} {a : CPoolStep Task}

theorem Mirrors.stutter (hnone : s.shown a = none) (haccepts : s.accepts a = [])
    (hfinishes : s.finishes a = []) : Mirrors s a t t :=
  ⟨Or.inl ⟨hnone, rfl⟩, by rw [haccepts, List.append_nil], by rw [hfinishes, List.append_nil]⟩

/-- A critical section in which no task is accepted or ended. -/
theorem Mirrors.quiet {b : PoolLabel Task} (hb : s.shown a = some b) (hstep : t.step b = some t')
    (haccepted : t'.accepted = t.accepted) (hfinished : t'.finished = t.finished)
    (haccepts : s.accepts a = []) (hfinishes : s.finishes a = []) : Mirrors s a t t' :=
  ⟨Or.inr ⟨b, hb, hstep⟩, by rw [haccepts, haccepted, List.append_nil],
    by rw [hfinishes, hfinished, List.append_nil]⟩

namespace Shows

theorem threads (h : Shows n s t) : t.threads = n := by
  obtain ⟨active, hpool⟩ := h.pool
  simp [PoolState.threads, hpool, Threadpool.withThreads]

theorem shutdown (h : Shows n s t) : t.pool.shutdown = s.pool.shutdown := by
  obtain ⟨active, hpool⟩ := h.pool
  rw [hpool]
  rfl

theorem pending (h : Shows n s t) : t.pool.pending = s.pool.pending := by
  obtain ⟨active, hpool⟩ := h.pool
  rw [hpool]
  rfl

/-- Once a caller has come in, `threadpool_create` has counted every worker. -/
theorem count (h : Shows n s t) (hlife : LifeOk s) (hc : s.caller c ≠ .returned none) :
    s.pool.threadCountInPool = n := by
  have hcreator := h.creator
  unfold LifeOk at hlife
  cases hpc : s.creator <;> rw [hpc] at hlife hcreator
  case created => exact hcreator
  case failed => exact hcreator.elim
  case writing => exact absurd (hlife.2.callers c) hc
  all_goals exact absurd (hlife.callers c) hc

/-! ### Moves -/

/-- A caller moves, here and there. -/
theorem moveCaller (h : Shows n s t) (hcaller : s'.caller = update s.caller c x)
    (hx : x.Shows t'.destroyer) (hsame : t'.destroyer = t.destroyer ∨ x.hasShutDown)
    (hone : x.hasShutDown → ∀ d, d ≠ c → ¬(s.caller d).hasShutDown)
    (hworker : ∀ w, (s'.worker w).Shows s'.pool.shutdown (t'.worker w)) (hcreator : s'.creator = s.creator)
    (hcount : s'.pool.threadCountInPool = s.pool.threadCountInPool)
    (hpool : ∃ active, t'.pool = s'.pool.withThreads n active) (hdequeued : t'.dequeued = s'.dequeued)
    (hrunning : s'.pool.shutdown = .running → t'.destroyer = .notCalled)
    (hfreed : s'.freed = true → t'.destroyer = .joined) : Shows n s' t' where
  creator := by rw [hcreator, hcount]; exact h.creator
  pool := hpool
  dequeued := hdequeued
  worker := hworker
  caller := by
    rw [hcaller]
    refine (forall_update_iff _ fun _ (x : CallerPc Task) => x.Shows t'.destroyer).2 ⟨hx, fun d hd => ?_⟩
    rcases hsame with e | hdown
    · rw [e]
      exact h.caller d
    · exact (CallerPc.shows_congr (hone hdown d hd)).2 (h.caller d)
  one := by
    have hback : ∀ d, (s'.caller d).hasShutDown → d ≠ c → (s.caller d).hasShutDown := by
      intro d hd hdc
      rwa [hcaller, update_of_ne hdc] at hd
    have hdown : ∀ d, (s'.caller d).hasShutDown → (s'.caller c).hasShutDown → d = c := by
      intro d hd hc
      by_contra hdc
      rw [hcaller, update_self] at hc
      exact hone hc d hdc (hback d hd hdc)
    intro d e hd he
    by_cases hdc : d = c
    · rw [hdc] at hd ⊢
      exact (hdown e he hd).symm
    · by_cases hec : e = c
      · rw [hec] at he ⊢
        exact hdown d hd he
      · exact h.one d e (hback d hd hdc) (hback e he hec)
  running := hrunning
  freed := hfreed

/-- A caller moves, and nothing is seen of it. -/
theorem stayCaller (h : Shows n s t) (hcaller : s'.caller = update s.caller c x) (hpool : s'.pool = s.pool)
    (hworker : s'.worker = s.worker) (hcreator : s'.creator = s.creator)
    (hdequeued : s'.dequeued = s.dequeued) (hfreed : s'.freed = true → t.destroyer = .joined)
    (hx : x.Shows t.destroyer) (hone : x.hasShutDown → (s.caller c).hasShutDown) : Shows n s' t := by
  refine h.moveCaller hcaller hx (Or.inl rfl) ?_ ?_ hcreator (by rw [hpool]) ?_ ?_ ?_ hfreed
  · exact fun hdown d hd he => hd (h.one d c he (hone hdown))
  · rw [hworker, hpool]
    exact h.worker
  · rw [hpool]
    exact h.pool
  · rw [hdequeued]
    exact h.dequeued
  · rw [hpool]
    exact h.running

/-- A worker moves, here and there. -/
theorem moveWorker (h : Shows n s t) (hworker : s'.worker = update s.worker w z)
    (hworker' : t'.worker = update t.worker w y) (hz : z.Shows s.pool.shutdown y)
    (hcaller : s'.caller = s.caller) (hcreator : s'.creator.Within n s'.pool.threadCountInPool)
    (hshutdown : s'.pool.shutdown = s.pool.shutdown) (hfreed : s'.freed = s.freed)
    (hpool : ∃ active, t'.pool = s'.pool.withThreads n active) (hdequeued : t'.dequeued = s'.dequeued)
    (hdestroyer : t'.destroyer = t.destroyer) : Shows n s' t' where
  creator := hcreator
  pool := hpool
  dequeued := hdequeued
  worker v := by
    rw [hworker, hworker', hshutdown]
    by_cases hv : v = w
    · subst hv
      rwa [update_self, update_self]
    · rw [update_of_ne hv, update_of_ne hv]
      exact h.worker v
  caller := by rw [hcaller, hdestroyer]; exact h.caller
  one := by rw [hcaller]; exact h.one
  running := by rw [hshutdown, hdestroyer]; exact h.running
  freed := by rw [hfreed, hdestroyer]; exact h.freed

/-- A worker moves, and nothing is seen of it. -/
theorem stayWorker (h : Shows n s t) (hworker : s'.worker = update s.worker w z)
    (hz : z.Shows s.pool.shutdown (t.worker w)) (hcaller : s'.caller = s.caller)
    (hcreator : s'.creator.Within n s'.pool.threadCountInPool) (hpool : s'.pool = s.pool)
    (hfreed : s'.freed = s.freed) (hdequeued : s'.dequeued = s.dequeued) : Shows n s' t :=
  h.moveWorker hworker (update_eq_self w t.worker).symm hz hcaller hcreator (by rw [hpool]) hfreed
    (by rw [hpool]; exact h.pool) (h.dequeued.trans hdequeued.symm) rfl

/-! ### The workers -/

theorem threadStep (h : Shows n s t) (hwake : WakeOk n s) (hs : s.threadStep w = some s') :
    ∃ t', Mirrors s (.thread w) t t' ∧ Shows n s' t' := by
  have hw' := h.worker w
  unfold CPool.threadStep at hs
  split at hs <;> rename_i hw <;> rw [hw] at hw'
  case h_1 | h_2 =>
    split at hs <;> cases hs
    exact ⟨t, .stutter (by simp [shown, hw]) rfl (by simp [finishes, hw]),
      h.stayWorker rfl (hw'.look (by simp)) rfl h.creator rfl rfl rfl⟩
  case h_3 =>
    have hlt : w < t.threads := by
      rw [h.threads]
      exact hwake.lt_of_born (by simp [hw])
    obtain ⟨active, hpool⟩ := h.pool
    obtain ⟨active', hturn⟩ := threadpoolThread_withThreads s.pool n active
    rw [← hpool] at hturn
    have htop := hw'.looking_cases
    obtain ⟨hrun, -, hhere⟩ | ⟨hdown, -, hhere⟩ | ⟨-, hhere⟩ :=
      threadpoolThread_pending s.pool hwake.count
    all_goals
      rw [hhere] at hs hturn
      cases hs
    · have ht : t.step (.turn w) =
          some ({ t with pool := s.pool.withThreads n active' }.setWorker w .waiting) := by
        rcases htop with e | e <;> simp only [PoolState.step, PoolState.turn, if_pos hlt, e, hturn]
      exact ⟨_, .quiet (by simp [shown, hw]) ht rfl rfl rfl (by simp [finishes, hw]),
        h.moveWorker rfl rfl (.asleep hrun) rfl h.creator rfl rfl ⟨_, rfl⟩ h.dequeued rfl⟩
    · have ht : t.step (.turn w) = some ({ t with
          pool := { s.pool with activeThreadNum := s.pool.activeThreadNum - 1 }.withThreads n active'
          }.setWorker w .exited) := by
        rcases htop with e | e <;> simp only [PoolState.step, PoolState.turn, if_pos hlt, e, hturn]
      exact ⟨_, .quiet (by simp [shown, hw]) ht rfl rfl rfl (by simp [finishes, hw]),
        h.moveWorker rfl rfl .leaving rfl h.creator rfl rfl ⟨_, rfl⟩ h.dequeued rfl⟩
    · obtain ⟨t', ht, hpool', hdequeued, hworker, hdestroyer, haccepted, hfinished⟩ :
          ∃ t', t.step (.turn w) = some t' ∧
            t'.pool = { s.pool with
              head := (s.pool.head + 1).tmod s.pool.queueSize
              pendingTaskCount := s.pool.pendingTaskCount - 1 }.withThreads n active' ∧
            t'.dequeued = t.dequeued ++ [s.pool.queue s.pool.head.toNat] ∧
            t'.worker = update t.worker w
              (.running t.dequeued.length (s.pool.queue s.pool.head.toNat)) ∧
            t'.destroyer = t.destroyer ∧ t'.accepted = t.accepted ∧ t'.finished = t.finished := by
        rcases htop with e | e <;> simp only [PoolState.step, PoolState.turn, if_pos hlt, e, hturn] <;>
          exact ⟨_, rfl, rfl, rfl, rfl, rfl, rfl, rfl⟩
      refine ⟨t', .quiet (by simp [shown, hw]) ht haccepted hfinished rfl (by simp [finishes, hw]),
        h.moveWorker rfl hworker (.unlocking _ _) rfl h.creator rfl rfl ⟨_, hpool'⟩ ?_ hdestroyer⟩
      rw [hdequeued, h.dequeued]
      rfl
  case h_4 =>
    cases hs
    refine ⟨t, .stutter (by simp [shown, hw]) rfl (by simp [finishes, hw]), ?_⟩
    refine h.stayWorker rfl ?_ rfl h.creator rfl rfl rfl
    cases ht : t.worker w <;> rw [ht] at hw' <;> cases hw'
    exact .running _ _
  case h_5 task =>
    cases hs
    obtain ⟨ticket, ht⟩ : ∃ ticket, t.worker w = .running ticket task := by
      cases ht : t.worker w <;> rw [ht] at hw' <;> cases hw'
      exact ⟨_, rfl⟩
    have hfinish : t.step (.finish w) =
        some ({ t with finished := t.finished ++ [(ticket, task)] }.setWorker w .top) := by
      simp only [PoolState.step, PoolState.finish, ht]
    refine ⟨_, ⟨Or.inr ⟨.finish w, by simp [shown, hw], hfinish⟩, ?_, ?_⟩,
      h.moveWorker rfl rfl .locking rfl h.creator rfl rfl h.pool h.dequeued rfl⟩
    · simp [accepts, PoolState.setWorker]
    · simp [finishes, hw, PoolState.setWorker]
  case h_6 =>
    cases hs
    refine ⟨t, .stutter (by simp [shown, hw]) rfl (by simp [finishes, hw]), ?_⟩
    refine h.stayWorker rfl ?_ rfl h.creator rfl rfl rfl
    cases ht : t.worker w <;> rw [ht] at hw' <;> cases hw'
    exact .exited
  all_goals cases hs

theorem spurious (h : Shows n s t) (hs : s.spurious w = some s') :
    ∃ t', Mirrors s (.spurious w) t t' ∧ Shows n s' t' := by
  have hw' := h.worker w
  obtain ⟨z, hz, rfl⟩ := Option.map_eq_some_iff.1 hs
  obtain ⟨hw, rfl⟩ := ThreadPc.wake_eq hz
  rw [hw] at hw'
  rcases hw'.asleep_cases with ⟨hrun, ht⟩ | ⟨hdown, ht⟩
  · have hstep : t.step (.spurious w) = some (t.setWorker w .woken) := by
      simp [PoolState.step, ht, PoolState.isWaiting]
    exact ⟨_, .quiet (by simp [shown, hrun]) hstep rfl rfl rfl rfl,
      h.moveWorker rfl rfl .woken rfl h.creator rfl rfl h.pool h.dequeued rfl⟩
  · refine ⟨t, .stutter (by simp [shown, hdown]) rfl rfl, h.stayWorker rfl ?_ rfl h.creator rfl rfl rfl⟩
    rw [ht]
    exact .woken

/-! ### The callers -/

/-- The first `threadpool_destroy` stops the pool. -/
theorem destroying (h : Shows n s t) (hwake : WakeOk n s) {flags : Nat}
    (hc : s.caller c = .destroying flags) (hs : s.callerStep c = some s') :
    ∃ t', Mirrors s (.caller c) t t' ∧ Shows n s' t' := by
  have hflags : flags &&& THREADPOOL_GRACEFUL ≠ 0 := by
    have hcaller := h.caller c
    rwa [hc] at hcaller
  by_cases hrun : s.pool.shutdown = .running
  · simp only [CPool.callerStep, hc, threadpoolDestroy, hrun, ne_eq, not_true_eq_false, if_false,
      if_pos hflags] at hs
    cases hs
    obtain ⟨active, hpool⟩ := h.pool
    have hstep : t.step .destroy = some { t.broadcast with
        pool := { t.pool with shutdown := .graceful }, destroyer := .joining 0 } := by
      have hgraceful : THREADPOOL_GRACEFUL &&& THREADPOOL_GRACEFUL ≠ 0 := by decide
      simp only [PoolState.step, PoolState.destroy, h.running hrun, threadpoolDestroy, h.shutdown, hrun,
        ne_eq, not_true_eq_false, if_false, if_pos hgraceful]
    refine ⟨_, .quiet (by simp [shown, hc, hrun]) hstep rfl rfl rfl rfl, ?_⟩
    refine h.moveCaller rfl (show _ = _ from rfl) (Or.inr trivial) ?_ ?_ rfl rfl ⟨active, ?_⟩ h.dequeued
      (fun e => by cases e) (fun e => ?_)
    · exact fun _ d _ hd => hwake.callers d hd hrun
    · intro w
      have hw := h.worker w
      rw [hrun] at hw
      exact hw.stop
    · rw [hpool]
      rfl
    · cases (h.running hrun).symm.trans (h.freed e)
  · simp only [CPool.callerStep, hc, threadpoolDestroy, ne_eq, hrun, not_false_eq_true, if_true] at hs
    cases hs
    exact ⟨t, .stutter (by simp [shown, hc, hrun]) rfl rfl,
      h.stayCaller rfl rfl rfl rfl rfl h.freed trivial fun hx => hx.elim⟩

/-- The end of the loop over the joins. -/
theorem joining (h : Shows n s t) (hlife : LifeOk s) {i : Nat} {err : Int}
    (hc : s.caller c = .joining i err) (hs : s.callerStep c = some s') :
    ∃ t', Mirrors s (.caller c) t t' ∧ Shows n s' t' := by
  have hcaller := h.caller c
  rw [hc] at hcaller
  obtain ⟨hdestroyer, herr⟩ := hcaller
  have hcount := h.count hlife (c := c) (by simp [hc])
  simp only [CPool.callerStep, hc, herr, if_true] at hs
  split at hs
  · cases hs
  rename_i hall
  cases hs
  have hlast : ¬i < t.threads := by
    rw [h.threads]
    omega
  have hstep : t.step .join = some { t with destroyer := .joined } := by
    simp only [PoolState.step, PoolState.join, hdestroyer, if_neg hlast]
  refine ⟨_, .quiet (by simp [shown, hc]) hstep rfl rfl rfl rfl, ?_⟩
  refine h.moveCaller (x := .freeing) rfl rfl (Or.inr trivial) ?_ h.worker rfl rfl h.pool h.dequeued ?_
    fun _ => rfl
  · exact fun _ d hd hd' => hd (h.one d c hd' (by rw [hc]; trivial))
  · intro hrun
    cases (h.running hrun).symm.trans hdestroyer

theorem callerStep (h : Shows n s t) (hwake : WakeOk n s) (hlife : LifeOk s) (hs : s.callerStep c = some s') :
    ∃ t', Mirrors s (.caller c) t t' ∧ Shows n s' t' := by
  have hcaller := h.caller c
  cases hc : s.caller c <;> rw [hc] at hcaller
  case destroying flags => exact h.destroying hwake hc hs
  case joining i err => exact h.joining hlife hc hs
  case broadcasting =>
    have hdown : s.pool.shutdown ≠ .running := hwake.callers c (by rw [hc]; trivial)
    simp only [CPool.callerStep, hc] at hs
    cases hs
    refine ⟨t, .stutter (by simp [shown, hc]) rfl rfl, ?_⟩
    refine h.moveCaller rfl hcaller (Or.inl rfl) ?_ (fun w => (h.worker w).broadcast hdown) rfl rfl h.pool
      h.dequeued h.running h.freed
    exact fun _ d hd hd' => hd (h.one d c hd' (by rw [hc]; trivial))
  all_goals
    simp only [CPool.callerStep, acquire, hc] at hs
    refine ⟨t, .stutter (by simp [shown, hc]) rfl rfl, ?_⟩
  case addLocking | destroyLocking =>
    split at hs <;> cases hs
    exact h.stayCaller rfl rfl rfl rfl rfl h.freed hcaller fun hx => hx.elim
  case addUnlocking =>
    cases hs
    exact h.stayCaller rfl rfl rfl rfl rfl h.freed trivial fun hx => hx.elim
  case destroyUnlocking =>
    cases hs
    exact h.stayCaller rfl rfl rfl rfl rfl h.freed ⟨hcaller, rfl⟩ fun _ => by rw [hc]; trivial
  case freeing =>
    split at hs <;> cases hs
    · exact h.stayCaller rfl rfl rfl rfl rfl h.freed trivial fun hx => hx.elim
    · exact h.stayCaller (x := .freed) rfl rfl rfl rfl rfl (fun _ => hcaller) hcaller
        fun _ => by rw [hc]; trivial
  case freed =>
    split at hs <;> cases hs
    exact h.stayCaller rfl rfl rfl rfl rfl h.freed trivial fun hx => hx.elim
  all_goals cases hs

theorem pthreadJoin (h : Shows n s t) (hlife : LifeOk s) (hs : s.pthreadJoin c true = some s') :
    ∃ t', Mirrors s (.pthreadJoin c true) t t' ∧ Shows n s' t' := by
  unfold CPool.pthreadJoin at hs
  split at hs
  case h_2 => cases hs
  rename_i i err hc
  have hcaller := h.caller c
  rw [hc] at hcaller
  obtain ⟨hdestroyer, herr⟩ := hcaller
  have hcount := h.count hlife (c := c) (by simp [hc])
  split at hs
  case isFalse => cases hs
  rename_i hi
  simp only [if_true] at hs
  split at hs <;> cases hs
  rename_i hexited
  have hw : t.worker i = .exited := by
    have hw := h.worker i
    cases hpc : s.worker i <;> rw [hpc] at hexited hw <;> cases hexited
    exact hw.exited_eq
  have hlt : i < t.threads := by
    rw [h.threads]
    omega
  have hstep : t.step .join = some { t with destroyer := .joining (i + 1) } := by
    simp [PoolState.step, PoolState.join, hdestroyer, hlt, hw, PoolState.isExited]
  refine ⟨_, .quiet rfl hstep rfl rfl rfl rfl, ?_⟩
  refine h.moveCaller (x := .joining (i + 1) err) rfl ⟨rfl, herr⟩ (Or.inr trivial) ?_ h.worker rfl rfl h.pool
    h.dequeued ?_ ?_
  · exact fun _ d hd hd' => hd (h.one d c hd' (by rw [hc]; trivial))
  · intro hrun
    cases (h.running hrun).symm.trans hdestroyer
  · intro hfreed
    cases (h.freed hfreed).symm.trans hdestroyer

/-- The worker that a signal wakes here sleeps there. -/
theorem signal (h : Shows n s t) (hrun : s.pool.shutdown = .running) {signalled : Option Nat}
    {worker : Nat → ThreadPc Task} (hs : Monitor.signal ThreadPc.wake n s.worker signalled = some worker)
    (ht : t'.worker = t.worker) (hthreads : t'.threads = n) :
    ∃ worker', t'.signal signalled = some { t' with worker := worker' } ∧
      ∀ w, (worker w).Shows s.pool.shutdown (worker' w) := by
  rcases signal_cases hs with ⟨rfl, rfl, hnone⟩ | ⟨i, z, rfl, hz, rfl⟩
  · refine ⟨t'.worker, ?_, fun w => by rw [ht]; exact h.worker w⟩
    have hany : ((List.range t'.threads).any fun w => PoolState.isWaiting (t'.worker w)) = false := by
      rw [List.any_eq_false]
      intro w hw
      rw [hthreads, List.mem_range] at hw
      have hawake := hnone w hw
      have hshows := h.worker w
      rw [ht]
      cases hpc : t.worker w <;> rw [hpc] at hshows <;> simp [PoolState.isWaiting]
      cases hz : s.worker w <;> rw [hz] at hshows hawake <;> cases hshows
      cases hawake
    simp [PoolState.signal, hany]
  · obtain ⟨hi, rfl⟩ := ThreadPc.wake_eq hz
    have hshows := h.worker i
    rw [hi] at hshows
    have hwaiting : t'.worker i = .waiting := by
      rw [ht]
      exact (hshows.asleep_cases.resolve_right fun e => e.1 hrun).2
    refine ⟨update t'.worker i .woken, ?_, fun w => ?_⟩
    · simp [PoolState.signal, hwaiting, PoolState.isWaiting, PoolState.setWorker]
    · by_cases hw : w = i
      · subst hw
        rw [update_self, update_self]
        exact .woken
      · rw [update_of_ne hw, update_of_ne hw, ht]
        exact h.worker w

theorem addStep (h : Shows n s t) {signalled : Option Nat} (hs : s.addStep n c signalled = some s') :
    ∃ t', Mirrors s (.add c signalled) t t' ∧ Shows n s' t' := by
  unfold CPool.addStep at hs
  split at hs
  case h_2 => cases hs
  rename_i task hc
  obtain ⟨active, hpool⟩ := h.pool
  have hadd : threadpoolAdd .succeed (some task) t.pool = enqueue task true t.pool := rfl
  have henqueue := enqueue_withThreads task true s.pool n active
  rw [← hpool, ← hadd] at henqueue
  split at hs
  · rename_i pool heq
    obtain ⟨hrun, hshutdown, -⟩ := WakeOk.enqueue_zero heq
    have hsame := (enqueue_frame task true s.pool).1
    rw [heq] at henqueue hsame
    obtain ⟨worker, hsignal, hs⟩ := Option.bind_eq_some_iff.1 hs
    cases hs
    let t' : PoolState Task := { t with
      pool := pool.withThreads n active, accepted := t.accepted ++ [task] }
    obtain ⟨worker', hsignal', hworker'⟩ :=
      h.signal hrun hsignal (rfl : t'.worker = t.worker) (rfl : t'.threads = n)
    have hstep : t.step (.add task signalled) = some { t with
        pool := pool.withThreads n active, accepted := t.accepted ++ [task], worker := worker' } := by
      simp only [PoolState.step, PoolState.add, henqueue]
      exact hsignal'
    refine ⟨_, ⟨Or.inr ⟨_, by simp [shown, hc], hstep⟩, ?_, ?_⟩, ?_⟩
    · simp [accepts, hc, heq]
    · simp [finishes]
    · refine h.moveCaller rfl trivial (Or.inl rfl) (fun hx => hx.elim) ?_ rfl hsame.1 ⟨active, rfl⟩ h.dequeued
        (fun _ => h.running hrun) h.freed
      intro w
      have hw := hworker' w
      rwa [← hshutdown] at hw
  · rename_i err pool herr heq
    split at hs <;> cases hs
    rename_i hsignalled
    cases WakeOk.enqueue_error herr heq
    rw [heq, ← hpool] at henqueue
    have herr : err ≠ 0 := herr
    have hstep : t.step (.add task signalled) = some t := by
      rw [hsignalled]
      exact PoolState.add_refused herr henqueue
    have haccepts : s.accepts (.add c signalled) = [] := by simp [accepts, hc, heq, herr]
    exact ⟨t, .quiet (by simp [shown, hc]) hstep rfl rfl haccepts rfl,
      h.stayCaller rfl rfl rfl rfl rfl h.freed trivial fun hx => hx.elim⟩

/-! ### The creator -/

/-- The creator counts, and nothing is seen of it. -/
theorem moveCreator (h : Shows n s t) (pool : Threadpool Task) {pc : CreatorPc} {threads active : Int}
    (hpool : pool = s.pool.withThreads threads active) (hcreator : pc.Within n threads) :
    Shows n ((s.withPool pool).goCreator pc) t := by
  subst hpool
  exact ⟨hcreator, h.pool, h.dequeued, h.worker, h.caller, h.one, h.running, h.freed⟩

theorem pthreadCreate (h : Shows n s t) (hlife : LifeOk s) (hs : s.pthreadCreate n true = some s') :
    ∃ t', Mirrors s (.pthreadCreate true) t t' ∧ Shows n s' t' := by
  unfold CPool.pthreadCreate at hs
  split at hs
  case h_2 => cases hs
  rename_i i hcreator
  have hb : Building i i i s := by
    unfold LifeOk at hlife
    rwa [hcreator] at hlife
  split at hs
  case isFalse => cases hs
  rename_i hlt
  cases hs
  have hw := h.worker i
  rw [(hb.born i).2 (Nat.le_refl i)] at hw
  refine ⟨t, .stutter rfl rfl rfl, h.stayWorker rfl ?_ rfl hlt rfl rfl rfl⟩
  cases ht : t.worker i <;> rw [ht] at hw <;> cases hw
  exact .locking

theorem creatorStep (h : Shows n s t) (hlife : LifeOk s) (hs : s.creatorStep n = some s') :
    ∃ t', Mirrors s .create t t' ∧ Shows n s' t' := by
  have hwithin := h.creator
  refine ⟨t, .stutter rfl rfl rfl, ?_⟩
  unfold CPool.creatorStep at hs
  unfold LifeOk at hlife
  split at hs <;> rename_i hcreator <;> rw [hcreator] at hwithin hlife
  · split at hs <;> cases hs
    rename_i i hall
    have hle : i ≤ n := hwithin
    refine h.moveCreator s.pool rfl ?_
    show s.pool.threadCountInPool = n
    rw [hlife.count]
    omega
  · cases hs
    exact h.moveCreator _ rfl hwithin
  · cases hs
    exact h.moveCreator s.pool rfl hwithin
  · cases hs
    exact h.moveCreator _ rfl (Nat.succ_le_of_lt hwithin)
  all_goals cases hs

/-! ### The runs -/

theorem start (pool : Threadpool Task) (hcount : pool.threadCountInPool = n) :
    Shows n (CPool.start pool) (.start pool) where
  creator := Nat.zero_le n
  pool := ⟨pool.activeThreadNum, by rw [← hcount]; rfl⟩
  dequeued := rfl
  worker _ := .unborn
  caller _ := trivial
  one _ _ h := h.elim
  running _ := rfl
  freed h := by cases h

theorem step (h : Shows n s t) (hwake : WakeOk n s) (hlife : LifeOk s) (hok : Graceful s a)
    (hs : s.step n a = some s') : ∃ t', Mirrors s a t t' ∧ Shows n s' t' := by
  cases a with
  | pthreadCreate started =>
    obtain rfl : started = true := hok
    exact h.pthreadCreate hlife hs
  | create => exact h.creatorStep hlife hs
  | callAdd c task =>
    have hs : s.callAdd c task = some s' := hs
    unfold callAdd at hs
    refine ⟨t, .stutter rfl rfl rfl, ?_⟩
    split at hs
    · split at hs <;> cases hs
      all_goals exact h.stayCaller rfl rfl rfl rfl rfl h.freed trivial fun hx => hx.elim
    · cases hs
  | callDestroy c flags =>
    obtain ⟨-, -, rfl⟩ := callDestroy_cases hs
    exact ⟨t, .stutter rfl rfl rfl,
      h.stayCaller rfl rfl rfl rfl rfl h.freed (bne_iff_ne.1 hok) fun hx => hx.elim⟩
  | caller c => exact h.callerStep hwake hlife (step_caller hs)
  | add c signalled => exact h.addStep (step_add hs)
  | pthreadJoin c joined =>
    obtain rfl : joined = true := hok
    exact h.pthreadJoin hlife (step_pthreadJoin hs)
  | thread w => exact h.threadStep hwake hs
  | spurious w => exact h.spurious hs

theorem init {threadNum queueSize : Int} {s₀ : CPool Task}
    (h : (cPool Task threadNum queueSize).init s₀) :
    ∃ t₀, (threadpool Task threadNum queueSize).init t₀ ∧ Shows threadNum.toNat s₀ t₀ ∧
      t₀.accepted = [] ∧ t₀.finished = [] := by
  obtain ⟨pool, hcreate, rfl⟩ := h
  refine ⟨.start pool, ⟨pool, hcreate, rfl⟩, start pool ?_, rfl, rfl⟩
  unfold threadpoolCreate at hcreate
  split at hcreate <;> cases hcreate
  show threadNum = threadNum.toNat
  omega

end Shows

theorem sections_simulation (threadNum queueSize : Int) :
    (cPool Task threadNum queueSize).Simulation (threadpool Task threadNum queueSize) Graceful
      (fun _ _ => True) shown
      (fun s t => WakeOk threadNum.toNat s ∧ LifeOk s ∧ Shows threadNum.toNat s t) where
  init s h := by
    obtain ⟨t, hinit, hshows, -, -⟩ := Shows.init h
    obtain ⟨hwake, hlife, -⟩ := WakeOk.reach (.init h)
    exact ⟨t, hinit, hwake, hlife, hshows⟩
  step s a s' t h hok hs := by
    obtain ⟨hwake, hlife, hshows⟩ := h
    obtain ⟨t', hmirrors, hshows'⟩ := hshows.step hwake hlife hok hs
    have hkeep := And.intro (hwake.step hlife hs) (And.intro (hlife.step hs) hshows')
    obtain ⟨hnone, rfl⟩ | ⟨b, hb, hstep⟩ := hmirrors.step
    · exact Or.inl ⟨hnone, hkeep⟩
    · exact Or.inr ⟨b, t', hb, trivial, hstep, hkeep⟩

/-- **The pool of locks is a pool of critical sections**, as long as shutdowns are graceful and nothing
fails to start or to join: its sections, ends of tasks and joins are, in their order, a run of
`ThreadpoolRuns.lean`, with the same queue, and each worker and each shutdown where it belongs. -/
theorem cPool_refines {threadNum queueSize : Int} {s₀ s : CPool Task} {as : List (CPoolStep Task)}
    (hinit : (cPool Task threadNum queueSize).init s₀)
    (hrun : (cPool Task threadNum queueSize).Run Graceful s₀ as s) :
    ∃ t₀ t, (threadpool Task threadNum queueSize).init t₀ ∧
      (threadpool Task threadNum queueSize).Run (fun _ _ => True) t₀
        ((cPool Task threadNum queueSize).transcript (fun s a => (s.shown a).toList) s₀ as) t ∧
      t.pool.pending = s.pool.pending ∧ t.pool.shutdown = s.pool.shutdown ∧ t.dequeued = s.dequeued ∧
      (∀ w, (s.worker w).Shows s.pool.shutdown (t.worker w)) ∧ ∀ c, (s.caller c).Shows t.destroyer := by
  obtain ⟨t₀, hinit', hR⟩ := (sections_simulation threadNum queueSize).init s₀ hinit
  obtain ⟨t, hrun', -, -, hshows⟩ := (sections_simulation threadNum queueSize).run hR hrun
  exact ⟨t₀, t, hinit', hrun', hshows.pending, hshows.shutdown, hshows.dequeued, hshows.worker,
    hshows.caller⟩

/-- A task is added while the worker sleeps, and one caller destroys the pool. -/
def addAndFree : List (CPoolStep Nat) :=
  createOne ++ [.thread 0, .thread 0, .callAdd 0 (some 10), .caller 0, .add 0 (some 0), .caller 0,
    .callDestroy 0 1, .caller 0, .caller 0, .caller 0, .caller 0,
    .thread 0, .thread 0, .thread 0, .thread 0, .thread 0, .thread 0, .thread 0,
    .pthreadJoin 0 true, .caller 0, .caller 0]

theorem addAndFree_graceful : ∀ a ∈ addAndFree, a.isGraceful = true := by decide

theorem addAndFree_refines : ∃ t₀ t, (threadpool Nat 1 1).init t₀ ∧
    (threadpool Nat 1 1).Run (fun _ _ => True) t₀
      [.turn 0, .add 10 (some 0), .destroy, .turn 0, .finish 0, .turn 0, .join, .join] t ∧
    t.dequeued = [some 10] := by
  have hrun : (cPool Nat 1 1).Run Graceful (.start ⟨fun _ => none, 1, 1, 0, 0, 0, .running, 1⟩)
      addAndFree _ := Lts.run_of_replay (fun a ha _ => addAndFree_graceful a ha) rfl
  obtain ⟨t₀, t, hinit, hrun', -, -, hdequeued, -, -⟩ := cPool_refines ⟨_, rfl, rfl⟩ hrun
  exact ⟨t₀, t, hinit, hrun', hdequeued⟩

/-! ## Every task is run once -/

/-- The logs of the two pools agree. -/
theorem Shows.run {threadNum queueSize : Int} {s₀ s : CPool Task} {as : List (CPoolStep Task)}
    (hinit : (cPool Task threadNum queueSize).init s₀)
    (hrun : (cPool Task threadNum queueSize).Run Graceful s₀ as s) :
    ∃ t, (threadpool Task threadNum queueSize).Reachable t ∧ Shows threadNum.toNat s t ∧
      t.accepted = (cPool Task threadNum queueSize).transcript accepts s₀ as ∧
      t.finished.map Prod.snd = (cPool Task threadNum queueSize).transcript finishes s₀ as := by
  induction hrun with
  | nil =>
    obtain ⟨t₀, hinit', hshows, haccepted, hfinished⟩ := Shows.init hinit
    exact ⟨t₀, .init hinit', hshows, haccepted, by rw [hfinished]; rfl⟩
  | @snoc as s₁ s₂ a hrun hok hs ih =>
    obtain ⟨t, hreach, hshows, haccepted, hfinished⟩ := ih
    have hmono : (cPool Task threadNum queueSize).Run (fun _ _ => True) s₀ as s₁ :=
      hrun.mono fun _ _ _ => trivial
    obtain ⟨hwake, hlife, -⟩ := WakeOk.reach (hmono.reach (.init hinit))
    obtain ⟨t', hmirrors, hshows'⟩ := hshows.step hwake hlife hok hs
    refine ⟨t', ?_, hshows', ?_, ?_⟩
    · obtain ⟨-, rfl⟩ | ⟨b, -, hstep⟩ := hmirrors.step
      · exact hreach
      · exact .step hreach trivial hstep
    · rw [hrun.transcript_snoc hs, ← haccepted]
      exact hmirrors.accepted
    · rw [hrun.transcript_snoc hs, ← hfinished]
      exact hmirrors.finished

end CPool

/-- No ticket is finished twice. -/
theorem Tickets.subperm {worker : Nat → Worker Task} {dequeued : List (Option Task)}
    {finished : List (Nat × Option Task)} (h : Tickets worker dequeued finished) :
    (finished.map Prod.snd).Subperm dequeued := by
  obtain ⟨tickets, hperm, hsub⟩ : (finished.map Prod.fst).Subperm (List.range dequeued.length) :=
    h.once.subperm fun i hi => List.mem_range.2 (h.finished_lt hi)
  have htasks : finished.map Prod.snd =
      (finished.map Prod.fst).map fun i => (dequeued[i]?).getD none := by
    rw [List.map_map]
    refine List.map_congr_left fun p hp => ?_
    rw [Function.comp_apply, h.task p hp]
    rfl
  have hall : dequeued = (List.range dequeued.length).map fun i => (dequeued[i]?).getD none := by
    apply List.ext_getElem
    · simp
    · intro i hi hi'
      simp [hi]
  have hsub := hsub.map fun i => (dequeued[i]?).getD none
  rw [← hall] at hsub
  rw [htasks]
  exact ⟨_, hperm.map _, hsub⟩

namespace CPool

/-- **Every accepted task is run once**, as long as shutdowns are graceful and nothing fails to start or
to join: the tasks that `threadpool_add` has accepted are those taken out and those still in the queue,
in their order; none has been run more often than it was accepted; and when the pool is freed all of
them have been run to their end. -/
theorem cPool_runsAll {threadNum queueSize : Int} {s₀ s : CPool Task} {as : List (CPoolStep Task)}
    (hinit : (cPool Task threadNum queueSize).init s₀)
    (hrun : (cPool Task threadNum queueSize).Run Graceful s₀ as s) :
    s.dequeued ++ s.pool.pending = ((cPool Task threadNum queueSize).transcript accepts s₀ as).map some ∧
    ((cPool Task threadNum queueSize).transcript finishes s₀ as).Subperm s.dequeued ∧
    (s.freed = true → ((cPool Task threadNum queueSize).transcript finishes s₀ as).Perm
      (((cPool Task threadNum queueSize).transcript accepts s₀ as).map some)) := by
  obtain ⟨t, hreach, hshows, haccepted, hfinished⟩ := Shows.run hinit hrun
  have hinv := poolInv_reachable hreach
  rw [← haccepted, ← hfinished, ← hshows.dequeued, ← hshows.pending]
  refine ⟨hinv.fifo, hinv.tickets.subperm, fun hfreed => ?_⟩
  obtain ⟨hdequeued, htickets, -⟩ := hinv.drained_all (hshows.freed hfreed)
  rw [← hdequeued]
  apply hinv.tickets.subperm.perm_of_length_le
  have hlength := htickets.length_eq
  rw [List.length_map, List.length_range] at hlength
  rw [hdequeued, List.length_map, List.length_map, hlength]

theorem addAndFree_runsAll : ((cPool Nat 1 1).transcript finishes
    (.start ⟨fun _ => none, 1, 1, 0, 0, 0, .running, 1⟩) addAndFree).Perm [some 10] := by
  have hrun : (cPool Nat 1 1).Run Graceful (.start ⟨fun _ => none, 1, 1, 0, 0, 0, .running, 1⟩)
      addAndFree _ := Lts.run_of_replay (fun a ha _ => addAndFree_graceful a ha) rfl
  exact (cPool_runsAll ⟨_, rfl, rfl⟩ hrun).2.2 rfl

end CPool

end HPServer
