import HighPerformanceServer.ThreadPool
/-!
# Shutting the C++ thread pool down

`~ThreadPool` (threadpool.cpp:208-216) stores `SHUTDOWN` and broadcasts `queue_has_task` without the
lock, and never notifies `queue_has_spare`; `threadpool_destroy` (:106-125) does both under it.

* A worker that has read `RUNNING` and not yet given up the lock sleeps behind the broadcast.
* A producer that waits for space when the status turns is woken by a dequeue only, and only a
  worker past its own status test still dequeues.
-/

namespace HPServer

open Monitor

variable {Task : Type}

def DestructorPc.notified : DestructorPc → Prop
  | .notCalled | .stored => False
  | .joining _ | .joined => True

namespace PoolSys

variable {s s' : PoolSys Task} {p w producers : Nat}

/-- Behind `notifyAll` no worker sleeps, and no producer outsleeps the workers. -/
def NoneStranded (s : PoolSys Task) : Prop :=
  s.destructor.notified →
    (∀ w, s.worker w ≠ .asleep) ∧
    ((∀ w < s.pool.threadCount, s.worker w = .exited) → ∀ p task, s.producer p ≠ .asleep task)

/-- A producer that waits for space is the only one, and a worker is about to notify it. -/
def Rescued (s : PoolSys Task) : Prop :=
  ∀ p, (s.producer p).blocked →
    (∃ task, s.producer p = .asleep task) ∧ (∀ q, (s.producer q).blocked → q = p) ∧
    ∃ w < s.pool.threadCount, s.worker w = .dequeuing

/-- The status turns when every producer that waits for space is rescued, and the broadcast meets no
worker between its test and its sleep. -/
def ShutsDownInTime (s : PoolSys Task) (a : PoolMove Task) : Prop :=
  (a = .shutdown → Rescued s) ∧ (a = .notifyAll → ∀ w, s.worker w ≠ .waiting)

structure ShutdownOk (producers : Nat) (s : PoolSys Task) : Prop where
  idle : Idle producers s
  status : s.destructor ≠ .notCalled → s.pool.status = .SHUTDOWN
  producers : s.destructor ≠ .notCalled → Rescued s
  workers : s.destructor.notified → ∀ w, ¬(s.worker w).blocked

namespace ShutdownOk

theorem noneStranded (h : ShutdownOk producers s) : s.NoneStranded := by
  intro hnotified
  have hcalled : s.destructor ≠ .notCalled := by
    intro e
    rw [e] at hnotified
    exact hnotified
  constructor
  · intro w hw
    apply h.workers hnotified w
    rw [hw]
    trivial
  · intro hexited p task hp
    obtain ⟨-, -, w, hlt, hw⟩ := h.producers hcalled p (by rw [hp]; trivial)
    rw [hexited w hlt] at hw
    cases hw

end ShutdownOk

/-! ### Who is rescued stays so -/

/-- Producer `p` goes on to a place that is not blocked. -/
theorem Rescued.setProducer (h : Rescued s) {x : AddPc Task} (hx : ¬x.blocked) :
    Rescued (s.setProducer p x) := by
  have hold : ∀ q, ((s.setProducer p x).producer q).blocked → q ≠ p ∧ (s.producer q).blocked := by
    intro q hq
    have hne : q ≠ p := by
      rintro rfl
      exact hx (by simpa [PoolSys.setProducer] using hq)
    exact ⟨hne, by simpa [PoolSys.setProducer, Function.update_of_ne hne] using hq⟩
  intro q hq
  obtain ⟨hne, hblocked⟩ := hold q hq
  obtain ⟨hasleep, hone, hrescue⟩ := h q hblocked
  refine ⟨?_, fun r hr => hone r (hold r hr).2, hrescue⟩
  simpa [PoolSys.setProducer, Function.update_of_ne hne] using hasleep

/-- The workers move, and none of them from its stores. -/
theorem Rescued.congr (h : Rescued s) (hpool : s'.pool.threadCount = s.pool.threadCount)
    (hproducer : s'.producer = s.producer)
    (hworker : ∀ w, s.worker w = .dequeuing → s'.worker w = .dequeuing) : Rescued s' := by
  intro p hp
  rw [hproducer] at hp
  obtain ⟨hasleep, hone, w, hlt, hw⟩ := h p hp
  refine ⟨?_, ?_, w, ?_, hworker w hw⟩
  · rw [hproducer]
    exact hasleep
  · rw [hproducer]
    exact hone
  · rw [hpool]
    exact hlt

/-- The worker that rescues wakes the one producer there is to wake. -/
theorem Rescued.dequeue {notified : Option Nat} {producer : Nat → AddPc Task} (h : Rescued s)
    (hidle : Idle producers s)
    (hsignal : signal AddPc.wake producers s.producer notified = some producer) :
    ∀ p, ¬(producer p).blocked := by
  intro p hp
  obtain ⟨-, rfl, hnone⟩ | ⟨i, x, -, hx, rfl⟩ := signal_cases hsignal
  · obtain ⟨⟨task, hasleep⟩, -⟩ := h p hp
    have hlt := hidle.lt fun ret hret => by rw [hasleep] at hret; cases hret
    have hawake := hnone p hlt
    rw [hasleep] at hawake
    cases hawake
  · obtain ⟨task, hi, rfl⟩ := AddPc.wake_eq hx
    by_cases hpi : p = i
    · subst hpi
      simp [AddPc.blocked] at hp
    · have hp : (s.producer p).blocked := by simpa [Function.update_of_ne hpi] using hp
      obtain ⟨-, hone, -⟩ := h p hp
      exact hpi (hone i (by rw [hi]; trivial)).symm

theorem Rescued.step {a : PoolMove Task} (h : Rescued s) (hidle : Idle producers s)
    (hstatus : s.pool.status = .SHUTDOWN) (hs : s.step producers a = some s') : Rescued s' := by
  cases step_effect hs with
  | producer p lock x _ _ hblocks =>
    have hx : ¬x.blocked := by
      intro hb
      rcases hblocks hb with e | ⟨task, hp⟩
      · rw [hstatus] at e
        cases e
      · obtain ⟨⟨task', hasleep⟩, -⟩ := h p (by rw [hp]; trivial)
        rw [hp] at hasleep
        cases hasleep
    exact (show Rescued (s.withLock lock) from h).setProducer hx
  | worker w lock z hw =>
    refine h.congr rfl rfl fun v hv => ?_
    have hne : v ≠ w := by
      rintro rfl
      exact hw hv
    simpa [setWorker, withLock, Function.update_of_ne hne] using hv
  | store p task worker _ hwoken =>
    refine (h.setProducer (p := p) (x := .returned (some 0)) id).congr rfl rfl fun w hw => ?_
    rcases hwoken w with e | e
    · exact e.trans hw
    · have hw : s.worker w = .dequeuing := hw
      rw [hw] at e
      cases e
  | dequeue w notified producer _ hsignal =>
    intro p hp
    exact absurd hp (h.dequeue hidle hsignal p)
  | destructor hs =>
    obtain ⟨-, -, rfl⟩ | ⟨-, -, rfl⟩ | ⟨_, _, -, -, -, rfl⟩ := destructorStep_cases hs
    · exact h
    · refine h.congr rfl rfl fun w hw => ?_
      simp [broadcast, hw, DoThreadPc.wake]
    · exact h

/-! ### No worker falls asleep again -/

theorem update_notBlocked {z : DoThreadPc Task} (h : ∀ w, ¬(s.worker w).blocked) (hz : ¬z.blocked) :
    ∀ v, ¬(Function.update s.worker w z v).blocked :=
  (Function.forall_update_iff _ fun _ (z : DoThreadPc Task) => ¬z.blocked).2 ⟨hz, fun v _ => h v⟩

theorem workers_step {a : PoolMove Task} (h : ∀ w, ¬(s.worker w).blocked)
    (hstatus : s.pool.status = .SHUTDOWN) (hs : s.step producers a = some s') :
    ∀ w, ¬(s'.worker w).blocked := by
  have hwake : ∀ z z' : DoThreadPc Task, z.wake = some z' → ¬z.blocked → ¬z'.blocked := by
    intro z z' hz _
    obtain ⟨-, rfl⟩ := DoThreadPc.wake_eq hz
    exact id
  cases step_effect hs with
  | producer => exact h
  | worker w lock z _ hblocks =>
    apply update_notBlocked h
    intro hb
    rcases hblocks hb with e | e
    · rw [hstatus] at e
      cases e
    · exact h w e
  | store p task worker _ hwoken => exact hwoken.forall hwake h
  | dequeue => exact update_notBlocked h id
  | destructor hs =>
    obtain ⟨-, -, rfl⟩ | ⟨-, -, rfl⟩ | ⟨_, _, -, -, -, rfl⟩ := destructorStep_cases hs
    · exact h
    · exact (broadcast_woken _ _).forall hwake h
    · exact h

/-- The broadcast leaves no worker asleep, and whoever sleeps later was on the way before. -/
theorem notifyAll_workers (h : ∀ w, s.worker w ≠ .waiting) (w : Nat) :
    ¬(broadcast DoThreadPc.wake s.worker w).blocked := by
  have hw := h w
  cases hpc : s.worker w <;> rw [hpc] at hw <;>
    first | exact absurd rfl hw | simp [broadcast, hpc, DoThreadPc.wake, DoThreadPc.blocked]

/-! ### The runs -/

/-- Only the destructor's own steps move it or the status. -/
theorem step_frame {a : PoolMove Task} (hs : s.step producers a = some s') :
    (s'.destructor = s.destructor ∧ s'.pool.status = s.pool.status) ∨
    s.destructorStep a = some s' := by
  cases step_effect hs with
  | destructor hs => exact Or.inr hs
  | _ => exact Or.inl ⟨rfl, rfl⟩

theorem ShutdownOk.step {a : PoolMove Task} (h : ShutdownOk producers s)
    (hok : ShutsDownInTime s a) (hs : s.step producers a = some s') : ShutdownOk producers s' := by
  obtain ⟨hidle, hstatus, hproducers, hworkers⟩ := h
  have hidle' := hidle.step hs
  rcases step_frame hs with ⟨hd, hst⟩ | hd
  · have hcalled : s.destructor.notified → s.destructor ≠ .notCalled := by
      intro hn e
      rw [e] at hn
      exact hn
    refine ⟨hidle', ?_, ?_, ?_⟩
    · rw [hd, hst]
      exact hstatus
    · rw [hd]
      exact fun hc => (hproducers hc).step hidle (hstatus hc) hs
    · rw [hd]
      exact fun hn => workers_step (hworkers hn) (hstatus (hcalled hn)) hs
  obtain ⟨rfl, -, rfl⟩ | ⟨rfl, hstored, rfl⟩ | ⟨i, d, rfl, hjoining, hnext, rfl⟩ := destructorStep_cases hd
  · exact ⟨hidle', fun _ => rfl, fun _ => hok.1 rfl, False.elim⟩
  · have hc : s.destructor ≠ .notCalled := by simp [hstored]
    exact ⟨hidle', fun _ => hstatus hc, fun _ => (hproducers hc).step hidle (hstatus hc) hs,
      fun _ => notifyAll_workers (hok.2 rfl)⟩
  · have hc : s.destructor ≠ .notCalled := by simp [hjoining]
    exact ⟨hidle', fun _ => hstatus hc, fun _ => (hproducers hc),
      fun _ => hworkers (by rw [hjoining]; trivial)⟩

/-- **Shutdown strands no thread**, when the two unlocked steps of the destructor come in time. -/
theorem shutdown_noneStranded {threadNum queueCapacity : UInt32} {s : PoolSys Task}
    (h : (threadPool Task threadNum queueCapacity producers).Reach ShutsDownInTime s) :
    s.NoneStranded := by
  have hok : ShutdownOk producers s := by
    apply h.invariant
    · rintro s rfl
      exact ⟨.start producers _, fun h => absurd rfl h, fun h => absurd rfl h, False.elim⟩
    · exact fun s a s' h hok hs => h.step hok hs
  exact hok.noneStranded

/-- The worker sleeps, then the destructor takes its steps, and the worker leaves. -/
theorem idleWorker_noneStranded : ∃ s, (threadPool Nat 1 1 1).Reach ShutsDownInTime s ∧
    s.destructor = .joined ∧ s.NoneStranded := by
  have hother : ∀ (as : List (PoolMove Nat)), .shutdown ∉ as → .notifyAll ∉ as →
      ∀ a ∈ as, ∀ s, ShutsDownInTime s a := by
    intro as h₁ h₂ a ha s
    exact ⟨fun e => absurd (e ▸ ha) h₁, fun e => absurd (e ▸ ha) h₂⟩
  have hstart : (threadPool Nat 1 1 1).Reach ShutsDownInTime (.start (.create 1 1)) := .init rfl
  have hasleep : (threadPool Nat 1 1 1).Reach ShutsDownInTime _ :=
    Lts.reach_of_replay_ok [.doThread 0, .doThread 0, .doThread 0] (hother _ (by simp) (by simp))
      hstart rfl
  have hstored : (threadPool Nat 1 1 1).Reach ShutsDownInTime _ :=
    .step hasleep (a := .shutdown) ⟨fun _ p hp => hp.elim, fun h => (by cases h)⟩ rfl
  have hnotified : (threadPool Nat 1 1 1).Reach ShutsDownInTime _ :=
    .step hstored (a := .notifyAll)
      ⟨fun h => (by cases h), fun _ w hw => (by rcases w with _ | w <;> cases hw)⟩ rfl
  have hjoined : (threadPool Nat 1 1 1).Reach ShutsDownInTime _ :=
    Lts.reach_of_replay_ok [.doThread 0, .doThread 0, .doThread 0, .join, .join]
      (hother _ (by simp) (by simp)) hnotified rfl
  exact ⟨_, hjoined, rfl, shutdown_noneStranded hjoined⟩

/-- The worker tests before the status turns, and sleeps behind the broadcast. -/
def lostWakeup : List (PoolMove Nat) :=
  [.doThread 0, .doThread 0, .shutdown, .notifyAll, .doThread 0]

/-- **Bug** (threadpool.cpp:209-210): store and broadcast are made without the lock. -/
theorem lostWakeup_strands : ¬∀ s, (threadPool Nat 1 1 1).Reachable s → s.NoneStranded := by
  intro h
  obtain ⟨s, hs, hnotified, hasleep⟩ :
      ∃ s, (threadPool Nat 1 1 1).replay (.start (.create 1 1)) lostWakeup = some s ∧
        s.destructor.notified ∧ s.worker 0 = .asleep := ⟨_, rfl, trivial, rfl⟩
  exact (h s (Lts.reach_of_replay lostWakeup (.init rfl) hs) hnotified).1 0 hasleep

/-- The producer waits for space, and the only worker leaves without a dequeue. -/
def noSpareNotify : List (PoolMove Nat) :=
  [.call 0 (some 10), .add 0, .add 0, .add 0, .store 0 none,
   .call 0 (some 11), .add 0, .add 0, .add 0,
   .shutdown, .notifyAll, .doThread 0, .doThread 0, .doThread 0]

/-- **Bug** (threadpool.cpp:210): `queue_has_spare` is not broadcast. -/
theorem noSpareNotify_strands : ∃ s, (threadPool Nat 1 1 1).Reachable s ∧ s.destructor.notified ∧
    (∀ w < s.pool.threadCount, s.worker w = .exited) ∧ s.producer 0 = .asleep 11 := by
  obtain ⟨s, hs, hnotified, hexited, hthreads, hasleep⟩ :
      ∃ s, (threadPool Nat 1 1 1).replay (.start (.create 1 1)) noSpareNotify = some s ∧
        s.destructor.notified ∧ s.worker 0 = .exited ∧ s.pool.threadCount = 1 ∧
        s.producer 0 = .asleep 11 := ⟨_, rfl, trivial, rfl, by decide, rfl⟩
  refine ⟨s, Lts.reach_of_replay noSpareNotify (.init rfl) hs, hnotified, ?_, hasleep⟩
  intro w hw
  obtain rfl : w = 0 := by omega
  exact hexited

/-! ### What the condition leaves out -/

/-- A worker that the broadcast misses is asleep one step later. -/
theorem earlyNotifyAll_strands (hw : s.worker w = .waiting) (hlt : w < s.pool.threadCount)
    (hs : s.step producers .notifyAll = some s') :
    ∃ s'', s'.step producers (.doThread w) = some s'' ∧ ¬s''.NoneStranded := by
  obtain ⟨h, -⟩ | ⟨-, -, rfl⟩ | ⟨_, _, h, -⟩ := destructorStep_cases (a := .notifyAll) hs
  · cases h
  · have hstill : broadcast DoThreadPc.wake s.worker w = .waiting := by
      simp [broadcast, hw, DoThreadPc.wake]
    refine ⟨_, (show PoolSys.step _ _ _ = some _ by
      simp only [PoolSys.step, if_pos hlt, doThreadStep, hstill]; rfl), ?_⟩
    intro h
    exact (h trivial).1 w (by simp [setWorker])
  · cases h

/-- Nobody is left to notify producer `p`. -/
structure Lost (p : Nat) (s : PoolSys Task) : Prop where
  status : s.pool.status = .SHUTDOWN
  blocked : (s.producer p).blocked
  worker : ∀ w, s.worker w ≠ .dequeuing

/-- Then only a spurious return gets it out of its wait. -/
theorem Lost.step {a : PoolMove Task} (h : Lost p s) (ha : a ≠ .spuriousAdd p)
    (hs : s.step producers a = some s') : Lost p s' := by
  obtain ⟨hstatus, hblocked, hworker⟩ := h
  have hproducer : ∀ q x, q ≠ p → (Function.update s.producer q x p).blocked := fun q x hq => by
    rwa [Function.update_of_ne (Ne.symm hq)]
  have hwake : ∀ z z' : DoThreadPc Task, z.wake = some z' → z ≠ .dequeuing → z' ≠ .dequeuing := by
    intro z z' hz _
    obtain ⟨-, rfl⟩ := DoThreadPc.wake_eq hz
    exact fun e => by cases e
  have hupdate : ∀ w z, z ≠ .dequeuing → ∀ v, Function.update s.worker w z v ≠ .dequeuing :=
    fun w z hz => (Function.forall_update_iff _ fun _ (z : DoThreadPc Task) => z ≠ .dequeuing).2
      ⟨hz, fun v _ => hworker v⟩
  cases step_effect hs with
  | producer q lock x _ _ _ hstays =>
    refine ⟨hstatus, ?_, hworker⟩
    by_cases hq : q = p
    · subst hq
      have hx := (hstays hblocked).resolve_right ha
      simpa [setProducer] using hx
    · exact hproducer q x hq
  | worker w lock z _ _ hdequeues =>
    exact ⟨hstatus, hblocked, hupdate w z fun e => hdequeues e hstatus⟩
  | store q task worker hq hwoken =>
    refine ⟨hstatus, hproducer q _ ?_, hwoken.forall hwake hworker⟩
    rintro rfl
    rw [hq] at hblocked
    exact hblocked
  | dequeue w notified producer hw => exact absurd hw (hworker w)
  | destructor hs =>
    obtain ⟨-, -, rfl⟩ | ⟨-, -, rfl⟩ | ⟨_, _, -, -, -, rfl⟩ := destructorStep_cases hs
    · exact ⟨rfl, hblocked, hworker⟩
    · exact ⟨hstatus, hblocked, (broadcast_woken _ _).forall hwake hworker⟩
    · exact ⟨hstatus, hblocked, hworker⟩

end PoolSys

end HPServer
