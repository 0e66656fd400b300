import HighPerformanceServer.ThreadpoolLife
/-!
# Nobody returns with the lock of the C thread pool

`threadpool_add`, `threadpool_destroy` and the workers unlock on every way out but one: the `break`
of a `threadpool_destroy` that finds the pool shutting down (threadpool.cpp:112-115) jumps over the
unlock at :122.
-/

namespace HPServer

open Function Monitor

variable {Task : Type}

namespace CPool

variable {s s' : CPool Task} {c w : Nat} {x : CallerPc Task} {z : ThreadPc Task}

def Inside (s : CPool Task) : CThread → Prop
  | .caller c => (s.caller c).inside
  | .worker w => (s.worker w).inside

/-- Outside the functions of the pool, and in a task, a thread does not hold the lock. -/
def ReturnsUnlocked (s : CPool Task) : Prop :=
  (∀ c ret, s.caller c = .returned ret → s.lock ≠ some (.caller c)) ∧
  ∀ w, (s.worker w = .exited ∨ ∃ task, s.worker w = .running task) → s.lock ≠ some (.worker w)

/-- A `threadpool_destroy` that has the lock finds a pool that nobody shuts down. -/
def FirstDestroy (s : CPool Task) (a : CPoolStep Task) : Prop :=
  ∀ c, a = .caller c → ∀ flags, s.caller c = .destroying flags → s.pool.shutdown = .running

theorem returnsUnlocked (h : Guards s.lock s.Inside) : s.ReturnsUnlocked := by
  constructor
  · intro c ret hc hlock
    have hin : s.Inside (.caller c) := (h _).2 hlock
    simp only [Inside, hc] at hin
    exact hin
  · intro w hw hlock
    have hin : s.Inside (.worker w) := (h _).2 hlock
    obtain hw | ⟨task, hw⟩ := hw <;> simp only [Inside, hw] at hin <;> exact hin

/-! ### Moves -/

theorem guards_moveCaller (s' : CPool Task) (h : Guards s.lock s.Inside)
    (hcaller : s'.caller = update s.caller c x)
    (hworker : ∀ w, (s'.worker w).inside ↔ (s.worker w).inside)
    (hmove : LockMove s.lock s'.lock (.caller c) (s.caller c).inside x.inside) :
    Guards s'.lock s'.Inside := by
  have hx : s'.Inside (.caller c) = x.inside := by simp only [Inside, hcaller, update_self]
  apply h.move (t := .caller c)
  · rw [hx]
    exact hmove
  · rintro (d | w) hne
    · have hd : d ≠ c := fun e => hne (by rw [e])
      simp only [Inside, hcaller, update_of_ne hd]
    · exact hworker w

theorem guards_moveWorker (s' : CPool Task) (h : Guards s.lock s.Inside)
    (hcaller : s'.caller = s.caller) (hworker : s'.worker = update s.worker w z)
    (hmove : LockMove s.lock s'.lock (.worker w) (s.worker w).inside z.inside) :
    Guards s'.lock s'.Inside := by
  have hz : s'.Inside (.worker w) = z.inside := by simp only [Inside, hworker, update_self]
  apply h.move (t := .worker w)
  · rw [hz]
    exact hmove
  · rintro (c | v) hne
    · simp only [Inside, hcaller]
    · have hv : v ≠ w := fun e => hne (by rw [e])
      simp only [Inside, hworker, update_of_ne hv]

theorem woken_inside {worker worker' : Nat → ThreadPc Task} (h : Woken ThreadPc.wake worker worker')
    (w : Nat) : (worker' w).inside ↔ (worker w).inside := by
  rcases h w with e | e
  · rw [e]
  · obtain ⟨hw, hw'⟩ := ThreadPc.wake_eq e
    rw [hw, hw']
    exact Iff.rfl

/-- A caller that stays outside, or inside. -/
theorem guards_setCaller (h : Guards s.lock s.Inside) (hx : x.inside ↔ (s.caller c).inside) :
    Guards s.lock (s.setCaller c x).Inside :=
  guards_moveCaller (s.setCaller c x) h rfl (fun _ => Iff.rfl) (Or.inr (Or.inr ⟨rfl, hx⟩))

/-! ### The steps -/

theorem guards_acquire (h : Guards s.lock s.Inside) (hx : x.inside) (hs : s.acquire c x = some s') :
    Guards s'.lock s'.Inside := by
  unfold acquire at hs
  split at hs <;> cases hs
  rename_i hfree
  exact guards_moveCaller ((s.withLock (some (.caller c))).setCaller c x) h rfl
    (fun _ => Iff.rfl) (Or.inl ⟨hfree, rfl, hx⟩)

theorem guards_release (h : Guards s.lock s.Inside) (hin : (s.caller c).inside) (hx : ¬x.inside) :
    Guards ((s.withLock none).setCaller c x).lock ((s.withLock none).setCaller c x).Inside :=
  guards_moveCaller ((s.withLock none).setCaller c x) h rfl (fun _ => Iff.rfl)
    (Or.inr (Or.inl ⟨hin, hx, rfl⟩))

theorem guards_callerStep (h : Guards s.lock s.Inside)
    (hfirst : ∀ flags, s.caller c = .destroying flags → s.pool.shutdown = .running)
    (hs : s.callerStep c = some s') : Guards s'.lock s'.Inside := by
  cases hc : s.caller c
  case destroying flags =>
    obtain ⟨-, shutdown, -, rfl⟩ | ⟨hdown, -⟩ := callerStep_destroying hc hs
    · exact guards_moveCaller ((s.withPool _).setCaller c _) h rfl (fun _ => Iff.rfl)
        (Or.inr (Or.inr ⟨rfl, by rw [hc]; exact Iff.rfl⟩))
    · exact absurd (hfirst flags hc) hdown
  all_goals simp only [callerStep, hc] at hs
  case addLocking task => exact guards_acquire (x := .adding task) h trivial hs
  case addUnlocking err =>
    cases hs
    exact guards_release h (by rw [hc]; trivial) id
  case destroyLocking flags => exact guards_acquire (x := .destroying flags) h trivial hs
  case broadcasting =>
    cases hs
    exact guards_moveCaller
      ({ s with worker := broadcast ThreadPc.wake s.worker }.setCaller c .destroyUnlocking)
      h rfl (woken_inside (broadcast_woken _ _)) (Or.inr (Or.inr ⟨rfl, by rw [hc]; exact Iff.rfl⟩))
  case destroyUnlocking =>
    cases hs
    exact guards_release h (by rw [hc]; trivial) id
  case joining i err =>
    split at hs
    · cases hs
    · split at hs <;> cases hs
      · exact guards_setCaller h (by rw [hc]; exact Iff.rfl)
      · exact guards_setCaller h (by rw [hc]; exact Iff.rfl)
  case freeing =>
    split at hs <;> cases hs
    · exact guards_setCaller h (by rw [hc]; exact Iff.rfl)
    · exact guards_moveCaller ({ s with freed := true }.setCaller c .freed) h rfl
        (fun _ => Iff.rfl) (Or.inr (Or.inr ⟨rfl, by rw [hc]; exact Iff.rfl⟩))
  case freed =>
    split at hs <;> cases hs
    exact guards_setCaller h (by rw [hc]; exact Iff.rfl)
  all_goals cases hs

theorem guards_addStep {k : Nat} {signalled : Option Nat} (h : Guards s.lock s.Inside)
    (hs : s.addStep k c signalled = some s') : Guards s'.lock s'.Inside := by
  obtain ⟨task, pool, worker, err, hc, -, -, hwoken, rfl⟩ := addStep_cases hs
  exact guards_moveCaller
    ({ s.withPool pool with worker := worker }.setCaller c (.addUnlocking err))
    h rfl (woken_inside hwoken) (Or.inr (Or.inr ⟨rfl, by rw [hc]; exact Iff.rfl⟩))

/-- A worker that starts was outside, and so is the thread that could not start one. -/
theorem guards_pthreadCreate {k : Nat} {started : Bool} (h : Guards s.lock s.Inside) (hlife : LifeOk s)
    (hs : s.pthreadCreate k started = some s') : Guards s'.lock s'.Inside := by
  unfold CPool.pthreadCreate at hs
  split at hs
  · rename_i i hcreator
    have hb : Building i i i s := by
      unfold LifeOk at hlife
      rw [hcreator] at hlife
      exact hlife
    have hw : s.worker i = .unborn := (hb.born i).2 (Nat.le_refl i)
    have hc := hb.callers 0
    split at hs
    · split at hs <;> cases hs
      · exact guards_moveWorker ((s.setWorker i .locking).goCreator (.counting i)) h rfl rfl
          (Or.inr (Or.inr ⟨rfl, by rw [hw]; exact Iff.rfl⟩))
      · exact guards_setCaller (x := .destroyLocking 0) h (by rw [hc]; exact Iff.rfl)
    · cases hs
  · cases hs

theorem guards_step {k : Nat} {a : CPoolStep Task} (h : Guards s.lock s.Inside) (hlife : LifeOk s)
    (hfirst : FirstDestroy s a) (hs : s.step k a = some s') : Guards s'.lock s'.Inside := by
  cases a with
  | pthreadCreate started => exact guards_pthreadCreate h hlife hs
  | create =>
    simp only [CPool.step, creatorStep] at hs
    split at hs
    · split at hs <;> cases hs
      exact h
    all_goals first | (cases hs; exact h) | cases hs
  | callAdd c task =>
    obtain ⟨x, -, ⟨ret, hc⟩, hx, -, rfl⟩ := callAdd_cases hs
    exact guards_setCaller h (by rw [hc]; exact ⟨fun hin => absurd hin hx, False.elim⟩)
  | callDestroy c flags =>
    obtain ⟨-, ⟨ret, hc⟩, rfl⟩ := callDestroy_cases hs
    exact guards_setCaller h (by rw [hc]; exact Iff.rfl)
  | caller c => exact guards_callerStep h (hfirst c rfl) (step_caller hs)
  | add c signalled => exact guards_addStep h (step_add hs)
  | pthreadJoin c joined =>
    obtain ⟨i, err, x, hc, hx, rfl⟩ := pthreadJoin_cases (step_pthreadJoin hs)
    exact guards_setCaller h (by rw [hc]; exact ⟨fun hin => absurd hin hx, False.elim⟩)
  | thread w =>
    obtain ⟨_, _, _, _, rfl, -, -, -, -, -, hmove, -⟩ := threadStep_cases hs
    exact guards_moveWorker _ h rfl rfl hmove
  | spurious w =>
    obtain ⟨z, hz, rfl⟩ := Option.map_eq_some_iff.1 hs
    obtain ⟨hw, rfl⟩ := ThreadPc.wake_eq hz
    exact guards_moveWorker (s.setWorker w .woken) h rfl rfl
      (Or.inr (Or.inr ⟨rfl, by rw [hw]; exact Iff.rfl⟩))

/-- **Nobody returns with the lock**, when no `threadpool_destroy` finds the pool shutting down. -/
theorem returnsUnlocked_firstDestroy {threadNum queueSize : Int} {s : CPool Task}
    (h : (cPool Task threadNum queueSize).Reach FirstDestroy s) : s.ReturnsUnlocked := by
  have hinv : Guards s.lock s.Inside ∧ LifeOk s := by
    apply h.invariant
    · rintro s ⟨pool, hpool, rfl⟩
      exact ⟨.free fun t => by cases t <;> exact id, .start pool (ringInv_create hpool).2.2.1⟩
    · rintro s a s' ⟨hguards, hlife⟩ hfirst hs
      exact ⟨guards_step hguards hlife hfirst hs, hlife.step hs⟩
  exact returnsUnlocked hinv.1

/-- A pool of one worker and one slot, as `threadpool_create` returns it. -/
def createOne : List (CPoolStep Nat) := [.pthreadCreate true, .create, .create, .create, .create]

/-- A task is added and started, then one caller destroys the pool. -/
theorem addAndDestroy_returnsUnlocked : ∃ s, (cPool Nat 1 1).Reach FirstDestroy s ∧
    s.worker 0 = .running (some 10) ∧ s.caller 0 = .broadcasting ∧ s.ReturnsUnlocked := by
  have hother : ∀ as : List (CPoolStep Nat), (∀ c, .caller c ∉ as) → ∀ a ∈ as, ∀ s, FirstDestroy s a :=
    fun as hnot a ha s c e => absurd (e ▸ ha) (hnot c)
  have hstart : (cPool Nat 1 1).Reach FirstDestroy
      (.start ⟨fun _ => none, 1, 1, 0, 0, 0, .running, 1⟩) := .init ⟨_, rfl, rfl⟩
  have hcalled : (cPool Nat 1 1).Reach FirstDestroy _ :=
    Lts.reach_of_replay_ok (createOne ++ [.callAdd 0 (some 10)]) (hother _ (by simp [createOne])) hstart rfl
  have hlocked : (cPool Nat 1 1).Reach FirstDestroy _ :=
    .step hcalled (a := .caller 0) (fun c e flags hc => by cases e; cases hc) rfl
  have hadded : (cPool Nat 1 1).Reach FirstDestroy _ :=
    Lts.reach_of_replay_ok [.add 0 none] (hother _ (by simp)) hlocked rfl
  have hreturned : (cPool Nat 1 1).Reach FirstDestroy _ :=
    .step hadded (a := .caller 0) (fun c e flags hc => by cases e; cases hc) rfl
  have hrunning : (cPool Nat 1 1).Reach FirstDestroy _ :=
    Lts.reach_of_replay_ok [.thread 0, .thread 0, .thread 0, .callDestroy 0 1] (hother _ (by simp))
      hreturned rfl
  have hlocked' : (cPool Nat 1 1).Reach FirstDestroy _ :=
    .step hrunning (a := .caller 0) (fun c e flags hc => by cases e; cases hc) rfl
  have hstored : (cPool Nat 1 1).Reach FirstDestroy _ :=
    .step hlocked' (a := .caller 0) (fun _ _ _ _ => rfl) rfl
  exact ⟨_, hstored, rfl, rfl, returnsUnlocked_firstDestroy hstored⟩

/-- A second call finds the pool shutting down. -/
def destroyTwice : List (CPoolStep Nat) :=
  createOne ++ [.callDestroy 0 1, .caller 0, .caller 0, .caller 0, .caller 0,
    .callDestroy 1 1, .caller 1, .caller 1]

/-- **Bug** (threadpool.cpp:112-115): the second `threadpool_destroy` keeps the lock. -/
theorem destroyTwice_keepsLock : ¬∀ s, (cPool Nat 1 1).Reachable s → s.ReturnsUnlocked := by
  intro h
  have hstart : (cPool Nat 1 1).Reachable (.start ⟨fun _ => none, 1, 1, 0, 0, 0, .running, 1⟩) :=
    .init ⟨_, rfl, rfl⟩
  obtain ⟨s, hs, hc, hlock⟩ :
      ∃ s, (cPool Nat 1 1).replay (.start ⟨fun _ => none, 1, 1, 0, 0, 0, .running, 1⟩) destroyTwice
        = some s ∧ s.caller 1 = .returned (some THREADPOOL_SHUTDOWN) ∧ s.lock = some (.caller 1) :=
    ⟨_, rfl, rfl, rfl⟩
  exact (h s (Lts.reach_of_replay destroyTwice hstart hs)).1 1 _ hc hlock

/-- So does every `threadpool_destroy` that the condition leaves out. -/
theorem laterDestroy_keepsLock {k : Nat} {a : CPoolStep Task} (h : Guards s.lock s.Inside)
    (hlater : ¬FirstDestroy s a) (hs : s.step k a = some s') :
    ∃ c, s'.caller c = .returned (some THREADPOOL_SHUTDOWN) ∧ s'.lock = some (.caller c) := by
  simp only [FirstDestroy, not_forall] at hlater
  obtain ⟨c, rfl, flags, hc, hdown⟩ := hlater
  obtain ⟨hrunning, -⟩ | ⟨-, rfl⟩ := callerStep_destroying hc (step_caller hs)
  · exact absurd hrunning hdown
  · refine ⟨c, update_self .., (h (.caller c)).1 ?_⟩
    simp only [Inside, hc]
    trivial

end CPool

end HPServer
