import HighPerformanceServer.Backing
import HighPerformanceServer.Simulation
import HighPerformanceServer.ThreadpoolReturns
/-!
# The C thread pool forgets no task and strands no thread

`threadpool_add` signals one worker for each task (threadpool.cpp:85), `threadpool_destroy` wakes all
of them once, under the lock (:121). So a worker sleeps only in a pool that is running, and only when
for each task in the queue another one is on its way (`WakeOk`). Together with the lock, which its
holder always gives up, and the joins, which wait for workers that are not asleep, this leaves no
state in which everybody waits (`cPool_neverStalls`).
-/

namespace HPServer

open Function Monitor

variable {Task : Type}

def ThreadPc.blocked : ThreadPc Task → Prop
  | .asleep => True
  | _ => False

/-- On the way to a task. -/
def ThreadPc.heads : ThreadPc Task → Bool
  | .locking | .looking | .woken => true
  | .unborn | .asleep | .unlocking _ | .running _ | .leaving | .exited => false

/-- In a `threadpool_destroy` that has shut the pool down. -/
def CallerPc.hasShutDown : CallerPc Task → Prop
  | .broadcasting | .destroyUnlocking | .joining _ _ | .freeing | .freed => True
  | .returned _ | .addLocking _ | .adding _ | .addUnlocking _ | .destroyLocking _ | .destroying _ => False

/-- A step that a thread in the functions of the pool takes on its own; no `pthread` call fails. -/
def CPoolStep.isOwn : CPoolStep Task → Bool
  | .pthreadCreate started => started
  | .pthreadJoin _ joined => joined
  | .create | .caller _ | .add _ _ | .thread _ => true
  | .callAdd _ _ | .callDestroy _ _ | .spurious _ => false

theorem ThreadPc.wake_heads (z z' : ThreadPc Task) (h : z.wake = some z') :
    z.blocked ∧ z.heads = false ∧ z'.heads = true ∧ ¬z'.blocked := by
  obtain ⟨rfl, rfl⟩ := ThreadPc.wake_eq h
  exact ⟨trivial, rfl, rfl, id⟩

theorem ThreadPc.blocked_iff {z : ThreadPc Task} : z.blocked ↔ z = .asleep := by
  cases z <;> simp [ThreadPc.blocked]

/-- What a turn leaves of the queue. -/
theorem threadpoolThread_pending (pool : Threadpool Task) (hcount : 0 ≤ pool.pendingTaskCount) :
    (pool.shutdown = .running ∧ pool.pendingTaskCount = 0 ∧ threadpoolThread pool = (.wait, pool)) ∨
    (pool.shutdown ≠ .running ∧ (pool.shutdown = .graceful → pool.pendingTaskCount = 0) ∧
      threadpoolThread pool = (.exit, { pool with activeThreadNum := pool.activeThreadNum - 1 })) ∨
    (0 < pool.pendingTaskCount ∧ threadpoolThread pool = (.run (pool.queue pool.head.toNat), { pool with
      head := (pool.head + 1).tmod pool.queueSize
      pendingTaskCount := pool.pendingTaskCount - 1 })) := by
  unfold threadpoolThread
  split
  · rename_i hwait
    exact Or.inl ⟨hwait.2, hwait.1, rfl⟩
  · rename_i hwait
    split
    · rename_i hexit
      refine Or.inr (Or.inl ⟨?_, ?_, rfl⟩)
      · rcases hexit with h | ⟨h, -⟩ <;> rw [h] <;> exact fun e => by cases e
      · intro hgraceful
        rcases hexit with h | ⟨-, h⟩
        · cases hgraceful.symm.trans h
        · exact h
    · rename_i hrun
      refine Or.inr (Or.inr ⟨?_, rfl⟩)
      have hne : pool.pendingTaskCount ≠ 0 := by
        intro hzero
        cases hdown : pool.shutdown with
        | running => exact hwait ⟨hzero, hdown⟩
        | immediate => exact hrun (Or.inl hdown)
        | graceful => exact hrun (Or.inr ⟨hdown, hzero⟩)
      omega

namespace CPool

variable {s s' : CPool Task} {c w n : Nat} {x : CallerPc Task} {z : ThreadPc Task}

/-- No worker sleeps while there is a task that none is coming for. -/
def NoneForgotten (n : Nat) (s : CPool Task) : Prop :=
  Backed ThreadPc.blocked ThreadPc.heads n s.worker s.pool.pendingTaskCount.toNat

structure WakeOk (n : Nat) (s : CPool Task) : Prop where
  unborn : ∀ w, n ≤ w → s.worker w = .unborn
  born : s.creator = .created → ∀ w < n, s.worker w ≠ .unborn
  count : 0 ≤ s.pool.pendingTaskCount
  left : ∀ w, (s.worker w).left = true →
    s.pool.shutdown ≠ .running ∧ (s.pool.shutdown = .graceful → s.pool.pendingTaskCount = 0)
  backed : s.pool.shutdown = .running → s.NoneForgotten n
  /-- Who shuts the pool down wakes everybody. -/
  down : s.pool.shutdown ≠ .running → (∃ c, s.caller c = .broadcasting) ∨ ∀ w, s.worker w ≠ .asleep
  callers : ∀ c, (s.caller c).hasShutDown → s.pool.shutdown ≠ .running

namespace WakeOk

theorem start (pool : Threadpool Task) (h : pool.pendingTaskCount = 0) (hrun : pool.shutdown = .running) :
    WakeOk n (CPool.start pool) where
  unborn _ _ := rfl
  born h := by cases h
  count := h.ge
  left w h := by cases h
  backed _ := by
    rintro ⟨w, h⟩
    exact h.elim
  down h := absurd hrun h
  callers c h := h.elim

/-- A caller moves, the workers do not, and the queue stays as it is. -/
theorem moveCaller (h : WakeOk n s) (hcaller : s'.caller = update s.caller c x)
    (hworker : s'.worker = s.worker) (hcreator : s'.creator = s.creator)
    (hcount : s'.pool.pendingTaskCount = s.pool.pendingTaskCount)
    (hshutdown : s'.pool.shutdown = s.pool.shutdown) (hc : s.caller c ≠ .broadcasting)
    (hx : x.hasShutDown → s.pool.shutdown ≠ .running) : WakeOk n s' where
  unborn := by rw [hworker]; exact h.unborn
  born := by rw [hworker, hcreator]; exact h.born
  count := by rw [hcount]; exact h.count
  left := by rw [hworker, hcount, hshutdown]; exact h.left
  backed := by
    unfold NoneForgotten
    rw [hworker, hcount, hshutdown]
    exact h.backed
  down := by
    rw [hworker, hcaller, hshutdown]
    intro hdown
    refine (h.down hdown).imp_left ?_
    rintro ⟨d, hd⟩
    have hdc : d ≠ c := by
      rintro rfl
      exact hc hd
    exact ⟨d, by rw [update_of_ne hdc]; exact hd⟩
  callers d := by
    rw [hcaller, hshutdown]
    by_cases hdc : d = c
    · subst hdc
      rw [update_self]
      exact hx
    · rw [update_of_ne hdc]
      exact h.callers d

/-- A worker moves, and the shutdown stays as it is. -/
theorem moveWorker (h : WakeOk n s) (hw : w < n) (hworker : s'.worker = update s.worker w z)
    (hcaller : s'.caller = s.caller) (hcreator : s'.creator = s.creator) (hz : z ≠ .unborn)
    (hcount : 0 ≤ s'.pool.pendingTaskCount) (hshutdown : s'.pool.shutdown = s.pool.shutdown)
    (hzero : s.pool.pendingTaskCount = 0 → s'.pool.pendingTaskCount = 0)
    (hleft : z.left = true → s.pool.shutdown ≠ .running ∧
      (s.pool.shutdown = .graceful → s'.pool.pendingTaskCount = 0))
    (hblocked : z.blocked → s.pool.shutdown = .running)
    (hunits : s.pool.shutdown = .running → s'.pool.pendingTaskCount.toNat = 0 ∨
      ((z.blocked → (s.worker w).blocked) ∧ s'.pool.pendingTaskCount.toNat + (s.worker w).heads.toNat ≤
        s.pool.pendingTaskCount.toNat + z.heads.toNat)) : WakeOk n s' where
  unborn v hv := by
    rw [hworker, update_of_ne (by omega)]
    exact h.unborn v hv
  born hcreated v hv := by
    rw [hworker]
    by_cases hvw : v = w
    · subst hvw
      rwa [update_self]
    · rw [update_of_ne hvw]
      exact h.born (hcreator.symm.trans hcreated) v hv
  count := hcount
  left v := by
    rw [hworker, hshutdown]
    by_cases hvw : v = w
    · subst hvw
      rw [update_self]
      exact hleft
    · rw [update_of_ne hvw]
      exact fun hv => ⟨(h.left v hv).1, fun hgraceful => hzero ((h.left v hv).2 hgraceful)⟩
  backed hrun := by
    unfold NoneForgotten
    rw [hworker]
    have hrun := hshutdown.symm.trans hrun
    exact (h.backed hrun).move hw (hunits hrun)
  down hdown := by
    rw [hshutdown] at hdown
    rw [hcaller, hworker]
    refine (h.down hdown).imp_right fun hasleep v => ?_
    by_cases hvw : v = w
    · subst hvw
      rw [update_self]
      exact fun e => hdown (hblocked (ThreadPc.blocked_iff.2 e))
    · rw [update_of_ne hvw]
      exact hasleep v
  callers d := by
    rw [hcaller, hshutdown]
    exact h.callers d

theorem lt_of_born (h : WakeOk n s) (hw : s.worker w ≠ .unborn) : w < n := by
  by_contra hge
  exact hw (h.unborn w (Nat.le_of_not_lt hge))

/-! ### The workers -/

theorem threadStep (h : WakeOk n s) (hs : s.threadStep w = some s') : WakeOk n s' := by
  have hcount := h.count
  unfold CPool.threadStep at hs
  split at hs <;> rename_i hw
  case h_1 | h_2 =>
    split at hs <;> cases hs
    refine h.moveWorker (h.lt_of_born (by simp [hw])) rfl rfl rfl (by simp) hcount rfl id
      (by simp [ThreadPc.left]) (fun hx => hx.elim) fun _ => Or.inr ⟨fun hx => hx.elim, ?_⟩
    exact Nat.add_le_add_left (by simp [hw, ThreadPc.heads]) _
  case h_3 =>
    have hlt := h.lt_of_born (w := w) (by simp [hw])
    obtain ⟨hrun, hzero, ht⟩ | ⟨hdown, hdrained, ht⟩ | ⟨hpos, ht⟩ := threadpoolThread_pending s.pool hcount <;>
      rw [ht] at hs <;> cases hs
    · refine h.moveWorker hlt rfl rfl rfl (by simp) hcount rfl id (by simp [ThreadPc.left]) (fun _ => hrun)
        fun _ => Or.inl ?_
      show s.pool.pendingTaskCount.toNat = 0
      omega
    · exact h.moveWorker hlt rfl rfl rfl (by simp) hcount rfl id (fun _ => ⟨hdown, hdrained⟩)
        (fun hx => hx.elim) fun hrun => absurd hrun hdown
    · refine h.moveWorker hlt rfl rfl rfl (by simp) ?_ rfl (by omega) (by simp [ThreadPc.left])
        (fun hx => hx.elim) fun _ => Or.inr ⟨fun hx => hx.elim, ?_⟩
      · show 0 ≤ s.pool.pendingTaskCount - 1
        omega
      · show (s.pool.pendingTaskCount - 1).toNat + _ ≤ _
        simp only [hw, ThreadPc.heads, Bool.toNat_true, Bool.toNat_false]
        omega
  case h_4 | h_5 =>
    cases hs
    exact h.moveWorker (h.lt_of_born (by simp [hw])) rfl rfl rfl (by simp) hcount rfl id
      (by simp [ThreadPc.left]) (fun hx => hx.elim)
      fun _ => Or.inr ⟨fun hx => hx.elim, Nat.add_le_add_left (by simp [hw, ThreadPc.heads]) _⟩
  case h_6 =>
    cases hs
    have hleft := h.left w (by simp [hw, ThreadPc.left])
    exact h.moveWorker (h.lt_of_born (by simp [hw])) rfl rfl rfl (by simp) hcount rfl id
      (fun _ => hleft) (fun hx => hx.elim)
      fun _ => Or.inr ⟨fun hx => hx.elim, Nat.add_le_add_left (by simp [hw, ThreadPc.heads]) _⟩
  all_goals cases hs

theorem spurious (h : WakeOk n s) (hs : s.spurious w = some s') : WakeOk n s' := by
  obtain ⟨z, hz, rfl⟩ := Option.map_eq_some_iff.1 hs
  obtain ⟨hw, rfl⟩ := ThreadPc.wake_eq hz
  exact h.moveWorker (h.lt_of_born (by simp [hw])) rfl rfl rfl (by simp) h.count rfl id
    (by simp [ThreadPc.left]) (fun hx => hx.elim)
    fun _ => Or.inr ⟨fun hx => hx.elim, Nat.add_le_add_left (by simp [hw, ThreadPc.heads]) _⟩

/-! ### The callers -/

theorem enqueue_zero {task : Task} {pool pool' : Threadpool Task}
    (h : enqueue task true pool = (0, pool')) :
    pool.shutdown = .running ∧ pool'.shutdown = pool.shutdown ∧
      pool'.pendingTaskCount = pool.pendingTaskCount + 1 := by
  unfold enqueue at h
  dsimp only at h
  split at h
  · cases h
  · split at h
    · cases h
    · rename_i hrun
      cases h
      exact ⟨not_not.1 hrun, rfl, rfl⟩

theorem enqueue_error {task : Task} {pool pool' : Threadpool Task} {err : Int} (herr : err ≠ 0)
    (h : enqueue task true pool = (err, pool')) : pool' = pool := by
  unfold enqueue at h
  dsimp only at h
  split at h
  · cases h
    rfl
  · split at h
    · cases h
      rfl
    · cases h
      exact absurd rfl herr

/-- `threadpool_add` signals behind its stores. -/
theorem addStep (h : WakeOk n s) {signalled : Option Nat} (hs : s.addStep n c signalled = some s') :
    WakeOk n s' := by
  unfold CPool.addStep at hs
  split at hs
  case h_2 => cases hs
  rename_i task hc
  split at hs
  · rename_i pool heq
    obtain ⟨hrun, hshutdown, hpending⟩ := enqueue_zero heq
    obtain ⟨worker, hsignal, hs⟩ := Option.bind_eq_some_iff.1 hs
    cases hs
    have hwoken := signal_woken hsignal
    have hcount := h.count
    refine ⟨fun v hv => (woken_unborn hwoken v).2 (h.unborn v hv),
      fun hcreated v hv e => h.born hcreated v hv ((woken_unborn hwoken v).1 e), ?_, fun v hv => ?_,
      fun _ => ?_, fun hdown => absurd (hshutdown.trans hrun) hdown, fun d hd => ?_⟩
    · show 0 ≤ pool.pendingTaskCount
      omega
    · have hv : (worker v).left = true := hv
      rw [woken_left hwoken v] at hv
      exact absurd hrun (h.left v hv).1
    · have hunits : pool.pendingTaskCount.toNat = s.pool.pendingTaskCount.toNat + 1 := by omega
      show Backed ThreadPc.blocked ThreadPc.heads n worker pool.pendingTaskCount.toNat
      rw [hunits]
      refine (h.backed hrun).signal (fun v hv => ?_) ThreadPc.wake_heads hsignal
      have hv := ThreadPc.blocked_iff.1 hv
      exact ⟨h.lt_of_born (by simp [hv]), by simp [hv, ThreadPc.wake]⟩
    · have hd : (update s.caller c (.addUnlocking 0) d).hasShutDown := hd
      by_cases hdc : d = c
      · subst hdc
        rw [update_self] at hd
        exact hd.elim
      · rw [update_of_ne hdc] at hd
        exact absurd hrun (h.callers d hd)
  · rename_i pool herr heq
    split at hs <;> cases hs
    cases enqueue_error herr heq
    exact h.moveCaller rfl rfl rfl rfl rfl (by simp [hc]) fun hx => hx.elim

/-- Behind the broadcast nobody sleeps. -/
theorem broadcasting (h : WakeOk n s) (hc : s.caller c = .broadcasting) :
    WakeOk n ({ s with worker := broadcast ThreadPc.wake s.worker }.setCaller c .destroyUnlocking) := by
  have hwoken := broadcast_woken ThreadPc.wake s.worker
  have hdown : s.pool.shutdown ≠ .running := h.callers c (by rw [hc]; trivial)
  refine ⟨fun v hv => (woken_unborn hwoken v).2 (h.unborn v hv),
    fun hcreated v hv e => h.born hcreated v hv ((woken_unborn hwoken v).1 e), h.count, fun v hv => ?_,
    fun hrun => absurd hrun hdown, fun _ => Or.inr fun v e => ?_, fun _ _ => hdown⟩
  · have hv : (broadcast ThreadPc.wake s.worker v).left = true := hv
    rw [woken_left hwoken v] at hv
    exact h.left v hv
  · have e : (ThreadPc.wake (s.worker v)).getD (s.worker v) = .asleep := e
    cases hv : s.worker v <;> rw [hv] at e <;> cases e

/-- The first `threadpool_destroy` finds that no worker has left. -/
theorem destroying (h : WakeOk n s) (hrun : s.pool.shutdown = .running) {shutdown : Shutdown}
    (hdown : shutdown ≠ .running) :
    WakeOk n ((s.withPool { s.pool with shutdown := shutdown }).setCaller c .broadcasting) where
  unborn := h.unborn
  born := h.born
  count := h.count
  left v hv := absurd hrun (h.left v hv).1
  backed hrun' := absurd hrun' hdown
  down _ := Or.inl ⟨c, update_self ..⟩
  callers _ _ := hdown

theorem callerStep (h : WakeOk n s) (hs : s.callerStep c = some s') : WakeOk n s' := by
  cases hc : s.caller c
  case destroying flags =>
    obtain ⟨hrun, shutdown, hdown, rfl⟩ | ⟨hdown, rfl⟩ := callerStep_destroying hc hs
    · exact h.destroying hrun hdown
    · exact h.moveCaller rfl rfl rfl rfl rfl (by simp [hc]) fun hx => hx.elim
  case broadcasting =>
    simp only [CPool.callerStep, hc] at hs
    cases hs
    exact h.broadcasting hc
  case returned | adding => simp only [CPool.callerStep, hc] at hs; cases hs
  case addLocking | addUnlocking | destroyLocking =>
    simp only [CPool.callerStep, acquire, hc] at hs
    try split at hs
    all_goals cases hs
    exact h.moveCaller rfl rfl rfl rfl rfl (by simp [hc]) fun hx => hx.elim
  case destroyUnlocking | joining | freeing | freed =>
    have hdown : s.pool.shutdown ≠ .running := h.callers c (by rw [hc]; trivial)
    simp only [CPool.callerStep, hc] at hs
    repeat' split at hs
    all_goals cases hs
    all_goals exact h.moveCaller rfl rfl rfl rfl rfl (by simp [hc]) fun _ => hdown

theorem pthreadJoin (h : WakeOk n s) {joined : Bool} (hs : s.pthreadJoin c joined = some s') :
    WakeOk n s' := by
  unfold CPool.pthreadJoin at hs
  split at hs
  · rename_i i err hc
    have hdown : s.pool.shutdown ≠ .running := h.callers c (by rw [hc]; trivial)
    repeat' split at hs
    all_goals cases hs
    all_goals exact h.moveCaller rfl rfl rfl rfl rfl (by simp [hc]) fun _ => hdown
  · cases hs

/-! ### The creator -/

theorem goCreator (h : WakeOk n s) {pc : CreatorPc}
    (hborn : pc = .created → ∀ w < n, s.worker w ≠ .unborn) : WakeOk n (s.goCreator pc) :=
  ⟨h.unborn, hborn, h.count, h.left, h.backed, h.down, h.callers⟩

/-- The creator counts the workers, and leaves the rest of the pool alone. -/
theorem withPool (h : WakeOk n s) {pool : Threadpool Task}
    (hcount : pool.pendingTaskCount = s.pool.pendingTaskCount)
    (hshutdown : pool.shutdown = s.pool.shutdown) : WakeOk n (s.withPool pool) where
  unborn := h.unborn
  born := h.born
  count := h.count.trans_eq hcount.symm
  left w hw := ⟨fun e => (h.left w hw).1 (hshutdown.symm.trans e),
    fun e => hcount.trans ((h.left w hw).2 (hshutdown.symm.trans e))⟩
  backed hrun := by
    have hbacked := h.backed (hshutdown.symm.trans hrun)
    unfold NoneForgotten at hbacked ⊢
    show Backed _ _ n s.worker pool.pendingTaskCount.toNat
    rw [hcount]
    exact hbacked
  down hdown := h.down fun e => hdown (hshutdown.trans e)
  callers c hc e := h.callers c hc (hshutdown.symm.trans e)

theorem pthreadCreate (h : WakeOk n s) (hlife : LifeOk s) {started : Bool}
    (hs : s.pthreadCreate n started = some s') : WakeOk n s' := by
  unfold CPool.pthreadCreate at hs
  split at hs
  · rename_i i hcreator
    split at hs
    · rename_i hlt
      split at hs <;> cases hs
      · have hworker : WakeOk n (s.setWorker i .locking) := by
          refine h.moveWorker hlt rfl rfl rfl (by simp) h.count rfl id (by simp [ThreadPc.left])
            (fun hx => hx.elim) fun _ => Or.inr ⟨fun hx => hx.elim, Nat.add_le_add_left ?_ _⟩
          exact Bool.toNat_le _
        exact hworker.goCreator fun e => by cases e
      · have hb : Building i i i s := by
          unfold LifeOk at hlife
          rw [hcreator] at hlife
          exact hlife
        have hcaller : WakeOk n (s.setCaller 0 (.destroyLocking 0)) :=
          h.moveCaller rfl rfl rfl rfl rfl (by simp [hb.callers 0]) fun hx => hx.elim
        exact hcaller.goCreator fun e => by cases e
    · cases hs
  · cases hs

theorem creatorStep (h : WakeOk n s) (hlife : LifeOk s) (hs : s.creatorStep n = some s') : WakeOk n s' := by
  unfold CPool.creatorStep at hs
  split at hs
  · rename_i i hcreator
    split at hs <;> cases hs
    rename_i hall
    have hb : Building i i i s := by
      unfold LifeOk at hlife
      rw [hcreator] at hlife
      exact hlife
    exact h.goCreator fun _ w hw e => by have := (hb.born w).1 e; omega
  · cases hs
    have hpool : WakeOk n (s.withPool { s.pool with threadCountInPool := s.pool.threadCountInPool + 1 }) :=
      h.withPool rfl rfl
    exact hpool.goCreator fun e => by cases e
  · cases hs
    exact h.goCreator fun e => by cases e
  · rename_i i read hcreator
    cases hs
    have hpool : WakeOk n (s.withPool { s.pool with activeThreadNum := read + 1 }) := h.withPool rfl rfl
    exact hpool.goCreator fun e => by cases e
  all_goals cases hs

/-! ### The runs -/

theorem step {a : CPoolStep Task} (h : WakeOk n s) (hlife : LifeOk s) (hs : s.step n a = some s') :
    WakeOk n s' := by
  cases a with
  | pthreadCreate started => exact h.pthreadCreate hlife hs
  | create => exact h.creatorStep hlife hs
  | callAdd c task =>
    have hs : s.callAdd c task = some s' := hs
    unfold callAdd at hs
    split at hs
    · rename_i hc
      split at hs <;> cases hs
      all_goals exact h.moveCaller rfl rfl rfl rfl rfl (by simp [hc]) fun hx => hx.elim
    · cases hs
  | callDestroy c flags =>
    obtain ⟨-, ⟨ret, hc⟩, rfl⟩ := callDestroy_cases hs
    exact h.moveCaller rfl rfl rfl rfl rfl (by simp [hc]) fun hx => hx.elim
  | caller c => exact h.callerStep (step_caller hs)
  | add c signalled => exact h.addStep (step_add hs)
  | pthreadJoin c joined => exact h.pthreadJoin (step_pthreadJoin hs)
  | thread w => exact h.threadStep hs
  | spurious w => exact h.spurious hs

theorem reach {threadNum queueSize : Int} (h : (cPool Task threadNum queueSize).Reachable s) :
    WakeOk threadNum.toNat s ∧ LifeOk s ∧ 0 < threadNum.toNat := by
  induction h with
  | init h =>
    obtain ⟨pool, hcreate, rfl⟩ := h
    have hlife := LifeOk.reach (.init ⟨pool, hcreate, rfl⟩)
    unfold threadpoolCreate at hcreate
    split at hcreate <;> cases hcreate
    exact ⟨start _ rfl rfl, hlife, by omega⟩
  | step h _ hs ih =>
    obtain ⟨hwake, hlife, hn⟩ := ih
    exact ⟨hwake.step hlife hs, hlife.step hs, hn⟩

end WakeOk

/-- **No wakeup is lost**, whatever is called and whichever `pthread_create` and `pthread_join` fail:
in a running pool nobody sleeps beside a task that no worker is coming for, and in a pool that is
shut down nobody sleeps at all, once `threadpool_destroy` has made its broadcast. -/
theorem cPool_noneForgotten {threadNum queueSize : Int} {s : CPool Task}
    (h : (cPool Task threadNum queueSize).Reachable s) :
    (s.pool.shutdown = .running → s.NoneForgotten threadNum.toNat) ∧
    (s.pool.shutdown ≠ .running → (∀ c, s.caller c ≠ .broadcasting) → ∀ w, s.worker w ≠ .asleep) := by
  obtain ⟨hwake, -⟩ := WakeOk.reach h
  refine ⟨hwake.backed, fun hdown hnone => (hwake.down hdown).resolve_left ?_⟩
  rintro ⟨c, hc⟩
  exact hnone c hc

/-- The worker sleeps, and the signal of the first task wakes it. -/
def signalFirst : List (CPoolStep Nat) :=
  createOne ++ [.thread 0, .thread 0, .callAdd 0 (some 10), .caller 0, .add 0 (some 0)]

theorem signalFirst_noneForgotten : ∃ s, (cPool Nat 1 1).Reachable s ∧ s.worker 0 = .woken ∧
    s.pool.pendingTaskCount = 1 ∧ s.NoneForgotten 1 := by
  have hstart : (cPool Nat 1 1).Reachable (.start ⟨fun _ => none, 1, 1, 0, 0, 0, .running, 1⟩) :=
    .init ⟨_, rfl, rfl⟩
  have hreach : (cPool Nat 1 1).Reachable _ := Lts.reach_of_replay signalFirst hstart rfl
  exact ⟨_, hreach, rfl, rfl, (cPool_noneForgotten hreach).1 rfl⟩

/-! ## Somebody has a step -/

theorem guards_reach {threadNum queueSize : Int} {s : CPool Task}
    (h : (cPool Task threadNum queueSize).Reach FirstDestroy s) : Guards s.lock s.Inside := by
  induction h with
  | init h =>
    obtain ⟨pool, hcreate, rfl⟩ := h
    exact .free fun t => by cases t <;> exact id
  | step h hfirst hs ih => exact guards_step ih (LifeOk.reach (h.mono fun _ _ _ => trivial)) hfirst hs

/-- A thread has a step of its own. -/
def CanMove (n : Nat) (s : CPool Task) : Prop :=
  ∃ a s', a.isOwn = true ∧ s.step n a = some s'

theorem canMove_thread (hs : s.threadStep w ≠ none) : s.CanMove n := by
  obtain ⟨s', hs⟩ := Option.ne_none_iff_exists'.1 hs
  exact ⟨.thread w, s', rfl, hs⟩

theorem canMove_caller (hlive : s.freed = false) (hs : s.callerStep c ≠ none) : s.CanMove n := by
  obtain ⟨s', hs⟩ := Option.ne_none_iff_exists'.1 hs
  exact ⟨.caller c, s', rfl, by simp only [CPool.step, hlive]; exact hs⟩

/-- `threadpool_create` goes on. -/
theorem canMove_creator (hcreated : s.creator ≠ .created) (hfailed : s.creator ≠ .failed) :
    s.CanMove n := by
  cases hc : s.creator with
  | creating i =>
    by_cases hlt : i < n
    · exact ⟨.pthreadCreate true, _, rfl, by simp only [CPool.step, pthreadCreate, hc, if_pos hlt]; rfl⟩
    · exact ⟨.create, _, rfl, by simp only [CPool.step, creatorStep, hc, if_neg hlt]; rfl⟩
  | counting i | reading i | writing i read =>
    exact ⟨.create, _, rfl, by simp only [CPool.step, creatorStep, hc]; rfl⟩
  | created => exact absurd hc hcreated
  | failed => exact absurd hc hfailed

theorem exists_add {task : Task} (hc : s.caller c = .adding task) :
    ∃ signalled, s.addStep n c signalled ≠ none := by
  obtain ⟨signalled, worker, hsignal⟩ := exists_signal ThreadPc.wake n s.worker
  obtain ⟨err, pool, heq⟩ : ∃ err pool, enqueue task true s.pool = (err, pool) := ⟨_, _, rfl⟩
  by_cases herr : err = 0
  · subst herr
    exact ⟨signalled, by simp [addStep, hc, heq, hsignal]⟩
  · exact ⟨none, by simp [addStep, hc, heq]⟩

/-- Whoever has the lock goes on. -/
theorem canMove_inside (hlive : s.freed = false) {t : CThread} (ht : s.Inside t) : s.CanMove n := by
  cases t with
  | worker w =>
    have hin : (s.worker w).inside := ht
    apply canMove_thread (w := w)
    unfold threadStep
    cases hw : s.worker w with
    | looking =>
      dsimp only
      split <;> simp
    | unlocking task | leaving => simp
    | unborn | locking | asleep | woken | running | exited =>
      rw [hw] at hin
      exact hin.elim
  | caller c =>
    have hin : (s.caller c).inside := ht
    cases hc : s.caller c with
    | adding task =>
      obtain ⟨signalled, hs⟩ := exists_add (n := n) hc
      obtain ⟨s', hs⟩ := Option.ne_none_iff_exists'.1 hs
      exact ⟨.add c signalled, s', rfl, by simp only [CPool.step, hlive]; exact hs⟩
    | addUnlocking | broadcasting | destroyUnlocking =>
      exact canMove_caller (c := c) hlive (by simp [callerStep, hc])
    | destroying flags =>
      refine canMove_caller (c := c) hlive ?_
      unfold callerStep
      rw [hc]
      dsimp only
      split <;> simp
    | returned | addLocking | destroyLocking | joining | freeing | freed =>
      rw [hc] at hin
      exact hin.elim

/-- With the lock free, a worker goes on unless it sleeps or has left. -/
theorem canMove_worker (hfree : s.lock = none) (hout : ¬(s.worker w).inside) (hborn : s.worker w ≠ .unborn)
    (hasleep : s.worker w ≠ .asleep) (hexited : s.worker w ≠ .exited) : s.CanMove n := by
  apply canMove_thread (w := w)
  unfold threadStep
  cases hw : s.worker w with
  | locking | woken => simp [hfree]
  | running task => simp
  | looking | unlocking | leaving => rw [hw] at hout; exact absurd trivial hout
  | unborn => exact absurd hw hborn
  | asleep => exact absurd hw hasleep
  | exited => exact absurd hw hexited

/-- A task of a pool that is not shut down at once finds a worker. -/
theorem WakeOk.canMove_pending (h : WakeOk n s) (hn : 0 < n) (hfree : s.lock = none)
    (hout : ∀ t, ¬s.Inside t) (hcreated : s.creator = .created) (hpending : 0 < s.pool.pendingTaskCount)
    (hnow : s.pool.shutdown ≠ .immediate) : s.CanMove n := by
  have hexited : ∀ w, s.worker w ≠ .exited := by
    intro w hw
    obtain ⟨hdown, hdrained⟩ := h.left w (by rw [hw]; rfl)
    cases hshutdown : s.pool.shutdown with
    | running => exact hdown hshutdown
    | immediate => exact hnow hshutdown
    | graceful =>
      have := hdrained hshutdown
      omega
  have hborn := h.born hcreated 0 hn
  by_cases hasleep : s.worker 0 = .asleep
  · by_cases hrun : s.pool.shutdown = .running
    · obtain ⟨v, hv, hheads⟩ := (h.backed hrun).exists_heads (ThreadPc.blocked_iff.2 hasleep) (by omega)
      refine canMove_worker hfree (hout (.worker v)) (h.born hcreated v hv) ?_ (hexited v)
      intro e
      rw [e] at hheads
      cases hheads
    · rcases h.down hrun with ⟨c, hc⟩ | hnone
      · exact absurd (show s.Inside (.caller c) by simp only [Inside, hc]; trivial) (hout (.caller c))
      · exact absurd hasleep (hnone 0)
  · exact canMove_worker hfree (hout (.worker 0)) hborn hasleep (hexited 0)

/-- A call finds the lock free, or waits for a worker that has a step. -/
theorem WakeOk.canMove_call (h : WakeOk n s) (hbuilt : ∃ k, Built k s) (hlive : s.freed = false)
    (hfree : s.lock = none) (hout : ∀ t, ¬s.Inside t) (hc : ∀ ret, s.caller c ≠ .returned ret) :
    s.CanMove n := by
  have hin := hout (.caller c)
  simp only [Inside] at hin
  cases hpc : s.caller c with
  | returned ret => exact absurd hpc (hc ret)
  | addLocking | destroyLocking | freed =>
    exact canMove_caller (c := c) hlive (by simp [CPool.callerStep, acquire, hpc, hfree])
  | adding | addUnlocking | destroying | broadcasting | destroyUnlocking =>
    rw [hpc] at hin
    exact absurd trivial hin
  | freeing =>
    refine canMove_caller (c := c) hlive ?_
    simp only [CPool.callerStep, hpc]
    split <;> simp
  | joining i err =>
    by_cases hi : (i : Int) < s.pool.threadCountInPool
    · obtain ⟨k, hbuilt⟩ := hbuilt
      have hcount := hbuilt.count
      have hborn : s.worker i ≠ .unborn := fun e => by have := (hbuilt.born i).1 e; omega
      have hdown : s.pool.shutdown ≠ .running := h.callers c (by rw [hpc]; trivial)
      by_cases hexited : s.worker i = .exited
      · have hjoin : s.pthreadJoin c true = some (s.setCaller c (.joining (i + 1) err)) := by
          simp [CPool.pthreadJoin, hpc, hi, hexited, ThreadPc.isExited]
        exact ⟨.pthreadJoin c true, _, rfl, by simp only [CPool.step, hlive]; exact hjoin⟩
      · rcases h.down hdown with ⟨d, hd⟩ | hnone
        · exact absurd (show s.Inside (.caller d) by simp only [Inside, hd]; trivial) (hout (.caller d))
        · exact canMove_worker hfree (hout (.worker i)) hborn (hnone i) hexited
    · refine canMove_caller (c := c) hlive ?_
      simp only [CPool.callerStep, hpc, if_neg hi]
      split <;> simp

/-- **The pool never stalls** until it is freed, when no `threadpool_destroy` finds it shutting down:
during `threadpool_create`, during every call, and with a task in the queue that is still to be run,
some thread has a step. -/
theorem cPool_neverStalls {threadNum queueSize : Int} {s : CPool Task}
    (h : (cPool Task threadNum queueSize).Reach FirstDestroy s) (hlive : s.freed = false)
    (hwork : (s.creator ≠ .created ∧ s.creator ≠ .failed) ∨ (∃ c, ∀ ret, s.caller c ≠ .returned ret) ∨
      (s.creator = .created ∧ 0 < s.pool.pendingTaskCount ∧ s.pool.shutdown ≠ .immediate)) :
    s.CanMove threadNum.toNat := by
  obtain ⟨hwake, hlife, hn⟩ := WakeOk.reach (h.mono fun _ _ _ => trivial)
  have hguards := guards_reach h
  by_cases hcreator : s.creator ≠ .created ∧ s.creator ≠ .failed
  · exact canMove_creator hcreator.1 hcreator.2
  cases hlock : s.lock with
  | some t => exact canMove_inside hlive ((hguards t).2 hlock)
  | none =>
    have hout : ∀ t, ¬s.Inside t := fun t ht => by
      rw [hguards t, hlock] at ht
      cases ht
    rcases hwork with hbusy | ⟨c, hc⟩ | ⟨hcreated, hpending, hnow⟩
    · exact absurd hbusy hcreator
    · refine hwake.canMove_call ?_ hlive hlock hout hc
      unfold LifeOk at hlife
      cases hc : s.creator with
      | created | failed =>
        rw [hc] at hlife
        exact hlife
      | creating | counting | reading | writing => exact absurd (by simp [hc]) hcreator
    · exact hwake.canMove_pending hn hlock hout hcreated hpending hnow

theorem callAdd_neverStalls : ∃ s, (cPool Nat 1 1).Reach FirstDestroy s ∧
    s.caller 0 = .addLocking 10 ∧ s.CanMove 1 := by
  have hstart : (cPool Nat 1 1).Reach FirstDestroy
      (.start ⟨fun _ => none, 1, 1, 0, 0, 0, .running, 1⟩) := .init ⟨_, rfl, rfl⟩
  have hreach : (cPool Nat 1 1).Reach FirstDestroy _ :=
    Lts.reach_of_replay_ok (createOne ++ [.thread 0, .thread 0, .callAdd 0 (some 10)])
      (fun a ha s c e => absurd (e ▸ ha) (by simp [createOne])) hstart rfl
  exact ⟨_, hreach, rfl, cPool_neverStalls hreach rfl (Or.inr (Or.inl ⟨0, by rintro ret ⟨⟩⟩))⟩

end CPool

end HPServer
