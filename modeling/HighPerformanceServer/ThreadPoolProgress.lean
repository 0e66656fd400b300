import HighPerformanceServer.Backing
import HighPerformanceServer.ThreadPoolQueue
/-!
# The C++ thread pool forgets nobody while it runs

`add` and `do_thread` wake one sleeper for each slot and each task (threadpool.cpp:262, :284), behind
a test made once (`add`) or again (`do_thread`). This is enough: tasks that nobody is coming for, and
free slots that nobody is coming for, never meet a thread that waits for one (`WakeOk`), so as long
as there is work some thread has a step (`pool_neverStalls`).
-/

namespace HPServer

open Function Monitor

variable {Task : Type}

/-- On the way to a slot. -/
def AddPc.heads : AddPc Task → Bool
  | .locking _ | .testing _ | .woken _ | .checking _ | .storing _ => true
  | .returned _ | .waiting _ | .asleep _ => false

/-- On the way to a task. -/
def DoThreadPc.heads : DoThreadPc Task → Bool
  | .locking | .testing | .woken | .checking | .dequeuing => true
  | .waiting | .asleep | .running _ | .exited => false

/-- A step that a thread in the pool takes on its own. -/
def PoolMove.isOwn : PoolMove Task → Bool
  | .add _ | .store _ _ | .doThread _ | .dequeue _ _ => true
  | .call _ _ | .spuriousAdd _ | .spuriousDoThread _ | .shutdown | .notifyAll | .join => false

namespace PoolSys

variable {s s' : PoolSys Task} {p w producers : Nat}

/-- A worker that waits for a task leaves no task to nobody, and neither does a producer that waits
for a slot. -/
structure NoneForgotten (producers : Nat) (s : PoolSys Task) : Prop where
  workers : Backed DoThreadPc.blocked DoThreadPc.heads s.pool.threadCount s.worker s.pool.waitingTaskNum
  producers : Backed AddPc.blocked AddPc.heads producers s.producer
    (s.pool.queueSize - s.pool.waitingTaskNum)

structure WakeOk (producers : Nat) (s : PoolSys Task) : Prop where
  idle : Idle producers s
  nonempty : 0 < s.pool.threadCount
  threads : ∀ w, s.pool.threadCount ≤ w → s.worker w = .locking
  down : s.destructor ≠ .notCalled → s.pool.status = .SHUTDOWN
  exited : s.pool.status = .RUNNING → ∀ w, s.worker w ≠ .exited
  backed : s.pool.status = .RUNNING → s.NoneForgotten producers

/-! ## What one thread does to the counts -/

/-- Where a step of `add` takes a producer: in a running pool it gets blocked only by a full queue,
and does not stop heading for its slot. -/
theorem addStep_heads (hs : s.addStep p = some s') :
    ∃ lock x, s' = (s.withLock lock).setProducer p x ∧ (∀ ret, s.producer p ≠ .returned ret) ∧
      (s.pool.status = .RUNNING → s.pool.queueSize - s.pool.waitingTaskNum = 0 ∨
        ((x.blocked → (s.producer p).blocked) ∧ ((s.producer p).heads).toNat ≤ x.heads.toNat)) := by
  unfold addStep at hs
  split at hs <;> rename_i hp <;> rw [hp]
  · split at hs <;> cases hs
    exact ⟨_, _, rfl, by simp, fun _ => Or.inr ⟨id, Nat.le_refl 1⟩⟩
  · split at hs
    · rename_i hfull
      cases hs
      exact ⟨s.lock, _, rfl, by simp, fun _ => Or.inl (by omega)⟩
    · cases hs
      exact ⟨s.lock, _, rfl, by simp, fun _ => Or.inr ⟨id, Nat.le_refl 1⟩⟩
  · cases hs
    exact ⟨_, _, rfl, by simp, fun _ => Or.inr ⟨fun _ => trivial, Nat.le_refl 0⟩⟩
  · split at hs <;> cases hs
    exact ⟨_, _, rfl, by simp, fun _ => Or.inr ⟨id, Nat.le_refl 1⟩⟩
  · split at hs
    · rename_i hdown
      cases hs
      exact ⟨_, _, rfl, by simp, fun hrun => by cases hdown.symm.trans hrun⟩
    · cases hs
      exact ⟨s.lock, _, rfl, by simp, fun _ => Or.inr ⟨id, Nat.le_refl 1⟩⟩
  all_goals cases hs

theorem doThreadStep_heads (hs : s.doThreadStep w = some s') :
    ∃ lock z, s' = (s.withLock lock).setWorker w z ∧
      (s.pool.status = .RUNNING → z ≠ .exited ∧ (s.pool.waitingTaskNum = 0 ∨
        ((z.blocked → (s.worker w).blocked) ∧ ((s.worker w).heads).toNat ≤ z.heads.toNat))) := by
  unfold doThreadStep at hs
  split at hs <;> rename_i hw <;> rw [hw]
  case h_1 | h_2 =>
    split at hs <;> cases hs
    exact ⟨_, _, rfl, fun _ => ⟨by simp, Or.inr ⟨id, Nat.le_refl 1⟩⟩⟩
  case h_3 =>
    split at hs
    · rename_i hempty
      cases hs
      exact ⟨s.lock, _, rfl, fun _ => ⟨by simp, Or.inl hempty.2⟩⟩
    · cases hs
      exact ⟨s.lock, _, rfl, fun _ => ⟨by simp, Or.inr ⟨id, Nat.le_refl 1⟩⟩⟩
  case h_4 =>
    cases hs
    exact ⟨_, _, rfl, fun _ => ⟨by simp, Or.inr ⟨fun _ => trivial, Nat.le_refl 0⟩⟩⟩
  case h_5 =>
    split at hs
    · rename_i hdown
      cases hs
      exact ⟨_, _, rfl, fun hrun => by cases hdown.symm.trans hrun⟩
    · cases hs
      exact ⟨s.lock, _, rfl, fun _ => ⟨by simp, Or.inr ⟨id, Nat.le_refl 1⟩⟩⟩
  case h_6 =>
    cases hs
    exact ⟨s.lock, _, rfl, fun _ => ⟨by simp, Or.inr ⟨fun h => h, Nat.zero_le 1⟩⟩⟩
  all_goals cases hs

/-- Nobody is on the way into a sleep while another thread is at its stores. -/
theorem QueueOk.worker_asleep (h : QueueOk s) {task : Task} (hp : s.producer p = .storing task) {v : Nat}
    (hv : (s.worker v).blocked) : (s.worker v).wake ≠ none := by
  cases hpc : s.worker v with
  | asleep => simp [DoThreadPc.wake]
  | waiting =>
    have hin : s.Inside (.worker v) := by simp [Inside, hpc, DoThreadPc.inside]
    have hother : s.Inside (.producer p) := by simp [Inside, hp, AddPc.inside]
    cases h.lock.exclusive hin hother
  | locking | testing | woken | checking | dequeuing | running task | exited =>
    rw [hpc] at hv
    exact hv.elim

theorem QueueOk.producer_asleep (h : QueueOk s) (hw : s.worker w = .dequeuing) {q : Nat}
    (hq : (s.producer q).blocked) : (s.producer q).wake ≠ none := by
  cases hpc : s.producer q with
  | asleep task => simp [AddPc.wake]
  | waiting task =>
    have hin : s.Inside (.producer q) := by simp [Inside, hpc, AddPc.inside]
    have hother : s.Inside (.worker w) := by simp [Inside, hw, DoThreadPc.inside]
    cases h.lock.exclusive hin hother
  | returned | locking | testing | woken | checking | storing =>
    rw [hpc] at hq
    exact hq.elim

theorem DoThreadPc.wake_heads (z z' : DoThreadPc Task) (h : z.wake = some z') :
    z.blocked ∧ z.heads = false ∧ z'.heads = true ∧ ¬z'.blocked := by
  obtain ⟨rfl, rfl⟩ := DoThreadPc.wake_eq h
  exact ⟨trivial, rfl, rfl, id⟩

theorem AddPc.wake_heads (x y : AddPc Task) (h : x.wake = some y) :
    x.blocked ∧ x.heads = false ∧ y.heads = true ∧ ¬y.blocked := by
  obtain ⟨task, rfl, rfl⟩ := AddPc.wake_eq h
  exact ⟨trivial, rfl, rfl, id⟩

/-! ## Every step -/

namespace WakeOk

theorem create_threadCount (threadNum queueCapacity : UInt32) :
    0 < (ThreadPool.create threadNum queueCapacity : ThreadPool Task).threadCount := by
  obtain ⟨n, hn, hcount⟩ : ∃ n : UInt32, n ≠ 0 ∧
      (ThreadPool.create threadNum queueCapacity : ThreadPool Task).threadCount =
        (ThreadPool.clamp n MAX_THREADS % 4294967296).toNat := by
    unfold ThreadPool.create
    by_cases hzero : threadNum = 0 ∨ queueCapacity = 0
    · exact ⟨3, by decide, by simp [hzero]⟩
    · exact ⟨threadNum, fun e => hzero (Or.inl e), by simp [hzero]⟩
  obtain ⟨hne, hlo, hhi⟩ := ThreadPool.clamp_bounds hn (by decide : (0 : Int) < MAX_THREADS)
  have hmax : MAX_THREADS = 1024 := rfl
  rw [hcount]
  omega

theorem start (threadNum queueCapacity : UInt32) :
    WakeOk producers (PoolSys.start (.create threadNum queueCapacity) : PoolSys Task) where
  idle := .start producers _
  nonempty := create_threadCount threadNum queueCapacity
  threads _ _ := rfl
  down h := absurd rfl h
  exited _ _ h := by cases h
  backed _ := ⟨by rintro ⟨w, h⟩; exact h.elim, by rintro ⟨p, h⟩; exact h.elim⟩

/-- A producer moves, and the pool stays as it is. -/
theorem moveProducer (h : WakeOk producers s) {a : PoolMove Task} {lock : Option PoolThread} {x : AddPc Task}
    (hs : s.step producers a = some ((s.withLock lock).setProducer p x)) (hp : p < producers)
    (hx : s.pool.status = .RUNNING → s.pool.queueSize - s.pool.waitingTaskNum = 0 ∨
      ((x.blocked → (s.producer p).blocked) ∧ ((s.producer p).heads).toNat ≤ x.heads.toNat)) :
    WakeOk producers ((s.withLock lock).setProducer p x) where
  idle := h.idle.step hs
  nonempty := h.nonempty
  threads := h.threads
  down := h.down
  exited := h.exited
  backed hrun := ⟨(h.backed hrun).workers, (h.backed hrun).producers.move hp
    ((hx hrun).imp_right fun ⟨hblocked, hheads⟩ => ⟨hblocked, Nat.add_le_add_left hheads _⟩)⟩

theorem moveWorker (h : WakeOk producers s) {lock : Option PoolThread} {z : DoThreadPc Task}
    (hw : w < s.pool.threadCount)
    (hz : s.pool.status = .RUNNING → z ≠ .exited ∧ (s.pool.waitingTaskNum = 0 ∨
      ((z.blocked → (s.worker w).blocked) ∧ ((s.worker w).heads).toNat ≤ z.heads.toNat))) :
    WakeOk producers ((s.withLock lock).setWorker w z) where
  idle := h.idle
  nonempty := h.nonempty
  threads v hv := (update_of_ne (by have : s.pool.threadCount ≤ v := hv; omega) ..).trans (h.threads v hv)
  down := h.down
  exited hrun v hv := by
    have hv : update s.worker w z v = .exited := hv
    by_cases hvw : v = w
    · subst hvw
      rw [update_self] at hv
      exact (hz hrun).1 hv
    · rw [update_of_ne hvw] at hv
      exact h.exited hrun v hv
  backed hrun := ⟨(h.backed hrun).workers.move hw
    ((hz hrun).2.imp_right fun ⟨hblocked, hheads⟩ => ⟨hblocked, Nat.add_le_add_left hheads _⟩),
    (h.backed hrun).producers⟩

theorem worker_lt (h : WakeOk producers s) (hw : s.worker w ≠ .locking) : w < s.pool.threadCount := by
  by_contra hge
  exact hw (h.threads w (Nat.le_of_not_lt hge))

theorem storeStep (h : WakeOk producers s) (hq : QueueOk s) {notified : Option Nat}
    (hs : s.step producers (.store p notified) = some s') : WakeOk producers s' := by
  obtain ⟨task, worker, hp, hsignal, rfl⟩ := storeStep_cases hs
  have hwoken := signal_woken hsignal
  have hroom : s.pool.waitingTaskNum < s.pool.queueSize := by
    have hok := hq.producers p
    rwa [hp] at hok
  refine ⟨h.idle.step hs, h.nonempty, fun v hv => ?_, h.down, fun hrun v hv => ?_, fun hrun => ⟨?_, ?_⟩⟩
  · rcases hwoken v with e | e
    · exact e.trans (h.threads v hv)
    · rw [h.threads v hv] at e
      cases e
  · rcases hwoken v with e | e
    · exact h.exited hrun v (e.symm.trans hv)
    · obtain ⟨-, e⟩ := DoThreadPc.wake_eq e
      cases e.symm.trans hv
  · refine (h.backed hrun).workers.signal (fun v hv => ⟨h.worker_lt fun e => ?_, hq.worker_asleep hp hv⟩)
      DoThreadPc.wake_heads hsignal
    rw [e] at hv
    exact hv
  · have hlt := h.idle.lt (p := p) (by simp [hp])
    refine (h.backed hrun).producers.move hlt (Or.inr ⟨fun hx => hx.elim, ?_⟩)
    show s.pool.queueSize - (s.pool.waitingTaskNum + 1) + ((s.producer p).heads).toNat ≤ _
    simp only [hp, AddPc.heads, Bool.toNat_true, Bool.toNat_false]
    omega

theorem dequeueStep (h : WakeOk producers s) (hq : QueueOk s) {notified : Option Nat}
    (hs : s.step producers (.dequeue w notified) = some s') : WakeOk producers s' := by
  obtain ⟨producer, hw, hsignal, rfl⟩ := dequeueStep_cases hs
  have hpos : 0 < s.pool.waitingTaskNum := by
    have hok := hq.workers w
    rwa [hw] at hok
  have hcount := hq.ring.count
  have hlt := h.worker_lt (w := w) (by simp [hw])
  refine ⟨h.idle.step hs, h.nonempty, fun v hv => ?_, h.down, fun hrun v hv => ?_, fun hrun => ⟨?_, ?_⟩⟩
  · have hv : s.pool.threadCount ≤ v := hv
    exact (update_of_ne (by omega) ..).trans (h.threads v hv)
  · have hv : update s.worker w (.running s.pool.front) v = .exited := hv
    by_cases hvw : v = w
    · subst hvw
      rw [update_self] at hv
      cases hv
    · rw [update_of_ne hvw] at hv
      exact h.exited hrun v hv
  · refine (h.backed hrun).workers.move hlt (Or.inr ⟨fun hz => hz.elim, ?_⟩)
    show s.pool.waitingTaskNum - 1 + ((s.worker w).heads).toNat ≤ _
    simp only [hw, DoThreadPc.heads, Bool.toNat_true, Bool.toNat_false]
    omega
  · have hunits : s.pool.queueSize - (s.pool.waitingTaskNum - 1) =
        s.pool.queueSize - s.pool.waitingTaskNum + 1 := by omega
    show Backed AddPc.blocked AddPc.heads producers producer
      (s.pool.queueSize - (s.pool.waitingTaskNum - 1))
    rw [hunits]
    refine (h.backed hrun).producers.signal (fun q hq' => ⟨h.idle.lt fun ret hret => ?_,
      hq.producer_asleep hw hq'⟩) AddPc.wake_heads hsignal
    rw [hret] at hq'
    exact hq'

theorem destructorStep (h : WakeOk producers s) {a : PoolMove Task} (hs : s.step producers a = some s')
    (hd : s.destructorStep a = some s') : WakeOk producers s' := by
  have hidle := h.idle.step hs
  obtain ⟨-, -, rfl⟩ | ⟨-, hstored, rfl⟩ | ⟨_, _, -, hjoining, -, rfl⟩ := destructorStep_cases hd
  · exact ⟨hidle, h.nonempty, h.threads, fun _ => rfl, (by rintro ⟨⟩), (by rintro ⟨⟩)⟩
  · have hdown := h.down (by simp [hstored])
    refine ⟨hidle, h.nonempty, fun v hv => ?_, fun _ => hdown, fun hrun => ?_, fun hrun => ?_⟩
    · show broadcast DoThreadPc.wake s.worker v = .locking
      rw [broadcast, h.threads v hv]
      rfl
    · cases hdown.symm.trans hrun
    · cases hdown.symm.trans hrun
  · exact ⟨hidle, h.nonempty, h.threads, fun _ => h.down (by simp [hjoining]), h.exited,
      fun hrun => ⟨(h.backed hrun).workers, (h.backed hrun).producers⟩⟩

theorem step {a : PoolMove Task} (h : WakeOk producers s) (hq : QueueOk s)
    (hs : s.step producers a = some s') : WakeOk producers s' := by
  cases a with
  | call p task =>
    obtain ⟨hp, hcall⟩ := Option.ite_none_right_eq_some.1 hs
    unfold PoolSys.call at hcall
    split at hcall <;> rename_i hpc
    · cases hcall
      exact h.moveProducer hs hp fun _ => Or.inr ⟨fun hx => hx.elim, by simp [hpc, AddPc.heads]⟩
    · cases hcall
      exact h.moveProducer hs hp fun _ => Or.inr ⟨fun hx => hx.elim, by simp [hpc, AddPc.heads]⟩
    · cases hcall
  | add p =>
    obtain ⟨lock, x, rfl, hp, hx⟩ := addStep_heads hs
    exact h.moveProducer hs (h.idle.lt hp) hx
  | store p notified => exact h.storeStep hq hs
  | spuriousAdd p =>
    obtain ⟨x, hx, rfl⟩ := Option.map_eq_some_iff.1 hs
    obtain ⟨task, hpc, rfl⟩ := AddPc.wake_eq hx
    refine h.moveProducer hs (h.idle.lt (by simp [hpc])) fun _ =>
      Or.inr ⟨fun hx => hx.elim, ?_⟩
    simp [hpc, AddPc.heads]
  | doThread w =>
    obtain ⟨hw, hstep⟩ := Option.ite_none_right_eq_some.1 hs
    obtain ⟨lock, z, rfl, hz⟩ := doThreadStep_heads hstep
    exact h.moveWorker hw hz
  | dequeue w notified => exact h.dequeueStep hq hs
  | spuriousDoThread w =>
    obtain ⟨z, hz, rfl⟩ := Option.map_eq_some_iff.1 hs
    obtain ⟨hpc, rfl⟩ := DoThreadPc.wake_eq hz
    refine h.moveWorker (h.worker_lt (by simp [hpc])) fun _ => ⟨by simp, Or.inr ⟨fun hx => hx.elim, ?_⟩⟩
    simp [hpc, DoThreadPc.heads]
  | shutdown | notifyAll | join => exact h.destructorStep hs hs

theorem reach {threadNum queueCapacity : UInt32}
    (h : (threadPool Task threadNum queueCapacity producers).Reach ResumesWithSpace s) :
    WakeOk producers s ∧ QueueOk s := by
  apply h.invariant (P := fun s => WakeOk producers s ∧ QueueOk s)
  · rintro s rfl
    exact ⟨start threadNum queueCapacity, .start threadNum queueCapacity⟩
  · rintro s a s' ⟨hwake, hq⟩ hok hs
    exact ⟨hwake.step hq hs, hq.step hok hs⟩

end WakeOk

/-- **No wakeup is lost** while the pool runs, with any number of producers and workers, as long as
every wait on `queue_has_spare` returns to a queue with room. -/
theorem pool_noneForgotten {threadNum queueCapacity : UInt32}
    (h : (threadPool Task threadNum queueCapacity producers).Reach ResumesWithSpace s)
    (hrun : s.pool.status = .RUNNING) : s.NoneForgotten producers :=
  (WakeOk.reach h).1.backed hrun

theorem waitForSlot_noneForgotten :
    ∃ s, (threadPool Nat 1 1 1).Reach ResumesWithSpace s ∧ s.stored = [10, 11] ∧ s.NoneForgotten 1 := by
  have hreach := (OneProducer.reach (waitForSlot_notSpurious rfl)).1
  exact ⟨_, hreach, rfl, pool_noneForgotten hreach rfl⟩

/-! ## Somebody has a step -/

/-- A thread in the pool has a step of its own, and not into a full queue. -/
def CanMove (producers : Nat) (s : PoolSys Task) : Prop :=
  ∃ a s', a.isOwn = true ∧ s.step producers a = some s' ∧ s.ResumesWithSpace a

/-- Some thread has such a step though the tasks of the `busy` workers do not return. -/
def CanMoveBeside (busy : Nat → Prop) (producers : Nat) (s : PoolSys Task) : Prop :=
  ∃ a s', a.isOwn = true ∧ s.step producers a = some s' ∧ s.ResumesWithSpace a ∧
    ∀ w, busy w → a ≠ .doThread w

variable {busy : Nat → Prop}

theorem CanMoveBeside.canMove (h : s.CanMoveBeside busy producers) : s.CanMove producers := by
  obtain ⟨a, s', hown, hs, hroom, -⟩ := h
  exact ⟨a, s', hown, hs, hroom⟩

theorem canMove_add (hs : s.addStep p = some s')
    (hp : ∀ task, s.producer p = .woken task → s.pool.waitingTaskNum < s.pool.queueSize) :
    s.CanMoveBeside busy producers :=
  ⟨.add p, s', rfl, hs, by rintro q ⟨rfl⟩ task hq _; exact Or.inr (hp task hq), by rintro w - ⟨⟩⟩

theorem canMove_doThread (hw : w < s.pool.threadCount) (hfree : ¬busy w)
    (hs : s.doThreadStep w = some s') : s.CanMoveBeside busy producers :=
  ⟨.doThread w, s', rfl, by rw [PoolSys.step, if_pos hw]; exact hs, by rintro q ⟨⟩,
    by rintro v hv ⟨⟩; exact hfree hv⟩

theorem exists_store {task : Task} (hp : s.producer p = .storing task) :
    ∃ who s', s.storeStep p who = some s' := by
  obtain ⟨who, worker, hsignal⟩ := exists_signal DoThreadPc.wake s.pool.threadCount s.worker
  unfold storeStep
  rw [hp]
  exact ⟨who, _, Option.bind_eq_some_iff.2 ⟨worker, hsignal, rfl⟩⟩

theorem exists_dequeue (producers : Nat) (hw : s.worker w = .dequeuing) :
    ∃ who s', s.dequeueStep producers w who = some s' := by
  obtain ⟨who, producer, hsignal⟩ := exists_signal AddPc.wake producers s.producer
  unfold dequeueStep
  rw [hw]
  exact ⟨who, _, Option.bind_eq_some_iff.2 ⟨producer, hsignal, rfl⟩⟩

/-- Whoever has the lock goes on. -/
theorem WakeOk.canMove_inside (h : WakeOk producers s)
    (hbusy : ∀ w, busy w → ∃ task, s.worker w = .running task) {t : PoolThread} (ht : s.Inside t) :
    s.CanMoveBeside busy producers := by
  cases t with
  | producer p =>
    have hin : (s.producer p).inside := ht
    cases hp : s.producer p with
    | testing task =>
      by_cases hfull : s.pool.status = .RUNNING ∧ s.pool.queueSize = s.pool.waitingTaskNum
      · exact canMove_add (by rw [addStep, hp]; exact if_pos hfull) (by simp [hp])
      · exact canMove_add (by rw [addStep, hp]; exact if_neg hfull) (by simp [hp])
    | waiting task => exact canMove_add (by rw [addStep, hp]) (by simp [hp])
    | checking task =>
      by_cases hdown : s.pool.status = .SHUTDOWN
      · exact canMove_add (by rw [addStep, hp]; exact if_pos hdown) (by simp [hp])
      · exact canMove_add (by rw [addStep, hp]; exact if_neg hdown) (by simp [hp])
    | storing task =>
      obtain ⟨who, s', hs⟩ := exists_store hp
      exact ⟨.store p who, s', rfl, hs, by rintro q ⟨⟩, by rintro w - ⟨⟩⟩
    | returned ret | locking task | asleep task | woken task =>
      rw [hp] at hin
      exact hin.elim
  | worker w =>
    have hin : (s.worker w).inside := ht
    have hlt : w < s.pool.threadCount := h.worker_lt fun e => by rw [e] at hin; exact hin
    have hfree : ¬busy w := fun hw => by
      obtain ⟨task, htask⟩ := hbusy w hw
      rw [htask] at hin
      exact hin
    cases hw : s.worker w with
    | testing =>
      by_cases hempty : s.pool.status = .RUNNING ∧ s.pool.waitingTaskNum = 0
      · exact canMove_doThread hlt hfree (by rw [doThreadStep, hw]; exact if_pos hempty)
      · exact canMove_doThread hlt hfree (by rw [doThreadStep, hw]; exact if_neg hempty)
    | waiting => exact canMove_doThread hlt hfree (by rw [doThreadStep, hw])
    | checking =>
      by_cases hdown : s.pool.status = .SHUTDOWN
      · exact canMove_doThread hlt hfree (by rw [doThreadStep, hw]; exact if_pos hdown)
      · exact canMove_doThread hlt hfree (by rw [doThreadStep, hw]; exact if_neg hdown)
    | dequeuing =>
      obtain ⟨who, s', hs⟩ := exists_dequeue producers hw
      exact ⟨.dequeue w who, s', rfl, hs, by rintro q ⟨⟩, by rintro v - ⟨⟩⟩
    | locking | asleep | woken | running task | exited =>
      rw [hw] at hin
      exact hin.elim

/-- With the lock free, a worker that is not asleep goes on. -/
theorem WakeOk.canMove_awake (h : WakeOk producers s) (hrun : s.pool.status = .RUNNING)
    (hlock : s.lock = none) (hout : ¬(s.worker w).inside) (hlt : w < s.pool.threadCount) (hfree : ¬busy w)
    (hw : s.worker w ≠ .asleep) : s.CanMoveBeside busy producers := by
  cases hpc : s.worker w with
  | locking => exact canMove_doThread hlt hfree (by rw [doThreadStep, hpc]; exact if_pos hlock)
  | woken => exact canMove_doThread hlt hfree (by rw [doThreadStep, hpc]; exact if_pos hlock)
  | running task => exact canMove_doThread hlt hfree (by rw [doThreadStep, hpc])
  | asleep => exact absurd hpc hw
  | exited => exact absurd hpc (h.exited hrun w)
  | testing | waiting | checking | dequeuing =>
    rw [hpc] at hout
    exact absurd trivial hout

/-- With the lock free, a task in the queue and a worker that is not busy, some such worker is not
asleep. -/
theorem WakeOk.canMove_worker (h : WakeOk producers s) (hrun : s.pool.status = .RUNNING)
    (hbusy : ∀ w, busy w → ∃ task, s.worker w = .running task) (hlock : s.lock = none)
    (hout : ∀ w, ¬(s.worker w).inside) (htask : 0 < s.pool.waitingTaskNum) (hw : w < s.pool.threadCount)
    (hfree : ¬busy w) : s.CanMoveBeside busy producers := by
  by_cases hasleep : s.worker w = .asleep
  · have hblocked : (s.worker w).blocked := by rw [hasleep]; trivial
    obtain ⟨v, hlt, hheads⟩ := (h.backed hrun).workers.exists_heads hblocked htask
    have hfree : ¬busy v := fun hv => by
      obtain ⟨task, e⟩ := hbusy v hv
      rw [e] at hheads
      cases hheads
    exact h.canMove_awake hrun hlock (hout v) hlt hfree (by rintro e; rw [e] at hheads; cases hheads)
  · exact h.canMove_awake hrun hlock (hout w) hw hfree hasleep

/-- With the lock free and a slot in the queue, so does some producer that is in a call. -/
theorem WakeOk.canMove_producer (h : WakeOk producers s) (hrun : s.pool.status = .RUNNING)
    (hfree : s.lock = none) (hout : ∀ p, ¬(s.producer p).inside)
    (hroom : s.pool.waitingTaskNum < s.pool.queueSize) (hp : ∀ ret, s.producer p ≠ .returned ret) :
    s.CanMoveBeside busy producers := by
  have hlocks : ∀ p, (s.producer p).heads = true → s.CanMoveBeside busy producers := by
    intro p hheads
    have hin := hout p
    cases hp : s.producer p with
    | locking task => exact canMove_add (by rw [addStep, hp]; exact if_pos hfree) fun _ _ => hroom
    | woken task => exact canMove_add (by rw [addStep, hp]; exact if_pos hfree) fun _ _ => hroom
    | testing | checking | storing => rw [hp] at hin; exact absurd trivial hin
    | returned | waiting | asleep => rw [hp] at hheads; cases hheads
  cases hpc : s.producer p with
  | returned ret => exact absurd hpc (hp ret)
  | locking | woken | testing | checking | storing => exact hlocks p (by rw [hpc]; rfl)
  | waiting =>
    have hin := hout p
    rw [hpc] at hin
    exact absurd trivial hin
  | asleep task =>
    have hblocked : (s.producer p).blocked := by rw [hpc]; trivial
    obtain ⟨q, -, hheads⟩ := (h.backed hrun).producers.exists_heads hblocked (by omega)
    exact hlocks q hheads

/-- Whoever has the lock, somebody goes on with a task in the queue and a worker to take it, with a
producer in `add` and a free slot, or with a worker that is awake. -/
theorem WakeOk.canMoveBeside (h : WakeOk producers s) (hq : QueueOk s) (hrun : s.pool.status = .RUNNING)
    (hbusy : ∀ w, busy w → ∃ task, s.worker w = .running task)
    (hwork : (0 < s.pool.waitingTaskNum ∧ ∃ w < s.pool.threadCount, ¬busy w) ∨
      (s.pool.waitingTaskNum < s.pool.queueSize ∧ ∃ p, ∀ ret, s.producer p ≠ .returned ret) ∨
      ∃ w < s.pool.threadCount, ¬busy w ∧ s.worker w ≠ .asleep) : s.CanMoveBeside busy producers := by
  cases hlock : s.lock with
  | some t => exact h.canMove_inside hbusy ((hq.lock t).2 hlock)
  | none =>
    have hout : ∀ t, ¬s.Inside t := fun t ht => by
      rw [hq.lock t, hlock] at ht
      cases ht
    rcases hwork with ⟨htask, w, hw, hfree⟩ | ⟨hroom, p, hp⟩ | ⟨w, hw, hfree, hawake⟩
    · exact h.canMove_worker hrun hbusy hlock (fun w => hout (.worker w)) htask hw hfree
    · exact h.canMove_producer hrun hlock (fun p => hout (.producer p)) hroom hp
    · exact h.canMove_awake hrun hlock (hout (.worker w)) hw hfree hawake

/-- **The pool never stalls** while it runs: with a task in the queue or a producer in `add`, some
thread has a step that no other one has to wake it for. -/
theorem pool_neverStalls {threadNum queueCapacity : UInt32}
    (h : (threadPool Task threadNum queueCapacity producers).Reach ResumesWithSpace s)
    (hrun : s.pool.status = .RUNNING)
    (hwork : 0 < s.pool.waitingTaskNum ∨ ∃ p, ∀ ret, s.producer p ≠ .returned ret) :
    s.CanMove producers := by
  obtain ⟨hwake, hq⟩ := WakeOk.reach h
  have hnone : ∀ w, False → ∃ task, s.worker w = .running task := fun _ => False.elim
  refine (hwake.canMoveBeside hq hrun hnone ?_).canMove
  by_cases htask : 0 < s.pool.waitingTaskNum
  · exact Or.inl ⟨htask, 0, hwake.nonempty, not_false⟩
  · have hsize := hq.ring.size
    exact Or.inr (Or.inl ⟨by omega, hwork.resolve_left htask⟩)

theorem waitForSlot_neverStalls :
    ∃ s, (threadPool Nat 1 1 1).Reach ResumesWithSpace s ∧ s.worker 0 = .running (some 10) ∧ s.CanMove 1 := by
  have hreach := (OneProducer.reach (waitForSlot_notSpurious rfl)).1
  exact ⟨_, hreach, rfl, pool_neverStalls hreach rfl (Or.inl Nat.one_pos)⟩

end PoolSys

end HPServer
