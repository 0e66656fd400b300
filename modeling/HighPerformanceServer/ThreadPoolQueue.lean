import HighPerformanceServer.ThreadPool
/-!
# The queue of the C++ thread pool

`QueueOk`: the ring is in shape, what was taken out and what is pending is what was stored, and a
thread about to store or to take out still finds what its test found. `add` tests for room with `if`
(threadpool.cpp:251), where `do_thread` tests with `while` (:273): only the return of its wait can
break `QueueOk`.
-/

namespace HPServer

open CppStd Monitor

variable {Task : Type}

/-! ## The ring -/

namespace ThreadPool

structure RingOk (pool : ThreadPool Task) : Prop where
  size : 0 < pool.queueSize
  front : pool.queueFront < pool.queueSize
  rear : pool.queueRear = (pool.queueFront + pool.waitingTaskNum) % pool.queueSize
  count : pool.waitingTaskNum ≤ pool.queueSize

variable {pool : ThreadPool Task}

theorem clamp_bounds {n : UInt32} {limit : Int} (hn : n ≠ 0) (hlimit : 0 < limit) :
    clamp n limit ≠ 0 ∧ -2147483648 ≤ clamp n limit ∧ clamp n limit ≤ limit := by
  have hpos : n.toNat ≠ 0 := fun h => hn (UInt32.toNat_inj.1 h)
  have hlt : n.toNat < 4294967296 := n.toNat_lt
  unfold clamp sizeToInt
  rw [Int.bmod_def]
  omega

theorem toSize_pos {x : Int} (hx : x ≠ 0) (hlo : -2147483648 ≤ x) (hhi : x ≤ MAX_QUEUE) :
    0 < toSize x := by
  unfold toSize
  unfold MAX_QUEUE at hhi
  omega

/-- `queue_size` is never 0; a `queue_capacity` from `2^31` on makes it huge. -/
theorem create_queueSize (threadNum queueCapacity : UInt32) :
    0 < (create threadNum queueCapacity : ThreadPool Task).queueSize := by
  have hclamp : ∀ n : UInt32, n ≠ 0 → 0 < toSize (clamp n MAX_QUEUE) := fun n hn => by
    obtain ⟨hne, hlo, hhi⟩ := clamp_bounds hn (show 0 < MAX_QUEUE by decide)
    exact toSize_pos hne hlo hhi
  unfold create
  by_cases hzero : threadNum = 0 ∨ queueCapacity = 0
  · simp only [if_pos hzero]
    exact hclamp 3 (by decide)
  · simp only [if_neg hzero]
    exact hclamp queueCapacity fun h => hzero (Or.inr h)

theorem RingOk.create (threadNum queueCapacity : UInt32) :
    (create threadNum queueCapacity : ThreadPool Task).RingOk where
  size := create_queueSize threadNum queueCapacity
  front := create_queueSize threadNum queueCapacity
  rear := (Nat.zero_mod _).symm
  count := Nat.zero_le _

theorem RingOk.store (h : pool.RingOk) (hroom : pool.waitingTaskNum < pool.queueSize) (task : Task) :
    (pool.store task).RingOk ∧ (pool.store task).pending = pool.pending ++ [some task] := by
  obtain ⟨hsize, hfront, hrear, -⟩ := h
  constructor
  · refine ⟨hsize, hfront, ?_, hroom⟩
    simp only [ThreadPool.store]
    rw [hrear, Nat.mod_add_mod, Nat.add_assoc]
  · simp only [pending, ThreadPool.store]
    rw [hrear, Ring.window_push hroom]

theorem RingOk.dequeue (h : pool.RingOk) (hpos : 0 < pool.waitingTaskNum) :
    pool.dequeue.RingOk ∧ pool.pending = pool.front :: pool.dequeue.pending := by
  obtain ⟨hsize, hfront, hrear, hcount⟩ := h
  obtain ⟨n, hn⟩ : ∃ n, pool.waitingTaskNum = n + 1 := ⟨pool.waitingTaskNum - 1, by omega⟩
  constructor
  · refine ⟨hsize, Nat.mod_lt _ hsize, ?_, ?_⟩
    · simp only [ThreadPool.dequeue]
      rw [hrear, Nat.mod_add_mod, hn]
      congr 1
      omega
    · simp only [ThreadPool.dequeue]
      omega
  · simp only [pending, ThreadPool.dequeue, hn]
    exact Ring.window_pop hfront

/-- No pending slot is the next one to be written. -/
theorem RingOk.rear_free (h : pool.RingOk) (hroom : pool.waitingTaskNum < pool.queueSize) :
    ∀ i < pool.waitingTaskNum, (pool.queueFront + i) % pool.queueSize ≠ pool.queueRear := by
  intro i hi
  rw [h.rear]
  exact Ring.slot_ne hi hroom

end ThreadPool

/-! ## What a thread in the critical section has found out -/

def AddPc.ok (pool : ThreadPool Task) : AddPc Task → Prop
  | .checking _ => pool.status = .SHUTDOWN ∨ pool.waitingTaskNum < pool.queueSize
  | .storing _ => pool.waitingTaskNum < pool.queueSize
  | _ => True

def DoThreadPc.ok (pool : ThreadPool Task) : DoThreadPc Task → Prop
  | .checking => pool.status = .SHUTDOWN ∨ 0 < pool.waitingTaskNum
  | .dequeuing => 0 < pool.waitingTaskNum
  | _ => True

section

variable {pool pool' : ThreadPool Task} {x y : AddPc Task} {z z' : DoThreadPc Task}

theorem AddPc.ok_outside (h : ¬x.inside) : x.ok pool := by
  cases x <;> first | exact trivial | exact absurd trivial h

theorem DoThreadPc.ok_outside (h : ¬z.inside) : z.ok pool := by
  cases z <;> first | exact trivial | exact absurd trivial h

end

namespace PoolSys

variable {s s' : PoolSys Task} {p w : Nat} {x : AddPc Task} {z : DoThreadPc Task}
  {lock : Option PoolThread}

def Inside (s : PoolSys Task) : PoolThread → Prop
  | .producer p => (s.producer p).inside
  | .worker w => (s.worker w).inside

theorem inside_setProducer (s : PoolSys Task) (p : Nat) (x : AddPc Task) (t : PoolThread)
    (ht : t ≠ .producer p) : (s.setProducer p x).Inside t ↔ s.Inside t := by
  cases t with
  | producer q =>
    have hq : q ≠ p := fun h => ht (by rw [h])
    simp [Inside, setProducer, Function.update_of_ne hq]
  | worker w => exact Iff.rfl

theorem inside_setWorker (s : PoolSys Task) (w : Nat) (z : DoThreadPc Task) (t : PoolThread)
    (ht : t ≠ .worker w) : (s.setWorker w z).Inside t ↔ s.Inside t := by
  cases t with
  | producer p => exact Iff.rfl
  | worker v =>
    have hv : v ≠ w := fun h => ht (by rw [h])
    simp [Inside, setWorker, Function.update_of_ne hv]

structure QueueOk (s : PoolSys Task) : Prop where
  ring : s.pool.RingOk
  fifo : s.dequeued ++ s.pool.pending = s.stored.map some
  lock : Guards s.lock s.Inside
  producers : ∀ p, (s.producer p).ok s.pool
  workers : ∀ w, (s.worker w).ok s.pool

/-- Whoever returns from a wait on `queue_has_spare` with the lock finds room, or a pool that is
shutting down. -/
def ResumesWithSpace (s : PoolSys Task) (a : PoolMove Task) : Prop :=
  ∀ p, a = .add p → ∀ task, s.producer p = .woken task → s.lock = none →
    s.pool.status = .SHUTDOWN ∨ s.pool.waitingTaskNum < s.pool.queueSize

namespace QueueOk

/-! ### Moves that leave the pool alone -/

theorem moveProducer (h : QueueOk s) (hx : x.ok s.pool)
    (hlock : LockMove s.lock lock (.producer p) (s.producer p).inside x.inside) :
    QueueOk ((s.withLock lock).setProducer p x) where
  ring := h.ring
  fifo := h.fifo
  lock := by
    apply h.lock.move ?_ (inside_setProducer (s.withLock lock) p x)
    simpa [Inside, setProducer, withLock] using hlock
  producers :=
    (Function.forall_update_iff _ fun _ (y : AddPc Task) => y.ok s.pool).2
      ⟨hx, fun q _ => h.producers q⟩
  workers := h.workers

theorem moveWorker (h : QueueOk s) (hz : z.ok s.pool)
    (hlock : LockMove s.lock lock (.worker w) (s.worker w).inside z.inside) :
    QueueOk ((s.withLock lock).setWorker w z) where
  ring := h.ring
  fifo := h.fifo
  lock := by
    apply h.lock.move ?_ (inside_setWorker (s.withLock lock) w z)
    simpa [Inside, setWorker, withLock] using hlock
  producers := h.producers
  workers :=
    (Function.forall_update_iff _ fun _ (y : DoThreadPc Task) => y.ok s.pool).2
      ⟨hz, fun v _ => h.workers v⟩

theorem localProducer (h : QueueOk s) (hx : x.ok s.pool) (hin : x.inside ↔ (s.producer p).inside) :
    QueueOk (s.setProducer p x) :=
  h.moveProducer hx (Or.inr (Or.inr ⟨rfl, hin⟩))

theorem acquireProducer (h : QueueOk s) (hx : x.ok s.pool) (hfree : s.lock = none) (hin : x.inside) :
    QueueOk ((s.withLock (some (.producer p))).setProducer p x) :=
  h.moveProducer hx (Or.inl ⟨hfree, rfl, hin⟩)

theorem releaseProducer (h : QueueOk s) (hin : (s.producer p).inside) (hout : ¬x.inside) :
    QueueOk ((s.withLock none).setProducer p x) :=
  h.moveProducer (AddPc.ok_outside hout) (Or.inr (Or.inl ⟨hin, hout, rfl⟩))

theorem localWorker (h : QueueOk s) (hz : z.ok s.pool) (hin : z.inside ↔ (s.worker w).inside) :
    QueueOk (s.setWorker w z) :=
  h.moveWorker hz (Or.inr (Or.inr ⟨rfl, hin⟩))

theorem acquireWorker (h : QueueOk s) (hz : z.ok s.pool) (hfree : s.lock = none) (hin : z.inside) :
    QueueOk ((s.withLock (some (.worker w))).setWorker w z) :=
  h.moveWorker hz (Or.inl ⟨hfree, rfl, hin⟩)

theorem releaseWorker (h : QueueOk s) (hin : (s.worker w).inside) (hout : ¬z.inside) :
    QueueOk ((s.withLock none).setWorker w z) :=
  h.moveWorker (DoThreadPc.ok_outside hout) (Or.inr (Or.inl ⟨hin, hout, rfl⟩))

/-! ### The steps -/

theorem start (threadNum queueCapacity : UInt32) :
    QueueOk (PoolSys.start (.create threadNum queueCapacity) : PoolSys Task) where
  ring := .create threadNum queueCapacity
  fifo := rfl
  lock := .free fun t => by cases t <;> exact id
  producers _ := trivial
  workers _ := trivial

theorem call {task : Option Task} (h : QueueOk s) (hs : s.call p task = some s') : QueueOk s' := by
  unfold PoolSys.call at hs
  split at hs
  · rename_i hp
    cases hs
    exact h.localProducer trivial (by rw [hp]; exact Iff.rfl)
  · rename_i hp
    cases hs
    exact h.localProducer trivial (by rw [hp]; exact Iff.rfl)
  · cases hs

/-- `hresume`: what the return of the wait needs. -/
theorem addStep (h : QueueOk s)
    (hresume : ∀ task, s.producer p = .woken task → s.lock = none →
      s.pool.status = .SHUTDOWN ∨ s.pool.waitingTaskNum < s.pool.queueSize)
    (hs : s.addStep p = some s') : QueueOk s' := by
  unfold PoolSys.addStep at hs
  split at hs <;> rename_i hp
  case h_1 task =>
    split at hs
    · rename_i hfree
      cases hs
      exact h.acquireProducer trivial hfree trivial
    · cases hs
  case h_2 task =>
    split at hs
    · cases hs
      exact h.localProducer trivial (by rw [hp]; exact Iff.rfl)
    · rename_i hroom
      cases hs
      refine h.localProducer ?_ (by rw [hp]; exact Iff.rfl)
      have hcount := h.ring.count
      cases hstatus : s.pool.status with
      | SHUTDOWN => exact Or.inl hstatus
      | RUNNING =>
        have hne : s.pool.queueSize ≠ s.pool.waitingTaskNum := fun e => hroom ⟨hstatus, e⟩
        exact Or.inr (by omega)
  case h_3 task =>
    cases hs
    exact h.releaseProducer (by rw [hp]; exact trivial) id
  case h_4 task =>
    split at hs
    · rename_i hfree
      cases hs
      exact h.acquireProducer (hresume task hp hfree) hfree trivial
    · cases hs
  case h_5 task =>
    split at hs
    · cases hs
      exact h.releaseProducer (by rw [hp]; exact trivial) id
    · rename_i hstatus
      cases hs
      have hok := h.producers p
      rw [hp] at hok
      exact h.localProducer (hok.resolve_left hstatus) (by rw [hp]; exact Iff.rfl)
  all_goals cases hs

theorem doThreadStep (h : QueueOk s) (hs : s.doThreadStep w = some s') : QueueOk s' := by
  unfold PoolSys.doThreadStep at hs
  split at hs <;> rename_i hw
  case h_1 | h_2 =>
    split at hs
    · rename_i hfree
      cases hs
      exact h.acquireWorker trivial hfree trivial
    · cases hs
  case h_3 =>
    split at hs
    · cases hs
      exact h.localWorker trivial (by rw [hw]; exact Iff.rfl)
    · rename_i htask
      cases hs
      refine h.localWorker ?_ (by rw [hw]; exact Iff.rfl)
      cases hstatus : s.pool.status with
      | SHUTDOWN => exact Or.inl hstatus
      | RUNNING => exact Or.inr (Nat.pos_of_ne_zero fun e => htask ⟨hstatus, e⟩)
  case h_4 =>
    cases hs
    exact h.releaseWorker (by rw [hw]; exact trivial) id
  case h_5 =>
    split at hs
    · cases hs
      exact h.releaseWorker (by rw [hw]; exact trivial) id
    · rename_i hstatus
      cases hs
      have hok := h.workers w
      rw [hw] at hok
      exact h.localWorker (hok.resolve_left hstatus) (by rw [hw]; exact Iff.rfl)
  case h_6 =>
    cases hs
    exact h.localWorker trivial (by rw [hw]; exact Iff.rfl)
  all_goals cases hs

/-- Waking does not bring a thread into the critical section. -/
theorem spuriousAdd (h : QueueOk s) (hs : s.spuriousAdd p = some s') : QueueOk s' := by
  obtain ⟨x, hx, rfl⟩ := Option.map_eq_some_iff.1 hs
  obtain ⟨task, hp, rfl⟩ := AddPc.wake_eq hx
  exact h.localProducer trivial (by rw [hp]; exact Iff.rfl)

theorem spuriousDoThread (h : QueueOk s) (hs : s.spuriousDoThread w = some s') : QueueOk s' := by
  obtain ⟨z, hz, rfl⟩ := Option.map_eq_some_iff.1 hs
  obtain ⟨hw, rfl⟩ := DoThreadPc.wake_eq hz
  exact h.localWorker trivial (by rw [hw]; exact Iff.rfl)

/-- With nobody in the critical section only the queue counts. -/
theorem ofOutside (hring : s.pool.RingOk) (hfifo : s.dequeued ++ s.pool.pending = s.stored.map some)
    (hlock : s.lock = none) (hout : ∀ t, ¬s.Inside t) : QueueOk s where
  ring := hring
  fifo := hfifo
  lock := by
    rw [hlock]
    exact .free hout
  producers p := AddPc.ok_outside (hout (.producer p))
  workers w := DoThreadPc.ok_outside (hout (.worker w))

theorem storeStep {notified : Option Nat} (h : QueueOk s)
    (hs : s.storeStep p notified = some s') : QueueOk s' := by
  obtain ⟨task, worker, hp, hsignal, rfl⟩ := storeStep_cases hs
  have hin : s.Inside (.producer p) := by
    simp only [Inside, hp]
    trivial
  have hroom := h.producers p
  rw [hp] at hroom
  obtain ⟨hring, hpending⟩ := h.ring.store hroom task
  refine ofOutside hring ?_ rfl ?_
  · rw [hpending, List.map_append, ← h.fifo, List.append_assoc]
    rfl
  · rintro (q | v)
    · by_cases hq : q = p
      · subst hq
        simp [Inside, AddPc.inside]
      · intro hin'
        have hin' : s.Inside (.producer q) := by
          simpa [Inside, Function.update_of_ne hq] using hin'
        exact hq (PoolThread.producer.inj (h.lock.exclusive hin' hin))
    · apply (signal_woken hsignal).forall (P := fun z => ¬z.inside)
      · intro z z' hz _
        obtain ⟨-, rfl⟩ := DoThreadPc.wake_eq hz
        exact id
      · intro v hin'
        have hin' : s.Inside (.worker v) := hin'
        cases h.lock.exclusive hin' hin

theorem dequeueStep {producers : Nat} {notified : Option Nat} (h : QueueOk s)
    (hs : s.dequeueStep producers w notified = some s') : QueueOk s' := by
  obtain ⟨producer, hw, hsignal, rfl⟩ := dequeueStep_cases hs
  have hin : s.Inside (.worker w) := by
    simp only [Inside, hw]
    trivial
  have hpos := h.workers w
  rw [hw] at hpos
  obtain ⟨hring, hpending⟩ := h.ring.dequeue hpos
  refine ofOutside hring ?_ rfl ?_
  · rw [← h.fifo, hpending, List.append_assoc]
    rfl
  · rintro (q | v)
    · apply (signal_woken hsignal).forall (P := fun x => ¬x.inside)
      · intro x y hx _
        obtain ⟨task, -, rfl⟩ := AddPc.wake_eq hx
        exact id
      · intro q hin'
        have hin' : s.Inside (.producer q) := hin'
        cases h.lock.exclusive hin' hin
    · by_cases hv : v = w
      · subst hv
        simp [Inside, DoThreadPc.inside]
      · intro hin'
        have hin' : s.Inside (.worker v) := by
          simpa [Inside, Function.update_of_ne hv] using hin'
        exact hv (PoolThread.worker.inj (h.lock.exclusive hin' hin))

/-- The status only turns to `SHUTDOWN`, and what a thread has found out never rests on `RUNNING`. -/
theorem shutdown {pool : ThreadPool Task} {d : DestructorPc}
    (hpool : pool = { s.pool with status := .SHUTDOWN }) (h : QueueOk s) :
    QueueOk { s with pool := pool, destructor := d } := by
  subst hpool
  refine ⟨⟨h.ring.size, h.ring.front, h.ring.rear, h.ring.count⟩, h.fifo, h.lock, ?_, ?_⟩
  · intro p
    have hok := h.producers p
    show AddPc.ok _ (s.producer p)
    cases hp : s.producer p with
    | checking => exact Or.inl rfl
    | storing => rwa [hp] at hok
    | _ => exact trivial
  · intro w
    have hok := h.workers w
    show DoThreadPc.ok _ (s.worker w)
    cases hw : s.worker w with
    | checking => exact Or.inl rfl
    | dequeuing => rwa [hw] at hok
    | _ => exact trivial

theorem destructorStep {a : PoolMove Task} (h : QueueOk s) (hs : s.destructorStep a = some s') :
    QueueOk s' := by
  obtain ⟨-, -, rfl⟩ | ⟨-, -, rfl⟩ | ⟨i, d, -, -, -, rfl⟩ := destructorStep_cases hs
  · exact h.shutdown rfl
  · have hwoken := broadcast_woken DoThreadPc.wake s.worker
    refine ⟨h.ring, h.fifo, h.lock.stay ?_, h.producers, ?_⟩
    · rintro (p | w)
      · exact Iff.rfl
      · rcases hwoken w with e | e
        · simp only [Inside, e]
        · obtain ⟨hw, hw'⟩ := DoThreadPc.wake_eq e
          simp only [Inside, hw, hw']
          exact Iff.rfl
    · apply hwoken.forall (P := fun z => z.ok s.pool)
      · intro z z' hz _
        obtain ⟨-, rfl⟩ := DoThreadPc.wake_eq hz
        exact trivial
      · exact h.workers
  · exact ⟨h.ring, h.fifo, h.lock, h.producers, h.workers⟩

theorem step {producers : Nat} {a : PoolMove Task} (h : QueueOk s) (hok : ResumesWithSpace s a)
    (hs : s.step producers a = some s') : QueueOk s' := by
  cases a with
  | call p task => exact h.call (Option.ite_none_right_eq_some.1 hs).2
  | add p => exact h.addStep (hok p rfl) hs
  | store p notified => exact h.storeStep hs
  | spuriousAdd p => exact h.spuriousAdd hs
  | doThread w => exact h.doThreadStep (Option.ite_none_right_eq_some.1 hs).2
  | dequeue w notified => exact h.dequeueStep hs
  | spuriousDoThread w => exact h.spuriousDoThread hs
  | shutdown => exact h.destructorStep (a := .shutdown) hs
  | notifyAll => exact h.destructorStep (a := .notifyAll) hs
  | join => exact h.destructorStep (a := .join) hs

theorem reach {threadNum queueCapacity : UInt32} {producers : Nat}
    (h : (threadPool Task threadNum queueCapacity producers).Reach ResumesWithSpace s) :
    QueueOk s := by
  apply h.invariant
  · rintro s rfl
    exact start threadNum queueCapacity
  · intro s a s' h hok hs
    exact h.step hok hs

end QueueOk

/-! ## One producer -/

/-- A notify that the one producer has not answered yet stands for a free slot. -/
structure OneProducer (s : PoolSys Task) : Prop where
  alone : Idle 1 s
  space : ∀ task, s.producer 0 = .woken task → s.pool.waitingTaskNum < s.pool.queueSize

namespace OneProducer

theorem only (h : OneProducer s) (hp : ∀ ret, s.producer p ≠ .returned ret) : p = 0 := by
  have hlt := h.alone.lt hp
  omega

theorem resumes (h : OneProducer s) (a : PoolMove Task) : ResumesWithSpace s a := by
  intro p _ task hp _
  obtain rfl := h.only fun ret hret => by rw [hp] at hret; cases hret
  exact Or.inr (h.space task hp)

/-- Only a dequeue wakes the producer, and it makes room. -/
theorem step {a : PoolMove Task} (h : OneProducer s) (hq : QueueOk s)
    (hok : ∀ p, a ≠ .spuriousAdd p) (hs : s.step 1 a = some s') : OneProducer s' := by
  refine ⟨h.alone.step hs, ?_⟩
  cases step_effect hs with
  | producer p lock x hmine hwakes =>
    have hlt : p < 1 := hmine.elim id h.alone.lt
    obtain rfl : p = 0 := by omega
    intro task hp'
    exact absurd (hwakes task (by simpa [setProducer] using hp')) (hok 0)
  | worker => exact h.space
  | store p task worker hp =>
    obtain rfl := h.only (p := p) (by simp [hp])
    intro task' hp'
    simp at hp'
  | dequeue w notified producer =>
    intro task _
    have hsize := hq.ring.size
    have hcount := hq.ring.count
    show s.pool.waitingTaskNum - 1 < s.pool.queueSize
    omega
  | destructor hs =>
    obtain ⟨-, -, rfl⟩ | ⟨-, -, rfl⟩ | ⟨_, _, -, -, -, rfl⟩ := destructorStep_cases hs <;> exact h.space

theorem reach {threadNum queueCapacity : UInt32}
    (h : (threadPool Task threadNum queueCapacity 1).Reach (fun _ a => ∀ p, a ≠ .spuriousAdd p) s) :
    (threadPool Task threadNum queueCapacity 1).Reach ResumesWithSpace s ∧ OneProducer s := by
  induction h with
  | init hinit =>
    refine ⟨.init hinit, ?_⟩
    obtain rfl := hinit
    exact ⟨.start 1 _, fun _ h => by cases h⟩
  | step _ hok hs ih =>
    obtain ⟨hreach, hone⟩ := ih
    exact ⟨.step hreach (hone.resumes _) hs, hone.step (.reach hreach) hok hs⟩

end OneProducer

/-- A producer that waits for a slot of a full queue, and the worker that frees one. -/
def waitForSlot : List (PoolMove Nat) :=
  [.call 0 (some 10), .add 0, .add 0, .add 0, .store 0 none,
   .call 0 (some 11), .add 0, .add 0, .add 0,
   .doThread 0, .doThread 0, .doThread 0, .dequeue 0 (some 0),
   .add 0, .add 0, .store 0 none]

theorem waitForSlot_notSpurious {s : PoolSys Nat}
    (h : (threadPool Nat 1 1 1).replay (.start (.create 1 1)) waitForSlot = some s) :
    (threadPool Nat 1 1 1).Reach (fun _ a => ∀ p, a ≠ .spuriousAdd p) s := by
  refine Lts.reach_of_replay_ok waitForSlot ?_ (.init rfl) h
  rintro a ha - p rfl
  simp [waitForSlot] at ha

/-! ## No overflow -/

/-- The queue holds what fits, and no producer is about to write a slot whose task nobody has taken
out. -/
def NoOverflow (s : PoolSys Task) : Prop :=
  s.pool.waitingTaskNum ≤ s.pool.queueSize ∧
  ∀ p task, s.producer p = .storing task → ∀ i < s.pool.waitingTaskNum,
    (s.pool.queueFront + i) % s.pool.queueSize ≠ s.pool.queueRear

theorem QueueOk.noOverflow (h : QueueOk s) : s.NoOverflow := by
  refine ⟨h.ring.count, fun p task hp => ?_⟩
  have hroom := h.producers p
  rw [hp] at hroom
  exact h.ring.rear_free hroom

/-- **The queue never overflows**, with any number of producers and workers, as long as every wait
on `queue_has_spare` returns to a queue with room. -/
theorem queue_noOverflow {threadNum queueCapacity : UInt32} {producers : Nat} {s : PoolSys Task}
    (h : (threadPool Task threadNum queueCapacity producers).Reach ResumesWithSpace s) :
    s.NoOverflow :=
  (QueueOk.reach h).noOverflow

theorem waitForSlot_noOverflow :
    ∃ s, (threadPool Nat 1 1 1).Reach ResumesWithSpace s ∧ s.stored = [10, 11] ∧ s.NoOverflow := by
  have hreach := (OneProducer.reach (waitForSlot_notSpurious rfl)).1
  exact ⟨_, hreach, rfl, queue_noOverflow hreach⟩

/-- A wait that returns to a full queue is followed by a store into the first pending slot. -/
theorem resumeFull_overflows {producers : Nat} {a : PoolMove Task} (h : QueueOk s)
    (hbad : ¬ResumesWithSpace s a) (hs : s.step producers a = some s') :
    ∃ s'', s'.step producers a = some s'' ∧ ¬s''.NoOverflow := by
  simp only [ResumesWithSpace, not_forall, not_or] at hbad
  obtain ⟨p, rfl, task, hp, hfree, hrunning, hfull⟩ := hbad
  have hs' : (s.withLock (some (.producer p))).setProducer p (.checking task) = s' := by
    simpa [PoolSys.step, addStep, hp, hfree] using hs
  subst hs'
  refine ⟨((s.withLock (some (.producer p))).setProducer p (.checking task)).setProducer p
    (.storing task), ?_, ?_⟩
  · simp [PoolSys.step, addStep, setProducer, withLock, hrunning]
  · rintro ⟨-, hfresh⟩
    have hsize := h.ring.size
    have hcount := h.ring.count
    have hnow : s.pool.waitingTaskNum = s.pool.queueSize := by omega
    apply hfresh p task (Function.update_self ..) 0 (show 0 < s.pool.waitingTaskNum by omega)
    show (s.pool.queueFront + 0) % s.pool.queueSize = s.pool.queueRear
    rw [h.ring.rear, hnow, Nat.add_mod_right, Nat.add_zero]

/-- Two producers and one worker around a queue of one slot: producer 1 fills the slot that producer
0 has been notified of. -/
def stolenSlot : List (PoolMove Nat) :=
  [.call 0 (some 10), .add 0, .add 0, .add 0, .store 0 none,
   .call 0 (some 11), .add 0, .add 0, .add 0,
   .doThread 0, .doThread 0, .doThread 0, .dequeue 0 (some 0),
   .call 1 (some 12), .add 1, .add 1, .add 1, .store 1 none,
   .add 0, .add 0, .store 0 none]

/-- **Bug** (threadpool.cpp:251): `add` does not test again behind its wait. -/
theorem stolenSlot_overflows :
    ¬∀ s, (threadPool Nat 1 1 2).Reachable s → s.NoOverflow := by
  intro h
  obtain ⟨s, hs⟩ : ∃ s, (threadPool Nat 1 1 2).replay (.start (.create 1 1)) stolenSlot = some s :=
    ⟨_, rfl⟩
  have hr := Lts.reach_of_replay stolenSlot (.init rfl) hs
  have hover := (h s hr).1
  cases hs
  revert hover
  decide

/-! ## In order, without loss -/

/-- **Tasks leave in the order they came**: with one producer, whose waits return only behind a
notify, what was taken out and what is pending is what `add` stored. -/
theorem queue_fifo {threadNum queueCapacity : UInt32} {s : PoolSys Task}
    (h : (threadPool Task threadNum queueCapacity 1).Reach (fun _ a => ∀ p, a ≠ .spuriousAdd p) s) :
    s.pool.queueFront < s.pool.queueSize ∧ s.pool.queueRear < s.pool.queueSize ∧
    s.pool.queueRear = (s.pool.queueFront + s.pool.waitingTaskNum) % s.pool.queueSize ∧
    s.dequeued ++ s.pool.pending = s.stored.map some ∧ s.dequeued <+: s.stored.map some := by
  obtain ⟨hring, hfifo, -⟩ := QueueOk.reach (OneProducer.reach h).1
  refine ⟨hring.front, ?_, hring.rear, hfifo, ⟨_, hfifo⟩⟩
  rw [hring.rear]
  exact Nat.mod_lt _ hring.size

theorem waitForSlot_fifo :
    ∃ s, (threadPool Nat 1 1 1).Reach (fun _ a => ∀ p, a ≠ .spuriousAdd p) s ∧
      s.stored = [10, 11] ∧ s.dequeued = [some 10] ∧ s.dequeued <+: s.stored.map some := by
  have hreach := waitForSlot_notSpurious rfl
  exact ⟨_, hreach, rfl, rfl, (queue_fifo hreach).2.2.2.2⟩

end PoolSys

end HPServer
