import HighPerformanceServer.ThreadPoolQueue
/-!
# The limits of `ThreadPool::create`

`create` clamps by `std::min((int) n, limit)` (threadpool.cpp:224-225): the cast makes a request from
`2^31` on negative, and the minimum keeps it. Back in `uint32_t` and `size_t` it is far beyond the
limit. The queue is allocated with the request itself (:228).

| here | there |
| --- | --- |
| `requested`    | the default request (:219-223) |
| `threadTarget` | `thread_num` behind its clamp (:224) |
| `startThreads` | the loop around `pthread_create` (:234-240) |
| `createWith`   | `create` (:218-242); `none` is the `exit(1)` of a failed `new` |

`ThreadPool.create` is what a successful `createWith` leaves (`createWith_create`).
-/

namespace HPServer

open CppStd

variable {Task : Type}

namespace ThreadPool

/-- The members `create` writes, and how many objects `threads` and `queue` point to. -/
structure Created where
  threadCount : Nat
  activeThreadCount : Nat
  queueSize : Nat
  status : Status
  threadSlots : Nat
  queueSlots : Nat

def requested (threadNum queueCapacity : UInt32) : UInt32 × UInt32 :=
  if threadNum = 0 ∨ queueCapacity = 0 then (3, 3) else (threadNum, queueCapacity)

def threadTarget (threadNum : UInt32) : Nat := (clamp threadNum MAX_THREADS % 4294967296).toNat

/-- `left` rounds of the loop, from `i` on. The `int` `i` is compared as unsigned, and can reach
its end before `thread_num`. -/
def startThreads (pthreadCreate : Nat → Bool) : (left : Nat) → (i : Int) → (count : Nat) →
    Exec (Int × Nat)
  | 0, _, count => .ok (0, count)
  | left + 1, i, count =>
    if pthreadCreate i.toNat then do
      let i ← incr i
      startThreads pthreadCreate left i (count + 1)
    else .ok (-1, count)

/-- The members behind the loop, which has counted `count` threads. -/
def created (request : UInt32 × UInt32) (count : Nat) : Created where
  threadCount := count
  activeThreadCount := count
  queueSize := toSize (clamp request.2 MAX_QUEUE)
  status := .RUNNING
  threadSlots := threadTarget request.1
  queueSlots := request.2.toNat

def createWith (newOk : Bool) (pthreadCreate : Nat → Bool) (threadNum queueCapacity : UInt32) :
    Option (Exec (Int × Created)) :=
  let request := requested threadNum queueCapacity
  if newOk then some do
    let (ret, count) ← startThreads pthreadCreate (threadTarget request.1) 0 0
    return (ret, created request count)
  else none

/-- Every index modulo `queue_size` names an allocated slot. -/
structure Created.InLimits (c : Created) : Prop where
  threads : 1 ≤ c.threadCount ∧ (c.threadCount : Int) ≤ MAX_THREADS
  size : 1 ≤ c.queueSize ∧ (c.queueSize : Int) ≤ MAX_QUEUE
  allocated : c.queueSize ≤ c.queueSlots
  indices : ∀ n, n % c.queueSize < c.queueSlots

/-- `create` returns `0`, and what it has set up is within the limits. -/
def Clamped (outcome : Option (Exec (Int × Created))) : Prop :=
  ∃ c, outcome = some (.ok (0, c)) ∧ c.InLimits

/-! ## The casts -/

section Casts

variable {n : UInt32} {limit : Int}

theorem clamp_of_lt (h : n.toNat < 2147483648) : clamp n limit = min (n.toNat : Int) limit := by
  rw [clamp, sizeToInt_of_lt h]

/-- A request from `2^31` on is below every limit. -/
theorem clamp_of_ge (h : 2147483648 ≤ n.toNat) (hlimit : 0 ≤ limit) :
    clamp n limit = n.toNat - 4294967296 := by
  have hlt : n.toNat < 4294967296 := n.toNat_lt
  have hneg : sizeToInt n.toNat = n.toNat - 4294967296 := by
    unfold sizeToInt
    rw [Int.bmod_def]
    omega
  rw [clamp, hneg]
  omega

theorem threadTarget_of_lt (hn : n ≠ 0) (h : n.toNat < 2147483648) :
    1 ≤ threadTarget n ∧ (threadTarget n : Int) ≤ MAX_THREADS := by
  have hpos : n.toNat ≠ 0 := fun e => hn (UInt32.toNat_inj.1 e)
  unfold threadTarget MAX_THREADS
  rw [clamp_of_lt h]
  omega

theorem threadTarget_of_ge (h : 2147483648 ≤ n.toNat) : threadTarget n = n.toNat := by
  have hlt : n.toNat < 4294967296 := n.toNat_lt
  unfold threadTarget
  rw [clamp_of_ge h (by decide)]
  omega

theorem queueSize_of_lt (hn : n ≠ 0) (h : n.toNat < 2147483648) :
    1 ≤ toSize (clamp n MAX_QUEUE) ∧ (toSize (clamp n MAX_QUEUE) : Int) ≤ MAX_QUEUE ∧
      toSize (clamp n MAX_QUEUE) ≤ n.toNat := by
  have hpos : n.toNat ≠ 0 := fun e => hn (UInt32.toNat_inj.1 e)
  rw [clamp_of_lt h]
  unfold toSize MAX_QUEUE
  omega

theorem queueSize_of_ge (h : 2147483648 ≤ n.toNat) : MAX_QUEUE < toSize (clamp n MAX_QUEUE) := by
  have hlt : n.toNat < 4294967296 := n.toNat_lt
  have hlarge : 18446744071562067968 ≤ toSize (clamp n MAX_QUEUE) := by
    rw [clamp_of_ge h (by decide)]
    exact toSize_of_neg (by omega) (by omega)
  unfold MAX_QUEUE at hlarge ⊢
  omega

end Casts

/-! ## The loop -/

section Loop

variable {pthreadCreate : Nat → Bool}

theorem startThreads_ok (h : ∀ i, pthreadCreate i = true) {left i : Nat} (count : Nat)
    (hi : i + left ≤ 2147483647) : startThreads pthreadCreate left i count = .ok (0, count + left) := by
  induction left generalizing i count with
  | zero => rfl
  | succ left ih =>
    rw [startThreads, if_pos (h _), incr_of_lt (by omega)]
    have hnext := ih (i := i + 1) (count + 1) (by omega)
    rw [Nat.add_right_comm, Nat.add_assoc] at hnext
    exact hnext

/-- The `i++` behind round `2^31 - 1`. -/
theorem startThreads_overflow (h : ∀ i, pthreadCreate i = true) {left i : Nat} (count : Nat)
    (hi : i ≤ 2147483647) (hlast : 2147483647 < i + left) :
    startThreads pthreadCreate left i count = .error .undefined := by
  induction left generalizing i count with
  | zero => omega
  | succ left ih =>
    rw [startThreads, if_pos (h _)]
    by_cases hmax : i = 2147483647
    · subst hmax
      rfl
    · rw [incr_of_lt (by omega)]
      exact ih (i := i + 1) (count + 1) (by omega) (by omega)

theorem startThreads_count {left : Nat} {i : Int} {count total : Nat}
    (h : startThreads pthreadCreate left i count = .ok (0, total)) : total = count + left := by
  induction left generalizing i count with
  | zero =>
    cases h
    rfl
  | succ left ih =>
    rw [startThreads] at h
    split at h
    · obtain ⟨i', -, h⟩ := bind_eq_ok.1 h
      have htotal := ih h
      omega
    · cases h

end Loop

/-! ## `create` -/

section Create

variable {newOk : Bool} {pthreadCreate : Nat → Bool} {threadNum queueCapacity : UInt32} {c : Created}

theorem createWith_ok_iff {ret : Int} :
    createWith newOk pthreadCreate threadNum queueCapacity = some (.ok (ret, c)) ↔
      newOk = true ∧ ∃ count, c = created (requested threadNum queueCapacity) count ∧
        startThreads pthreadCreate (threadTarget (requested threadNum queueCapacity).1) 0 0 =
          .ok (ret, count) := by
  cases newOk with
  | false => simp [createWith]
  | true =>
    rw [createWith, if_pos rfl, Option.some_inj, bind_eq_ok]
    constructor
    · rintro ⟨⟨ret', count⟩, hloop, hret⟩
      obtain ⟨rfl, rfl⟩ := Prod.mk.inj (Except.ok.inj hret)
      exact ⟨rfl, count, rfl, hloop⟩
    · rintro ⟨-, count, rfl, hloop⟩
      exact ⟨_, hloop, rfl⟩

/-- A `create` that returns `0` has started all its threads, and leaves the pool of
`ThreadPool.create`. -/
theorem createWith_create
    (h : createWith newOk pthreadCreate threadNum queueCapacity = some (.ok (0, c))) :
    (create threadNum queueCapacity : ThreadPool Task).threadCount = c.threadCount ∧
    (create threadNum queueCapacity : ThreadPool Task).queueSize = c.queueSize ∧
    (create threadNum queueCapacity : ThreadPool Task).status = c.status ∧
    c.threadCount = c.threadSlots := by
  obtain ⟨-, count, rfl, hloop⟩ := createWith_ok_iff.1 h
  rw [startThreads_count hloop, Nat.zero_add]
  exact ⟨rfl, rfl, rfl, rfl⟩

theorem requested_ne_zero (threadNum queueCapacity : UInt32) :
    (requested threadNum queueCapacity).1 ≠ 0 ∧ (requested threadNum queueCapacity).2 ≠ 0 := by
  unfold requested
  split
  · decide
  · rename_i hne
    exact not_or.1 hne

/-- What is asked for fits into an `int`, when the default replaces what is not asked for. -/
theorem requested_lt_iff (threadNum queueCapacity : UInt32) :
    ((requested threadNum queueCapacity).1.toNat < 2147483648 ∧
      (requested threadNum queueCapacity).2.toNat < 2147483648) ↔
    threadNum = 0 ∨ queueCapacity = 0 ∨
      (threadNum.toNat < 2147483648 ∧ queueCapacity.toNat < 2147483648) := by
  unfold requested
  split
  · rename_i hzero
    exact iff_of_true (by decide) (hzero.imp id Or.inl)
  · rename_i hne
    rw [not_or] at hne
    constructor
    · exact fun h => Or.inr (Or.inr h)
    · rintro (h | h | h)
      · exact absurd h hne.1
      · exact absurd h hne.2
      · exact h

/-- **Bug** (threadpool.cpp:224-225). `create` keeps its limits exactly when both requests fit into
the `int` they are cast to, or one is `0` and the defaults are taken. -/
theorem create_clamped_iff (threadNum queueCapacity : UInt32)
    (hcreate : ∀ i, pthreadCreate i = true) :
    Clamped (createWith true pthreadCreate threadNum queueCapacity) ↔
      threadNum = 0 ∨ queueCapacity = 0 ∨
        (threadNum.toNat < 2147483648 ∧ queueCapacity.toNat < 2147483648) := by
  rw [← requested_lt_iff]
  obtain ⟨hthread, hqueue⟩ := requested_ne_zero threadNum queueCapacity
  constructor
  · rintro ⟨c, hc, hlimits⟩
    obtain ⟨-, count, rfl, hloop⟩ := createWith_ok_iff.1 hc
    constructor
    · by_contra hlarge
      rw [threadTarget_of_ge (by omega)] at hloop
      have hover := startThreads_overflow hcreate (i := 0) 0 (by omega)
        (show _ < 0 + (requested threadNum queueCapacity).1.toNat by omega)
      rw [Int.natCast_zero, hloop] at hover
      cases hover
    · by_contra hlarge
      have hover := queueSize_of_ge (Nat.le_of_not_lt hlarge)
      have hsize := hlimits.size.2
      dsimp only [created] at hsize
      omega
  · rintro ⟨hthreads, hslots⟩
    obtain ⟨hone, hmax⟩ := threadTarget_of_lt hthread hthreads
    obtain ⟨hpos, hlimit, halloc⟩ := queueSize_of_lt hqueue hslots
    have hrounds : 0 + threadTarget (requested threadNum queueCapacity).1 ≤ 2147483647 := by
      unfold MAX_THREADS at hmax
      omega
    have hloop := startThreads_ok hcreate (i := 0) 0 hrounds
    rw [Nat.zero_add, Int.natCast_zero] at hloop
    refine ⟨created _ _, createWith_ok_iff.2 ⟨rfl, _, rfl, hloop⟩, ?_⟩
    constructor <;> dsimp only [created]
    · exact ⟨hone, hmax⟩
    · exact ⟨hpos, hlimit⟩
    · exact halloc
    · exact fun n => Nat.lt_of_lt_of_le (Nat.mod_lt n hpos) halloc

theorem create_three_clamped : Clamped (createWith true (fun _ => true) 3 70000) :=
  (create_clamped_iff 3 70000 fun _ => rfl).2 (Or.inr (Or.inr (by decide)))

/-- One thread and `2^31` slots: `queue_size` becomes `2^64 - 2^31`. -/
theorem twoGigaSlots_not_clamped :
    ¬ ∀ (threadNum queueCapacity : UInt32) (pthreadCreate : Nat → Bool),
      (∀ i, pthreadCreate i = true) →
      Clamped (createWith true pthreadCreate threadNum queueCapacity) := by
  intro h
  obtain ⟨c, hc, hlimits⟩ := h 1 2147483648 (fun _ => true) fun _ => rfl
  obtain ⟨-, count, rfl, -⟩ := createWith_ok_iff.1 hc
  have hrequest : requested 1 2147483648 = (1, 2147483648) := by decide
  have hover := queueSize_of_ge (n := 2147483648) (by decide)
  have hlimit := hlimits.size.2
  rw [hrequest] at hlimit
  dsimp only [created] at hlimit
  omega

end Create

end ThreadPool

/-! ## The indices of a run -/

namespace PoolSys

variable {s s' : PoolSys Task} {n producers : Nat}

/-- `queue_front` and `queue_rear` are residues modulo `queue_size`, whatever the threads do. -/
structure Indexed (n : Nat) (s : PoolSys Task) : Prop where
  size : s.pool.queueSize = n
  front : s.pool.queueFront < n
  rear : s.pool.queueRear < n

theorem Indexed.step {a : PoolMove Task} (h : Indexed n s) (hs : s.step producers a = some s') :
    Indexed n s' := by
  have hpos : 0 < n := Nat.lt_of_le_of_lt (Nat.zero_le _) h.front
  cases step_effect hs with
  | producer => exact ⟨h.size, h.front, h.rear⟩
  | worker => exact ⟨h.size, h.front, h.rear⟩
  | store p task =>
    refine ⟨h.size, h.front, ?_⟩
    dsimp only [ThreadPool.store]
    rw [h.size]
    exact Nat.mod_lt _ hpos
  | dequeue w =>
    refine ⟨h.size, ?_, h.rear⟩
    dsimp only [ThreadPool.dequeue]
    rw [h.size]
    exact Nat.mod_lt _ hpos
  | destructor hs =>
    obtain ⟨-, -, rfl⟩ | ⟨-, -, rfl⟩ | ⟨_, _, -, -, -, rfl⟩ := destructorStep_cases hs <;>
      exact ⟨h.size, h.front, h.rear⟩

/-- `add` and `do_thread` stay inside the array of a pool within the limits. -/
theorem indices_allocated {threadNum queueCapacity : UInt32} {newOk : Bool} {pthreadCreate : Nat → Bool}
    {c : ThreadPool.Created}
    (hcreate : ThreadPool.createWith newOk pthreadCreate threadNum queueCapacity = some (.ok (0, c)))
    (hlimits : c.InLimits) (h : (threadPool Task threadNum queueCapacity producers).Reachable s) :
    s.pool.queueFront < c.queueSlots ∧ s.pool.queueRear < c.queueSlots := by
  have hsize : (ThreadPool.create threadNum queueCapacity : ThreadPool Task).queueSize = c.queueSize :=
    (ThreadPool.createWith_create hcreate).2.1
  have hindexed : Indexed c.queueSize s := by
    apply h.invariant
    · rintro s rfl
      have hpos : 0 < c.queueSize := hlimits.size.1
      exact ⟨hsize, hpos, hpos⟩
    · intro s a s' hs _ hstep
      exact hs.step hstep
  have halloc := hlimits.allocated
  exact ⟨Nat.lt_of_lt_of_le hindexed.front halloc, Nat.lt_of_lt_of_le hindexed.rear halloc⟩

end PoolSys

end HPServer
