import HighPerformanceServer.ThreadPool
/-!
# What `ThreadPool::add` tells its caller

`add` returns at one place (threadpool.cpp:264), behind the stores and behind the `break` of a pool
that is shutting down (:254-256) alike. So that a run can say what a call did, each producer carries
a record of its last call: the argument, and the pool before and after each of the call's own steps.

| here | there |
| --- | --- |
| `AddCall`    | one call of `add` (:244-265), by the steps it took itself |
| `addHistory` | `threadPool` from any state on, with the record of the calls made since |
-/

namespace HPServer

open Function Monitor

variable {Task : Type}

structure AddCall (Task : Type) where
  task : Option Task
  steps : List (ThreadPool Task × ThreadPool Task)

/-- No slot, `queue_rear` or `waiting_task_num` is written. -/
structure QueueKept (before after : ThreadPool Task) : Prop where
  queue : after.queue = before.queue
  rear : after.queueRear = before.queueRear
  count : after.waitingTaskNum = before.waitingTaskNum

/-- `task` goes into the slot at `queue_rear`, and is counted. -/
structure StoresTask (task : Task) (before after : ThreadPool Task) : Prop where
  queue : after.queue = update before.queue before.queueRear (some task)
  rear : after.queueRear = (before.queueRear + 1) % before.queueSize
  count : after.waitingTaskNum = before.waitingTaskNum + 1

namespace AddCall

variable {c : AddCall Task}

def Quiet (c : AddCall Task) : Prop := ∀ e ∈ c.steps, QueueKept e.1 e.2

/-- One step stored the argument, the others stored nothing. -/
def Stored (c : AddCall Task) : Prop :=
  ∃ task early before after late, c.task = some task ∧ c.steps = early ++ (before, after) :: late ∧
    StoresTask task before after ∧ (∀ e ∈ early, QueueKept e.1 e.2) ∧ ∀ e ∈ late, QueueKept e.1 e.2

theorem Quiet.not_stored (h : c.Quiet) : ¬ c.Stored := by
  rintro ⟨task, early, before, after, late, -, hsteps, hstores, -⟩
  have hkept : QueueKept before after := h (before, after) (by rw [hsteps]; simp)
  have hsame := hkept.count
  have hmore := hstores.count
  omega

/-- The record behind one more step. -/
def extend (c : AddCall Task) (before after : ThreadPool Task) : AddCall Task :=
  { c with steps := c.steps ++ [(before, after)] }

theorem Quiet.extend (h : c.Quiet) {before after : ThreadPool Task} (hstep : QueueKept before after) :
    (c.extend before after).Quiet := by
  intro e he
  rcases List.mem_append.1 he with he | he
  · exact h e he
  · rw [List.mem_singleton.1 he]
    exact hstep

theorem Quiet.extend_stored (h : c.Quiet) {task : Task} (htask : c.task = some task)
    {before after : ThreadPool Task} (hstep : StoresTask task before after) :
    (c.extend before after).Stored :=
  ⟨task, c.steps, before, after, [], htask, rfl, hstep, h, by simp⟩

end AddCall

theorem QueueKept.refl (pool : ThreadPool Task) : QueueKept pool pool := ⟨rfl, rfl, rfl⟩

theorem storesTask_store (pool : ThreadPool Task) (task : Task) :
    StoresTask task pool (pool.store task) := ⟨rfl, rfl, rfl⟩

/-- `calls p` is the last call of producer `p` that began in the run. -/
structure AddRecord (Task : Type) where
  sys : PoolSys Task
  calls : Nat → Option (AddCall Task)

namespace AddRecord

/-- Who of the producers a step belongs to, and what it adds to the record. -/
def note (calls : Nat → Option (AddCall Task)) (before after : ThreadPool Task) :
    PoolMove Task → Nat → Option (AddCall Task)
  | .call p task => update calls p (some ⟨task, [(before, after)]⟩)
  | .add p | .store p _ | .spuriousAdd p => update calls p ((calls p).map (·.extend before after))
  | .doThread _ | .dequeue _ _ | .spuriousDoThread _ | .shutdown | .notifyAll | .join => calls

def step (producers : Nat) (r : AddRecord Task) (a : PoolMove Task) : Option (AddRecord Task) :=
  (r.sys.step producers a).map fun sys => ⟨sys, note r.calls r.sys.pool sys.pool a⟩

/-- `0` is what a call returns that stored its task, and no other one. -/
def TellsTruth (r : AddRecord Task) : Prop :=
  ∀ p c ret, r.calls p = some c → r.sys.producer p = .returned (some ret) →
    (ret = 0 ↔ c.Stored) ∧ (ret ≠ 0 → c.Quiet)

/-- No `add` is at its status test when the pool is shutting down. -/
def OpenAtTest (r : AddRecord Task) (a : PoolMove Task) : Prop :=
  ∀ p, a = .add p → ∀ task, r.sys.producer p = .checking task → r.sys.pool.status ≠ .SHUTDOWN

end AddRecord

def addHistory (Task : Type) (producers : Nat) : Lts (AddRecord Task) (PoolMove Task) where
  init r := r.calls = fun _ => none
  step := AddRecord.step producers

/-! ## The record along a call -/

/-- The argument of the call a producer is in. -/
def AddPc.task : AddPc Task → Option Task
  | .returned _ => none
  | .locking task | .testing task | .waiting task | .asleep task | .woken task | .checking task
  | .storing task => some task

/-- What the record shows of a producer at `x`. -/
def AddPc.tells (c : AddCall Task) : AddPc Task → Prop
  | .returned ret => (ret = some 0 ∧ c.Stored) ∨ (ret ≠ some 0 ∧ c.Quiet)
  | .locking task | .testing task | .waiting task | .asleep task | .woken task | .checking task
  | .storing task => c.task = some task ∧ c.Quiet

theorem AddPc.tells_iff {c : AddCall Task} {x : AddPc Task} {task : Task} (h : x.task = some task) :
    x.tells c ↔ c.task = some task ∧ c.Quiet := by
  cases x <;> cases h <;> exact Iff.rfl

namespace PoolSys

variable {s s' : PoolSys Task} {p w : Nat}

theorem call_own {task : Option Task} (hs : s.call p task = some s') :
    s'.pool = s.pool ∧
      s'.producer = update s.producer p (task.elim (.returned (some (-1))) .locking) := by
  unfold call at hs
  split at hs <;> cases hs <;> exact ⟨rfl, rfl⟩

/-- A step of `add` keeps its argument; the one that returns has found the pool shutting down. -/
theorem addStep_own (hs : s.addStep p = some s') :
    s'.pool = s.pool ∧ ∃ task x, (s.producer p).task = some task ∧ s'.producer = update s.producer p x ∧
      (x.task = some task ∨ (s.producer p = .checking task ∧ s.pool.status = .SHUTDOWN)) := by
  unfold addStep at hs
  split at hs <;> rename_i hp
  case h_1 task | h_4 task =>
    split at hs <;> cases hs
    exact ⟨rfl, task, _, by rw [hp]; rfl, rfl, Or.inl rfl⟩
  case h_2 task =>
    split at hs <;> cases hs
    · exact ⟨rfl, task, _, by rw [hp]; rfl, rfl, Or.inl rfl⟩
    · exact ⟨rfl, task, _, by rw [hp]; rfl, rfl, Or.inl rfl⟩
  case h_3 task =>
    cases hs
    exact ⟨rfl, task, _, by rw [hp]; rfl, rfl, Or.inl rfl⟩
  case h_5 task =>
    split at hs
    · rename_i hdown
      cases hs
      exact ⟨rfl, task, _, by rw [hp]; rfl, rfl, Or.inr ⟨hp, hdown⟩⟩
    · cases hs
      exact ⟨rfl, task, _, by rw [hp]; rfl, rfl, Or.inl rfl⟩
  all_goals cases hs

/-- A worker wakes no producer before its stores. -/
theorem doThreadStep_producer (hs : s.doThreadStep w = some s') : s'.producer = s.producer := by
  unfold doThreadStep at hs
  split at hs
  case h_1 | h_2 => split at hs <;> cases hs; rfl
  case h_3 => split at hs <;> cases hs <;> rfl
  case h_4 => cases hs; rfl
  case h_5 => split at hs <;> cases hs <;> rfl
  case h_6 => cases hs; rfl
  all_goals cases hs

/-- Nor does the destructor wake a producer. -/
theorem destructorStep_woken {a : PoolMove Task} (hs : s.destructorStep a = some s') :
    Woken AddPc.wake s.producer s'.producer := by
  intro p
  obtain ⟨-, -, rfl⟩ | ⟨-, -, rfl⟩ | ⟨_, _, -, -, -, rfl⟩ := destructorStep_cases hs
  all_goals exact Or.inl rfl

end PoolSys

namespace AddRecord

variable {r r' : AddRecord Task} {p producers : Nat}

def Tracked (r : AddRecord Task) : Prop :=
  ∀ p c, r.calls p = some c → (r.sys.producer p).tells c

/-- A step of producer `p` leaves the others and their records alone. -/
theorem Tracked.own {sys : PoolSys Task} {call : Option (AddCall Task)} {x : AddPc Task}
    (h : r.Tracked) (hproducer : sys.producer = update r.sys.producer p x)
    (hx : ∀ c, call = some c → x.tells c) : Tracked ⟨sys, update r.calls p call⟩ := by
  intro q c hc
  dsimp only at hc ⊢
  rw [hproducer]
  by_cases hq : q = p
  · subst hq
    rw [update_self] at hc ⊢
    exact hx c hc
  · rw [update_of_ne hq] at hc ⊢
    exact h q c hc

/-- Being woken tells nothing. -/
theorem Tracked.woken {sys : PoolSys Task} (h : r.Tracked)
    (hwoken : Woken AddPc.wake r.sys.producer sys.producer) : Tracked ⟨sys, r.calls⟩ := by
  intro q c hc
  have hq := h q c hc
  rcases hwoken q with e | e
  · dsimp only
    rw [e]
    exact hq
  · obtain ⟨task, hx, hy⟩ := AddPc.wake_eq e
    rw [hx] at hq
    dsimp only
    rw [hy]
    exact hq

theorem Tracked.step {a : PoolMove Task} (h : r.Tracked) (hok : r.OpenAtTest a)
    (hs : r.step producers a = some r') : r'.Tracked := by
  obtain ⟨sys, hsys, rfl⟩ := Option.map_eq_some_iff.1 hs
  cases a with
  | call p task =>
    obtain ⟨hpool, hproducer⟩ := PoolSys.call_own (Option.ite_none_right_eq_some.1 hsys).2
    refine h.own hproducer fun c hc => ?_
    cases hc
    have hquiet : AddCall.Quiet ⟨task, [(r.sys.pool, sys.pool)]⟩ := by
      intro e he
      rw [List.mem_singleton.1 he, hpool]
      exact .refl _
    cases task with
    | none => exact Or.inr ⟨by simp, hquiet⟩
    | some task => exact ⟨rfl, hquiet⟩
  | add p =>
    obtain ⟨hpool, task, x, htask, hproducer, hx⟩ := PoolSys.addStep_own hsys
    refine h.own hproducer fun c hc => ?_
    obtain ⟨c, hcall, rfl⟩ := Option.map_eq_some_iff.1 hc
    obtain ⟨harg, hquiet⟩ := (AddPc.tells_iff htask).1 (h p c hcall)
    rcases hx with hx | ⟨hp, hdown⟩
    · rw [AddPc.tells_iff hx, hpool]
      exact ⟨harg, hquiet.extend (.refl _)⟩
    · exact absurd hdown (hok p rfl task hp)
  | store p notified =>
    obtain ⟨task, worker, hp, -, rfl⟩ := PoolSys.storeStep_cases hsys
    refine h.own rfl fun c hc => ?_
    obtain ⟨c, hcall, rfl⟩ := Option.map_eq_some_iff.1 hc
    have htells := h p c hcall
    rw [hp] at htells
    exact Or.inl ⟨rfl, htells.2.extend_stored htells.1 (storesTask_store _ _)⟩
  | spuriousAdd p =>
    obtain ⟨x, hwake, rfl⟩ := Option.map_eq_some_iff.1 hsys
    obtain ⟨task, hp, rfl⟩ := AddPc.wake_eq hwake
    refine h.own rfl fun c hc => ?_
    obtain ⟨c, hcall, rfl⟩ := Option.map_eq_some_iff.1 hc
    have htells := h p c hcall
    rw [hp] at htells
    exact ⟨htells.1, htells.2.extend (.refl _)⟩
  | doThread w =>
    have hproducer := PoolSys.doThreadStep_producer (Option.ite_none_right_eq_some.1 hsys).2
    exact h.woken fun q => Or.inl (by rw [hproducer])
  | dequeue w notified =>
    obtain ⟨producer, -, hsignal, rfl⟩ := PoolSys.dequeueStep_cases hsys
    exact h.woken (signal_woken hsignal)
  | spuriousDoThread w =>
    obtain ⟨z, -, rfl⟩ := Option.map_eq_some_iff.1 hsys
    exact h.woken fun q => Or.inl rfl
  | shutdown => exact h.woken (PoolSys.destructorStep_woken (a := .shutdown) hsys)
  | notifyAll => exact h.woken (PoolSys.destructorStep_woken (a := .notifyAll) hsys)
  | join => exact h.woken (PoolSys.destructorStep_woken (a := .join) hsys)

theorem Tracked.tellsTruth (h : r.Tracked) : r.TellsTruth := by
  intro p c ret hc hret
  have htells := h p c hc
  rw [hret] at htells
  rcases htells with ⟨hzero, hstored⟩ | ⟨hne, hquiet⟩
  · cases hzero
    exact ⟨iff_of_true rfl hstored, fun hne => absurd rfl hne⟩
  · have hret : ret ≠ 0 := fun e => hne (by rw [e])
    exact ⟨iff_of_false hret hquiet.not_stored, fun _ => hquiet⟩

theorem reach_tracked (h : (addHistory Task producers).Reach OpenAtTest r) : r.Tracked := by
  apply h.invariant
  · intro r hr p c hc
    have hr : r.calls = fun _ => none := hr
    rw [hr] at hc
    cases hc
  · intro r a r' h hok hs
    exact h.step hok hs

/-- **`add` tells the truth** in every run in which no call makes its status test while the pool
shuts down. -/
theorem add_tellsTruth (h : (addHistory Task producers).Reach OpenAtTest r) : r.TellsTruth :=
  (reach_tracked h).tellsTruth

theorem openAtTest_of_running {a : PoolMove Task} (h : r.sys.pool.status = .RUNNING) :
    r.OpenAtTest a := by
  intro p _ task _ hdown
  rw [h] at hdown
  cases hdown

theorem firstTask_told : ∃ r, (addHistory Nat 1).Reach OpenAtTest r ∧
    r.sys.producer 0 = .returned (some 0) ∧ r.TellsTruth := by
  have hinit : (addHistory Nat 1).init ⟨.start (.create 1 1), fun _ => none⟩ := rfl
  have h : (addHistory Nat 1).Reach OpenAtTest _ := .init hinit
  have h := h.step (a := .call 0 (some 7)) (openAtTest_of_running rfl) rfl
  have h := h.step (a := .add 0) (openAtTest_of_running rfl) rfl
  have h := h.step (a := .add 0) (openAtTest_of_running rfl) rfl
  have h := h.step (a := .add 0) (openAtTest_of_running rfl) rfl
  have h := h.step (a := .store 0 none) (openAtTest_of_running rfl) rfl
  exact ⟨_, h, rfl, add_tellsTruth h⟩

/-- Each such test makes the call return `0` with its task nowhere. -/
theorem testWhenDown_lies {c : AddCall Task} {task : Task} (h : r.Tracked)
    (hc : r.calls p = some c) (hp : r.sys.producer p = .checking task)
    (hdown : r.sys.pool.status = .SHUTDOWN) :
    ∃ r', (addHistory Task producers).step r (.add p) = some r' ∧ ¬ r'.TellsTruth := by
  have htells := h p c hc
  rw [hp] at htells
  refine ⟨⟨(r.sys.withLock none).setProducer p (.returned (some 0)),
    update r.calls p (some (c.extend r.sys.pool r.sys.pool))⟩, ?_, ?_⟩
  · simp [addHistory, AddRecord.step, PoolSys.step, PoolSys.addStep, hp, hdown, note, hc,
      PoolSys.setProducer, PoolSys.withLock]
  · intro htruth
    have htold := htruth p (c.extend r.sys.pool r.sys.pool) 0 (update_self ..) (update_self ..)
    exact (htells.2.extend (.refl _)).not_stored (htold.1.1 rfl)

/-- A call that the destructor overtakes. -/
def overtaken : List (PoolMove Nat) := [.call 0 (some 7), .shutdown, .add 0, .add 0, .add 0]

/-- **Bug** (threadpool.cpp:254-264): the `break` of a shutdown leads to `return 0`. -/
theorem overtaken_lies : ¬ ∀ r, (addHistory Nat 1).Reachable r → r.TellsTruth := by
  intro h
  obtain ⟨r, hr⟩ : ∃ r, (addHistory Nat 1).replay ⟨.start (.create 1 1), fun _ => none⟩ overtaken =
      some r := ⟨_, rfl⟩
  have hinit : (addHistory Nat 1).init ⟨.start (.create 1 1), fun _ => none⟩ := rfl
  have htruth := h r (Lts.reach_of_replay overtaken (.init hinit) hr)
  cases hr
  have hstored := (htruth 0 _ 0 rfl rfl).1.1 rfl
  revert hstored
  apply AddCall.Quiet.not_stored
  simp only [AddCall.Quiet, AddCall.extend, List.cons_append, List.nil_append, List.forall_mem_cons]
  exact ⟨.refl _, .refl _, .refl _, .refl _, by simp⟩

end AddRecord

end HPServer
