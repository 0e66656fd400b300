import HighPerformanceServer.Listening
import HighPerformanceServer.Poolless
import HighPerformanceServer.Simulation
import HighPerformanceServer.ThreadPoolCreate
import HighPerformanceServer.ThreadPoolShutdown
import HighPerformanceServer.ThreadPoolTruth
import HighPerformanceServer.UseAfterFree
import Mathlib.Data.List.ReduceOption
/-!
# The whole program

In `Threads.lean` the pool is a list. Here `main` and the workers run on `ThreadPool` itself: `main`
is its one producer, worker `w` of the pool is worker `w` of the server, and a task is the address
of a connection. The program is a simulation of the threads, in which a task is added when `add`
stores it and taken when `do_thread` takes it out.

| here | there |
| --- | --- |
| `Program.start`                 | `threadpool.create(THREADPOOL_THREAD_NUM, QUEUE_SIZE, 0)` (main.cpp:170) |
| `.pool (.call ..)`, `.add`, `.store` | `pool.add(myHandler, events[i].data.ptr, 0)` (main.cpp:125) |
| `.pool (.dequeue ..)`           | `do_thread` up to the call of `myHandler` (threadpool.cpp:279-290, main.cpp:72-75) |
| `.pool (.doThread ..)` behind a task | the return of `myHandler` (threadpool.cpp:290) |

`main` never leaves its loop, so the destructor of the pool is never called. As in `Threads.lean`, its
`events` (main.cpp:162), which the source never sets, is taken to point to a usable array.
-/

namespace HPServer

open CppStd Function Monitor

/-- main.cpp:24. -/
def THREADPOOL_THREAD_NUM : UInt32 := 4

/-- The list in `sys.server` stays empty: the tasks are in `pool`. -/
structure Program where
  sys : Sys
  pool : PoolSys ReqId

inductive ProgramStep where
  /-- A step of `main` or of a worker outside of the pool. -/
  | sys (a : Label)
  | pool (m : PoolMove ReqId)

namespace Program

def start (clock : Nat) : Program where
  sys := .start clock
  pool := .start (.create THREADPOOL_THREAD_NUM (.ofNat QUEUE_SIZE))

def goMain (P : Program) (pc : MainPc) : Program := { P with sys := { P.sys with main := pc } }

def goWorker (P : Program) (w : Nat) (pc : WorkerPc) : Program :=
  { P with sys := { P.sys with worker := update P.sys.worker w pc } }

/-- A step of the pool alone; `main` is the one producer. -/
def movePool (P : Program) (m : PoolMove ReqId) : Option Program :=
  (P.pool.step 1 m).map fun pool => { P with pool := pool }

def poolStep (P : Program) (m : PoolMove ReqId) : Option Program :=
  match m with
  | .call _ task =>
    match P.sys.main with
    | .adding R _ => if task = some R then P.movePool m else none
    | _ => none
  | .store _ _ =>
    match P.sys.main with
    | .adding _ es => (P.movePool m).map (·.goMain (.handling es))
    | _ => none
  | .dequeue w _ =>
    match P.pool.pool.front with
    | some R => (P.movePool m).map (·.goWorker w (.serving R))
    | none => none
  | .doThread w =>
    match P.pool.worker w, P.sys.worker w with
    | .running _, .idle => P.movePool m
    | .running _, _ => none
    | _, _ => P.movePool m
  | .add _ | .spuriousAdd _ | .spuriousDoThread _ => P.movePool m
  | .shutdown | .notifyAll | .join => none

def step (epollFd : Int) (P : Program) : ProgramStep → Option (Except Fault Program)
  | .sys a =>
    if a.leavesPool then
      (P.sys.step epollFd a).map fun x => x.map fun sys => { P with sys := sys }
    else none
  | .pool m => (P.poolStep m).map .ok

/-- The connections in the queue of the pool. -/
def queued (P : Program) : List ReqId := P.pool.pool.pending.reduceOption

/-- The program with the queue as a list. -/
def abstract (P : Program) : Sys := P.sys.withPool P.queued

end Program

def program (epollFd : Int) : Lts (Except Fault Program) ProgramStep where
  init y := ∃ clock, y = .ok (.start clock)
  step y a :=
    match y with
    | .ok P => P.step epollFd a
    | .error _ => none

/-- What the threads see of a step. -/
def ProgramStep.visible : ProgramStep → Option Label
  | .sys a => some a
  | .pool (.store _ _) => some .poolAdd
  | .pool (.dequeue w _) => some (.take w)
  | .pool _ => none

/-- The wait of `main` for a free slot returns only behind a notify. -/
def ProgramStep.notSpurious (a : ProgramStep) : Prop := ∀ p, a ≠ .pool (.spuriousAdd p)

/-! ## What the steps of the pool leave alone -/

namespace PoolSys

variable {Task : Type} {s s' : PoolSys Task} {p w : Nat}

theorem addStep_worker (hs : s.addStep p = some s') : s'.worker = s.worker := by
  unfold addStep at hs
  split at hs
  case h_1 | h_2 | h_4 | h_5 => split at hs <;> cases hs <;> rfl
  case h_3 => cases hs; rfl
  all_goals cases hs

theorem call_worker {task : Option Task} (hs : s.call p task = some s') : s'.worker = s.worker := by
  unfold call at hs
  split at hs <;> cases hs <;> rfl

theorem doThreadStep_own (hs : s.doThreadStep w = some s') :
    s'.pool = s.pool ∧ ∃ z, s'.worker = update s.worker w z := by
  unfold doThreadStep at hs
  split at hs
  case h_1 | h_2 | h_3 | h_5 => split at hs <;> cases hs <;> exact ⟨rfl, _, rfl⟩
  case h_4 | h_6 => cases hs; exact ⟨rfl, _, rfl⟩
  all_goals cases hs

end PoolSys

/-- The steps of a worker in `handleRequest` until it is idle. -/
def WorkerPc.stepsLeft : WorkerPc → Nat
  | .idle => 0
  | .deleting _ | .failing _ => 1
  | .rearming _ => 2
  | .pushing _ => 3
  | .serving _ => 4

namespace Sys

variable {x y : Sys} {a : Label} {epollFd : Int}

/-- In a call of `add`, `main` takes no step of its own. -/
theorem step_adding {R : ReqId} {es : List Event} (hmain : x.main = .adding R es)
    (ha : a.leavesPool = true) (hs : x.step epollFd a = some (.ok y)) : y.main = .adding R es := by
  have hworker : x.workerStep a = some (.ok y) → y.main = .adding R es := fun hs =>
    (workerStep_main hs).trans hmain
  cases a with
  | serve | delete | rearmPush | epollMod => exact hworker hs
  | poolAdd | take => cases ha
  | _ => simp [step, hmain, mainStep] at hs

theorem goMain_worker {pc : MainPc} {v : Except Fault Server} (h : x.goMain pc v = some (.ok y)) :
    y.worker = x.worker := by
  cases v <;> cases h
  rfl

theorem mainStep_worker {pc : MainPc} (h : x.mainStep epollFd pc a = some (.ok y)) :
    y.worker = x.worker := by
  unfold mainStep at h
  split at h
  case h_1 | h_3 | h_4 | h_7 =>
    split at h
    · exact goMain_worker h
    · cases h
  case h_8 =>
    obtain ⟨v, -, h⟩ := Option.bind_eq_some_iff.1 h
    exact goMain_worker h
  case h_9 => cases h
  all_goals exact goMain_worker h

theorem goWorker_worker {w : Nat} {pc : WorkerPc} {v : Except Fault Server}
    (h : x.goWorker w pc v = some (.ok y)) : y.worker = update x.worker w pc := by
  cases v <;> cases h
  rfl

/-- Only a busy worker takes a step outside of the pool, and it gets nearer to its end. -/
theorem workerStep_stepsLeft (ha : a.leavesPool = true) (h : x.workerStep a = some (.ok y)) :
    ∃ w pc, pc.stepsLeft < (x.worker w).stepsLeft ∧ y.worker = update x.worker w pc := by
  unfold workerStep at h
  split at h
  case h_1 => cases ha
  case h_2 w env =>
    split at h
    · rename_i R hw
      unfold serveStep at h
      split at h
      · cases h
      · split at h
        · cases h
        · exact ⟨w, _, by simp [hw, WorkerPc.stepsLeft], goWorker_worker h⟩
        · exact ⟨w, _, by simp [hw, WorkerPc.stepsLeft], goWorker_worker h⟩
    · cases h
  case h_3 w =>
    split at h
    · rename_i R hw
      exact ⟨w, _, by simp [hw, WorkerPc.stepsLeft], goWorker_worker h⟩
    · rename_i R hw
      exact ⟨w, _, by simp [hw, WorkerPc.stepsLeft], goWorker_worker h⟩
    · cases h
  case h_4 w T now =>
    split at h
    · rename_i R hw
      split at h
      · exact ⟨w, _, by simp [hw, WorkerPc.stepsLeft], goWorker_worker h⟩
      · cases h
    · cases h
  case h_5 w done =>
    split at h
    · rename_i R hw
      exact ⟨w, _, by cases done <;> simp [hw, WorkerPc.stepsLeft], goWorker_worker h⟩
    · cases h
  case h_6 => cases h

/-- An idle worker stays so until it gets a task. -/
theorem step_idle (ha : a.leavesPool = true) (hs : x.step epollFd a = some (.ok y)) {w : Nat}
    (hw : x.worker w = .idle) : y.worker w = .idle := by
  have hworker : x.workerStep a = some (.ok y) → y.worker w = .idle := by
    intro hs
    obtain ⟨v, pc, hbusy, hy⟩ := workerStep_stepsLeft ha hs
    rw [hy, update_of_ne (by rintro rfl; simp [hw, WorkerPc.stepsLeft] at hbusy), hw]
  cases a with
  | serve | delete | rearmPush | epollMod => exact hworker hs
  | take => cases ha
  | _ => rw [mainStep_worker hs, hw]

end Sys

/-! ## The invariant -/

/-- The pool is in order; it is in a call of `main` for the connection that `main` has in its hand,
and runs a task wherever a worker of the server is busy. -/
structure ProgramOk (P : Program) : Prop where
  queue : P.pool.QueueOk
  one : P.pool.OneProducer
  size : PoolSys.Indexed QUEUE_SIZE P.pool
  running : P.pool.pool.status = .RUNNING
  main : ∀ R, (P.pool.producer 0).task = some R → ∃ es, P.sys.main = .adding R es
  worker : ∀ w, P.sys.worker w ≠ .idle → ∃ task, P.pool.worker w = .running task


/-- What is behind the tasks taken out of a queue that holds tasks only holds tasks only. -/
theorem reduceOption_behind {α : Type} {out rest : List (Option α)} {xs : List α}
    (h : out ++ rest = xs.map some) : rest = rest.reduceOption.map some := by
  have hrest : rest = (xs.drop out.length).map some := by
    rw [List.map_drop, ← h, List.drop_left]
  rw [hrest]
  congr 1
  exact (List.filterMap_map ..).trans (by simp) |>.symm

namespace ProgramOk

variable {P P' : Program} {a : Label} {m : PoolMove ReqId} {epollFd : Int}

theorem pending (h : ProgramOk P) : P.pool.pool.pending = P.queued.map some :=
  reduceOption_behind h.queue.fifo

theorem queued_length (h : ProgramOk P) : P.queued.length = P.pool.pool.waitingTaskNum := by
  have hlen := congrArg List.length h.pending
  simpa [ThreadPool.pending, Ring.window] using hlen.symm

theorem create_queueSize_eq :
    (ThreadPool.create THREADPOOL_THREAD_NUM (.ofNat QUEUE_SIZE) : ThreadPool ReqId).queueSize =
      QUEUE_SIZE := by decide

theorem start (clock : Nat) : ProgramOk (.start clock) where
  queue := .start _ _
  one := ⟨.start 1 _, fun _ h => by cases h⟩
  size := ⟨create_queueSize_eq, show 0 < QUEUE_SIZE by decide, show 0 < QUEUE_SIZE by decide⟩
  running := rfl
  main R h := by cases h
  worker w h := absurd rfl h

/-- A step outside of the pool. -/
theorem sysStep (h : ProgramOk P) {x : Sys} (ha : a.leavesPool = true)
    (hs : P.sys.step epollFd a = some (.ok x)) : ProgramOk { P with sys := x } where
  queue := h.queue
  one := h.one
  size := h.size
  running := h.running
  main R hR := by
    obtain ⟨es, hes⟩ := h.main R hR
    exact ⟨es, Sys.step_adding hes ha hs⟩
  worker w hw := h.worker w fun hidle => hw (Sys.step_idle ha hs hidle)

/-- A step of the pool, with what it means for `main` and the workers. -/
theorem poolMove (h : ProgramOk P) {q : PoolSys ReqId} {sys : Sys} (hspurious : ∀ p, m ≠ .spuriousAdd p)
    (hdown : P.pool.destructorStep m = none) (hs : P.pool.step 1 m = some q)
    (hmain : ∀ R, (q.producer 0).task = some R → ∃ es, sys.main = .adding R es)
    (hworker : ∀ w, sys.worker w ≠ .idle → ∃ task, q.worker w = .running task) :
    ProgramOk ⟨sys, q⟩ where
  queue := h.queue.step (h.one.resumes m) hs
  one := h.one.step h.queue hspurious hs
  size := h.size.step hs
  running := by
    rcases PoolSys.step_frame hs with ⟨-, hstatus⟩ | hdest
    · exact hstatus.trans h.running
    · rw [hdown] at hdest; cases hdest
  main := hmain
  worker := hworker

/-! ### The steps of the pool -/

/-- The pool has moved, and the threads see nothing of it. -/
def Hidden (P P' : Program) : Prop := ProgramOk P' ∧ P'.abstract = P.abstract

/-- The pool has moved, and the threads have taken the step `b`. -/
def Shown (epollFd : Int) (P P' : Program) (b : Label) : Prop :=
  ProgramOk P' ∧ P.abstract.step epollFd b = some (.ok P'.abstract)

/-- The pool is as it was. -/
theorem hidden (h : ProgramOk P) {q : PoolSys ReqId} (hspurious : ∀ p, m ≠ .spuriousAdd p)
    (hdown : P.pool.destructorStep m = none) (hs : P.pool.step 1 m = some q) (hpool : q.pool = P.pool.pool)
    (hmain : ∀ R, (q.producer 0).task = some R → ∃ es, P.sys.main = .adding R es)
    (hworker : ∀ w, P.sys.worker w ≠ .idle → ∃ task, q.worker w = .running task) :
    Hidden P { P with pool := q } :=
  ⟨h.poolMove hspurious hdown hs hmain hworker,
    by simp only [Program.abstract, Program.queued, hpool]⟩

theorem call (h : ProgramOk P) {p : Nat} {task : Option ReqId} (hs : P.poolStep (.call p task) = some P') :
    Hidden P P' := by
  simp only [Program.poolStep] at hs
  split at hs
  case h_2 => cases hs
  rename_i R es hmain
  obtain ⟨htask, hs⟩ := Option.ite_none_right_eq_some.1 hs
  subst htask
  obtain ⟨q, hq, rfl⟩ := Option.map_eq_some_iff.1 hs
  obtain ⟨hp, hcall⟩ := Option.ite_none_right_eq_some.1 hq
  obtain ⟨hpool, hproducer⟩ := PoolSys.call_own hcall
  obtain rfl : p = 0 := by omega
  refine h.hidden (by simp) rfl hq hpool ?_ ?_
  · intro R' hR'
    rw [hproducer, update_self] at hR'
    cases hR'
    exact ⟨es, hmain⟩
  · rw [PoolSys.call_worker hcall]
    exact h.worker

theorem add (h : ProgramOk P) {p : Nat} (hs : P.poolStep (.add p) = some P') : Hidden P P' := by
  obtain ⟨q, hq, rfl⟩ := Option.map_eq_some_iff.1 hs
  obtain ⟨hpool, task, x, htask, hproducer, hx⟩ := PoolSys.addStep_own hq
  obtain rfl := h.one.only (p := p) fun ret hret => by rw [hret] at htask; cases htask
  refine h.hidden (by simp) rfl hq hpool ?_ ?_
  · intro R hR
    rw [hproducer, update_self] at hR
    rcases hx with hx | ⟨-, hdown⟩
    · rw [hx] at hR
      exact h.main R (htask.trans hR)
    · rw [h.running] at hdown; cases hdown
  · rw [PoolSys.addStep_worker hq]
    exact h.worker

/-- A worker that has no task moves. -/
theorem workerMove (h : ProgramOk P) {q : PoolSys ReqId} {w : Nat} (hidle : P.sys.worker w = .idle)
    {z : DoThreadPc ReqId} (hz : q.worker = update P.pool.worker w z) {v : Nat} (hv : P.sys.worker v ≠ .idle) :
    ∃ task, q.worker v = .running task := by
  have hne : v ≠ w := by rintro rfl; exact hv hidle
  rw [hz, update_of_ne hne]
  exact h.worker v hv

theorem doThread (h : ProgramOk P) {w : Nat} (hs : P.poolStep (.doThread w) = some P') : Hidden P P' := by
  simp only [Program.poolStep] at hs
  have hidle : P.sys.worker w = .idle := by
    by_contra hbusy
    obtain ⟨task, htask⟩ := h.worker w hbusy
    rw [htask] at hs
    cases hpc : P.sys.worker w <;> simp [hpc] at hs hbusy
  have hmove : P.movePool (.doThread w) = some P' := by
    rw [hidle] at hs
    split at hs <;> exact hs
  obtain ⟨q, hq, rfl⟩ := Option.map_eq_some_iff.1 hmove
  have hown := (Option.ite_none_right_eq_some.1 hq).2
  obtain ⟨hpool, z, hz⟩ := PoolSys.doThreadStep_own hown
  refine h.hidden (by simp) rfl hq hpool ?_ fun v hv => h.workerMove hidle hz hv
  rw [PoolSys.doThreadStep_producer hown]
  exact h.main

theorem spuriousDoThread (h : ProgramOk P) {w : Nat} (hs : P.poolStep (.spuriousDoThread w) = some P') :
    Hidden P P' := by
  obtain ⟨q, hq, rfl⟩ := Option.map_eq_some_iff.1 hs
  obtain ⟨z, hz, rfl⟩ := Option.map_eq_some_iff.1 hq
  have hidle : P.sys.worker w = .idle := by
    by_contra hbusy
    obtain ⟨task, htask⟩ := h.worker w hbusy
    rw [htask] at hz; cases hz
  exact h.hidden (by simp) rfl hq rfl h.main fun v hv => h.workerMove hidle rfl hv

theorem store (h : ProgramOk P) {p : Nat} {notified : Option Nat}
    (hs : P.poolStep (.store p notified) = some P') : Shown epollFd P P' .poolAdd := by
  simp only [Program.poolStep] at hs
  split at hs
  case h_2 => cases hs
  rename_i R es hmain
  obtain ⟨P₁, hP₁, rfl⟩ := Option.map_eq_some_iff.1 hs
  obtain ⟨q, hq, rfl⟩ := Option.map_eq_some_iff.1 hP₁
  obtain ⟨task, worker, hp, hsignal, rfl⟩ := PoolSys.storeStep_cases hq
  obtain rfl := h.one.only (p := p) fun ret hret => by rw [hret] at hp; cases hp
  obtain rfl : task = R := by
    obtain ⟨es', hes'⟩ := h.main task (by rw [hp]; rfl)
    rw [hmain] at hes'
    exact (MainPc.adding.inj hes').1.symm
  have hroom : P.pool.pool.waitingTaskNum < P.pool.pool.queueSize := by
    have hok := h.queue.producers 0
    rwa [hp] at hok
  have hpending := (h.queue.ring.store hroom task).2
  constructor
  · refine h.poolMove (by simp) rfl hq ?_ ?_
    · intro R' hR'
      have hnone : (update P.pool.producer 0 (.returned (some 0)) 0 : AddPc ReqId).task = some R' := hR'
      rw [update_self] at hnone
      cases hnone
    · intro v hv
      obtain ⟨t, ht⟩ := h.worker v hv
      refine ⟨t, ?_⟩
      rcases signal_woken hsignal v with e | e
      · exact e.trans ht
      · rw [ht] at e; cases e
  · have hlt : P.queued.length < QUEUE_SIZE := by
      rw [h.queued_length, ← h.size.size]
      exact hroom
    simp only [Sys.step, Program.abstract, Sys.withPool, hmain, Sys.mainStep, Server.withPool, if_pos hlt]
    simp only [Sys.goMain, Server.poolAdd, Program.goMain, Program.queued, hpending,
      List.reduceOption_append, List.reduceOption_singleton, Option.toList_some]
    rfl

theorem dequeue (h : ProgramOk P) {w : Nat} {notified : Option Nat}
    (hs : P.poolStep (.dequeue w notified) = some P') : Shown epollFd P P' (.take w) := by
  simp only [Program.poolStep] at hs
  split at hs
  case h_2 => cases hs
  rename_i R hfront
  obtain ⟨P₁, hP₁, rfl⟩ := Option.map_eq_some_iff.1 hs
  obtain ⟨q, hq, rfl⟩ := Option.map_eq_some_iff.1 hP₁
  obtain ⟨producer, hw, hsignal, rfl⟩ := PoolSys.dequeueStep_cases hq
  have hidle : P.sys.worker w = .idle := by
    by_contra hbusy
    obtain ⟨task, htask⟩ := h.worker w hbusy
    rw [hw] at htask; cases htask
  have hpos : 0 < P.pool.pool.waitingTaskNum := by
    have hok := h.queue.workers w
    rwa [hw] at hok
  have hpending := (h.queue.ring.dequeue hpos).2
  rw [hfront] at hpending
  constructor
  · refine h.poolMove (by simp) rfl hq ?_ ?_
    · intro R' hR'
      have hR' : (producer 0).task = some R' := hR'
      rcases signal_woken hsignal 0 with e | e
      · rw [e] at hR'
        exact h.main R' hR'
      · obtain ⟨task, hasleep, hwoken⟩ := AddPc.wake_eq e
        rw [hwoken] at hR'
        exact h.main R' (by rw [hasleep]; exact hR')
    · intro v hv
      by_cases hvw : v = w
      · subst hvw
        exact ⟨_, update_self ..⟩
      · have hv : update P.sys.worker w (.serving R) v ≠ .idle := hv
        rw [update_of_ne hvw] at hv
        obtain ⟨t, ht⟩ := h.worker v hv
        exact ⟨t, (update_of_ne hvw ..).trans ht⟩
  · have hqueued : P.queued = R :: (P.pool.pool.dequeue.pending).reduceOption := by
      rw [Program.queued, hpending, List.reduceOption_cons_of_some]
    simp only [Sys.step, Program.abstract, Sys.withPool, hqueued, Sys.workerStep, Server.withPool, hidle]
    rfl

/-- A step of the pool is one of the threads, or none. -/
theorem poolStep (epollFd : Int) (h : ProgramOk P) (hspurious : (ProgramStep.pool m).notSpurious)
    (hs : P.poolStep m = some P') :
    ((ProgramStep.pool m).visible = none ∧ Hidden P P') ∨
    ∃ b, (ProgramStep.pool m).visible = some b ∧ Shown epollFd P P' b := by
  cases m with
  | call p task => exact Or.inl ⟨rfl, h.call hs⟩
  | add p => exact Or.inl ⟨rfl, h.add hs⟩
  | store p notified => exact Or.inr ⟨_, rfl, h.store hs⟩
  | spuriousAdd p => exact absurd rfl (hspurious p)
  | doThread w => exact Or.inl ⟨rfl, h.doThread hs⟩
  | dequeue w notified => exact Or.inr ⟨_, rfl, h.dequeue hs⟩
  | spuriousDoThread w => exact Or.inl ⟨rfl, h.spuriousDoThread hs⟩
  | shutdown | notifyAll | join => cases hs

end ProgramOk

/-! ## The program refines the threads -/

/-- Steps that the threads may take when `ok` allows it. -/
def Allowed (ok : Except Fault Sys → Label → Prop) (y : Except Fault Program) (a : ProgramStep) : Prop :=
  a.notSpurious ∧ ∀ b, a.visible = some b → ok (y.map Program.abstract) b

/-- The program and its threads. -/
def Refines (y : Except Fault Program) (x : Except Fault Sys) : Prop :=
  x = y.map Program.abstract ∧ ∀ P, y = .ok P → ProgramOk P

theorem refines_start (clock : Nat) : Refines (.ok (.start clock)) (.ok (.start clock)) :=
  ⟨rfl, by rintro _ ⟨rfl⟩; exact .start clock⟩

theorem program_simulation (epollFd : Int) (ok : Except Fault Sys → Label → Prop) :
    (program epollFd).Simulation (threads epollFd) (Allowed ok) ok (fun _ => ProgramStep.visible) Refines where
  init := by
    rintro y ⟨clock, rfl⟩
    exact ⟨.ok (.start clock), ⟨clock, rfl⟩, refines_start clock⟩
  step := by
    rintro (f | P) a y x ⟨rfl, hP⟩ ⟨hspurious, hok⟩ hs
    · cases hs
    have h := hP P rfl
    cases a with
    | sys a =>
      obtain ⟨ha, hs⟩ := Option.ite_none_right_eq_some.1 hs
      obtain ⟨v, hv, rfl⟩ := Option.map_eq_some_iff.1 hs
      refine Or.inr ⟨a, v.map (·.withPool P.queued), rfl, hok a rfl, ?_, ?_, ?_⟩
      · exact (Sys.step_withPool ha P.sys P.queued).trans (by rw [hv]; rfl)
      · cases v <;> rfl
      · rintro P' e
        obtain ⟨sys, rfl⟩ : ∃ sys, v = .ok sys := by cases v with
          | error f => cases e
          | ok sys => exact ⟨sys, rfl⟩
        cases e
        exact h.sysStep ha hv
    | pool m =>
      obtain ⟨P', hm, rfl⟩ := Option.map_eq_some_iff.1 hs
      rcases h.poolStep epollFd hspurious hm with ⟨hnone, hP', habs⟩ | ⟨b, hsome, hP', hb⟩
      · exact Or.inl ⟨hnone, congrArg Except.ok habs.symm, by rintro _ ⟨rfl⟩; exact hP'⟩
      · exact Or.inr ⟨b, _, hsome, hok b hsome, hb, rfl, by rintro _ ⟨rfl⟩; exact hP'⟩

/-- **The program refines its threads.** In every run in which the wait of `main` for a free slot
returns only behind a notify, the visible steps are a run of the threads, whose pool is the queue as
a list: what `main` adds is taken once, and in that order. -/
theorem program_refines {epollFd : Int} {clock : Nat} {as : List ProgramStep} {y : Except Fault Program}
    (h : (program epollFd).Run (fun _ a => a.notSpurious) (.ok (.start clock)) as y) :
    (threads epollFd).Run (fun _ _ => True) (.ok (.start clock)) (as.filterMap ProgramStep.visible)
      (y.map Program.abstract) ∧
    ∀ P, y = .ok P → P.pool.pool.pending = P.queued.map some ∧ P.queued.length ≤ QUEUE_SIZE := by
  have hrun : (program epollFd).Run (Allowed fun _ _ => True) (.ok (.start clock)) as y :=
    h.mono fun _ _ hspurious => ⟨hspurious, fun _ _ => trivial⟩
  obtain ⟨x, hrun, rfl, hP⟩ := (program_simulation epollFd fun _ _ => True).run_filterMap (refines_start clock) hrun
  refine ⟨hrun, fun P e => ⟨(hP P e).pending, ?_⟩⟩
  have hok := hP P e
  have hcount := hok.queue.ring.count
  rw [hok.queued_length]
  have := hok.size.size
  omega

/-- The first bytes of a connection: `main` adds it, and worker 0 takes it. -/
def firstBytesProgram : List ProgramStep :=
  accepted.map .sys ++ [.sys (.sweep [(0, 0)]), .sys (.epollWait [.request 0 false]), .sys .separate,
    .pool (.call 0 (some 0)), .pool (.add 0), .pool (.add 0), .pool (.add 0), .pool (.store 0 none),
    .pool (.doThread 0), .pool (.doThread 0), .pool (.doThread 0), .pool (.dequeue 0 none),
    .sys (.serve 0 (reading (ascii "GET"))), .sys (.rearmPush 0 1 0), .sys (.epollMod 0 true)]

theorem firstBytesProgram_refines : ∃ P : Program, P.sys.server.armed 0 = true ∧
    (threads 3).Run (fun _ _ => True) (.ok (.start 0))
      (accepted ++ [.sweep [(0, 0)]] ++ firstBytes ++ [.epollMod 0 true]) (.ok P.abstract) := by
  have hrun : (program 3).Run (fun _ a => a.notSpurious) (.ok (.start 0)) firstBytesProgram _ :=
    Lts.run_of_replay (by simp [firstBytesProgram, accepted, ProgramStep.notSpurious]) rfl
  exact ⟨_, rfl, (program_refines hrun).1⟩

end HPServer
