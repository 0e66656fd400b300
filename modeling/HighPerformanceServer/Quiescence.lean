import HighPerformanceServer.ProgramProgress
/-!
# What the program does is bounded by what comes in

What `main` and the workers do for one event is bounded, whatever the interleaving: the steps that are
left until the program is at rest are a number (`Program.workLeft`) that each step of a thread brings
down, and to which only what comes from outside adds, the events that `epoll_wait` hands out and the
wake-ups without a notify. A call of `handleRequest` up to its decision is one step, however often
`writen` has to try again, and one that never returns is none; so is a sweep, which is bounded by the
timers in the queue (`sweep_end`).

| here | there |
| --- | --- |
| `eventsLeft` | the loop over a batch, and the sweep behind it (main.cpp:106-128, :191) |
| `AddPc.stepsLeft`, `MainPc.stepsLeft` | `main` on its way through `add` (threadpool.cpp:244-265) |
| `DoThreadPc.stepsLeft` | `do_thread` (threadpool.cpp:270-297) |
-/

namespace HPServer

open Function Monitor

/-! ## How many steps are left -/

/-- From the call of `add` on. -/
def AddPc.stepsLeft {Task : Type} : AddPc Task → Nat
  | .returned _ => 8
  | .locking _ => 7
  | .testing _ => 6
  | .waiting _ => 5
  | .asleep _ => 4
  | .woken _ => 3
  | .checking _ => 2
  | .storing _ => 1

/-- Until the worker sleeps; what it does for a task is counted with the task. -/
def DoThreadPc.stepsLeft {Task : Type} : DoThreadPc Task → Nat
  | .asleep | .dequeuing | .exited => 0
  | .waiting | .checking => 1
  | .testing => 2
  | .locking | .woken => 3
  | .running _ => 4

/-- Taking the task out, `handleRequest`, and the way back into the sleep. -/
def taskLeft : Nat := 9

/-- An event may become a task, which wakes a worker. -/
def eventsLeft : List Event → Nat
  | [] => 1
  | .listen :: es => 2 + eventsLeft es
  | .request _ _ :: es => taskLeft + 12 + eventsLeft es

def MainPc.stepsLeft (call : AddPc ReqId) : MainPc → Nat
  | .wait => 0
  | .handling es => eventsLeft es
  | .stamping _ es => 1 + eventsLeft es
  | .adding _ es => call.stepsLeft + taskLeft + 3 + eventsLeft es

def Program.workLeft (P : Program) : Nat :=
  P.sys.main.stepsLeft (P.pool.producer 0) + taskLeft * P.pool.pool.waitingTaskNum +
    total DoThreadPc.stepsLeft P.pool.pool.threadCount P.pool.worker +
    total WorkerPc.stepsLeft P.pool.pool.threadCount P.sys.worker

/-- What a step adds. -/
def ProgramStep.budget : ProgramStep → Nat
  | .sys (.epollWait es) => eventsLeft es
  | .pool (.spuriousDoThread _) => 3
  | _ => 0

theorem AddPc.stepsLeft_le {Task : Type} (x : AddPc Task) : x.stepsLeft ≤ 8 := by
  cases x <;> simp [AddPc.stepsLeft]

theorem DoThreadPc.wake_stepsLeft {Task : Type} (z z' : DoThreadPc Task) (h : z.wake = some z') :
    z'.stepsLeft ≤ z.stepsLeft + 3 := by
  obtain ⟨rfl, rfl⟩ := DoThreadPc.wake_eq h
  exact Nat.le_refl 3

/-! ## Outside of the pool -/

namespace Sys

variable {x y : Sys} {a : Label} {epollFd : Int}

theorem goMain_main {pc : MainPc} {v : Except Fault Server} (h : x.goMain pc v = some (.ok y)) :
    y.main = pc := by
  cases v <;> cases h
  rfl

/-- A step of `main`. An event that is handed over weighs no more than before. -/
theorem mainStep_stepsLeft (ha : a.leavesPool = true) (h : x.mainStep epollFd x.main a = some (.ok y))
    (call : AddPc ReqId) :
    (ProgramStep.sys a).isOwn.toNat + y.main.stepsLeft call ≤
      x.main.stepsLeft call + (ProgramStep.sys a).budget := by
  have hcall := call.stepsLeft_le
  generalize x.main = pc at h
  unfold mainStep at h
  split at h
  case h_1 =>
    obtain ⟨-, h⟩ := Option.ite_none_right_eq_some.1 h
    simp [goMain_main h, MainPc.stepsLeft, ProgramStep.budget, ProgramStep.isOwn]
  case h_3 =>
    obtain ⟨-, h⟩ := Option.ite_none_right_eq_some.1 h
    simp [goMain_main h, MainPc.stepsLeft, ProgramStep.isOwn, eventsLeft]
    omega
  case h_4 =>
    obtain ⟨-, h⟩ := Option.ite_none_right_eq_some.1 h
    simp [goMain_main h, MainPc.stepsLeft, ProgramStep.isOwn]
  case h_7 => cases ha
  case h_8 =>
    obtain ⟨v, -, h⟩ := Option.bind_eq_some_iff.1 h
    simp [goMain_main h, MainPc.stepsLeft, ProgramStep.isOwn, eventsLeft]
  case h_9 => cases h
  all_goals
    simp [goMain_main h, MainPc.stepsLeft, ProgramStep.isOwn, eventsLeft, taskLeft]
    omega

end Sys

/-! ## In the pool -/

namespace PoolSys

variable {Task : Type} {s s' : PoolSys Task} {p w : Nat}

theorem addStep_stepsLeft (hrun : s.pool.status = .RUNNING) (hs : s.addStep p = some s') :
    ∃ x, s'.producer = update s.producer p x ∧ 1 + x.stepsLeft ≤ (s.producer p).stepsLeft := by
  unfold addStep at hs
  split at hs <;> rename_i hp <;> rw [hp]
  case h_1 | h_4 =>
    split at hs <;> cases hs
    exact ⟨_, rfl, by simp [AddPc.stepsLeft]⟩
  case h_2 =>
    split at hs <;> cases hs <;> exact ⟨_, rfl, by simp [AddPc.stepsLeft]⟩
  case h_3 =>
    cases hs
    exact ⟨_, rfl, by simp [AddPc.stepsLeft]⟩
  case h_5 =>
    rw [if_neg (by simp [hrun])] at hs
    cases hs
    exact ⟨_, rfl, by simp [AddPc.stepsLeft]⟩
  all_goals cases hs

theorem doThreadStep_stepsLeft (hs : s.doThreadStep w = some s') :
    ∃ z, s'.worker = update s.worker w z ∧ 1 + z.stepsLeft ≤ (s.worker w).stepsLeft := by
  unfold doThreadStep at hs
  split at hs <;> rename_i hw <;> rw [hw]
  case h_1 | h_2 =>
    split at hs <;> cases hs
    exact ⟨_, rfl, by simp [DoThreadPc.stepsLeft]⟩
  case h_3 | h_5 =>
    split at hs <;> cases hs <;> exact ⟨_, rfl, by simp [DoThreadPc.stepsLeft]⟩
  case h_4 | h_6 =>
    cases hs
    exact ⟨_, rfl, by simp [DoThreadPc.stepsLeft]⟩
  all_goals cases hs

end PoolSys

namespace ProgramOk

variable {P P' : Program} {m : PoolMove ReqId} {epollFd : Int}

theorem call_workLeft {p : Nat} {task : Option ReqId}
    (hs : P.poolStep (.call p task) = some P') : 1 + P'.workLeft ≤ P.workLeft := by
  simp only [Program.poolStep] at hs
  split at hs
  case h_2 => cases hs
  rename_i R es hmain
  obtain ⟨rfl, hs⟩ := Option.ite_none_right_eq_some.1 hs
  obtain ⟨q, hq, rfl⟩ := Option.map_eq_some_iff.1 hs
  obtain ⟨hp, hcall⟩ := Option.ite_none_right_eq_some.1 hq
  obtain rfl : p = 0 := by omega
  cases hret : P.pool.producer 0 with
  | returned ret =>
    simp only [PoolSys.call, hret] at hcall
    cases hcall
    simp only [Program.workLeft, hmain, MainPc.stepsLeft, PoolSys.setProducer, update_self, hret,
      AddPc.stepsLeft]
    omega
  | _ => simp [PoolSys.call, hret] at hcall

theorem add_workLeft (h : ProgramOk P) {p : Nat} (hs : P.poolStep (.add p) = some P') :
    1 + P'.workLeft ≤ P.workLeft := by
  obtain ⟨q, hq, rfl⟩ := Option.map_eq_some_iff.1 hs
  obtain ⟨hpool, task, -, htask, -⟩ := PoolSys.addStep_own hq
  obtain ⟨x, hx, hle⟩ := PoolSys.addStep_stepsLeft h.running hq
  obtain rfl := h.one.only (p := p) fun ret hret => by rw [hret] at htask; cases htask
  obtain ⟨es, hmain⟩ := h.main task htask
  simp only [Program.workLeft, hmain, MainPc.stepsLeft, hpool, hx, update_self,
    PoolSys.addStep_worker hq]
  omega

theorem store_workLeft (h : ProgramOk P) {p : Nat} {notified : Option Nat}
    (hs : P.poolStep (.store p notified) = some P') : 1 + P'.workLeft ≤ P.workLeft := by
  simp only [Program.poolStep] at hs
  split at hs
  case h_2 => cases hs
  rename_i R es hmain
  obtain ⟨P₁, hP₁, rfl⟩ := Option.map_eq_some_iff.1 hs
  obtain ⟨q, hq, rfl⟩ := Option.map_eq_some_iff.1 hP₁
  obtain ⟨task, worker, hp, hsignal, rfl⟩ := PoolSys.storeStep_cases hq
  obtain rfl := h.one.only (p := p) fun ret hret => by rw [hret] at hp; cases hp
  have htotal : total DoThreadPc.stepsLeft P.pool.pool.threadCount worker ≤
      total DoThreadPc.stepsLeft P.pool.pool.threadCount P.pool.worker + 3 :=
    total_signal_le DoThreadPc.wake_stepsLeft hsignal
  have hcount : (P.pool.pool.store task).waitingTaskNum = P.pool.pool.waitingTaskNum + 1 := rfl
  have hthreads : (P.pool.pool.store task).threadCount = P.pool.pool.threadCount := rfl
  simp only [Program.workLeft, Program.goMain, hmain, MainPc.stepsLeft, hp, AddPc.stepsLeft, hcount,
    hthreads, taskLeft]
  omega

theorem doThread_workLeft {w : Nat} (hs : P.poolStep (.doThread w) = some P') :
    1 + P'.workLeft ≤ P.workLeft := by
  have hmove : P.movePool (.doThread w) = some P' := by
    simp only [Program.poolStep] at hs
    split at hs
    · exact hs
    · cases hs
    · exact hs
  obtain ⟨q, hq, rfl⟩ := Option.map_eq_some_iff.1 hmove
  obtain ⟨hlt, hstep⟩ := Option.ite_none_right_eq_some.1 hq
  obtain ⟨z, hz, hle⟩ := PoolSys.doThreadStep_stepsLeft hstep
  have htotal : total DoThreadPc.stepsLeft P.pool.pool.threadCount (update P.pool.worker w z) +
      (P.pool.worker w).stepsLeft = total DoThreadPc.stepsLeft P.pool.pool.threadCount P.pool.worker +
      z.stepsLeft := total_update hlt
  simp only [Program.workLeft, (PoolSys.doThreadStep_own hstep).1, hz, PoolSys.doThreadStep_producer hstep]
  omega

theorem dequeue_workLeft (h : ProgramOk P) (hwake : PoolSys.WakeOk 1 P.pool) {w : Nat} {notified : Option Nat}
    (hs : P.poolStep (.dequeue w notified) = some P') : 1 + P'.workLeft ≤ P.workLeft := by
  simp only [Program.poolStep] at hs
  split at hs
  case h_2 => cases hs
  rename_i R hfront
  obtain ⟨P₁, hP₁, rfl⟩ := Option.map_eq_some_iff.1 hs
  obtain ⟨q, hq, rfl⟩ := Option.map_eq_some_iff.1 hP₁
  obtain ⟨producer, hw, hsignal, rfl⟩ := PoolSys.dequeueStep_cases hq
  have hlt : w < P.pool.pool.threadCount := hwake.worker_lt fun e => by rw [e] at hw; cases hw
  have hpos : 0 < P.pool.pool.waitingTaskNum := by
    have hok := h.queue.workers w
    rwa [hw] at hok
  -- the notify brings `main` nearer to its end
  have hmain : P.sys.main.stepsLeft (producer 0) ≤ P.sys.main.stepsLeft (P.pool.producer 0) := by
    rcases signal_woken hsignal 0 with e | e
    · rw [e]
    · obtain ⟨task, hasleep, hwoken⟩ := AddPc.wake_eq e
      rw [hasleep, hwoken]
      cases P.sys.main <;> simp [MainPc.stepsLeft, AddPc.stepsLeft]
  have hpool : total DoThreadPc.stepsLeft P.pool.pool.threadCount
      (update P.pool.worker w (.running P.pool.pool.front)) + (P.pool.worker w).stepsLeft =
      total DoThreadPc.stepsLeft P.pool.pool.threadCount P.pool.worker + 4 := total_update hlt
  have hsys : total WorkerPc.stepsLeft P.pool.pool.threadCount (update P.sys.worker w (.serving R)) +
      (P.sys.worker w).stepsLeft = total WorkerPc.stepsLeft P.pool.pool.threadCount P.sys.worker + 4 :=
    total_update hlt
  have hcount : P.pool.pool.dequeue.waitingTaskNum = P.pool.pool.waitingTaskNum - 1 := rfl
  have hthreads : P.pool.pool.dequeue.threadCount = P.pool.pool.threadCount := rfl
  simp only [Program.workLeft, Program.goWorker, hcount, hthreads, taskLeft]
  omega

theorem spuriousDoThread_workLeft {w : Nat} (hs : P.poolStep (.spuriousDoThread w) = some P') :
    P'.workLeft ≤ P.workLeft + 3 := by
  obtain ⟨q, hq, rfl⟩ := Option.map_eq_some_iff.1 hs
  obtain ⟨z, hz, rfl⟩ := Option.map_eq_some_iff.1 hq
  have hsignal : signal DoThreadPc.wake P.pool.pool.threadCount P.pool.worker (some w) =
      some (update P.pool.worker w z) := by rw [signal, hz]; rfl
  have htotal := total_signal_le DoThreadPc.wake_stepsLeft hsignal
  simp only [Program.workLeft, PoolSys.setWorker]
  omega

theorem poolStep_workLeft (h : ProgramOk P) (hwake : PoolSys.WakeOk 1 P.pool)
    (hspurious : (ProgramStep.pool m).notSpurious) (hs : P.poolStep m = some P') :
    (ProgramStep.pool m).isOwn.toNat + P'.workLeft ≤ P.workLeft + (ProgramStep.pool m).budget := by
  cases m with
  | call => exact call_workLeft hs
  | add => exact h.add_workLeft hs
  | store => exact h.store_workLeft hs
  | spuriousAdd p => exact absurd rfl (hspurious p)
  | doThread => exact doThread_workLeft hs
  | dequeue => exact h.dequeue_workLeft hwake hs
  | spuriousDoThread =>
    have hle := spuriousDoThread_workLeft hs
    exact (Nat.zero_add _).trans_le hle
  | shutdown | notifyAll | join => cases hs

/-- A busy worker has its task from the pool, and is one of those that the pool has made. -/
theorem sysStep_workLeft (h : ProgramOk P) (hwake : PoolSys.WakeOk 1 P.pool) {a : Label} {x : Sys}
    (ha : a.leavesPool = true) (hs : P.sys.step epollFd a = some (.ok x)) :
    (ProgramStep.sys a).isOwn.toNat + Program.workLeft { P with sys := x } ≤
      P.workLeft + (ProgramStep.sys a).budget := by
  have hmain : P.sys.mainStep epollFd P.sys.main a = some (.ok x) →
      (ProgramStep.sys a).isOwn.toNat + Program.workLeft { P with sys := x } ≤
        P.workLeft + (ProgramStep.sys a).budget := by
    intro hs
    have hle := Sys.mainStep_stepsLeft ha hs (P.pool.producer 0)
    simp only [Program.workLeft, Sys.mainStep_worker hs]
    omega
  have hworker : P.sys.workerStep a = some (.ok x) → 1 + Program.workLeft { P with sys := x } ≤ P.workLeft := by
    intro hs
    obtain ⟨w, pc, hlt, hx⟩ := Sys.workerStep_stepsLeft ha hs
    obtain ⟨task, hrunning⟩ := h.worker w fun hidle => by simp [hidle, WorkerPc.stepsLeft] at hlt
    have hw : w < P.pool.pool.threadCount := hwake.worker_lt (by rw [hrunning]; simp)
    have htotal : total WorkerPc.stepsLeft P.pool.pool.threadCount (update P.sys.worker w pc) +
        (P.sys.worker w).stepsLeft = total WorkerPc.stepsLeft P.pool.pool.threadCount P.sys.worker +
        pc.stepsLeft := total_update hw
    simp only [Program.workLeft, workerStep_main hs, hx]
    omega
  cases a with
  | serve | delete | rearmPush | epollMod => exact hworker hs
  | poolAdd | take => cases ha
  | _ => exact hmain hs

end ProgramOk

/-! ## The runs -/

namespace Program

variable {epollFd : Int} {P P' : Program}

/-- **One step** of a thread brings the work down; only events and wake-ups without a notify add to it. -/
theorem step_workLeft {a : ProgramStep} (h : ProgramOk P) (hwake : PoolSys.WakeOk 1 P.pool)
    (hspurious : a.notSpurious) (hs : P.step epollFd a = some (.ok P')) :
    a.isOwn.toNat + P'.workLeft ≤ P.workLeft + a.budget := by
  cases a with
  | sys a =>
    obtain ⟨ha, hs⟩ := Option.ite_none_right_eq_some.1 hs
    obtain ⟨v, hv, e⟩ := Option.map_eq_some_iff.1 hs
    cases v <;> cases e
    exact h.sysStep_workLeft hwake ha hv
  | pool m =>
    obtain ⟨Q, hQ, ⟨⟩⟩ := Option.map_eq_some_iff.1 hs
    exact h.poolStep_workLeft hwake hspurious hQ

theorem AtRest.workLeft_eq (h : P.AtRest) (hok : ProgramOk P) : P.workLeft = 0 := by
  have hempty : P.pool.pool.waitingTaskNum = 0 := by rw [← hok.queued_length, h.queued]; rfl
  have hasleep : total DoThreadPc.stepsLeft P.pool.pool.threadCount P.pool.worker = 0 :=
    Finset.sum_eq_zero fun w hw => by rw [h.asleep w (Finset.mem_range.1 hw)]; rfl
  have hidle : total WorkerPc.stepsLeft P.pool.pool.threadCount P.sys.worker = 0 :=
    Finset.sum_eq_zero fun w _ => by rw [h.idle w]; rfl
  simp [workLeft, h.main, hempty, hasleep, hidle, MainPc.stepsLeft]

/-- Nobody connects, every `read` fails, and the clock stands still. -/
def readsFail (clock : Nat) : SysAnswers where
  accepted := none
  positive := by rintro c ⟨⟩
  reading _ := clock
  mono _ _ _ := Nat.le_refl _
  call _ := { CallEnv.idle with reads := [.error (.other 0)] }
  modified := false

theorem not_hung_readsFail (clock : Nat) : ¬P.Hung (readsFail clock) := by
  rintro ⟨-, ⟨w, hw⟩, hhangs, -⟩
  obtain ⟨R, r, e, -, -, hdecision⟩ := hhangs w hw
  cases hdecision

/-- `workLeft` counts steps that are possible, one after the other. -/
theorem atRest_iff (h : (program epollFd).Reach (Allowed SweepSafe) (.ok P)) : P.AtRest ↔ P.workLeft = 0 := by
  obtain ⟨_, own, ⟨⟩, hok, -⟩ := program_sound h
  refine ⟨fun hrest => hrest.workLeft_eq hok, fun hzero => not_not.1 fun hrest => ?_⟩
  obtain ⟨a, P', hown, -, hs⟩ := (exists_ownStep h (Nat.le_refl _) hrest).resolve_right
    (not_hung_readsFail P.sys.server.clock)
  have hspurious : a.notSpurious := by rintro p rfl; cases hown
  have hbudget : a.budget = 0 := by
    unfold ProgramStep.budget
    split
    · cases hown
    · cases hown
    · rfl
  have hle := step_workLeft hok (program_wakeOk h P rfl) hspurious hs
  rw [hown, hbudget, hzero] at hle
  exact absurd hle (by simp)

end Program

/-- A program that has failed has no step left. -/
def workLeft : Except Fault Program → Nat
  | .ok P => P.workLeft
  | .error _ => 0

/-- **What the program does is bounded by what comes in.** In every run in which the wait of `main` for
a slot ends only behind a notify and no sweep finds a connection due that a worker is re-arming, the
threads take at most as many steps, a call that returns being one of them, as were left at its start
and as the events and the wake-ups without a notify have added; and the program is at rest as soon as
no step is left. -/
theorem program_settles {epollFd : Int} {P : Program} {y : Except Fault Program} {as : List ProgramStep}
    (h : (program epollFd).Reach (Allowed SweepSafe) (.ok P))
    (hrun : (program epollFd).Run (Allowed SweepSafe) (.ok P) as y) :
    ∃ P', y = .ok P' ∧
      as.countP ProgramStep.isOwn + P'.workLeft ≤ P.workLeft + (as.map ProgramStep.budget).sum ∧
      (P'.AtRest ↔ P'.workLeft = 0) := by
  have hstep : ∀ y a y', (program epollFd).Reach (Allowed SweepSafe) y → Allowed SweepSafe y a →
      (program epollFd).step y a = some y' →
      (program epollFd).Reach (Allowed SweepSafe) y' ∧ a.isOwn.toNat + workLeft y' ≤ workLeft y + a.budget := by
    intro y a y' hy hok hs
    have hy' : (program epollFd).Reach (Allowed SweepSafe) y' := .step hy hok hs
    obtain ⟨Q, own, rfl, hQ, -⟩ := program_sound hy
    obtain ⟨Q', own', rfl, -⟩ := program_sound hy'
    exact ⟨hy', Program.step_workLeft hQ (program_wakeOk hy Q rfl) hok.1 hs⟩
  obtain ⟨hy, hle⟩ := hrun.countP_le workLeft ProgramStep.isOwn ProgramStep.budget hstep h
  obtain ⟨P', own, rfl, -⟩ := program_sound hy
  exact ⟨P', rfl, hle, Program.atRest_iff hy⟩

/-- Behind the steps of the first bytes, the worker goes back to sleep, and so do the other three. -/
def backToSleep : List ProgramStep :=
  firstBytesProgram.drop 11 ++ [.pool (.doThread 0)] ++
    (List.range 4).flatMap fun w => List.replicate 3 (.pool (.doThread w))

/-- 30 steps of threads, one batch with an `accept` and one with a task. -/
theorem firstBytesProgram_settles : ∃ (as : List ProgramStep) (P : Program),
    (program 3).Run (Allowed SweepSafe) (.ok (.start 0)) as (.ok P) ∧ as.countP ProgramStep.isOwn = 30 ∧
    (Program.start 0).workLeft + (as.map ProgramStep.budget).sum = 37 ∧ P.AtRest := by
  obtain ⟨P, hP, hswept⟩ := firstBytesProgram_swept
  obtain rfl : _ = P := Except.ok.inj (Option.some.inj hP)
  have hadded : (program 3).Run (Allowed SweepSafe) (.ok (.start 0))
      (firstBytesProgram.take 4 ++ (firstBytesProgram.drop 4).take 7) _ :=
    hswept.replay (fun a ha => allowed_of_plain
      ((by decide : ∀ a ∈ (firstBytesProgram.drop 4).take 7, a.isPlain = true) a ha)) rfl
  have hswept := hadded.snoc (a := .sys (.sweep [(0, 0)])) ⟨(by rintro p e; cases e), by
    rintro _ ⟨rfl⟩ w R (e | e) <;> cases e⟩ rfl
  have hrun : (program 3).Run (Allowed SweepSafe) (.ok (.start 0)) (_ ++ backToSleep) _ :=
    hswept.replay (fun a ha => allowed_of_plain
      ((by decide : ∀ a ∈ backToSleep, a.isPlain = true) a ha)) rfl
  obtain ⟨P, e, -, hrest⟩ := program_settles (.init ⟨0, rfl⟩) hrun
  cases e
  exact ⟨_, _, hrun, by decide, by decide, hrest.2 (by decide)⟩

end HPServer
