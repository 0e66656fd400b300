import HighPerformanceServer.Expiry
import HighPerformanceServer.Sweep
import HighPerformanceServer.ThreadPoolProgress
/-!
# The whole program never stalls but in calls that do not return

Outside of `epoll_wait` and `pool.add`, `main` has a step of its own, and so has every worker in
`handleRequest` whose call returns. In `pool.add`, and with a task in the queue and a worker to take
it, some thread of the pool has one. So the program stands still where it may (`main` in
`epoll_wait`, no task queued, no connection in anybody's hand), and where every busy worker is in a
call that never returns (`program_neverStalls`): `writen` goes on while it gets `EAGAIN`
(this_util.cpp:41-43), and behind an exception or something undefined the worker makes no step.

| here | there |
| --- | --- |
| `SysAnswers`        | what the system answers to `accept`, the clock, a call, and `epoll_ctl` |
| `exists_mainStep`   | the loop of `main` (main.cpp:185-192), but for `epoll_wait` and `pool.add` |
| `exists_workerStep` | `handleRequest` (requestData.cpp:108-215), a call up to its decision as one step |
| `exists_poolStep`   | `add` and `do_thread` (threadpool.cpp:244-297) |
-/

namespace HPServer

open Function CppStd

/-- Of a thread that is not in `epoll_wait`, and not a wake-up without a notify. -/
def ProgramStep.isOwn : ProgramStep → Bool
  | .sys (.epollWait _) => false
  | .sys _ => true
  | .pool (.call _ _) => true
  | .pool m => m.isOwn

/-! ## The answers of the system -/

/-- What the system answers next: the descriptor of a new client (none, when `accept` or
`setSocketNonBlocking` fails) and whether `epoll_add` takes it; the readings of the clock; all that the
call of each worker asks for; and whether `epoll_mod` succeeds. -/
structure SysAnswers where
  accepted : Option (Int × Bool)
  positive : ∀ c ∈ accepted, 0 < c.1
  reading : Nat → Nat
  mono : Monotone reading
  call : Nat → CallEnv
  modified : Bool

/-- The sweep of `s` that reads the clock `A` shows. -/
def SysAnswers.Sweeps (A : SysAnswers) (s : Server) (script : List (TimerId × Nat)) : Prop :=
  ∃ looked s', s.sweep (leastFirst A.reading A.mono) (s.myTimerQueue.length + 1) [] =
      some (.ok (looked, s')) ∧ s.handleExpiredEvent script = some (.ok s')

/-- The step that a thread takes on these answers. -/
def SysAnswers.Give (A : SysAnswers) (s : Server) : ProgramStep → Prop
  | .sys .acceptFails => A.accepted = none
  | .sys (.accept _ fd added) => A.accepted = some (fd, added)
  | .sys (.push _ now) | .sys (.rearmPush _ _ now) => now = A.reading 0
  | .sys (.sweep script) => A.Sweeps s script
  | .sys (.serve w env) => env = A.call w
  | .sys (.epollMod _ done) => done = A.modified
  | _ => True

/-- On these answers the call of worker `w` does not return. -/
def Sys.Hangs (x : Sys) (A : SysAnswers) (w : Nat) : Prop :=
  ∃ R r e, x.worker w = .serving R ∧ x.server.request R = .live r ∧
    (serve (A.call w) r).decision = .halted e

/-! ## There is room on the heap -/

/-- There is room for another connection. -/
def Server.Spacious (s : Server) : Prop := ∃ n, ∀ R, n ≤ R → s.request R = .unborn

namespace Server

variable {s s' : Server} {R : ReqId}

theorem Roomy.exists_timer (h : s.Roomy) : ∃ T, s.timer T = .unborn ∧ (s.timer T).isUnborn = true := by
  obtain ⟨n, hn⟩ := h
  have hT := hn n (Nat.le_refl n)
  exact ⟨n, hT, Cell.isUnborn_iff.2 hT⟩

theorem Spacious.exists_request (h : s.Spacious) : ∃ R, (s.request R).isUnborn = true := by
  obtain ⟨n, hn⟩ := h
  exact ⟨n, Cell.isUnborn_iff.2 (hn n (Nat.le_refl n))⟩

theorem Keeps.spacious (h : s.Keeps s') (hs : s.Spacious) : s'.Spacious := by
  obtain ⟨n, hn⟩ := hs
  refine ⟨n, fun R hR => ?_⟩
  have hkept := h R
  rw [hn R hR] at hkept
  generalize s'.request R = c at hkept ⊢
  cases hkept
  rfl

theorem Spacious.update {c : Cell RequestData} (hs : s.Spacious) (h : s'.request = update s.request R c) :
    s'.Spacious := by
  obtain ⟨n, hn⟩ := hs
  refine ⟨max n (R + 1), fun R' hR' => ?_⟩
  obtain ⟨hle, hlt⟩ := Nat.max_le.1 hR'
  rw [h, update_of_ne (Nat.ne_of_gt hlt), hn R' hle]

end Server

theorem Sys.step_spacious {x y : Sys} {a : Label} {epollFd : Int} (hs : x.step epollFd a = some (.ok y))
    (hx : x.server.Spacious) : y.server.Spacious := by
  cases hquiet : a.isQuiet with
  | true => exact (step_keeps hquiet hs).1.spacious hx
  | false =>
    cases a with
    | accept R fd added =>
      obtain ⟨-, -, hserver, -⟩ := accept_ok hs
      exact hx.update (by rw [hserver]; rfl)
    | serve w env =>
      obtain ⟨R, r, -, -, ⟨-, rfl⟩ | ⟨r', -, rfl⟩⟩ := serve_ok hs
      · exact hx
      · exact hx.update rfl
    | epollWait | acceptFails | push | errorEvent | separate | poolAdd | sweep | take | delete | rearmPush
      | epollMod => cases hquiet

theorem Sys.reach_roomy {epollFd : Int} {ok : Except Fault Sys → Label → Prop} {z : Except Fault Sys}
    (h : (threads epollFd).Reach ok z) : ∀ x, z = .ok x → x.server.Roomy ∧ x.server.Spacious := by
  refine h.invariant (P := fun z => ∀ x, z = .ok x → x.server.Roomy ∧ x.server.Spacious) ?_ ?_
  · rintro _ ⟨clock, rfl⟩ x ⟨rfl⟩
    exact ⟨⟨0, fun _ _ => rfl⟩, 0, fun _ _ => rfl⟩
  · rintro (f | x) a _ hx - hs y rfl
    · cases hs
    · obtain ⟨hroomy, hspacious⟩ := hx x rfl
      exact ⟨(Sys.step_ages hs).roomy hroomy, Sys.step_spacious hs hspacious⟩

/-! ## Outside of the pool -/

/-- On these answers some thread has a step of its own outside of the pool. -/
def Sys.Moves (x : Sys) (epollFd : Int) (A : SysAnswers) : Prop :=
  ∃ a y, a.leavesPool = true ∧ (ProgramStep.sys a).isOwn = true ∧ A.Give x.server (.sys a) ∧
    x.step epollFd a = some (.ok y)

namespace Inv

variable {own : ReqId → Owner} {x : Sys} {epollFd : Int} {w : Nat} {A : SysAnswers}

/-- The sweep comes to its end whatever the clock shows. -/
theorem exists_sweep (h : Inv own x) (hlater : x.server.clock ≤ A.reading 0) :
    ∃ script s', A.Sweeps x.server script ∧ x.server.handleExpiredEvent script = some (.ok s') := by
  obtain ⟨looked, s', hrun, -⟩ := sweep_end h.heap.pairing.sweepable (x.server.myTimerQueue.length + 1)
    [] x.server (.start : SweepInv (leastFirst A.reading A.mono) x.server x.server []) (Nat.lt_succ_self _)
  obtain ⟨script, hscript⟩ := Server.sweep_handleExpiredEvent _ [] x.server hlater hrun
  exact ⟨script, s', ⟨looked, s', hrun, hscript⟩, hscript⟩

/-- `main` goes on, but for `epoll_wait` and `add`. -/
theorem exists_mainStep (h : Inv own x) (hroom : x.server.Roomy) (hspace : x.server.Spacious)
    (hlater : x.server.clock ≤ A.reading 0) (hwait : x.main ≠ .wait)
    (hadd : ∀ R es, x.main ≠ .adding R es) : x.Moves epollFd A := by
  obtain ⟨s, m, wk⟩ := x
  obtain ⟨T, hT, hnew⟩ := hroom.exists_timer
  cases m with
  | wait => exact absurd rfl hwait
  | adding R es => exact absurd rfl (hadd R es)
  | stamping R es =>
    obtain ⟨s', hs', -⟩ := h.push hT (A.reading 0)
    have hguard : (s.timer T).isUnborn = true ∧ s.clock ≤ A.reading 0 := ⟨hnew, hlater⟩
    exact ⟨.push T (A.reading 0), _, rfl, rfl, rfl,
      by simp [Sys.step, Sys.mainStep, Sys.goMain, hguard, hs']; rfl⟩
  | handling es =>
    cases es with
    | nil =>
      obtain ⟨script, s', hsweeps, hs'⟩ := h.exists_sweep hlater
      exact ⟨.sweep script, _, rfl, rfl, hsweeps, by simp [Sys.step, Sys.mainStep, Sys.goMain, hs']; rfl⟩
    | cons e es =>
      cases e with
      | listen =>
        cases hA : A.accepted with
        | none => exact ⟨.acceptFails, _, rfl, rfl, hA, rfl⟩
        | some c =>
          obtain ⟨R, hR⟩ := hspace.exists_request
          have hguard : (s.request R).isUnborn = true ∧ 0 < c.1 := ⟨hR, A.positive c hA⟩
          exact ⟨.accept R c.1 c.2, _, rfl, rfl, hA,
            by simp [Sys.step, Sys.mainStep, Sys.goMain, hguard]; rfl⟩
      | request R err =>
        cases err with
        | true =>
          obtain ⟨s', hs', -⟩ := h.errorEvent
          exact ⟨.errorEvent, _, rfl, rfl, trivial, by simp [Sys.step, Sys.mainStep, Sys.goMain, hs']; rfl⟩
        | false =>
          obtain ⟨s', hs', -⟩ := h.separate
          exact ⟨.separate, _, rfl, rfl, trivial, by simp [Sys.step, Sys.mainStep, Sys.goMain, hs']; rfl⟩

/-- A worker in `handleRequest` goes on, or its call does not return. -/
theorem exists_workerStep (h : Inv own x) (hroom : x.server.Roomy) (hlater : x.server.clock ≤ A.reading 0)
    (hw : x.worker w ≠ .idle) : x.Hangs A w ∨ x.Moves epollFd A := by
  obtain ⟨s, m, wk⟩ := x
  obtain ⟨T, hT, hnew⟩ := hroom.exists_timer
  cases hpc : wk w with
  | idle => exact absurd hpc hw
  | serving R =>
    have hown : own R = .serving w := h.serving (Or.inl hpc)
    obtain ⟨r, hr⟩ := (h.heap.live R).2 (by rw [hown]; nofun)
    have hget := Server.getRequest_live hr
    cases hserve : (HPServer.serve (A.call w) r).decision with
    | halted e => exact Or.inl ⟨R, r, e, hpc, hr, hserve⟩
    | delete | rearm r' =>
      exact Or.inr ⟨.serve w (A.call w), _, rfl, rfl, rfl,
        by simp [Sys.step, Sys.workerStep, Sys.serveStep, Sys.goWorker, hpc, hget, hserve]; rfl⟩
  | deleting R =>
    obtain ⟨s', hs', -⟩ := h.delete (Or.inl hpc)
    exact Or.inr ⟨.delete w, _, rfl, rfl, trivial,
      by simp [Sys.step, Sys.workerStep, Sys.goWorker, hpc, hs']; rfl⟩
  | failing R =>
    obtain ⟨s', hs', -⟩ := h.delete (Or.inr hpc)
    exact Or.inr ⟨.delete w, _, rfl, rfl, trivial,
      by simp [Sys.step, Sys.workerStep, Sys.goWorker, hpc, hs']; rfl⟩
  | pushing R =>
    obtain ⟨s', hs', -⟩ := h.rearmPush hpc hT (A.reading 0)
    have hguard : (s.timer T).isUnborn = true ∧ s.clock ≤ A.reading 0 := ⟨hnew, hlater⟩
    exact Or.inr ⟨.rearmPush w T (A.reading 0), _, rfl, rfl, rfl,
      by simp [Sys.step, Sys.workerStep, Sys.goWorker, hpc, hguard, hs']; rfl⟩
  | rearming R =>
    obtain ⟨s', own', hs', -⟩ := h.epollMod hpc A.modified
    exact Or.inr ⟨.epollMod w A.modified, _, rfl, rfl, rfl,
      by simp [Sys.step, Sys.workerStep, Sys.goWorker, hpc, hs']; rfl⟩

end Inv

/-! ## In the pool -/

section Pool

variable {P P' : Program} {m : PoolMove ReqId} {epollFd : Int} {y : Except Fault Program}

theorem Program.movePool_eq {pool : PoolSys ReqId} (hs : P.pool.step 1 m = some pool) :
    P.movePool m = some { P with pool := pool } := by
  rw [Program.movePool, hs]
  rfl

theorem Program.poolStep_pool (hs : P.poolStep m = some P') : P.pool.step 1 m = some P'.pool := by
  have hmove : ∀ {P₁}, P.movePool m = some P₁ → P.pool.step 1 m = some P₁.pool := by
    intro P₁ h
    obtain ⟨pool, hpool, rfl⟩ := Option.map_eq_some_iff.1 h
    exact hpool
  have hmap : ∀ {f : Program → Program}, (∀ Q, (f Q).pool = Q.pool) → (P.movePool m).map f = some P' →
      P.pool.step 1 m = some P'.pool := by
    intro f hf h
    obtain ⟨P₁, hP₁, rfl⟩ := Option.map_eq_some_iff.1 h
    rw [hf]
    exact hmove hP₁
  unfold Program.poolStep at hs
  split at hs
  · split at hs
    · split at hs
      · exact hmove hs
      · cases hs
    · cases hs
  · split at hs
    · rename_i es _
      exact hmap (f := (·.goMain (.handling es))) (fun _ => rfl) hs
    · cases hs
  · split at hs
    · rename_i w _ _ R _
      exact hmap (f := (·.goWorker w (.serving R))) (fun _ => rfl) hs
    · cases hs
  · split at hs
    · exact hmove hs
    · cases hs
    · exact hmove hs
  all_goals first | exact hmove hs | cases hs

/-- The pool wakes whom it has to. -/
theorem program_wakeOk (h : (program epollFd).Reach (Allowed SweepSafe) y) :
    ∀ P, y = .ok P → PoolSys.WakeOk 1 P.pool := by
  induction h with
  | init h =>
    obtain ⟨clock, rfl⟩ := h
    rintro P ⟨rfl⟩
    exact .start _ _
  | @step y y' a hreach hok hs ih =>
    rintro P' rfl
    cases y with
    | error f => cases hs
    | ok P =>
      have hwake := ih P rfl
      obtain ⟨_, own, ⟨⟩, hPok, -⟩ := program_sound hreach
      cases a with
      | sys a =>
        obtain ⟨-, hs⟩ := Option.ite_none_right_eq_some.1 hs
        obtain ⟨v, -, hv⟩ := Option.map_eq_some_iff.1 hs
        cases v with
        | error f => cases hv
        | ok sys =>
          cases hv
          exact hwake
      | pool m =>
        obtain ⟨Q, hQ, hv⟩ := Option.map_eq_some_iff.1 hs
        cases hv
        exact hwake.step hPok.queue (Program.poolStep_pool hQ)

/-- With a task and an idle worker, with a slot for the task of `main`, or with an idle worker that is
not asleep, the pool goes on. -/
theorem ProgramOk.exists_poolStep (h : ProgramOk P) (hwake : PoolSys.WakeOk 1 P.pool)
    (hwork : (P.queued ≠ [] ∧ ∃ w < P.pool.pool.threadCount, P.sys.worker w = .idle) ∨
      (P.queued.length < QUEUE_SIZE ∧ ∃ R es, P.sys.main = .adding R es) ∨
      ∃ w < P.pool.pool.threadCount, P.sys.worker w = .idle ∧ P.pool.worker w ≠ .asleep) :
    ∃ m P', (ProgramStep.pool m).isOwn = true ∧ P.poolStep m = some P' := by
  by_cases hcall : (∃ R es, P.sys.main = .adding R es) ∧ ∃ ret, P.pool.producer 0 = .returned ret
  · -- `main` is about to call `add`
    obtain ⟨⟨R, es, hmain⟩, ret, hret⟩ := hcall
    have hstep : P.pool.step 1 (.call 0 (some R)) = some (P.pool.setProducer 0 (.locking R)) := by
      simp [PoolSys.step, PoolSys.call, hret]
    exact ⟨.call 0 (some R), _, rfl, by simp [Program.poolStep, hmain, Program.movePool_eq hstep]; rfl⟩
  have hlen := h.queued_length
  have hmoves : (0 < P.pool.pool.waitingTaskNum ∧ ∃ w < P.pool.pool.threadCount, ¬P.sys.worker w ≠ .idle) ∨
      (P.pool.pool.waitingTaskNum < P.pool.pool.queueSize ∧ ∃ p, ∀ ret, P.pool.producer p ≠ .returned ret) ∨
      ∃ w < P.pool.pool.threadCount, ¬P.sys.worker w ≠ .idle ∧ P.pool.worker w ≠ .asleep := by
    simp only [not_not]
    rcases hwork with ⟨hqueued, hidle⟩ | ⟨hroom, hadding⟩ | hawake
    · exact Or.inl ⟨hlen ▸ List.length_pos_iff.2 hqueued, hidle⟩
    · exact Or.inr (Or.inl ⟨by rw [h.size.size, ← hlen]; exact hroom,
        0, fun ret hret => hcall ⟨hadding, ret, hret⟩⟩)
    · exact Or.inr (Or.inr hawake)
  obtain ⟨m, pool, hown, hs, -, hfree⟩ := hwake.canMoveBeside h.queue h.running h.worker hmoves
  have hmove := Program.movePool_eq hs
  cases m with
  | call | spuriousAdd | spuriousDoThread | shutdown | notifyAll | join => cases hown
  | add p => exact ⟨.add p, _, rfl, hmove⟩
  | store p notified =>
    obtain ⟨task, worker, hp, -, -⟩ := PoolSys.storeStep_cases hs
    obtain rfl := h.one.only (p := p) fun ret hret => by rw [hret] at hp; cases hp
    obtain ⟨es, hmain⟩ := h.main task (by rw [hp]; rfl)
    exact ⟨.store 0 notified, _, rfl, by simp [Program.poolStep, hmain, hmove]; rfl⟩
  | doThread w =>
    have hidle : P.sys.worker w = .idle := not_not.1 fun hw => hfree w hw rfl
    have hstep : P.poolStep (.doThread w) = P.movePool (.doThread w) := by
      simp only [Program.poolStep, hidle]
      split <;> rfl
    exact ⟨.doThread w, _, rfl, hstep.trans hmove⟩
  | dequeue w notified =>
    obtain ⟨producer, hw, -, -⟩ := PoolSys.dequeueStep_cases hs
    have hpos : 0 < P.pool.pool.waitingTaskNum := by
      have hok := h.queue.workers w
      rwa [hw] at hok
    obtain ⟨R, hfront⟩ : ∃ R, P.pool.pool.front = some R := by
      have hpending := (h.queue.ring.dequeue hpos).2
      rw [h.pending] at hpending
      cases hqueued : P.queued with
      | nil => rw [hqueued] at hpending; cases hpending
      | cons R Rs =>
        rw [hqueued] at hpending
        exact ⟨R, (List.cons.inj hpending).1.symm⟩
    exact ⟨.dequeue w notified, _, rfl, by simp [Program.poolStep, hfront, hmove]; rfl⟩

end Pool

/-! ## The program -/

/-- `main` is in `epoll_wait`, nobody has a connection in hand, and the workers are asleep. -/
structure Program.AtRest (P : Program) : Prop where
  main : P.sys.main = .wait
  queued : P.queued = []
  idle : ∀ w, P.sys.worker w = .idle
  asleep : ∀ w < P.pool.pool.threadCount, P.pool.worker w = .asleep

/-- `main` waits for an event or for a slot, every busy worker is in a call that does not return, and
with a task in the queue so is every worker. -/
structure Program.Hung (P : Program) (A : SysAnswers) : Prop where
  main : P.sys.main = .wait ∨ ∃ R es, P.sys.main = .adding R es ∧ P.queued.length = QUEUE_SIZE
  busy : ∃ w, P.sys.worker w ≠ .idle
  hangs : ∀ w, P.sys.worker w ≠ .idle → P.sys.Hangs A w
  queued : P.queued ≠ [] → ∀ w < P.pool.pool.threadCount, P.sys.Hangs A w

/-- On the answers of `A` some thread goes on. -/
def Program.Moves (P : Program) (epollFd : Int) (A : SysAnswers) : Prop :=
  ∃ a P', a.isOwn = true ∧ A.Give P.abstract.server a ∧ (program epollFd).step (.ok P) a = some (.ok P')

/-- Until the program is at rest some thread goes on, or what there is to do is up to calls that do not
return. -/
theorem Program.exists_ownStep {epollFd : Int} {P : Program} {A : SysAnswers}
    (h : (program epollFd).Reach (Allowed SweepSafe) (.ok P)) (hlater : P.sys.server.clock ≤ A.reading 0)
    (hrest : ¬P.AtRest) : P.Moves epollFd A ∨ P.Hung A := by
  obtain ⟨x, hx, rfl, hP⟩ := (program_simulation epollFd SweepSafe).reach h
  have hok := hP P rfl
  obtain ⟨z, own, hz, hinv⟩ := sound_sweepSafe hx
  cases hz
  obtain ⟨hroom, hspace⟩ := Sys.reach_roomy hx _ rfl
  have hsys : P.abstract.Moves epollFd A → P.Moves epollFd A := by
    rintro ⟨a, x, ha, hown, hgive, hs⟩
    obtain ⟨y, hy, hs⟩ := Option.map_eq_some_iff.1 ((Sys.step_withPool ha P.sys P.queued).symm.trans hs)
    cases y with
    | error f => cases hs
    | ok sys =>
      refine ⟨.sys a, { P with sys := sys }, hown, hgive, ?_⟩
      show (if a.leavesPool then _ else _) = _
      rw [if_pos ha, hy]
      rfl
  by_cases hmoves : P.Moves epollFd A
  · exact Or.inl hmoves
  have hpool : ¬∃ m P', (ProgramStep.pool m).isOwn = true ∧ P.poolStep m = some P' := by
    rintro ⟨m, P', hown, hs⟩
    refine hmoves ⟨.pool m, P', hown, trivial, ?_⟩
    show (P.poolStep m).map Except.ok = _
    rw [hs]
    rfl
  have hexists := hok.exists_poolStep (program_wakeOk h P rfl)
  have hhangs : ∀ w, P.sys.worker w ≠ .idle → P.sys.Hangs A w := fun w hw =>
    (hinv.exists_workerStep (A := A) hroom hlater hw).resolve_right fun hx => hmoves (hsys hx)
  have hqueued : P.queued ≠ [] → ∀ w < P.pool.pool.threadCount, P.sys.worker w ≠ .idle :=
    fun hne w hw hidle => hpool (hexists (Or.inl ⟨hne, w, hw, hidle⟩))
  have hmain : P.sys.main = .wait ∨ ∃ R es, P.sys.main = .adding R es := by
    by_contra hno
    rw [not_or] at hno
    exact hmoves (hsys (hinv.exists_mainStep hroom hspace hlater hno.1 fun R es e => hno.2 ⟨R, es, e⟩))
  have hfull : ∀ R es, P.sys.main = .adding R es → P.queued.length = QUEUE_SIZE := by
    intro R es hadding
    have hle : P.queued.length ≤ QUEUE_SIZE := by
      rw [hok.queued_length, ← hok.size.size]
      exact hok.queue.ring.count
    refine hle.antisymm (Nat.not_lt.1 fun hlt => ?_)
    exact hpool (hexists (Or.inr (Or.inl ⟨hlt, R, es, hadding⟩)))
  have hbusy : ∃ w, P.sys.worker w ≠ .idle := by
    by_contra hno
    have hidle : ∀ w, P.sys.worker w = .idle := fun w => not_not.1 fun hw => hno ⟨w, hw⟩
    have hempty : P.queued = [] := not_not.1 fun hne =>
      hqueued hne 0 (program_wakeOk h P rfl).nonempty (hidle 0)
    refine hrest ⟨hmain.resolve_right ?_, hempty, hidle, fun w hw => not_not.1 fun hawake => ?_⟩
    · rintro ⟨R, es, hadding⟩
      have hlen := hfull R es hadding
      rw [hempty] at hlen
      cases hlen
    · exact hpool (hexists (Or.inr (Or.inr ⟨w, hw, hidle w, hawake⟩)))
  refine Or.inr ⟨?_, hbusy, hhangs, fun hne w hw => hhangs w (hqueued hne w hw)⟩
  exact hmain.imp_right fun ⟨R, es, hadding⟩ => ⟨R, es, hadding, hfull R es hadding⟩

/-- **The program never stalls** but in calls that do not return. In every run in which the wait of
`main` for a slot ends only behind a notify and no sweep finds a connection due that a worker is
re-arming, as long as `main` is not in `epoll_wait`, a task is queued or a worker is busy with a
connection, whatever the system answers some thread has a step that does not wait for an event or a
wake-up, and it touches nothing that is gone; unless every busy worker, and with a task in the queue
every worker, is in a call that does not return on these answers. -/
theorem program_neverStalls {epollFd : Int} {P : Program} {A : SysAnswers}
    (h : (program epollFd).Reach (Allowed SweepSafe) (.ok P)) (hlater : P.sys.server.clock ≤ A.reading 0)
    (hwork : P.sys.main ≠ .wait ∨ P.queued ≠ [] ∨ ∃ w, P.sys.worker w ≠ .idle) :
    P.Moves epollFd A ∨ P.Hung A := by
  refine Program.exists_ownStep h hlater fun hrest => ?_
  rcases hwork with hmain | hqueued | ⟨w, hw⟩
  · exact hmain hrest.main
  · exact hqueued hrest.queued
  · exact hw (hrest.idle w)

/-- A client comes at every `accept`, and every call reads `b`. -/
def readingAll (b : Bytes) : SysAnswers where
  accepted := some (5, true)
  positive := by rintro c ⟨⟩; decide
  reading _ := 0
  mono _ _ _ := Nat.le_refl _
  call _ := reading b
  modified := true

/-- Worker 0 has taken the connection, and its call reads the first bytes and returns. -/
theorem firstBytesProgram_neverStalls : ∃ P : Program, P.sys.worker 0 = .serving 0 ∧
    P.Moves 3 (readingAll (ascii "GET")) := by
  obtain ⟨P, hP, hswept⟩ := firstBytesProgram_swept
  obtain rfl : _ = P := Except.ok.inj (Option.some.inj hP)
  have hplain : ∀ a ∈ (firstBytesProgram.drop 4).take 11, a.isPlain = true := by decide
  have htaken : (program 3).Reach (Allowed SweepSafe) (.ok _) :=
    Lts.reach_of_replay_ok ((firstBytesProgram.drop 4).take 11) (fun a ha => allowed_of_plain (hplain a ha))
      (hswept.reach (.init ⟨0, rfl⟩)) rfl
  refine ⟨_, rfl, (program_neverStalls (A := readingAll (ascii "GET")) htaken (Nat.le_refl 0)
    (Or.inr (Or.inr ⟨0, ?_⟩))).resolve_right ?_⟩
  · rintro ⟨⟩
  · intro hhung
    obtain ⟨R, r, e, hR, hr, hdecision⟩ := hhung.hangs 0 (by rintro ⟨⟩)
    cases hR
    cases hr
    cases hdecision

end HPServer
