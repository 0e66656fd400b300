import HighPerformanceServer.KeepAlive
import HighPerformanceServer.ThreadsInv
/-!
# Connections used after they are freed

A worker publishes its connection to the timer queue before it has finished with it
(requestData.cpp:202-214). `SweepSafe` leaves out the sweeps that run past the expiry of such a
connection; without them no thread ever touches an object that is not live.
-/

namespace HPServer

open Function CppStd

/-- No sweep finds the timer of a connection expired while a worker is between the push of that
timer and the end of its `epoll_mod`, or of the `delete` behind one that failed. -/
def SweepSafe : Except Fault Sys → Label → Prop
  | .ok x, .sweep script =>
    ∀ w R, x.worker w = .rearming R ∨ x.worker w = .failing R → ¬ x.server.Due script R
  | _, _ => True

def Label.isSweep : Label → Bool
  | .sweep _ => true
  | _ => false

theorem sweepSafe_of_other {a : Label} (h : a.isSweep = false) (x : Except Fault Sys) :
    SweepSafe x a := by
  cases x <;> cases a <;> trivial

/-- No connection is used, or deleted, after it was deleted. -/
def NoUseAfterFree (x : Except Fault Sys) : Prop :=
  ∀ R, x ≠ .error (.requestUsed R) ∧ x ≠ .error (.requestDeleted R)

/-- Nothing has gone wrong, and every connection is in one place. -/
def Sound (x : Except Fault Sys) : Prop := ∃ y own, x = .ok y ∧ Inv own y

theorem Sound.noUseAfterFree {x : Except Fault Sys} (h : Sound x) : NoUseAfterFree x := by
  obtain ⟨y, own, rfl, -⟩ := h
  exact fun R => ⟨by simp, by simp⟩

namespace Inv

variable {own : ReqId → Owner} {s : Server} {m : MainPc} {wk : Nat → WorkerPc} {a : Label}
  {y : Except Fault Sys} {epollFd : Int}

/-- What the operation returned goes back into the state. -/
theorem sound_goMain {pc : MainPc} {v : Except Fault Server}
    (h : ∃ s' own', v = .ok s' ∧ Inv own' ⟨s', pc, wk⟩)
    (hs : Sys.goMain ⟨s, m, wk⟩ pc v = some y) : Sound y := by
  obtain ⟨s', own', rfl, hinv⟩ := h
  cases hs
  exact ⟨_, own', rfl, hinv⟩

theorem sound_goWorker {w : Nat} {pc : WorkerPc} {v : Except Fault Server}
    (h : ∃ s' own', v = .ok s' ∧ Inv own' ⟨s', m, update wk w pc⟩)
    (hs : Sys.goWorker ⟨s, m, wk⟩ w pc v = some y) : Sound y := by
  obtain ⟨s', own', rfl, hinv⟩ := h
  cases hs
  exact ⟨_, own', rfl, hinv⟩

theorem mainStep (h : Inv own ⟨s, m, wk⟩) (hok : SweepSafe (.ok ⟨s, m, wk⟩) a)
    (hs : Sys.mainStep epollFd ⟨s, m, wk⟩ m a = some y) : Sound y := by
  unfold Sys.mainStep at hs
  split at hs
  · -- epoll_wait
    split at hs
    · rename_i hd
      obtain ⟨own', hinv⟩ := h.epollWait hd
      exact sound_goMain ⟨_, own', rfl, hinv⟩ hs
    · cases hs
  · exact sound_goMain ⟨_, own, rfl, h.acceptFails⟩ hs
  · -- accept
    split at hs
    · rename_i hnew
      exact sound_goMain ⟨_, _, rfl, h.accept (Cell.isUnborn_iff.1 hnew.1) epollFd _ _⟩ hs
    · cases hs
  · -- push
    split at hs
    · rename_i R es T now hnew
      obtain ⟨s', hs', hinv⟩ := h.push (Cell.isUnborn_iff.1 hnew.1) now
      exact sound_goMain ⟨s', _, hs', hinv⟩ hs
    · cases hs
  · obtain ⟨s', hs', hinv⟩ := h.errorEvent
    exact sound_goMain ⟨s', _, hs', hinv⟩ hs
  · obtain ⟨s', hs', -, hinv⟩ := h.separate
    exact sound_goMain ⟨s', _, hs', hinv⟩ hs
  · -- pool.add
    split at hs
    · exact sound_goMain ⟨_, _, rfl, h.poolAdd⟩ hs
    · cases hs
  · -- the sweep
    obtain ⟨x, hrun, hs⟩ := Option.bind_eq_some_iff.1 hs
    obtain ⟨s', own', rfl, hinv⟩ := h.sweep hok hrun
    exact sound_goMain ⟨s', own', rfl, hinv⟩ hs
  · cases hs

theorem serveStep (h : Inv own ⟨s, m, wk⟩) {w : Nat} {R : ReqId} (hw : wk w = .serving R)
    {env : CallEnv} (hs : Sys.serveStep ⟨s, m, wk⟩ w env R = some y) : Sound y := by
  have hown := h.serving (Or.inl hw)
  obtain ⟨r, hr, -⟩ := h.heap.timerless (R := R) (by rw [hown]; simp) (by rw [hown]; rfl)
  rw [Sys.serveStep, Server.getRequest_live hr] at hs
  cases hd : (HPServer.serve env r).decision with
  | halted e => simp only [hd] at hs; cases hs
  | delete =>
    simp only [hd] at hs
    exact sound_goWorker ⟨s, own, rfl, h.serve hw (Or.inl rfl) h.heap rfl⟩ hs
  | rearm r' =>
    simp only [hd] at hs
    exact sound_goWorker ⟨_, own, rfl,
      h.serve hw (Or.inr rfl) (h.heap.setRequest hr (serve_same hd).2.2) rfl⟩ hs

theorem workerStep (h : Inv own ⟨s, m, wk⟩) (hs : Sys.workerStep ⟨s, m, wk⟩ a = some y) : Sound y := by
  unfold Sys.workerStep at hs
  split at hs
  · -- a connection taken out of the pool
    split at hs
    · rename_i w R pool hw hp
      exact sound_goWorker ⟨_, _, rfl, h.take hw hp⟩ hs
    · cases hs
  · split at hs
    · rename_i hw
      exact h.serveStep hw hs
    · cases hs
  · split at hs
    · rename_i hw
      obtain ⟨s', hs', hinv⟩ := h.delete (Or.inl hw)
      exact sound_goWorker ⟨s', _, hs', hinv⟩ hs
    · rename_i hw
      obtain ⟨s', hs', hinv⟩ := h.delete (Or.inr hw)
      exact sound_goWorker ⟨s', _, hs', hinv⟩ hs
    · cases hs
  · split at hs
    · rename_i hw
      split at hs
      · rename_i hnew
        obtain ⟨s', hs', -, hinv⟩ := h.rearmPush hw (Cell.isUnborn_iff.1 hnew.1) _
        exact sound_goWorker ⟨s', _, hs', hinv⟩ hs
      · cases hs
    · cases hs
  · split at hs
    · rename_i hw
      obtain ⟨s', own', hs', hinv⟩ := h.epollMod hw _
      exact sound_goWorker ⟨s', own', hs', hinv⟩ hs
    · cases hs
  · cases hs

/-- **One step** of any thread, but for a sweep that is not `SweepSafe`. -/
theorem step {x : Sys} (h : Inv own x) (hok : SweepSafe (.ok x) a) (hs : x.step epollFd a = some y) :
    Sound y := by
  unfold Sys.step at hs
  split at hs
  all_goals first | exact h.workerStep hs | exact h.mainStep hok hs

end Inv

theorem sound_sweepSafe {epollFd : Int} {x : Except Fault Sys} (h : (threads epollFd).Reach SweepSafe x) :
    Sound x := by
  apply h.invariant
  · rintro x ⟨clock, rfl⟩
    exact ⟨_, _, rfl, .start clock⟩
  · rintro x a y ⟨x, own, rfl, hinv⟩ hok hs
    exact hinv.step hok hs

theorem step_sweep {epollFd : Int} {x : Sys} {y : Except Fault Sys} {script : List (TimerId × Nat)}
    (hs : x.step epollFd (.sweep script) = some y) :
    ∃ v, x.server.handleExpiredEvent script = some v ∧
      y = v.map fun s => { x with server := s, main := .wait } := by
  obtain ⟨s, m, wk⟩ := x
  match m, hs with
  | .handling [], hs =>
    obtain ⟨v, hrun, hs⟩ := Option.bind_eq_some_iff.1 hs
    cases hs
    exact ⟨v, hrun, rfl⟩

/-- No sweep is left out without need: behind one that is not `SweepSafe`, the next step of the
worker touches the freed connection. -/
theorem dueSweep_useAfterFree {epollFd : Int} {x : Sys} {y : Except Fault Sys} {own : ReqId → Owner}
    {script : List (TimerId × Nat)} (h : Inv own x) (hbad : ¬ SweepSafe (.ok x) (.sweep script))
    (hs : x.step epollFd (.sweep script) = some y) :
    ∃ x' a z, y = .ok x' ∧ x'.step epollFd a = some z ∧ ¬ NoUseAfterFree z := by
  simp only [SweepSafe, not_forall, not_not] at hbad
  obtain ⟨w, R, hw, hdue⟩ := hbad
  obtain ⟨v, hrun, rfl⟩ := step_sweep hs
  obtain ⟨s', own', rfl, -, hheap, hmoved⟩ := h.heap.sweep hrun
  have hgone : ¬ (s'.request R).Live := by
    rw [hheap.live R, (hmoved R).1 hdue]; simp
  rcases hw with hw | hw
  · refine ⟨_, .epollMod w true, .error (.requestUsed R), rfl, ?_, fun hno => (hno R).1 rfl⟩
    simp only [Sys.step, Sys.workerStep, hw, Sys.goWorker, Server.epollMod,
      Server.getRequest_gone hgone]
    rfl
  · refine ⟨_, .delete w, .error (.requestDeleted R), rfl, ?_, fun hno => (hno R).2 rfl⟩
    simp only [Sys.step, Sys.workerStep, hw, Sys.goWorker, Server.deleteRequest_gone hgone]
    rfl

/-- **Bug** (`requestData.cpp:199-214`): the timer is pushed before the re-arm, so a sweep that
finds it expired in between frees the connection under the worker. In every run without such a
sweep, no connection is used after it was freed. -/
theorem noUseAfterFree_sweepSafe {epollFd : Int} {x : Except Fault Sys}
    (h : (threads epollFd).Reach SweepSafe x) : NoUseAfterFree x :=
  (sound_sweepSafe h).noUseAfterFree

def accepted : List Label := [.epollWait [.listen], .accept 0 5 true, .push 0 0]

/-- The first bytes arrive, and the worker pushes the timer. -/
def firstBytes : List Label :=
  [.epollWait [.request 0 false], .separate, .poolAdd, .take 0, .serve 0 (reading (ascii "GET")),
    .rearmPush 0 1 0]

theorem firstBytes_noUseAfterFree : ∃ x, (threads 3).Reach SweepSafe (.ok x) ∧
    x.server.armed 0 = true ∧ NoUseAfterFree (.ok x) := by
  have hstart : (threads 3).Reach SweepSafe (.ok (.start 0)) := .init ⟨0, rfl⟩
  have haccepted : (threads 3).Reach SweepSafe _ := Lts.reach_of_replay_ok accepted
    (fun a ha => sweepSafe_of_other ((by decide : ∀ a ∈ accepted, a.isSweep = false) a ha)) hstart rfl
  have hswept : (threads 3).Reach SweepSafe _ :=
    .step haccepted (a := .sweep [(0, 0)]) (by rintro w R (e | e) <;> cases e) rfl
  have hrearmed : (threads 3).Reach SweepSafe _ := Lts.reach_of_replay_ok
    (firstBytes ++ [.epollMod 0 true])
    (fun a ha => sweepSafe_of_other
      ((by decide : ∀ a ∈ firstBytes ++ [.epollMod 0 true], a.isSweep = false) a ha)) hswept rfl
  exact ⟨_, hrearmed, rfl, noUseAfterFree_sweepSafe hrearmed⟩

/-- Half a second passes between the push of the timer and the re-arm. -/
def lateSweep : List Label :=
  accepted ++ [.sweep [(0, 0)]] ++ firstBytes ++ [.sweep [(0, 500), (1, 500)], .epollMod 0 true]

/-- `epoll_mod` on a freed connection. -/
theorem lateSweep_useAfterFree :
    ¬ ∀ (epollFd : Int) (x : Except Fault Sys), (threads epollFd).Reachable x → NoUseAfterFree x := by
  intro h
  have hreach : (threads 3).Reachable (.error (.requestUsed 0)) :=
    Lts.reach_of_replay lateSweep (.init ⟨0, rfl⟩) rfl
  exact (h 3 _ hreach 0).1 rfl

end HPServer
