import HighPerformanceServer.Threads
/-!
# Steps that leave the pool alone

The operations on connections and timers do not look at the pool: with another list in its place
they do the same and leave that list there (`Poolless`). Only `poolAdd` and `take` touch it
(`step_withPool`).
-/

namespace HPServer

namespace Server

def withPool (s : Server) (pool : List ReqId) : Server := { s with pool := pool }

/-- An operation that does not look at the pool. -/
def Poolless (f : Server → Except Fault Server) : Prop :=
  ∀ s pool, f (s.withPool pool) = (f s).map (withPool · pool)

theorem Poolless.bind {f g : Server → Except Fault Server} (hf : Poolless f) (hg : Poolless g) :
    Poolless fun s => f s >>= g := by
  intro s pool
  show (f (s.withPool pool) >>= g) = (f s >>= g).map (withPool · pool)
  rw [hf s pool]
  cases f s with
  | error e => rfl
  | ok s₁ => exact hg s₁ pool

theorem poolless_pure {f : Server → Server} (hf : ∀ s pool, f (s.withPool pool) = (f s).withPool pool) :
    Poolless fun s => .ok (f s) := fun s pool => congrArg Except.ok (hf s pool)

theorem poolless_clearReq (t : Option TimerId) : Poolless (clearReq · t) := by
  intro s pool
  cases t with
  | none => rfl
  | some T =>
    simp only [clearReq, getTimer, withPool]
    cases s.timer T <;> rfl

theorem poolless_deleteRequest (R : ReqId) : Poolless (deleteRequest · R) := by
  intro s pool
  simp only [deleteRequest, withPool]
  cases s.request R with
  | live r =>
    exact ((poolless_clearReq r.timer).bind
      (poolless_pure (f := fun s => { s with request := Function.update s.request R .freed })
        fun _ _ => rfl)) (s.setArmed R false) pool
  | unborn | freed => rfl

theorem poolless_deleteTimer (T : TimerId) : Poolless (deleteTimer · T) := by
  intro s pool
  simp only [deleteTimer, withPool]
  have hfree := poolless_pure (f := fun s => { s with timer := Function.update s.timer T .freed })
    fun _ _ => rfl
  cases s.timer T with
  | live t =>
    cases hR : t.requestData with
    | none => simp only [hR]; rfl
    | some R => simp only [hR]; exact ((poolless_deleteRequest R).bind hfree) s pool
  | unborn | freed => rfl

theorem poolless_separate (R : ReqId) : Poolless (separate · R) := by
  intro s pool
  simp only [separate, separateTimer, getRequest, withPool]
  cases s.request R with
  | live r =>
    exact ((poolless_clearReq r.timer).bind
      (poolless_pure (f := fun s => s.setRequest R r.separateTimer) fun _ _ => rfl)) s pool
  | unborn | freed => rfl

theorem poolless_errorEvent (R : ReqId) : Poolless (errorEvent · R) := by
  intro s pool
  have hdel := poolless_deleteRequest R s pool
  simp only [errorEvent, getRequest, withPool] at hdel ⊢
  cases s.request R with
  | live r => exact hdel
  | unborn | freed => rfl

theorem poolless_acceptPush (R : ReqId) (T : TimerId) (now : Nat) : Poolless (acceptPush · R T now) := by
  intro s pool
  simp only [acceptPush, newTimer, getRequest, setTimer, withPool]
  cases s.request R <;> rfl

theorem poolless_rearmPush (R : ReqId) (T : TimerId) (now : Nat) : Poolless (rearmPush · R T now) := by
  intro s pool
  simp only [rearmPush, newTimer, getRequest, setTimer, withPool]
  cases s.request R <;> rfl

theorem poolless_epollMod (R : ReqId) (done : Bool) : Poolless (epollMod · R done) := by
  intro s pool
  simp only [epollMod, getRequest, withPool]
  cases s.request R <;> cases done <;> rfl

theorem poolless_popDelete (T : TimerId) : Poolless (popDelete · T) := fun s pool =>
  poolless_deleteTimer T { s with myTimerQueue := s.myTimerQueue.erase T } pool

theorem handleExpiredEvent_withPool (script : List (TimerId × Nat)) (s : Server) (pool : List ReqId) :
    (s.withPool pool).handleExpiredEvent script =
      (s.handleExpiredEvent script).map (·.map (withPool · pool)) := by
  induction script generalizing s with
  | nil =>
    simp only [handleExpiredEvent]
    by_cases hempty : s.myTimerQueue = []
    · rw [if_pos hempty, if_pos (show (s.withPool pool).myTimerQueue = [] from hempty)]
      rfl
    · rw [if_neg hempty, if_neg (show ¬ (s.withPool pool).myTimerQueue = [] from hempty)]
      rfl
  | cons e script ih =>
    obtain ⟨T, now⟩ := e
    simp only [handleExpiredEvent]
    by_cases hguard : s.IsTop T ∧ s.clock ≤ now
    · rw [if_pos hguard, if_pos (show (s.withPool pool).IsTop T ∧ (s.withPool pool).clock ≤ now from hguard)]
      simp only [getTimer, withPool]
      cases s.timer T with
      | live t =>
        dsimp only
        by_cases hdel : t.deleted = true
        · rw [if_pos hdel, if_pos hdel]
          have hpop := poolless_popDelete T { s with clock := now } pool
          simp only [withPool] at hpop
          rw [hpop]
          cases { s with clock := now }.popDelete T with
          | error f => rfl
          | ok s₁ => exact ih s₁
        · rw [if_neg hdel, if_neg hdel]
          unfold TimerStamp.isvalid
          by_cases hvalid : now < t.expiredTime
          · simp only [if_pos hvalid]
            by_cases hlast : script = []
            · rw [if_pos hlast, if_pos hlast]; rfl
            · rw [if_neg hlast, if_neg hlast]; rfl
          · simp only [if_neg hvalid]
            have hpop := poolless_popDelete T ({ s with clock := now }.setTimer T t.setDeleted) pool
            simp only [withPool, setTimer] at hpop ⊢
            rw [hpop]
            cases popDelete _ T with
            | error f => rfl
            | ok s₁ => exact ih s₁
      | unborn | freed => rfl
    · rw [if_neg hguard, if_neg (show ¬ ((s.withPool pool).IsTop T ∧ (s.withPool pool).clock ≤ now) from hguard)]
      rfl

end Server

def Label.leavesPool : Label → Bool
  | .poolAdd | .take _ => false
  | _ => true

namespace Sys

variable {x y : Sys} {a : Label} {epollFd : Int}

def withPool (x : Sys) (pool : List ReqId) : Sys := { x with server := x.server.withPool pool }

theorem goMain_withPool {f : Server → Except Fault Server} (hf : Server.Poolless f) (x : Sys)
    (pc : MainPc) (pool : List ReqId) : (x.withPool pool).goMain pc (f (x.withPool pool).server) =
      (x.goMain pc (f x.server)).map (·.map (withPool · pool)) := by
  have hserver := hf x.server pool
  simp only [goMain, withPool, Option.map_some] at hserver ⊢
  rw [hserver]
  cases f x.server <;> rfl

theorem goWorker_withPool {f : Server → Except Fault Server} (hf : Server.Poolless f) (x : Sys) (w : Nat)
    (pc : WorkerPc) (pool : List ReqId) : (x.withPool pool).goWorker w pc (f (x.withPool pool).server) =
      (x.goWorker w pc (f x.server)).map (·.map (withPool · pool)) := by
  have hserver := hf x.server pool
  simp only [goWorker, withPool, Option.map_some] at hserver ⊢
  rw [hserver]
  cases f x.server <;> rfl

/-- The test of a step reads the objects, the clock and the epoll set only. -/
theorem ite_withPool {c : Prop} [Decidable c] {step step' : Option (Except Fault Sys)} (pool : List ReqId)
    (h : step' = step.map (·.map (withPool · pool))) :
    (if c then step' else none) = (if c then step else none).map (·.map (withPool · pool)) := by
  by_cases hc : c
  · rw [if_pos hc, if_pos hc, h]
  · rw [if_neg hc, if_neg hc]; rfl

theorem mainStep_withPool (ha : a.leavesPool = true) (x : Sys) (pc : MainPc) (pool : List ReqId) :
    (x.withPool pool).mainStep epollFd pc a = (x.mainStep epollFd pc a).map (·.map (withPool · pool)) := by
  cases pc with
  | wait =>
    cases a with
    | epollWait es => exact ite_withPool (c := x.server.Deliverable es) pool rfl
    | _ => rfl
  | handling es =>
    cases es with
    | nil =>
      cases a with
      | sweep script =>
        have hsweep := Server.handleExpiredEvent_withPool script x.server pool
        simp only [mainStep, withPool, bind, Option.bind] at hsweep ⊢
        rw [hsweep]
        cases x.server.handleExpiredEvent script with
        | none => rfl
        | some v => cases v <;> rfl
      | _ => rfl
    | cons e es =>
      cases e with
      | listen =>
        cases a with
        | accept R fd added =>
          exact ite_withPool (c := (x.server.request R).isUnborn ∧ 0 < fd) pool rfl
        | _ => rfl
      | request R err =>
        cases err with
        | true =>
          cases a with
          | errorEvent => exact goMain_withPool (Server.poolless_errorEvent R) x _ pool
          | _ => rfl
        | false =>
          cases a with
          | separate => exact goMain_withPool (Server.poolless_separate R) x _ pool
          | _ => rfl
  | stamping R es =>
    cases a with
    | push T now =>
      exact ite_withPool (c := (x.server.timer T).isUnborn ∧ x.server.clock ≤ now) pool
        (goMain_withPool (Server.poolless_acceptPush R T now) x _ pool)
    | _ => rfl
  | adding R es =>
    cases a with
    | poolAdd => cases ha
    | _ => rfl

theorem workerStep_withPool (ha : a.leavesPool = true) (x : Sys) (pool : List ReqId) :
    (x.withPool pool).workerStep a = (x.workerStep a).map (·.map (withPool · pool)) := by
  cases a with
  | serve w env =>
    simp only [workerStep, withPool]
    cases x.worker w with
    | serving R =>
      simp only [serveStep, Server.getRequest, Server.withPool]
      cases x.server.request R with
      | live r => dsimp only; cases (HPServer.serve env r).decision <;> rfl
      | unborn | freed => rfl
    | _ => rfl
  | delete w =>
    simp only [workerStep, withPool]
    cases x.worker w with
    | deleting R | failing R => exact goWorker_withPool (Server.poolless_deleteRequest R) x w _ pool
    | _ => rfl
  | rearmPush w T now =>
    simp only [workerStep, withPool]
    cases x.worker w with
    | pushing R =>
      exact ite_withPool (c := (x.server.timer T).isUnborn ∧ x.server.clock ≤ now) pool
        (goWorker_withPool (Server.poolless_rearmPush R T now) x w _ pool)
    | _ => rfl
  | epollMod w done =>
    simp only [workerStep, withPool]
    cases x.worker w with
    | rearming R => exact goWorker_withPool (Server.poolless_epollMod R done) x w _ pool
    | _ => rfl
  | take w => cases ha
  | _ => rfl

theorem step_withPool (ha : a.leavesPool = true) (x : Sys) (pool : List ReqId) :
    (x.withPool pool).step epollFd a = (x.step epollFd a).map (·.map (withPool · pool)) := by
  cases a with
  | serve | delete | rearmPush | epollMod => exact workerStep_withPool ha x pool
  | take => cases ha
  | _ => exact mainStep_withPool ha x x.main pool

end Sys

end HPServer
