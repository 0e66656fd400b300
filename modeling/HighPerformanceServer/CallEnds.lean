import HighPerformanceServer.Ownership
/-!
# A connection between its calls

A call that leaves the object alive has reset it or has not come to the answer, so between two
calls `keep_alive` is off and `state` is not `STATE_FINISH` (`Unanswered`). This holds in every run
of whole calls, however much has been read. `Drops` and `Awaits` say what a call has made of a
connection and of its timers.

| here | there |
| --- | --- |
| `Drops`  | `delete this` (requestData.cpp:185-197) |
| `Awaits` | `reset`, the timer push and `epoll_mod` (requestData.cpp:191-209) |
-/

namespace HPServer

open Function CppStd

/-! ## One object -/

structure Unanswered (r : RequestData) : Prop where
  keepAlive : r.keepAlive = false
  state : r.state ≠ .finish

theorem unanswered_new (epollfd fd : Int) (path : Bytes) : Unanswered (.new epollfd fd path) where
  keepAlive := rfl
  state := by simp [RequestData.new]

theorem unanswered_reset (r : RequestData) : Unanswered r.reset where
  keepAlive := rfl
  state := by simp [RequestData.reset]

theorem Unanswered.withTimer {r : RequestData} (h : Unanswered r) (t : Option TimerId) :
    Unanswered { r with timer := t } := ⟨h.keepAlive, h.state⟩

/-- An object that is left before the answer. -/
theorem leave_unanswered {e : Exit} {r r' : RequestData} (h : r.keepAlive = false)
    (hsame : StageUntouched r (.error e)) (hd : leave e = .rearm r') : Unanswered r' := by
  obtain ⟨r₁, rfl, ⟨-, -, rfl⟩ | ⟨hne, rfl⟩⟩ := leave_rearm hd
  · exact unanswered_reset r₁
  · exact ⟨hsame.2.trans h, hne⟩

theorem serve_unanswered {env : CallEnv} {r r' : RequestData} (h : r.keepAlive = false)
    (hd : (serve env r).decision = .rearm r') : Unanswered r' := by
  have hreceived := received_untouched env r
  rw [serve_eq] at hd
  cases hp : parseStages env r >>= bodyStage with
  | error e =>
    rw [hp] at hd hreceived
    exact leave_unanswered h hreceived hd
  | ok r₁ =>
    rw [hp] at hd hreceived
    dsimp only at hd
    by_cases hs : r₁.state = .analysis
    · obtain ⟨r₂, rfl⟩ := analysisStage_reset hs hd
      exact unanswered_reset r₂
    · rw [analysisStage, if_neg hs] at hd
      exact leave_unanswered h (e := .brk false r₁) hreceived hd

theorem handleRequest_unanswered {env : CallEnv} {r r' : RequestData} (h : r.keepAlive = false)
    (hk : (handleRequest env r).2 = .kept r') : Unanswered r' := by
  obtain ⟨r₁, hd, rfl⟩ := handleRequest_kept hk
  exact (serve_unanswered h hd).withTimer _

/-! ## The objects of the server -/

namespace Server

variable {s s' : Server} {R : ReqId} {T : TimerId}

/-- Nothing lives in `s'` that does not live in `s`. -/
def Prunes (s s' : Server) : Prop := ∀ R r, s'.request R = .live r → s.request R = .live r

theorem Prunes.trans {s₁ s₂ s₃ : Server} (h : s₁.Prunes s₂) (h' : s₂.Prunes s₃) : s₁.Prunes s₃ :=
  fun R r hr => h R r (h' R r hr)

theorem clearReq_request {t : Option TimerId} (h : s.clearReq t = .ok s') : s'.request = s.request := by
  cases t with
  | none => cases h; rfl
  | some T =>
    obtain ⟨t, -, h⟩ := bind_eq_ok.1 h
    cases h; rfl

theorem deleteRequest_prunes (h : s.deleteRequest R = .ok s') : s.Prunes s' := by
  unfold deleteRequest at h
  split at h
  · obtain ⟨s₁, hc, h⟩ := bind_eq_ok.1 h
    cases h
    intro R' r' hr'
    dsimp only at hr'
    rw [clearReq_request hc] at hr'
    by_cases he : R' = R
    · subst he; rw [update_self] at hr'; cases hr'
    · rwa [update_of_ne he] at hr'
  · cases h
  · cases h

theorem popDelete_prunes (h : s.popDelete T = .ok s') : s.Prunes s' := by
  unfold popDelete deleteTimer at h
  split at h
  · rename_i t ht
    cases hR : t.requestData with
    | none => rw [hR] at h; cases h; exact fun _ _ hr => hr
    | some R =>
      rw [hR] at h
      obtain ⟨s₁, hd, h⟩ := bind_eq_ok.1 (show deleteRequest _ R >>= _ = .ok s' from h)
      cases h
      exact fun R' r hr => deleteRequest_prunes hd R' r hr
  · cases h
  · cases h

theorem handleExpiredEvent_prunes : ∀ (script : List (TimerId × Nat)) {s s' : Server},
    s.handleExpiredEvent script = some (.ok s') → s.Prunes s'
  | [], s, s', h => by
    rw [handleExpiredEvent] at h
    split at h
    · cases h; exact fun _ _ hr => hr
    · cases h
  | (T, now) :: script, s, s', h => by
    rw [handleExpiredEvent] at h
    split at h
    case isFalse => cases h
    dsimp only at h
    cases ht : { s with clock := now }.getTimer T with
    | error f => rw [ht] at h; cases h
    | ok t =>
      rw [ht] at h
      dsimp only at h
      -- a timer goes, and then the rest of the loop
      have hpop : ∀ s₀ s₁ : Server, s.Prunes s₀ → s₀.popDelete T = .ok s₁ →
          handleExpiredEvent script s₁ = some (.ok s') → s.Prunes s' := fun s₀ s₁ hprunes hd h =>
        hprunes.trans ((popDelete_prunes hd).trans (handleExpiredEvent_prunes script h))
      split at h
      · split at h
        · cases h
        · rename_i s₁ hd
          exact hpop { s with clock := now } s₁ (fun _ _ hr => hr) hd h
      · split at h
        · split at h
          · cases h; exact fun _ _ hr => hr
          · cases h
        · split at h
          · cases h
          · rename_i s₁ hd
            exact hpop ({ s with clock := now }.setTimer T _) s₁ (fun _ _ hr => hr) hd h

end Server

/-! ## Runs of whole calls -/

def Server.Rested (s : Server) : Prop := ∀ R r, s.request R = .live r → Unanswered r

namespace Server.Rested

variable {s s' : Server} {R : ReqId} {T : TimerId}

theorem prunes (h : s.Rested) (hp : s.Prunes s') : s'.Rested := fun R r hr => h R r (hp R r hr)

/-- One object is written. -/
theorem update {r : RequestData} (h : s.Rested) (hr : Unanswered r)
    (hs : s'.request = update s.request R (.live r)) : s'.Rested := by
  intro R' r' hr'
  rw [hs] at hr'
  by_cases he : R' = R
  · subst he; rw [update_self] at hr'; cases hr'; exact hr
  · rw [update_of_ne he] at hr'; exact h R' r' hr'

theorem acceptConnection (h : s.Rested) {epollFd fd : Int} {added : Bool} {now : Nat}
    (hs : s.acceptConnection epollFd fd R T added now = .ok s') : s'.Rested := by
  rw [Server.acceptConnection, acceptPush_eq (update_self R _ _) rfl] at hs
  cases hs
  exact h.update (R := R) ((unanswered_new epollFd fd PATH).withTimer (some T)) (update_idem _ _ _)

theorem separate (h : s.Rested) (hs : s.separate R = .ok s') : s'.Rested := by
  obtain ⟨r, hr, hs⟩ := bind_eq_ok.1 hs
  obtain ⟨r', hr', hs⟩ := bind_eq_ok.1 hs
  obtain ⟨s₁, hc, hs⟩ := bind_eq_ok.1 hs
  cases hs
  have hlive : s.request R = .live r' := by
    unfold getRequest at hr'
    split at hr'
    · rename_i hlive; cases hr'; exact hlive
    · cases hr'
    · cases hr'
  refine h.update (R := R) ((h R r' hlive).withTimer none) ?_
  show Function.update s₁.request R _ = _
  rw [clearReq_request hc]; rfl

theorem handleEvent (h : s.Rested) {err : Bool} (hs : s.handleEvent R err = .ok s') : s'.Rested := by
  have hdisarmed : (s.disarm [R]).Rested := h
  unfold Server.handleEvent at hs
  cases err with
  | true =>
    obtain ⟨r, -, hs⟩ := bind_eq_ok.1 (show (s.disarm [R]).errorEvent R = .ok s' from hs)
    exact hdisarmed.prunes (deleteRequest_prunes hs)
  | false =>
    obtain ⟨s₁, hseparate, hs⟩ := bind_eq_ok.1
      (show ((s.disarm [R]).separate R >>= fun s => pure (s.poolAdd R)) = .ok s' from hs)
    cases hs
    exact fun R' r hr => hdisarmed.separate hseparate R' r hr

/-- A call, on an object without a timer. -/
theorem left (h : s.Rested) {r : RequestData} (hr : s.request R = .live r) {env : CallEnv} {now : Nat}
    (hs : s.left R env now (HPServer.handleRequest env r).2 = some s') : s'.Rested := by
  cases hf : (HPServer.handleRequest env r).2 with
  | halted e => rw [hf] at hs; cases hs
  | deleted | rearmFailed =>
    rw [hf] at hs; cases hs
    intro R' r' hr'
    dsimp only at hr'
    by_cases he : R' = R
    · subst he; rw [update_self] at hr'; cases hr'
    · rw [update_of_ne he] at hr'; exact h R' r' hr'
  | kept r' =>
    rw [hf] at hs; cases hs
    exact h.update (R := R) (handleRequest_unanswered (h R r hr).keepAlive hf) rfl

end Server.Rested

/-- The connection at the head of the pool. -/
theorem Quiet.pooled {s : Server} (h : Quiet s) {R : ReqId} (hR : R ∈ s.pool) :
    ∃ r, s.request R = .live r ∧ r.timer = none := by
  obtain ⟨own, hinv⟩ := h
  have hown : own R = .pool := (hinv.pool .pool R rfl).1 hR
  exact hinv.heap.timerless (R := R) (by rw [hown]; simp) (by rw [hown]; rfl)

theorem Server.Rested.callStep {epollFd : Int} {s s' : Server} (h : s.Rested) (hquiet : Quiet s) {a : Call}
    (hs : callStep epollFd s a = some (.ok s')) : s'.Rested := by
  cases a with
  | acceptFails => cases hs; exact h
  | acceptConnection R T fd added now =>
    simp only [HPServer.callStep] at hs
    split at hs
    · exact h.acceptConnection (Option.some.inj hs)
    · cases hs
  | handleEvent R err =>
    simp only [HPServer.callStep] at hs
    split at hs
    · exact h.handleEvent (Option.some.inj hs)
    · cases hs
  | handleRequest env now =>
    simp only [HPServer.callStep] at hs
    split at hs
    · cases hs
    · rename_i R pool hp
      obtain ⟨r, hr, hnone⟩ := hquiet.pooled (R := R) (by rw [hp]; exact List.mem_cons_self)
      obtain ⟨s₁, hx, hleft, -⟩ := handleRequest_left (s := { s with pool := pool }) hr hnone hs
      cases hx
      exact left (s := { s with pool := pool }) h hr hleft
  | handleExpiredEvent script => exact h.prunes (handleExpiredEvent_prunes script hs)

theorem rested_reachable {epollFd : Int} {s : Server} (h : (calls epollFd).Reachable (.ok s)) : s.Rested := by
  have hall : ∀ x, (calls epollFd).Reachable x → Settles x ∧ ∀ s, x = .ok s → s.Rested := by
    intro x hx
    apply hx.invariant
    · rintro x ⟨clock, rfl⟩
      refine ⟨⟨_, rfl, _, .start clock⟩, fun s hs => ?_⟩
      cases hs
      rintro R r hr; cases hr
    · rintro x a y ⟨⟨s, rfl, hquiet⟩, hrested⟩ - hs
      refine ⟨hquiet.step hs, fun s' hy => ?_⟩
      subst hy
      exact (hrested s rfl).callStep hquiet hs
  exact (hall _ h).2 s rfl

/-! ## How a call can end -/

/-- The connection is gone, and nothing is to come for it. -/
structure Server.Drops (s : Server) (R : ReqId) (s' : Server) : Prop where
  request : s'.request R = .freed
  myTimerQueue : s'.myTimerQueue = s.myTimerQueue
  armed : s'.armed R = false

/-- The connection has been reset, and has one new timer. -/
structure Server.Awaits (s : Server) (R : ReqId) (T : TimerId) (s' : Server) : Prop where
  request : ∃ r r', s.request R = .live r ∧ SameHandles r r' ∧
    s'.request R = .live { r'.reset with timer := some T }
  myTimerQueue : s'.myTimerQueue = T :: s.myTimerQueue
  timer : s.timer T = .unborn ∧ ∃ t, s'.timer T = .live t ∧ t.requestData = some R ∧ t.deleted = false
  armed : s'.armed R = true

section Left

variable {s s' : Server} {R : ReqId} {env : CallEnv} {now : Nat} {fate : Fate}

/-- `s₀` is the server before the connection was taken from the pool. -/
theorem Server.left_drops (s₀ : Server) (h : s.left R env now fate = some s')
    (hqueue : s₀.myTimerQueue = s.myTimerQueue) : s₀.Drops R s' ↔ fate = .deleted := by
  constructor
  · intro hdrops
    have hsame := hdrops.myTimerQueue
    rw [hqueue] at hsame
    cases fate with
    | deleted => rfl
    | halted e => cases h
    | rearmFailed => cases h; exact absurd hsame (List.cons_ne_self _ _)
    | kept r => cases h; exact absurd hsame (List.cons_ne_self _ _)
  · rintro rfl
    cases h
    exact ⟨update_self R _ _, hqueue.symm, update_self R _ _⟩

end Left

/-- A call on the head of the pool, from any state between calls. -/
theorem served_reachable {epollFd : Int} {s : Server} (h : (calls epollFd).Reachable (.ok s)) {R : ReqId}
    {pool : List ReqId} (hp : s.pool = R :: pool) {r : RequestData} (hr : s.request R = .live r)
    {env : CallEnv} {now : Nat} {x : Except Fault Server}
    (hrun : callStep epollFd s (.handleRequest env now) = some x) :
    Unanswered r ∧ ∃ s', x = .ok s' ∧
      { s with pool := pool }.left R env now (handleRequest env r).2 = some s' ∧
      (s'.myTimerQueue = s.myTimerQueue ∨ s.timer env.mtimer = .unborn) := by
  refine ⟨rested_reachable h R r hr, ?_⟩
  obtain ⟨s₀, hs₀, hquiet⟩ := settles_reachable h
  cases hs₀
  obtain ⟨r', hr', hnone⟩ := hquiet.pooled (R := R) (by rw [hp]; exact List.mem_cons_self)
  rw [hr] at hr'
  cases hr'
  simp only [callStep, hp] at hrun
  exact Server.handleRequest_left (s := { s with pool := pool }) hr hnone hrun

end HPServer
