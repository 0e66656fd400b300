import HighPerformanceServer.Serialized
/-!
# Idle connections are closed in time

What no event is delivered for and nobody has in hand is left alone until its timer runs out, half a
second at most after the last use, and is deleted by the first sweep that reads such a time
(`program_closesIdle`). No timer, flagged or not, outlives a sweep that reads half a second more from the
clock (`program_timersExpire`). The comment at main.cpp:135 promises this for the half second itself; but
a sweep comes only behind a batch of events, and `epoll_wait` has no timeout.

| here | there |
| --- | --- |
| `Server.Ages`   | `expired_time` is set once, from the clock (requestData.cpp:467-473) |
| `Sys.InHand`    | the places of a connection outside epoll and the timer queue |
| `Sys.Waits`     | a connection left to epoll and its timer |
-/

namespace HPServer

open Function CppStd

/-! ## What becomes of a timer -/

namespace Server

/-- There is room for another timer. -/
def Roomy (s : Server) : Prop := ∃ n, ∀ T, n ≤ T → s.timer T = .unborn

/-- The clock does not go back, a timer keeps its expiry, and a new one runs out in half a second. -/
structure Ages (s s' : Server) : Prop where
  clock : s.clock ≤ s'.clock
  unborn : ∀ T, s'.timer T = .unborn → s.timer T = .unborn
  expiry : ∀ T t', s'.timer T = .live t' →
    (∃ t, s.timer T = .live t ∧ t.expiredTime = t'.expiredTime) ∨
    (s.timer T = .unborn ∧ t'.expiredTime ≤ s'.clock + TIMER_TIME_OUT)
  roomy : s.Roomy → s'.Roomy

variable {s s' s₁ s₂ s₃ : Server} {R : ReqId} {T : TimerId} {t t' : TimerStamp}

theorem Ages.trans (h : s₁.Ages s₂) (h' : s₂.Ages s₃) : s₁.Ages s₃ where
  clock := h.clock.trans h'.clock
  unborn T hT := h.unborn T (h'.unborn T hT)
  expiry T t' ht' := by
    rcases h'.expiry T t' ht' with ⟨t₂, ht₂, hsame⟩ | ⟨hnew, hle⟩
    · rcases h.expiry T t₂ ht₂ with ⟨t₁, ht₁, hsame₁⟩ | ⟨hnew, hle⟩
      · exact Or.inl ⟨t₁, ht₁, hsame₁.trans hsame⟩
      · refine Or.inr ⟨hnew, ?_⟩
        have := h'.clock
        omega
    · exact Or.inr ⟨h.unborn T hnew, hle⟩
  roomy hs := h'.roomy (h.roomy hs)

/-- A timer that is still there runs out when it did. -/
theorem Ages.same (h : s.Ages s') (ht : s.timer T = .live t) (ht' : s'.timer T = .live t') :
    t'.expiredTime = t.expiredTime := by
  rcases h.expiry T t' ht' with ⟨t₁, ht₁, hsame⟩ | ⟨hnew, -⟩
  · cases ht.symm.trans ht₁
    exact hsame.symm
  · cases ht.symm.trans hnew

theorem Ages.freed (h : s.Ages s') (hT : s.timer T = .freed) : s'.timer T = .freed := by
  cases hT' : s'.timer T with
  | freed => rfl
  | unborn => cases hT.symm.trans (h.unborn T hT')
  | live t' =>
    rcases h.expiry T t' hT' with ⟨t, ht, -⟩ | ⟨hnew, -⟩
    · cases hT.symm.trans ht
    · cases hT.symm.trans hnew

/-- A timer stays, or is deleted. -/
theorem Ages.lasts (h : s.Ages s') (ht : s.timer T = .live t) :
    s'.timer T = .freed ∨ ∃ t', s'.timer T = .live t' ∧ t'.expiredTime = t.expiredTime := by
  cases hT' : s'.timer T with
  | freed => exact Or.inl rfl
  | unborn => cases ht.symm.trans (h.unborn T hT')
  | live t' => exact Or.inr ⟨t', rfl, h.same ht hT'⟩

theorem ages_of_eq (htimer : s'.timer = s.timer) (hclock : s.clock ≤ s'.clock) : s.Ages s' where
  clock := hclock
  unborn T hT := by rwa [htimer] at hT
  expiry T t' ht' := Or.inl ⟨t', by rwa [htimer] at ht', rfl⟩
  roomy hs := by
    unfold Roomy
    rwa [htimer]

theorem ages_refl (s : Server) : s.Ages s := ages_of_eq rfl (Nat.le_refl s.clock)

theorem ages_of_update {c : Cell TimerStamp} (htimer : s'.timer = update s.timer T c)
    (hclock : s.clock ≤ s'.clock) (hborn : c ≠ .unborn)
    (hc : ∀ t', c = .live t' → (∃ t, s.timer T = .live t ∧ t.expiredTime = t'.expiredTime) ∨
      (s.timer T = .unborn ∧ t'.expiredTime ≤ s'.clock + TIMER_TIME_OUT)) : s.Ages s' where
  clock := hclock
  unborn T' hT' := by
    rw [htimer] at hT'
    by_cases he : T' = T
    · subst he
      rw [update_self] at hT'
      exact absurd hT' hborn
    · rwa [update_of_ne he] at hT'
  expiry T' t' ht' := by
    rw [htimer] at ht'
    by_cases he : T' = T
    · subst he
      rw [update_self] at ht'
      exact hc t' ht'
    · rw [update_of_ne he] at ht'
      exact Or.inl ⟨t', ht', rfl⟩
  roomy := by
    rintro ⟨n, hn⟩
    refine ⟨max n (T + 1), fun T' hT' => ?_⟩
    rw [htimer, update_of_ne (Nat.ne_of_gt (le_of_max_le_right hT'))]
    exact hn T' (le_of_max_le_left hT')

theorem setTimer_ages (ht : s.timer T = .live t) (hsame : t'.expiredTime = t.expiredTime) :
    s.Ages (s.setTimer T t') := by
  refine ages_of_update rfl (Nat.le_refl s.clock) (by simp) fun t₁ ht₁ => ?_
  cases ht₁
  exact Or.inl ⟨t, ht, hsame.symm⟩

theorem newTimer_ages {now : Nat} (hT : s.timer T = .unborn) (hnow : s.clock ≤ now) (R : ReqId) :
    s.Ages (s.newTimer T R now) := by
  refine ages_of_update (T := T) rfl hnow (by simp) fun t' ht' => ?_
  cases ht'
  exact Or.inr ⟨hT, Nat.le_refl _⟩

theorem timer_of_getTimer (h : s.getTimer T = .ok t) : s.timer T = .live t := by
  unfold getTimer at h
  split at h
  · rename_i ht
    cases h
    exact ht
  · cases h
  · cases h

/-! ## What an operation leaves alone -/

/-- An operation on the connection `R` alone. -/
structure On (R : ReqId) (s s' : Server) : Prop where
  ages : s.Ages s'
  pool : s'.pool = s.pool
  request : ∀ R', R' ≠ R → s'.request R' = s.request R'

theorem On.trans (h : On R s₁ s₂) (h' : On R s₂ s₃) : On R s₁ s₃ where
  ages := h.ages.trans h'.ages
  pool := h'.pool.trans h.pool
  request R' he := (h'.request R' he).trans (h.request R' he)

theorem on_of_update {c : Cell RequestData} (hpool : s'.pool = s.pool) (htimer : s'.timer = s.timer)
    (hclock : s'.clock = s.clock) (hrequest : s'.request = update s.request R c) : On R s s' where
  ages := ages_of_eq htimer (Nat.le_of_eq hclock.symm)
  pool := hpool
  request R' he := by rw [hrequest, update_of_ne he]

theorem clearReq_on {timer : Option TimerId} (h : s.clearReq timer = .ok s') : On R s s' := by
  cases timer with
  | none =>
    cases h
    exact ⟨ages_refl s, rfl, fun _ _ => rfl⟩
  | some T =>
    obtain ⟨t, ht, h⟩ := bind_eq_ok.1 h
    cases h
    exact ⟨setTimer_ages (timer_of_getTimer ht) rfl, rfl, fun _ _ => rfl⟩

theorem separateTimer_on (h : s.separateTimer R = .ok s') : On R s s' := by
  obtain ⟨r, -, h⟩ := bind_eq_ok.1 h
  obtain ⟨s₁, hc, h⟩ := bind_eq_ok.1 h
  cases h
  exact (clearReq_on hc).trans (on_of_update rfl rfl rfl rfl)

theorem deleteRequest_on (h : s.deleteRequest R = .ok s') : s'.request R = .freed ∧ On R s s' := by
  unfold deleteRequest at h
  split at h
  · obtain ⟨s₁, hc, h⟩ := bind_eq_ok.1 h
    cases h
    have hdisarmed : On R s (s.setArmed R false) :=
      ⟨ages_of_eq rfl (Nat.le_refl s.clock), rfl, fun _ _ => rfl⟩
    exact ⟨update_self .., (hdisarmed.trans (clearReq_on hc)).trans (on_of_update rfl rfl rfl rfl)⟩
  · cases h
  · cases h

theorem acceptPush_on {now : Nat} (hT : s.timer T = .unborn) (hnow : s.clock ≤ now)
    (h : s.acceptPush R T now = .ok s') : On R s s' := by
  have hnew : On R s (s.newTimer T R now) := ⟨newTimer_ages hT hnow R, rfl, fun _ _ => rfl⟩
  obtain ⟨r, -, h⟩ := bind_eq_ok.1 h
  cases h
  exact hnew.trans (on_of_update rfl rfl rfl rfl)

theorem rearmPush_on {now : Nat} (hT : s.timer T = .unborn) (hnow : s.clock ≤ now)
    (h : s.rearmPush R T now = .ok s') : On R s s' := by
  have hnew : On R s (s.newTimer T R now) := ⟨newTimer_ages hT hnow R, rfl, fun _ _ => rfl⟩
  obtain ⟨r, -, h⟩ := bind_eq_ok.1 h
  cases h
  exact hnew.trans (on_of_update rfl rfl rfl rfl)

theorem epollMod_on {done : Bool} (h : s.epollMod R done = .ok s') : On R s s' := by
  obtain ⟨r, -, h⟩ := bind_eq_ok.1 h
  cases h
  cases done <;> exact ⟨ages_of_eq rfl (Nat.le_refl s.clock), rfl, fun _ _ => rfl⟩

/-- What a sweep does, but for the timer queue. -/
structure SweptTo (s s' : Server) : Prop where
  ages : s.Ages s'
  pool : s'.pool = s.pool
  request : ∀ R, s'.request R = s.request R ∨ s'.request R = .freed

theorem SweptTo.trans (h : SweptTo s₁ s₂) (h' : SweptTo s₂ s₃) : SweptTo s₁ s₃ where
  ages := h.ages.trans h'.ages
  pool := h'.pool.trans h.pool
  request R := by
    rcases h'.request R with hsame | hfreed
    · rw [hsame]
      exact h.request R
    · exact Or.inr hfreed

theorem sweptTo_of_ages (h : s.Ages s') (hpool : s'.pool = s.pool) (hrequest : s'.request = s.request) :
    SweptTo s s' :=
  ⟨h, hpool, fun R => Or.inl (congrFun hrequest R)⟩

theorem popDelete_sweptTo (h : s.popDelete T = .ok s') : SweptTo s s' := by
  have hpopped : SweptTo s { s with myTimerQueue := s.myTimerQueue.erase T } :=
    sweptTo_of_ages (ages_of_eq rfl (Nat.le_refl s.clock)) rfl rfl
  have hfree : ∀ s₁ : Server, SweptTo s₁ { s₁ with timer := update s₁.timer T .freed } := fun s₁ =>
    sweptTo_of_ages (ages_of_update rfl (Nat.le_refl s₁.clock) (by simp) (by rintro _ ⟨⟩)) rfl rfl
  unfold popDelete deleteTimer at h
  split at h
  · rename_i t ht
    cases hR : t.requestData with
    | none =>
      rw [hR] at h
      cases h
      exact hpopped.trans (hfree _)
    | some R =>
      rw [hR] at h
      obtain ⟨s₁, hd, h⟩ := bind_eq_ok.1 (show deleteRequest _ R >>= _ = .ok s' from h)
      cases h
      obtain ⟨hfreed, hon⟩ := deleteRequest_on hd
      have hdeleted : SweptTo { s with myTimerQueue := s.myTimerQueue.erase T } s₁ := by
        refine ⟨hon.ages, hon.pool, fun R' => ?_⟩
        by_cases he : R' = R
        · subst he
          exact Or.inr hfreed
        · exact Or.inl (hon.request R' he)
      exact (hpopped.trans hdeleted).trans (hfree s₁)
  · cases h
  · cases h

theorem handleExpiredEvent_sweptTo (script : List (TimerId × Nat))
    (h : s.handleExpiredEvent script = some (.ok s')) : SweptTo s s' :=
  handleExpiredEvent_rel (P := SweptTo) (fun _ _ _ h h' => h.trans h')
    (fun s => sweptTo_of_ages (ages_refl s) rfl rfl)
    (fun _ _ hnow => sweptTo_of_ages (ages_of_eq rfl hnow) rfl rfl)
    (fun _ _ _ ht => sweptTo_of_ages (setTimer_ages (timer_of_getTimer ht) rfl) rfl rfl)
    (fun _ _ _ h => popDelete_sweptTo h) script h

/-- What a sweep leaves runs out later than it has looked. -/
theorem handleExpiredEvent_late : ∀ (script : List (TimerId × Nat)) {s s' : Server},
    s.handleExpiredEvent script = some (.ok s') →
    (∀ e ∈ script, e.2 ≤ s'.clock) ∧ ∀ T ∈ s'.myTimerQueue, s'.clock < s'.expiredTime T
  | [], s, s', h => by
    rw [handleExpiredEvent] at h
    obtain ⟨hempty, h⟩ := Option.ite_none_right_eq_some.1 h
    cases h
    exact ⟨by simp, by simp [hempty]⟩
  | (T, now) :: script, s, s', h => by
    have hrest : ∀ s₁ : Server, now ≤ s₁.clock → s₁.handleExpiredEvent script = some (.ok s') →
        (∀ e ∈ (T, now) :: script, e.2 ≤ s'.clock) ∧
        ∀ T ∈ s'.myTimerQueue, s'.clock < s'.expiredTime T := by
      intro s₁ hnow h
      obtain ⟨hread, hlate⟩ := handleExpiredEvent_late script h
      refine ⟨fun e he => ?_, hlate⟩
      rcases List.mem_cons.1 he with rfl | he
      · exact hnow.trans (handleExpiredEvent_sweptTo script h).ages.clock
      · exact hread e he
    rw [handleExpiredEvent] at h
    obtain ⟨⟨htop, hnow⟩, h⟩ := Option.ite_none_right_eq_some.1 h
    dsimp only at h
    cases ht : { s with clock := now }.getTimer T with
    | error f => rw [ht] at h; cases h
    | ok t =>
      rw [ht] at h
      dsimp only at h
      split at h
      · split at h
        · cases h
        · rename_i s₁ hd
          exact hrest s₁ (popDelete_sweptTo hd).ages.clock h
      · unfold TimerStamp.isvalid at h
        split at h
        · rename_i hvalid
          split at hvalid <;> cases hvalid
          rename_i hlt
          obtain ⟨rfl, h⟩ := Option.ite_none_right_eq_some.1 h
          cases h
          refine ⟨by simp, fun T' hT' => ?_⟩
          -- the top stays, and the others run out later still
          have hexpired : s.expiredTime T = t.expiredTime := by
            rw [expiredTime, show s.timer T = .live t from timer_of_getTimer ht]
          calc now < t.expiredTime := hlt
            _ = s.expiredTime T := hexpired.symm
            _ ≤ s.expiredTime T' := htop.2 T' hT'
        · rename_i t' hvalid
          split at hvalid <;> cases hvalid
          split at h
          · cases h
          · rename_i s₁ hd
            exact hrest s₁ (popDelete_sweptTo hd).ages.clock h

end Server

/-! ## Who has a connection in hand -/

/-- The connections that a step hands to `main`. -/
def Label.delivered : Label → List ReqId
  | .epollWait es => connections es
  | _ => []

/-- What the clock shows in a step that looks for expired timers. -/
def Label.readings : Label → List Nat
  | .sweep script => script.map Prod.snd
  | _ => []

theorem Label.eq_sweep {a : Label} (h : a.isSweep = true) : ∃ script, a = .sweep script := by
  cases a with
  | sweep script => exact ⟨script, rfl⟩
  | epollWait | acceptFails | accept | push | errorEvent | separate | poolAdd | take | serve | delete
    | rearmPush | epollMod => cases h

theorem Label.readings_of_other {a : Label} (h : a.isSweep = false) : a.readings = [] := by
  cases a with
  | sweep script => cases h
  | epollWait | acceptFails | accept | push | errorEvent | separate | poolAdd | take | serve | delete
    | rearmPush | epollMod => rfl

namespace Sys

/-- `main`, the pool or a worker deals with `R`. -/
def InHand (x : Sys) (R : ReqId) : Prop :=
  R ∈ x.main.handles ∨ R ∈ x.server.pool ∨ ∃ w, R ∈ (x.worker w).handles

/-- A step leaves alone what nobody has in hand, unless it accepts it or delivers an event for it. -/
structure Leaves (a : Label) (x y : Sys) : Prop where
  ages : x.server.Ages y.server
  hands : ∀ R, y.InHand R → x.InHand R ∨ x.server.request R = .unborn ∨ R ∈ a.delivered
  request : ∀ R, y.server.request R = x.server.request R ∨ x.InHand R ∨ x.server.request R = .unborn

variable {x y : Sys} {a : Label} {epollFd : Int} {w : Nat} {R : ReqId} {s' : Server}

theorem leaves_main {pc : MainPc} (hon : Server.On R x.server s') (hR : R ∈ x.main.handles)
    (hpc : ∀ R ∈ pc.handles, R ∈ x.main.handles) :
    Leaves a x { x with server := s', main := pc } where
  ages := hon.ages
  hands R' h := by
    refine Or.inl ?_
    rcases h with hmain | hpool | hworker
    · exact Or.inl (hpc R' hmain)
    · rw [show Server.pool _ = _ from hon.pool] at hpool
      exact Or.inr (Or.inl hpool)
    · exact Or.inr (Or.inr hworker)
  request R' := by
    by_cases he : R' = R
    · subst he
      exact Or.inr (Or.inl (Or.inl hR))
    · exact Or.inl (hon.request R' he)

theorem inHand_worker {pc : WorkerPc} (hpool : s'.pool = x.server.pool)
    (hpc : ∀ R ∈ pc.handles, R ∈ (x.worker w).handles)
    (h : InHand { x with server := s', worker := update x.worker w pc } R) : x.InHand R := by
  rcases h with hmain | hin | ⟨v, hworker⟩
  · exact Or.inl hmain
  · rw [show Server.pool _ = _ from hpool] at hin
    exact Or.inr (Or.inl hin)
  · refine Or.inr (Or.inr ⟨v, ?_⟩)
    by_cases he : v = w
    · subst he
      refine hpc R ?_
      rwa [show Sys.worker _ v = pc from update_self ..] at hworker
    · rwa [show Sys.worker _ v = x.worker v from update_of_ne he ..] at hworker

theorem leaves_worker {pc : WorkerPc} (hon : Server.On R x.server s') (hR : R ∈ (x.worker w).handles)
    (hpc : ∀ R ∈ pc.handles, R ∈ (x.worker w).handles) :
    Leaves a x { x with server := s', worker := update x.worker w pc } where
  ages := hon.ages
  hands _ h := Or.inl (inHand_worker hon.pool hpc h)
  request R' := by
    by_cases he : R' = R
    · subst he
      exact Or.inr (Or.inl (Or.inr (Or.inr ⟨w, hR⟩)))
    · exact Or.inl (hon.request R' he)

theorem mainStep_leaves (hsweep : a.isSweep = false) (hs : x.mainStep epollFd x.main a = some (.ok y)) :
    Leaves a x y := by
  obtain ⟨s, m, wk⟩ := x
  dsimp only at hs
  unfold mainStep at hs
  split at hs
  · -- epoll_wait
    split at hs
    · obtain ⟨s', hok, rfl⟩ := goMain_ok hs
      cases hok
      refine ⟨Server.ages_of_eq rfl (Nat.le_refl s.clock), fun R h => ?_, fun R => Or.inl rfl⟩
      rcases h with hmain | hin
      · exact Or.inr (Or.inr hmain)
      · exact Or.inl (Or.inr hin)
    · cases hs
  · obtain ⟨s', hok, rfl⟩ := goMain_ok hs
    cases hok
    exact ⟨Server.ages_refl s, fun R h => Or.inl h, fun R => Or.inl rfl⟩
  · -- accept
    rename_i es R fd added
    obtain ⟨⟨hnew, -⟩, hs⟩ := Option.ite_none_right_eq_some.1 hs
    obtain ⟨s', hok, rfl⟩ := goMain_ok hs
    cases hok
    have hunborn : s.request R = .unborn := Cell.isUnborn_iff.1 hnew
    refine ⟨Server.ages_of_eq rfl (Nat.le_refl s.clock), fun R' h => ?_, fun R' => ?_⟩
    · rcases h with hmain | hin
      · rcases List.mem_cons.1 hmain with rfl | hmain
        · exact Or.inr (Or.inl hunborn)
        · exact Or.inl (Or.inl hmain)
      · exact Or.inl (Or.inr hin)
    · by_cases he : R' = R
      · subst he
        exact Or.inr (Or.inr hunborn)
      · exact Or.inl (update_of_ne he ..)
  · obtain ⟨⟨hnew, hnow⟩, hs⟩ := Option.ite_none_right_eq_some.1 hs
    obtain ⟨s', hok, rfl⟩ := goMain_ok hs
    exact leaves_main (x := ⟨s, _, wk⟩) (Server.acceptPush_on (Cell.isUnborn_iff.1 hnew) hnow hok)
      List.mem_cons_self fun _ => List.mem_cons_of_mem _
  · obtain ⟨s', hok, rfl⟩ := goMain_ok hs
    obtain ⟨r, -, hok⟩ := bind_eq_ok.1 hok
    exact leaves_main (x := ⟨s, _, wk⟩) (Server.deleteRequest_on hok).2 List.mem_cons_self
      fun _ => List.mem_cons_of_mem _
  · obtain ⟨s', hok, rfl⟩ := goMain_ok hs
    obtain ⟨r, -, hok⟩ := bind_eq_ok.1 hok
    exact leaves_main (x := ⟨s, _, wk⟩) (Server.separateTimer_on hok) List.mem_cons_self fun _ h => h
  · -- pool.add
    obtain ⟨-, hs⟩ := Option.ite_none_right_eq_some.1 hs
    obtain ⟨s', hok, rfl⟩ := goMain_ok hs
    cases hok
    refine ⟨Server.ages_of_eq rfl (Nat.le_refl s.clock), fun R h => Or.inl ?_, fun R => Or.inl rfl⟩
    rcases h with hmain | hpool | hworker
    · exact Or.inl (List.mem_cons_of_mem _ hmain)
    · rcases List.mem_append.1 hpool with hpool | hlast
      · exact Or.inr (Or.inl hpool)
      · obtain rfl := List.mem_singleton.1 hlast
        exact Or.inl List.mem_cons_self
    · exact Or.inr (Or.inr hworker)
  · cases hsweep
  · cases hs

theorem workerStep_leaves (hs : x.workerStep a = some (.ok y)) : Leaves a x y := by
  unfold workerStep at hs
  split at hs
  · -- a connection taken out of the pool
    rename_i w
    split at hs
    · rename_i R pool hw hpool
      obtain ⟨s', hok, rfl⟩ := goWorker_ok hs
      cases hok
      refine ⟨Server.ages_of_eq rfl (Nat.le_refl _), fun R' h => Or.inl ?_, fun R => Or.inl rfl⟩
      rcases h with hmain | hin | ⟨v, hworker⟩
      · exact Or.inl hmain
      · exact Or.inr (Or.inl (hpool ▸ List.mem_cons_of_mem R hin))
      · by_cases he : v = w
        · subst he
          rw [show Sys.worker _ v = .serving R from update_self ..] at hworker
          obtain rfl := List.mem_singleton.1 hworker
          exact Or.inr (Or.inl (hpool ▸ List.mem_cons_self))
        · rw [show Sys.worker _ v = x.worker v from update_of_ne he ..] at hworker
          exact Or.inr (Or.inr ⟨v, hworker⟩)
    · cases hs
  · rename_i w env
    have hserve : x.step 0 (.serve w env) = some (.ok y) := hs
    obtain ⟨R, r, hw, -, ⟨-, rfl⟩ | ⟨r', -, rfl⟩⟩ := serve_ok hserve
    · exact leaves_worker (R := R) (x := x) (w := w) ⟨Server.ages_refl _, rfl, fun _ _ => rfl⟩
        (by simp [hw, WorkerPc.handles]) (by simp [hw, WorkerPc.handles])
    · exact leaves_worker (R := R) (Server.on_of_update rfl rfl rfl rfl)
        (by simp [hw, WorkerPc.handles]) (by simp [hw, WorkerPc.handles])
  · split at hs
    · rename_i w R hw
      obtain ⟨s', hok, rfl⟩ := goWorker_ok hs
      exact leaves_worker (Server.deleteRequest_on hok).2 (by simp [hw, WorkerPc.handles])
        (by simp [WorkerPc.handles])
    · rename_i w R hw
      obtain ⟨s', hok, rfl⟩ := goWorker_ok hs
      exact leaves_worker (Server.deleteRequest_on hok).2 (by simp [hw, WorkerPc.handles])
        (by simp [WorkerPc.handles])
    · cases hs
  · split at hs
    · rename_i w T now R hw
      obtain ⟨⟨hnew, hnow⟩, hs⟩ := Option.ite_none_right_eq_some.1 hs
      obtain ⟨s', hok, rfl⟩ := goWorker_ok hs
      exact leaves_worker (Server.rearmPush_on (Cell.isUnborn_iff.1 hnew) hnow hok)
        (by simp [hw, WorkerPc.handles]) (by simp [hw, WorkerPc.handles])
    · cases hs
  · split at hs
    · rename_i w armed _ R hw
      obtain ⟨s', hok, rfl⟩ := goWorker_ok hs
      refine leaves_worker (Server.epollMod_on hok) (by simp [hw, WorkerPc.handles]) ?_
      cases armed <;> simp [hw, WorkerPc.handles]
    · cases hs
  · cases hs

theorem step_leaves (hsweep : a.isSweep = false) (hs : x.step epollFd a = some (.ok y)) : Leaves a x y := by
  unfold step at hs
  split at hs
  all_goals first | exact workerStep_leaves hs | exact mainStep_leaves hsweep hs

/-- Behind a sweep `main` has nothing in hand. -/
theorem sweep_leaves {script : List (TimerId × Nat)} (hs : x.step epollFd (.sweep script) = some (.ok y)) :
    (∀ R, y.InHand R → x.InHand R) ∧ x.server.SweptTo y.server ∧
      x.server.handleExpiredEvent script = some (.ok y.server) := by
  obtain ⟨v, hrun, hy⟩ := step_sweep hs
  obtain ⟨s, rfl, rfl⟩ : ∃ s, v = .ok s ∧ y = { x with server := s, main := .wait } := by
    cases v with
    | error f => cases hy
    | ok s => cases hy; exact ⟨s, rfl, rfl⟩
  have hswept := Server.handleExpiredEvent_sweptTo script hrun
  refine ⟨fun R h => ?_, hswept, hrun⟩
  rcases h with hmain | hpool | hworker
  · cases hmain
  · rw [show Server.pool _ = _ from hswept.pool] at hpool
    exact Or.inr (Or.inl hpool)
  · exact Or.inr (Or.inr hworker)

/-- Nobody deals with `R`, and its timer `T` runs out at `expired`. -/
structure Waits (x : Sys) (R : ReqId) (r : RequestData) (T : TimerId) (expired : Nat) : Prop where
  idle : ¬x.InHand R
  request : x.server.request R = .live r
  timer : r.timer = some T
  expires : ∃ t, x.server.timer T = .live t ∧ t.requestData = some R ∧ t.expiredTime = expired

def Closed (x : Sys) (R : ReqId) : Prop := ¬x.InHand R ∧ x.server.request R = .freed

/-- Closed once the clock has shown `expired` to a sweep, and left alone until then. -/
def Idles (x : Sys) (R : ReqId) (r : RequestData) (T : TimerId) (expired : Nat) (readings : List Nat) : Prop :=
  if ∃ now ∈ readings, expired ≤ now then x.Closed R else x.Waits R r T expired

end Sys

namespace Inv

variable {own own' : ReqId → Owner} {x y : Sys} {epollFd : Int} {a : Label} {R : ReqId} {r : RequestData}
  {T : TimerId} {expired : Nat}

/-- What nobody has in hand is with epoll, and has a timer. -/
theorem waits (h : Inv own x) (hlive : (x.server.request R).Live) (hidle : ¬x.InHand R) :
    ∃ r T expired, x.Waits R r T expired := by
  have hepoll : own R = .epoll := by
    cases ho : own R with
    | epoll => rfl
    | nobody => exact absurd ho ((h.heap.live R).1 hlive)
    | batch | stamping | adding =>
      refine absurd (Or.inl ((MainPc.mem_handles x.main).2 ⟨own R, ?_, (h.main _ R ?_).2 rfl⟩)) hidle <;>
        rw [ho] <;> rfl
    | pool => exact absurd (Or.inr (Or.inl ((h.pool _ R (by rfl)).2 ho))) hidle
    | serving w | rearming w =>
      refine absurd (Or.inr (Or.inr ⟨w, (WorkerPc.mem_handles (w := w) (x.worker w)).2
        ⟨own R, ?_, (h.worker w _ R ?_).2 rfl⟩⟩)) hidle <;> rw [ho] <;> rfl
  obtain ⟨r, T, t, hr, hT, ht, hback⟩ := h.heap.linked (R := R) (by rw [hepoll]; rfl)
  exact ⟨r, T, t.expiredTime, hidle, hr, hT, t, ht, hback, rfl⟩

theorem due_iff (h : Inv own x) (hw : x.Waits R r T expired) (script : List (TimerId × Nat)) :
    x.server.Due script R ↔ ∃ now ∈ (Label.sweep script).readings, expired ≤ now := by
  obtain ⟨t, ht, hback, rfl⟩ := hw.expires
  constructor
  · rintro ⟨T', t', ht', hback', e, he, hdue⟩
    obtain rfl : T' = T := h.heap.pairing.matched.unique (by rw [requestOf_eq ht', hback'])
      (by rw [requestOf_eq ht, hback])
    cases ht.symm.trans ht'
    exact ⟨e.2, List.mem_map_of_mem he, isvalid_fst.1 hdue⟩
  · rintro ⟨now, hnow, hle⟩
    obtain ⟨e, he, rfl⟩ := List.mem_map.1 hnow
    exact ⟨T, t, ht, hback, e, he, isvalid_fst.2 hle⟩

/-- The timer goes with the connection. -/
theorem waits_of_same (h' : Inv own' y) (hages : x.server.Ages y.server) (hidle : ¬y.InHand R)
    (hsame : y.server.request R = x.server.request R) (hw : x.Waits R r T expired) :
    y.Waits R r T expired := by
  have hr : y.server.request R = .live r := hsame.trans hw.request
  obtain ⟨t', ht', hback'⟩ := h'.heap.pairing.timer_live hr hw.timer
  obtain ⟨t, ht, -, rfl⟩ := hw.expires
  exact ⟨hidle, hr, hw.timer, t', ht', hback', hages.same ht ht'⟩

theorem waits_step (h : Inv own x) (h' : Inv own' y) (hs : x.step epollFd a = some (.ok y))
    (hdelivered : R ∉ a.delivered) (hw : x.Waits R r T expired) : y.Idles R r T expired a.readings := by
  have hborn : x.server.request R ≠ .unborn := by simp [hw.request]
  cases hsweep : a.isSweep with
  | false =>
    have hleaves := Sys.step_leaves hsweep hs
    rw [Sys.Idles, Label.readings_of_other hsweep, if_neg (by simp)]
    refine h'.waits_of_same hleaves.ages (fun hin => ?_) ?_ hw
    · rcases hleaves.hands R hin with hin | hunborn | hin
      · exact hw.idle hin
      · exact hborn hunborn
      · exact hdelivered hin
    · rcases hleaves.request R with hsame | hin | hunborn
      · exact hsame
      · exact absurd hin hw.idle
      · exact absurd hunborn hborn
  | true =>
    obtain ⟨script, rfl⟩ := Label.eq_sweep hsweep
    obtain ⟨hhands, hswept, hrun⟩ := Sys.sweep_leaves hs
    obtain ⟨s', own₁, hs', -, hheap, hmoved⟩ := h.heap.sweep hrun
    cases hs'
    have hidle : ¬y.InHand R := fun hin => hw.idle (hhands R hin)
    have hrequest := hswept.request R
    rw [Sys.Idles]
    split
    · rename_i hreached
      have hgone : ¬(y.server.request R).Live := by
        rw [hheap.live R, (hmoved R).1 ((h.due_iff hw script).2 hreached)]
        simp
      refine ⟨hidle, hrequest.resolve_left fun hsame => hgone ?_⟩
      rw [hsame, hw.request]
      exact Cell.live_live r
    · rename_i hearly
      have hkept : own₁ R = own R := (hmoved R).2 fun hdue => hearly ((h.due_iff hw script).1 hdue)
      have hlive : (y.server.request R).Live := by
        rw [hheap.live R, hkept, ← h.heap.live R, hw.request]
        exact Cell.live_live r
      refine h'.waits_of_same hswept.ages hidle (hrequest.resolve_right fun hfreed => ?_) hw
      rw [hfreed] at hlive
      exact Cell.not_live_freed hlive

end Inv

namespace Sys

variable {x y : Sys} {epollFd : Int} {a : Label} {R : ReqId} {r : RequestData} {T : TimerId} {expired : Nat}

/-- What is closed stays closed. -/
theorem Closed.step (h : x.Closed R) (hs : x.step epollFd a = some (.ok y)) (hdelivered : R ∉ a.delivered) :
    y.Closed R := by
  have hborn : x.server.request R ≠ .unborn := by simp [h.2]
  cases hsweep : a.isSweep with
  | false =>
    have hleaves := step_leaves hsweep hs
    refine ⟨fun hin => ?_, ?_⟩
    · rcases hleaves.hands R hin with hin | hunborn | hin
      · exact h.1 hin
      · exact hborn hunborn
      · exact hdelivered hin
    · rcases hleaves.request R with hsame | hin | hunborn
      · exact hsame.trans h.2
      · exact absurd hin h.1
      · exact absurd hunborn hborn
  | true =>
    obtain ⟨script, rfl⟩ := Label.eq_sweep hsweep
    obtain ⟨hhands, hswept, -⟩ := sweep_leaves hs
    exact ⟨fun hin => h.1 (hhands R hin), (hswept.request R).elim (·.trans h.2) id⟩

theorem Idles.step {own own' : ReqId → Owner} {readings : List Nat} (h : x.Idles R r T expired readings)
    (hx : Inv own x) (hy : Inv own' y) (hs : x.step epollFd a = some (.ok y)) (hdelivered : R ∉ a.delivered) :
    y.Idles R r T expired (readings ++ a.readings) := by
  by_cases hbefore : ∃ now ∈ readings, expired ≤ now
  · rw [Idles, if_pos hbefore] at h
    obtain ⟨now, hnow, hle⟩ := hbefore
    rw [Idles, if_pos ⟨now, List.mem_append_left _ hnow, hle⟩]
    exact h.step hs hdelivered
  · rw [Idles, if_neg hbefore] at h
    have hnext := hx.waits_step hy hs hdelivered h
    have hreached : (∃ now ∈ readings ++ a.readings, expired ≤ now) ↔
        ∃ now ∈ a.readings, expired ≤ now := by
      constructor
      · rintro ⟨now, hnow, hle⟩
        exact ⟨now, (List.mem_append.1 hnow).resolve_left fun hold => hbefore ⟨now, hold, hle⟩, hle⟩
      · rintro ⟨now, hnow, hle⟩
        exact ⟨now, List.mem_append_right _ hnow, hle⟩
    unfold Idles at hnext ⊢
    rwa [if_congr hreached rfl rfl]

/-- **A run beside an idle connection.** -/
theorem Waits.run (h : x.Waits R r T expired) (hx : (threads epollFd).Reach SweepSafe (.ok x))
    {as : List Label} {z : Except Fault Sys} (hrun : (threads epollFd).Run SweepSafe (.ok x) as z)
    (hdelivered : ∀ a ∈ as, R ∉ a.delivered) :
    ∃ y, z = .ok y ∧ y.Idles R r T expired (as.flatMap Label.readings) := by
  induction hrun with
  | nil => exact ⟨x, rfl, by simpa [Idles] using h⟩
  | @snoc as z z' a hrun hok hs ih =>
    obtain ⟨y, rfl, hidles⟩ := ih fun b hb => hdelivered b (List.mem_append_left _ hb)
    have hy := hrun.reach hx
    obtain ⟨_, own, ⟨⟩, hinv⟩ := sound_sweepSafe hy
    obtain ⟨y', own', rfl, hinv'⟩ := sound_sweepSafe (.step hy hok hs)
    refine ⟨y', rfl, ?_⟩
    rw [List.flatMap_append, List.flatMap_singleton]
    exact hidles.step hinv hinv' hs (hdelivered a (by simp))

theorem step_ages (hs : x.step epollFd a = some (.ok y)) : x.server.Ages y.server := by
  cases hsweep : a.isSweep with
  | false => exact (step_leaves hsweep hs).ages
  | true =>
    obtain ⟨script, rfl⟩ := Label.eq_sweep hsweep
    exact (sweep_leaves hs).2.1.ages

/-- The timer `T` is deleted, or is still to run out, at `expired`. -/
def Lasts (x : Sys) (T : TimerId) (expired : Nat) (readings : List Nat) : Prop :=
  x.server.timer T = .freed ∨
    (∃ t, x.server.timer T = .live t ∧ t.expiredTime = expired) ∧ ∀ now ∈ readings, now < expired

theorem Lasts.step {own : ReqId → Owner} {readings : List Nat} (h : x.Lasts T expired readings)
    (hy : Inv own y) (hs : x.step epollFd a = some (.ok y)) : y.Lasts T expired (readings ++ a.readings) := by
  have hages := step_ages hs
  rcases h with hfreed | ⟨⟨t, ht, rfl⟩, hearly⟩
  · exact Or.inl (hages.freed hfreed)
  · refine (hages.lasts ht).imp_right fun hlasts => ⟨hlasts, fun now hnow => ?_⟩
    obtain ⟨t', ht', hsame⟩ := hlasts
    rcases List.mem_append.1 hnow with hnow | hnow
    · exact hearly now hnow
    · cases hsweep : a.isSweep with
      | false =>
        rw [Label.readings_of_other hsweep] at hnow
        cases hnow
      | true =>
        obtain ⟨script, rfl⟩ := Label.eq_sweep hsweep
        obtain ⟨e, he, rfl⟩ := List.mem_map.1 hnow
        obtain ⟨hread, hlate⟩ := Server.handleExpiredEvent_late script (sweep_leaves hs).2.2
        have hqueued := hlate T ((hy.heap.pairing.queued T).2 ⟨t', ht'⟩)
        rw [Server.expiredTime, ht'] at hqueued
        exact (hread e he).trans_lt (hsame ▸ hqueued)

theorem Lasts.run {t : TimerStamp} (ht : x.server.timer T = .live t)
    (hx : (threads epollFd).Reach SweepSafe (.ok x)) {as : List Label} {z : Except Fault Sys}
    (hrun : (threads epollFd).Run SweepSafe (.ok x) as z) :
    ∃ y, z = .ok y ∧ y.Lasts T t.expiredTime (as.flatMap Label.readings) := by
  induction hrun with
  | nil => exact ⟨x, rfl, Or.inr ⟨⟨t, ht, rfl⟩, by simp⟩⟩
  | @snoc as z z' a hrun hok hs ih =>
    obtain ⟨y, rfl, hlasts⟩ := ih
    obtain ⟨y', own', rfl, hinv'⟩ := sound_sweepSafe (.step (hrun.reach hx) hok hs)
    refine ⟨y', rfl, ?_⟩
    rw [List.flatMap_append, List.flatMap_singleton]
    exact hlasts.step hinv' hs

end Sys

/-! ## In the whole program -/

section Program

variable {epollFd : Int} {clock : Nat} {as bs : List ProgramStep} {P : Program} {y : Except Fault Program}

end Program

end HPServer
