import HighPerformanceServer.Pairing
/-!
# Who owns a connection

Each live connection is in one place: with epoll and its timer, in the batch of events, with `main`
between two steps, in the pool, or with a worker. An `Owner` map says where. `HeapOk` ties it to the
objects: owned means live, and the place says whether there is a timer and whether an event may be
delivered. `Roles` ties it to what one thread, or the pool, claims to hold.
-/

namespace HPServer

open Function

inductive Owner where
  | nobody
  | epoll
  /-- Delivered, not handled yet. -/
  | batch
  | stamping
  | adding
  | pool
  | serving (w : Nat)
  /-- The worker has pushed the timer. -/
  | rearming (w : Nat)
deriving DecidableEq

namespace Owner

def isTimed : Owner → Bool
  | .epoll | .batch | .rearming _ => true
  | .nobody | .stamping | .adding | .pool | .serving _ => false

def isArmable : Owner → Bool
  | .epoll | .stamping => true
  | .nobody | .batch | .adding | .pool | .serving _ | .rearming _ => false

end Owner

structure HeapOk (own : ReqId → Owner) (s : Server) : Prop where
  pairing : Pairing s.myTimerQueue s.timer s.request
  live : ∀ R, (s.request R).Live ↔ own R ≠ .nobody
  timed : ∀ R r, s.request R = .live r → r.timer.isSome = (own R).isTimed
  armed : ∀ R, s.armed R = true → (own R).isArmable = true

namespace HeapOk

variable {own : ReqId → Owner} {s : Server} {R : ReqId} {T : TimerId} {o : Owner}

theorem start (clock : Nat) : HeapOk (fun _ => .nobody) (.start clock) where
  pairing := .start
  live R := by simp [Server.start]
  timed R r h := by cases h
  armed R h := by cases h

theorem timerless (h : HeapOk own s) (hne : own R ≠ .nobody) (ht : (own R).isTimed = false) :
    ∃ r, s.request R = .live r ∧ r.timer = none := by
  obtain ⟨r, hr⟩ := (h.live R).2 hne
  have := h.timed R r hr
  rw [ht] at this
  exact ⟨r, hr, Option.isNone_iff_eq_none.1 (by simpa using this)⟩

/-- An owned connection with a timer, and the timer that points back. -/
theorem linked (h : HeapOk own s) (ht : (own R).isTimed = true) :
    ∃ r T t, s.request R = .live r ∧ r.timer = some T ∧ s.timer T = .live t ∧
      t.requestData = some R := by
  obtain ⟨r, hr⟩ := (h.live R).2 (by rintro e; rw [e] at ht; cases ht)
  have hsome := h.timed R r hr
  rw [ht] at hsome
  obtain ⟨T, hT⟩ := Option.isSome_iff_exists.1 hsome
  obtain ⟨t, htl, hback⟩ := h.pairing.timer_live hr hT
  exact ⟨r, T, t, hr, hT, htl, hback⟩

/-- A step that moves `R` to `o` and writes `c` to its cell. -/
theorem move (h : HeapOk own s) {s' : Server} {c : Cell RequestData}
    (hpair : Pairing s'.myTimerQueue s'.timer s'.request) (hreq : s'.request = update s.request R c)
    (hlive : c.Live ↔ o ≠ .nobody) (htimed : ∀ r, c = .live r → r.timer.isSome = o.isTimed)
    (harm : ∀ R', R' ≠ R → s'.armed R' = s.armed R') (hself : s'.armed R = true → o.isArmable = true) :
    HeapOk (update own R o) s' where
  pairing := hpair
  live R' := by
    rw [hreq]
    by_cases he : R' = R
    · subst he; simpa using hlive
    · simpa [he] using h.live R'
  timed R' r hr := by
    rw [hreq] at hr
    by_cases he : R' = R
    · subst he; rw [update_self] at hr ⊢; exact htimed r hr
    · rw [update_of_ne he] at hr ⊢; exact h.timed R' r hr
  armed R' ha := by
    by_cases he : R' = R
    · subst he; rw [update_self]; exact hself ha
    · rw [update_of_ne he]; rw [harm R' he] at ha; exact h.armed R' ha

/-- Nothing happens to the objects. -/
theorem relabel (h : HeapOk own s) (hne : own R ≠ .nobody) (ho : o ≠ .nobody)
    (ht : o.isTimed = (own R).isTimed) (ha : (own R).isArmable = true → o.isArmable = true)
    (pool : List ReqId) : HeapOk (update own R o) { s with pool := pool } := by
  refine h.move (c := s.request R) h.pairing (update_eq_self R s.request).symm ?_ ?_ (fun _ _ => rfl)
    fun hself => ha (h.armed R hself)
  · exact ⟨fun _ => ho, fun _ => (h.live R).2 hne⟩
  · intro r hr; rw [ht]; exact h.timed R r hr

/-! ## The operations -/

theorem acceptAdd (h : HeapOk own s) (hR : s.request R = .unborn) (epollFd fd : Int) (added : Bool) :
    own R = .nobody ∧ HeapOk (update own R .stamping) (s.acceptAdd epollFd fd R added) := by
  constructor
  · by_contra hne
    have hlive := (h.live R).2 hne
    rw [hR] at hlive
    exact Cell.not_live_unborn hlive
  · refine h.move (c := .live (.new epollFd fd PATH)) ?_ rfl (by simp) ?_ (fun _ he => update_of_ne he _ _)
      fun _ => rfl
    · exact h.pairing.setRequest (by rw [timerOf, hR]; rfl)
    · rintro r hr; cases hr; rfl

/-- The timer pushes of `main` and of a worker leave the same state. -/
theorem push (h : HeapOk own s) {r : RequestData} (hr : s.request R = .live r) (hnone : r.timer = none)
    (hT : s.timer T = .unborn) (now : Nat) (ho : o.isTimed = true)
    (ha : (own R).isArmable = true → o.isArmable = true) :
    HeapOk (update own R o) { s with
      myTimerQueue := T :: s.myTimerQueue
      request := update s.request R (.live { r with timer := some T })
      timer := update s.timer T (.live (.new R now TIMER_TIME_OUT))
      clock := now } := by
  refine h.move (h.pairing.push hT hr hnone now TIMER_TIME_OUT) rfl ?_ ?_ (fun _ _ => rfl)
    fun hself => ha (h.armed R hself)
  · refine ⟨fun _ e => ?_, fun _ => Cell.live_live _⟩
    rw [e] at ho; cases ho
  · rintro r' hr'; cases hr'; rw [ho]; rfl

theorem acceptPush (h : HeapOk own s) (hown : own R = .stamping) (hT : s.timer T = .unborn) (now : Nat) :
    ∃ s', s.acceptPush R T now = .ok s' ∧ s'.pool = s.pool ∧ HeapOk (update own R .epoll) s' := by
  obtain ⟨r, hr, hnone⟩ := h.timerless (R := R) (by rw [hown]; simp) (by rw [hown]; rfl)
  exact ⟨_, Server.acceptPush_eq hr hnone now, rfl, h.push hr hnone hT now rfl fun _ => rfl⟩

theorem rearmPush (h : HeapOk own s) {w : Nat} (hown : own R = .serving w) (hT : s.timer T = .unborn)
    (now : Nat) :
    ∃ s', s.rearmPush R T now = .ok s' ∧ s'.pool = s.pool ∧ HeapOk (update own R (.rearming w)) s' := by
  obtain ⟨r, hr, hnone⟩ := h.timerless (R := R) (by rw [hown]; simp) (by rw [hown]; rfl)
  refine ⟨_, Server.rearmPush_eq hr now, rfl, h.push hr hnone hT now rfl ?_⟩
  rw [hown]; exact id

theorem deleteRequest (h : HeapOk own s) (hne : own R ≠ .nobody) :
    ∃ s', s.deleteRequest R = .ok s' ∧ s'.pool = s.pool ∧ HeapOk (update own R .nobody) s' := by
  have hself : update s.armed R false R = true → Owner.nobody.isArmable = true := by simp
  cases ht : (own R).isTimed with
  | false =>
    obtain ⟨r, hr, hnone⟩ := h.timerless hne ht
    refine ⟨_, Server.deleteRequest_timerless hr hnone, rfl, ?_⟩
    refine h.move (c := .freed) ?_ rfl (by simp) (by simp) (fun _ he => update_of_ne he _ _) hself
    exact h.pairing.setRequest (by rw [timerOf_eq hr, hnone]; rfl)
  | true =>
    obtain ⟨r, T, t, hr, hT, htl, hback⟩ := h.linked ht
    refine ⟨_, Server.deleteRequest_timed hr hT htl, rfl, ?_⟩
    refine h.move (c := .freed) ?_ rfl (by simp) (by simp) (fun _ he => update_of_ne he _ _) hself
    exact h.pairing.clearReq htl hback rfl

theorem separateTimer (h : HeapOk own s) (hown : own R = .batch) :
    ∃ s', s.separateTimer R = .ok s' ∧ s'.pool = s.pool ∧ HeapOk (update own R .adding) s' := by
  obtain ⟨r, T, t, hr, hT, ht, hback⟩ := h.linked (R := R) (by rw [hown]; rfl)
  refine ⟨_, Server.separateTimer_timed hr hT ht, rfl, ?_⟩
  refine h.move (c := .live { r with timer := none }) ?_ rfl (by simp) ?_ (fun _ _ => rfl) ?_
  · exact h.pairing.clearReq ht hback rfl
  · rintro r' hr'; cases hr'; rfl
  · intro ha; have := h.armed R ha; rw [hown] at this; cases this

theorem setRequest (h : HeapOk own s) {r r' : RequestData} (hr : s.request R = .live r)
    (hsame : r'.timer = r.timer) : HeapOk own (s.setRequest R r') := by
  have hmove : HeapOk (update own R (own R)) (s.setRequest R r') := by
    refine h.move (c := .live r') ?_ rfl ?_ ?_ (fun _ _ => rfl) (h.armed R)
    · exact h.pairing.setRequest (by rw [timerOf_eq hr, ← hsame]; rfl)
    · rw [← h.live R, hr]; simp
    · rintro r'' e; cases e; rw [hsame]; exact h.timed R r hr
  rwa [update_eq_self] at hmove

theorem epollMod (h : HeapOk own s) {w : Nat} (hown : own R = .rearming w) (done : Bool) :
    ∃ s', s.epollMod R done = .ok s' ∧ s'.pool = s.pool ∧
      HeapOk (if done then update own R .epoll else own) s' := by
  obtain ⟨r, T, t, hr, hT, -, -⟩ := h.linked (R := R) (by rw [hown]; rfl)
  rw [Server.epollMod, Server.getRequest_live hr]
  cases done with
  | false => exact ⟨s, rfl, rfl, h⟩
  | true =>
    refine ⟨_, rfl, rfl, ?_⟩
    refine h.move (c := s.request R) h.pairing (update_eq_self R s.request).symm ?_ ?_
      (fun _ he => update_of_ne he _ _) fun _ => rfl
    · rw [hr]; simp
    · intro r' hr'; rw [h.timed R r' hr', hown]; rfl

/-- `EPOLLONESHOT`: what is delivered is disarmed. -/
theorem disarm (h : HeapOk own s) {Rs : List ReqId} (hRs : ∀ R ∈ Rs, own R = .epoll) :
    HeapOk (fun R => if R ∈ Rs then .batch else own R) (s.disarm Rs) where
  pairing := h.pairing
  live R := by
    rw [show (s.disarm Rs).request R = s.request R from rfl, h.live R]
    by_cases hm : R ∈ Rs
    · simp [hm, hRs R hm]
    · simp [hm]
  timed R r hr := by
    rw [h.timed R r hr]
    by_cases hm : R ∈ Rs
    · simp [hm, hRs R hm, Owner.isTimed]
    · simp [hm]
  armed R ha := by
    simp only [Server.disarm] at ha
    by_cases hm : R ∈ Rs
    · simp [hm] at ha
    · simp only [hm, if_false] at ha ⊢; exact h.armed R ha

end HeapOk

/-! ## The expiry sweep -/

/-- A reading of the sweep is at or past the expiry of the connection's timer. -/
def Server.Due (s : Server) (script : List (TimerId × Nat)) (R : ReqId) : Prop :=
  ∃ T t, s.timer T = .live t ∧ t.requestData = some R ∧ ∃ e ∈ script, (t.isvalid e.2).1 = false

theorem isvalid_fst {t : TimerStamp} {now : Nat} :
    (t.isvalid now).1 = false ↔ t.expiredTime ≤ now := by
  unfold TimerStamp.isvalid
  by_cases h : now < t.expiredTime <;> simp [h]
  exact Nat.not_lt.1 h

section Sweep

variable {own : ReqId → Owner} {s : Server} {R : ReqId} {T : TimerId} {t : TimerStamp}
  {script : List (TimerId × Nat)} {x : Except Fault Server}

theorem HeapOk.dropAlone (h : HeapOk own s) (ht : s.timer T = .live t) (hnone : t.requestData = none)
    (clock : Nat) : HeapOk own { s with
      myTimerQueue := s.myTimerQueue.erase T
      timer := update s.timer T .freed
      clock := clock } :=
  ⟨h.pairing.drop (by rw [requestOf_eq ht, hnone]), h.live, h.timed, h.armed⟩

theorem HeapOk.dropBoth (h : HeapOk own s) (ht : s.timer T = .live t) (hback : t.requestData = some R)
    (clock : Nat) : HeapOk (update own R .nobody) { s with
      myTimerQueue := s.myTimerQueue.erase T
      request := update s.request R .freed
      timer := update s.timer T .freed
      armed := update s.armed R false
      clock := clock } :=
  h.move (h.pairing.dropBoth ht hback) rfl (by simp) (by simp) (fun _ he => update_of_ne he _ _)
    (by simp)

/-- What is due has a timer. -/
theorem HeapOk.due_timed (h : HeapOk own s) (hdue : s.Due script R) : (own R).isTimed = true := by
  obtain ⟨T, t, ht, hback, -⟩ := hdue
  obtain ⟨r, hr, hT⟩ := h.pairing.request_live ht hback
  rw [← h.timed R r hr, hT]; rfl

/-- What is due behind a pass that removes `T` was due before it: a timer that is still queued is
looked at again, not earlier. -/
theorem due_cons {s₁ : Server} {now : Nat} (htimer : s₁.timer = update s.timer T .freed)
    (hclock : s₁.clock = now) (hqueued : ∀ T, (s₁.timer T).Live → T ∈ s₁.myTimerQueue)
    (hrun : s₁.handleExpiredEvent script = some x)
    (hT : ∀ t, s.timer T = .live t → t.requestData ≠ some R) :
    s.Due ((T, now) :: script) R ↔ s₁.Due script R := by
  constructor
  · rintro ⟨T', t', ht', hback, e, he, hdue⟩
    have hne : T' ≠ T := by rintro rfl; exact hT t' ht' hback
    have ht₁ : s₁.timer T' = .live t' := by rw [htimer, update_of_ne hne, ht']
    rcases List.mem_cons.1 he with rfl | he
    · cases script with
      | nil =>
        have hq := hqueued T' ⟨t', ht₁⟩
        simp only [Server.handleExpiredEvent] at hrun
        split at hrun
        · rename_i hempty; rw [hempty] at hq; cases hq
        · cases hrun
      | cons e script =>
        simp only [Server.handleExpiredEvent] at hrun
        split at hrun
        · rename_i hguard
          have hle := isvalid_fst.1 hdue
          refine ⟨T', t', ht₁, hback, e, List.mem_cons_self, isvalid_fst.2 ?_⟩
          exact hle.trans (hclock ▸ hguard.2)
        · cases hrun
    · exact ⟨T', t', ht₁, hback, e, he, hdue⟩
  · rintro ⟨T', t', ht', hback, e, he, hdue⟩
    rw [htimer] at ht'
    by_cases hne : T' = T
    · subst hne; rw [update_self] at ht'; cases ht'
    · rw [update_of_ne hne] at ht'
      exact ⟨T', t', ht', hback, e, List.mem_cons_of_mem _ he, hdue⟩

/-- Nothing is due when the top stays. -/
theorem not_due_of_top {now : Nat} (hqueued : ∀ T, (s.timer T).Live → T ∈ s.myTimerQueue)
    (htop : s.IsTop T) (ht : s.timer T = .live t) (hlt : now < t.expiredTime) :
    ¬ s.Due [(T, now)] R := by
  rintro ⟨T', t', ht', -, e, he, hdue⟩
  rw [List.mem_singleton] at he
  subst he
  have hle := htop.2 T' (hqueued T' ⟨t', ht'⟩)
  simp only [Server.expiredTime, ht, ht'] at hle
  have := isvalid_fst.1 hdue
  omega

/-- **The sweep** deletes the connections that are due, and no others. -/
theorem HeapOk.sweep : ∀ {script : List (TimerId × Nat)} {own : ReqId → Owner} {s : Server},
    HeapOk own s → s.handleExpiredEvent script = some x →
    ∃ s' own', x = .ok s' ∧ s'.pool = s.pool ∧ HeapOk own' s' ∧
      ∀ R, (s.Due script R → own' R = .nobody) ∧ (¬ s.Due script R → own' R = own R) := by
  intro script
  induction script with
  | nil =>
    intro own s h hrun
    simp only [Server.handleExpiredEvent] at hrun
    split at hrun
    · cases hrun
      refine ⟨s, own, rfl, rfl, h, fun R => ⟨?_, fun _ => rfl⟩⟩
      rintro ⟨T, t, -, -, e, he, -⟩
      cases he
    · cases hrun
  | cons e script ih =>
    obtain ⟨T, now⟩ := e
    intro own s h hrun
    simp only [Server.handleExpiredEvent] at hrun
    split at hrun
    case isFalse => cases hrun
    rename_i htop
    have hqueued : ∀ T, (s.timer T).Live → T ∈ s.myTimerQueue := fun T => (h.pairing.queued T).2
    obtain ⟨t, ht⟩ := (h.pairing.queued T).1 htop.1.1
    have hflag := h.pairing.flag T t ht
    rw [Server.getTimer_live (s := { s with clock := now }) ht] at hrun
    dsimp only at hrun
    cases hdel : t.deleted with
    | true =>
      -- a timer that has lost its connection
      rw [hdel] at hrun hflag
      have hnone : t.requestData = none := Option.isNone_iff_eq_none.1 hflag.symm
      rw [if_pos rfl, Server.popDelete_alone (s := { s with clock := now }) ht hnone] at hrun
      have hdrop := h.dropAlone ht hnone now
      obtain ⟨s', own', hx, hpool, hheap, hmoved⟩ := ih hdrop hrun
      refine ⟨s', own', hx, hpool, hheap, fun R => ?_⟩
      have hdue := due_cons (s := s) (R := R) rfl rfl (fun T => (hdrop.pairing.queued T).2) hrun
        fun t' ht' => by rw [ht] at ht'; cases ht'; rw [hnone]; simp
      rw [hdue]
      exact hmoved R
    | false =>
      rw [hdel] at hrun hflag
      simp only [Bool.false_eq_true, if_false] at hrun
      by_cases hvalid : now < t.expiredTime
      · -- the top stays, and the loop stops
        simp only [TimerStamp.isvalid, if_pos hvalid] at hrun
        split at hrun
        · rename_i hlast
          cases hrun
          subst hlast
          refine ⟨_, own, rfl, rfl, ⟨h.pairing, h.live, h.timed, h.armed⟩, fun R => ⟨?_, fun _ => rfl⟩⟩
          intro hdue
          exact absurd hdue (not_due_of_top hqueued htop.1 ht hvalid)
        · cases hrun
      · -- an expired timer takes its connection with it
        simp only [TimerStamp.isvalid, if_neg hvalid] at hrun
        obtain ⟨R, hback⟩ := Option.isSome_iff_exists.1 (by
          rw [← Option.not_isNone, ← hflag]; rfl : t.requestData.isSome)
        obtain ⟨r, hr, hT⟩ := h.pairing.request_live ht hback
        have hflagged : ({ s with clock := now }.setTimer T t.setDeleted).timer T = .live t.setDeleted :=
          update_self _ _ _
        rw [Server.popDelete_both hflagged hback hr hT] at hrun
        simp only [Server.setTimer, update_idem] at hrun
        have hdrop := h.dropBoth ht hback now
        obtain ⟨s', own', hx, hpool, hheap, hmoved⟩ := ih hdrop hrun
        refine ⟨s', own', hx, hpool, hheap, fun R' => ?_⟩
        by_cases he : R' = R
        · subst he
          have hgone : own' R' = .nobody := by
            have := hmoved R'
            rw [update_self] at this
            exact (Classical.em _).elim this.1 this.2
          refine ⟨fun _ => hgone, fun hnot => absurd ?_ hnot⟩
          exact ⟨T, t, ht, hback, (T, now), List.mem_cons_self, isvalid_fst.2 (Nat.not_lt.1 hvalid)⟩
        · have hdue := due_cons (s := s) (R := R') rfl rfl (fun T => (hdrop.pairing.queued T).2) hrun
            fun t' ht' => by
              rw [ht] at ht'; cases ht'; rw [hback]
              exact fun e => he (Option.some.inj e).symm
          rw [hdue]
          have := hmoved R'
          rwa [update_of_ne he] at this

end Sweep

end HPServer
