import HighPerformanceServer.Server
import Mathlib.Data.List.Nodup
/-!
# Timers and connections point at each other

`Pairing` is the data-structure invariant of the server: the queue holds every live timer once, a
timer is flagged exactly when it has lost its connection, and no pointer between a timer and a
connection is one-sided. The lemmas behind it say what the operations make of a state in this
shape, and that the result is in shape again.
-/

namespace HPServer

open Function

/-- The pointers of the live objects. -/
def requestOf (timer : Heap TimerId TimerStamp) (T : TimerId) : Option ReqId :=
  (timer T).field TimerStamp.requestData
def timerOf (request : Heap ReqId RequestData) (R : ReqId) : Option TimerId :=
  (request R).field RequestData.timer

structure Pairing (queue : List TimerId) (timer : Heap TimerId TimerStamp)
    (request : Heap ReqId RequestData) : Prop where
  nodup : queue.Nodup
  queued : ∀ T, T ∈ queue ↔ (timer T).Live
  flag : ∀ T t, timer T = .live t → t.deleted = t.requestData.isNone
  matched : Matched (requestOf timer) (timerOf request)

section Pointers

variable {queue : List TimerId} {timer : Heap TimerId TimerStamp} {request : Heap ReqId RequestData}
  {R : ReqId} {T : TimerId} {r : RequestData} {t : TimerStamp}

theorem requestOf_eq (h : timer T = .live t) : requestOf timer T = t.requestData := by
  rw [requestOf, h]; rfl

theorem timerOf_eq (h : request R = .live r) : timerOf request R = r.timer := by
  rw [timerOf, h]; rfl

theorem requestOf_update (c : Cell TimerStamp) :
    requestOf (update timer T c) = update (requestOf timer) T (c.field TimerStamp.requestData) :=
  Heap.field_update timer TimerStamp.requestData T c

theorem timerOf_update (c : Cell RequestData) :
    timerOf (update request R c) = update (timerOf request) R (c.field RequestData.timer) :=
  Heap.field_update request RequestData.timer R c

namespace Pairing

theorem start : Pairing [] (fun _ => .unborn) (fun _ => .unborn) where
  nodup := List.nodup_nil
  queued T := by simp
  flag T t h := by cases h
  matched T R := by simp [requestOf, timerOf]

/-- The timer a connection points at is live and points back. -/
theorem timer_live (h : Pairing queue timer request) (hr : request R = .live r)
    (hT : r.timer = some T) : ∃ t, timer T = .live t ∧ t.requestData = some R :=
  Cell.field_eq_some.1 ((h.matched T R).2 (by rw [timerOf_eq hr, hT]))

theorem request_live (h : Pairing queue timer request) (ht : timer T = .live t)
    (hR : t.requestData = some R) : ∃ r, request R = .live r ∧ r.timer = some T :=
  Cell.field_eq_some.1 ((h.matched T R).1 (by rw [requestOf_eq ht, hR]))

/-- A connection with a timer has no second one. -/
theorem unique_timer (h : Pairing queue timer request) (ht : timer T = .live t)
    (hback : t.requestData = some R) :
    ∃! T, T ∈ queue ∧ ∃ t, timer T = .live t ∧ t.requestData = some R := by
  refine ⟨T, ⟨(h.queued T).2 ⟨t, ht⟩, t, ht, hback⟩, ?_⟩
  rintro T' ⟨-, t', ht', hback'⟩
  exact h.matched.unique (by rw [requestOf_eq ht', hback']) (by rw [requestOf_eq ht, hback])

/-- A connection changes, but not where it points. -/
theorem setRequest (h : Pairing queue timer request) {c : Cell RequestData}
    (hc : c.field RequestData.timer = timerOf request R) :
    Pairing queue timer (update request R c) where
  nodup := h.nodup
  queued := h.queued
  flag := h.flag
  matched := by
    rw [timerOf_update, hc, update_eq_self]
    exact h.matched

/-- A timer and its connection let go of each other; the connection may be gone altogether. -/
theorem clearReq (h : Pairing queue timer request) (ht : timer T = .live t)
    (hR : t.requestData = some R) {c : Cell RequestData} (hc : c.field RequestData.timer = none) :
    Pairing queue (update timer T (.live t.clearReq)) (update request R c) where
  nodup := h.nodup
  queued T' := by
    rw [h.queued T']
    by_cases hT : T' = T
    · subst hT; simp [ht]
    · simp [hT]
  flag T' t' ht' := by
    by_cases hT : T' = T
    · subst hT; rw [update_self] at ht'; cases ht'; rfl
    · rw [update_of_ne hT] at ht'; exact h.flag T' t' ht'
  matched := by
    have hpair : requestOf timer T = some R := by rw [requestOf_eq ht, hR]
    rw [requestOf_update, timerOf_update, hc]
    exact h.matched.unpair hpair

/-- A new timer and a connection without one take hold of each other, and the timer is queued. -/
theorem push (h : Pairing queue timer request) (hT : timer T = .unborn) (hr : request R = .live r)
    (hnone : r.timer = none) (now timeout : Nat) :
    Pairing (T :: queue) (update timer T (.live (.new R now timeout)))
      (update request R (.live { r with timer := some T })) where
  nodup := by
    refine List.nodup_cons.2 ⟨fun hq => ?_, h.nodup⟩
    rw [h.queued, hT] at hq
    exact Cell.not_live_unborn hq
  queued T' := by
    rw [List.mem_cons, h.queued T']
    by_cases he : T' = T
    · subst he; simp
    · simp [he]
  flag T' t' ht' := by
    by_cases he : T' = T
    · subst he; rw [update_self] at ht'; cases ht'; rfl
    · rw [update_of_ne he] at ht'; exact h.flag T' t' ht'
  matched := by
    have hfreeT : requestOf timer T = none := by rw [requestOf, hT]; rfl
    have hfreeR : timerOf request R = none := by rw [timerOf_eq hr, hnone]
    rw [requestOf_update, timerOf_update]
    exact h.matched.pair hfreeT hfreeR

/-- A timer that has lost its connection leaves the queue and is deleted. -/
theorem drop (h : Pairing queue timer request) (hR : requestOf timer T = none) :
    Pairing (queue.erase T) (update timer T .freed) request where
  nodup := h.nodup.erase T
  queued T' := by
    rw [h.nodup.mem_erase_iff, h.queued T']
    by_cases he : T' = T
    · subst he; simp
    · simp [he]
  flag T' t' ht' := by
    by_cases he : T' = T
    · subst he; rw [update_self] at ht'; cases ht'
    · rw [update_of_ne he] at ht'; exact h.flag T' t' ht'
  matched := by
    rw [requestOf_update, show (Cell.freed : Cell TimerStamp).field _ = none from rfl, ← hR, update_eq_self]
    exact h.matched

/-- A timer and its connection are deleted together. -/
theorem dropBoth (h : Pairing queue timer request) (ht : timer T = .live t)
    (hR : t.requestData = some R) :
    Pairing (queue.erase T) (update timer T .freed) (update request R .freed) := by
  have hcleared := (h.clearReq ht hR (c := .freed) rfl).drop (T := T)
    (by rw [requestOf_update, update_self]; rfl)
  rwa [update_idem] at hcleared

end Pairing

end Pointers

/-! ## What the operations do to a state in shape -/

namespace Server

variable {s : Server} {R : ReqId} {T : TimerId} {r : RequestData} {t : TimerStamp}

theorem getRequest_live (hr : s.request R = .live r) : s.getRequest R = .ok r := by
  rw [getRequest, hr]

theorem getTimer_live (ht : s.timer T = .live t) : s.getTimer T = .ok t := by
  rw [getTimer, ht]

theorem getRequest_gone (h : ¬ (s.request R).Live) : s.getRequest R = .error (.requestUsed R) := by
  unfold getRequest
  cases hc : s.request R with
  | live r => rw [hc] at h; exact absurd (Cell.live_live r) h
  | unborn | freed => rfl

theorem deleteRequest_gone (h : ¬ (s.request R).Live) :
    s.deleteRequest R = .error (.requestDeleted R) := by
  unfold deleteRequest
  cases hc : s.request R with
  | live r => rw [hc] at h; exact absurd (Cell.live_live r) h
  | unborn | freed => rfl

theorem clearReq_live (ht : s.timer T = .live t) :
    s.clearReq (some T) = .ok (s.setTimer T t.clearReq) := by
  rw [clearReq, getTimer_live ht]; rfl

theorem deleteRequest_timerless (hr : s.request R = .live r) (hnone : r.timer = none) :
    s.deleteRequest R = .ok { s with
      request := update s.request R .freed
      armed := update s.armed R false } := by
  simp only [deleteRequest, hr, hnone, clearReq]
  rfl

theorem deleteRequest_timed (hr : s.request R = .live r) (hT : r.timer = some T)
    (ht : s.timer T = .live t) :
    s.deleteRequest R = .ok { s with
      request := update s.request R .freed
      timer := update s.timer T (.live t.clearReq)
      armed := update s.armed R false } := by
  simp only [deleteRequest, hr, hT, clearReq_live (s := s.setArmed R false) ht]
  rfl

theorem separateTimer_timed (hr : s.request R = .live r) (hT : r.timer = some T)
    (ht : s.timer T = .live t) :
    s.separateTimer R = .ok { s with
      request := update s.request R (.live { r with timer := none })
      timer := update s.timer T (.live t.clearReq) } := by
  rw [separateTimer, getRequest_live hr]
  show (s.clearReq r.timer).bind _ = _
  rw [hT, clearReq_live ht]
  rfl

/-- The queue entry goes with the timer. -/
theorem popDelete_alone (ht : s.timer T = .live t) (hR : t.requestData = none) :
    s.popDelete T = .ok { s with
      myTimerQueue := s.myTimerQueue.erase T
      timer := update s.timer T .freed } := by
  simp only [popDelete, deleteTimer, ht, hR]
  rfl

/-- `~timer_stamp` deletes the connection, whose destructor clears the timer it is called from. -/
theorem popDelete_both (ht : s.timer T = .live t) (hR : t.requestData = some R)
    (hr : s.request R = .live r) (hT : r.timer = some T) :
    s.popDelete T = .ok { s with
      myTimerQueue := s.myTimerQueue.erase T
      request := update s.request R .freed
      timer := update s.timer T .freed
      armed := update s.armed R false } := by
  simp only [popDelete, deleteTimer, ht, hR]
  rw [deleteRequest_timed (s := { s with myTimerQueue := s.myTimerQueue.erase T }) hr hT ht]
  show Except.ok _ = _
  simp only [update_idem]

theorem acceptPush_eq (hr : s.request R = .live r) (hnone : r.timer = none) (now : Nat) :
    s.acceptPush R T now = .ok { s with
      myTimerQueue := T :: s.myTimerQueue
      request := update s.request R (.live { r with timer := some T })
      timer := update s.timer T (.live (.new R now TIMER_TIME_OUT))
      clock := now } := by
  have hadd : r.addTimer T = { r with timer := some T } := if_pos hnone
  simp only [acceptPush, getRequest_live (s := s.newTimer T R now) hr]
  show Except.ok (((s.newTimer T R now).setRequest R (r.addTimer T)).push T) = _
  rw [hadd]
  rfl

theorem rearmPush_eq (hr : s.request R = .live r) (now : Nat) :
    s.rearmPush R T now = .ok { s with
      myTimerQueue := T :: s.myTimerQueue
      request := update s.request R (.live { r with timer := some T })
      timer := update s.timer T (.live (.new R now TIMER_TIME_OUT))
      clock := now } := by
  simp only [rearmPush, getRequest_live (s := s.newTimer T R now) hr]
  rfl

end Server

end HPServer
