import HighPerformanceServer.Pairing
import Mathlib.Data.List.MinMax
/-!
# One expiry sweep removes all that is due and nothing that is alive

| here | there |
| --- | --- |
| `SweepEnv`  | which entry `top()` hands out, and what `gettimeofday` returns, call after call |
| `Look`      | one evaluation of the condition at `main.cpp:147`; a flagged entry needs no clock |
| `sweep`     | the loop of `handle_expired_event` (`main.cpp:145-153`) |

The readings a sweep takes are the first ones of the environment. `handleExpiredEvent` of
`Server.lean` makes the same passes (`sweep_handleExpiredEvent`).
-/

namespace HPServer

open CppStd Function

/-- `top()` is an entry of least `expired_time`. The queue shrinks from pass to pass, so a choice by
the state is any choice. -/
structure SweepEnv where
  top : Server → TimerId
  reading : Nat → Nat
  isTop : ∀ s : Server, s.myTimerQueue ≠ [] → s.IsTop (top s)
  mono : Monotone reading

structure Look where
  timer : TimerId
  reading : Option Nat
deriving DecidableEq

/-- The clock readings that have been taken. -/
def readings (looked : List Look) : List Nat := looked.filterMap Look.reading

namespace Server

def sweep (env : SweepEnv) : Nat → List Look → Server → Option (Except Fault (List Look × Server))
  | 0, _, _ => none
  | fuel + 1, looked, s =>
    if s.myTimerQueue = [] then some (.ok (looked, s))
    else
      let T := env.top s
      match s.getTimer T with
      | .error f => some (.error f)
      | .ok t =>
        if t.deleted then
          match s.popDelete T with
          | .error f => some (.error f)
          | .ok s' => sweep env fuel (looked ++ [⟨T, none⟩]) s'
        else
          let now := env.reading (readings looked).length
          match t.isvalid now with
          | (true, _) => some (.ok (looked ++ [⟨T, some now⟩], { s with clock := now }))
          | (false, t) =>
            match ({ s with clock := now }.setTimer T t).popDelete T with
            | .error f => some (.error f)
            | .ok s' => sweep env fuel (looked ++ [⟨T, some now⟩]) s'

end Server

/-- A queue of timers as the other operations leave it. -/
structure Sweepable (s : Server) : Prop where
  nodup : s.myTimerQueue.Nodup
  queued : ∀ T ∈ s.myTimerQueue, ∃ t, s.timer T = .live t ∧
    ((t.deleted = true ∧ t.requestData = none) ∨
      (t.deleted = false ∧ ∃ R r, t.requestData = some R ∧ s.request R = .live r ∧ r.timer = some T))

theorem Pairing.sweepable {s : Server} (h : Pairing s.myTimerQueue s.timer s.request) : Sweepable s where
  nodup := h.nodup
  queued T hT := by
    obtain ⟨t, ht⟩ := (h.queued T).1 hT
    refine ⟨t, ht, ?_⟩
    have hflag := h.flag T t ht
    cases hR : t.requestData with
    | none => exact Or.inl ⟨by rw [hflag, hR]; rfl, rfl⟩
    | some R =>
      obtain ⟨r, hr, hback⟩ := h.request_live ht hR
      exact Or.inr ⟨by rw [hflag, hR]; rfl, R, r, rfl, hr, hback⟩

/-- What a sweep has done to `s` when it stops in `s'`. -/
structure Swept (env : SweepEnv) (s s' : Server) (looked : List Look) : Prop where
  /-- It has taken the first readings. -/
  clock : readings looked = (List.range (readings looked).length).map env.reading
  kept : ∀ T ∈ s'.myTimerQueue, T ∈ s.myTimerQueue ∧ s'.timer T = s.timer T
  removed : ∀ T ∈ s.myTimerQueue, T ∉ s'.myTimerQueue → s'.timer T = .freed ∧ ∃ t, s.timer T = .live t ∧
    (t.deleted = true ∨ ∃ now, ⟨T, some now⟩ ∈ looked ∧ t.expiredTime ≤ now)
  deleted : ∀ R, (∃ T t, T ∈ s.myTimerQueue ∧ T ∉ s'.myTimerQueue ∧ s.timer T = .live t ∧
    t.deleted = false ∧ t.requestData = some R) → s'.request R = .freed
  spared : ∀ R, (¬ ∃ T t, T ∈ s.myTimerQueue ∧ T ∉ s'.myTimerQueue ∧ s.timer T = .live t ∧
    t.deleted = false ∧ t.requestData = some R) → s'.request R = s.request R
  /-- Nothing is left that is due at the last reading. -/
  due : s'.myTimerQueue = [] ∨ ∃ now, (readings looked).getLast? = some now ∧
    ∀ T ∈ s'.myTimerQueue, now < s'.expiredTime T

/-! ## One pass -/

/-- The removed timers, and their connections. -/
def gone (looked : List Look) : List TimerId := looked.map Look.timer
def goneRequests (s : Server) (looked : List Look) : List ReqId :=
  (gone looked).filterMap (requestOf s.timer)

/-- A look after which the entry is removed. -/
def Look.Due (l : Look) (s : Server) : Prop :=
  l.timer ∈ s.myTimerQueue ∧ ∃ t, s.timer l.timer = .live t ∧
    (t.deleted = true ∨ ∃ now, l.reading = some now ∧ t.expiredTime ≤ now)

/-- Where a sweep of `s` stands in `s'` when every entry it has looked at is removed. -/
structure SweepInv (env : SweepEnv) (s s' : Server) (looked : List Look) : Prop where
  queue : s'.myTimerQueue = s.myTimerQueue.filter fun T => T ∉ gone looked
  timer : ∀ T, s'.timer T = if T ∈ gone looked then .freed else s.timer T
  request : ∀ R, s'.request R = if R ∈ goneRequests s looked then .freed else s.request R
  due : ∀ l ∈ looked, l.Due s
  clock : readings looked = (List.range (readings looked).length).map env.reading

section Pass

variable {env : SweepEnv} {s s' s'' : Server} {looked : List Look} {l : Look} {T : TimerId} {t : TimerStamp}

theorem SweepInv.start : SweepInv env s s [] where
  queue := by simp [gone]
  timer T := by simp [gone]
  request R := by simp [gone, goneRequests]
  due l hl := by cases hl
  clock := rfl

theorem SweepInv.mem_queue (h : SweepInv env s s' looked) :
    T ∈ s'.myTimerQueue ↔ T ∈ s.myTimerQueue ∧ T ∉ gone looked := by
  rw [h.queue, List.mem_filter]
  simp

theorem SweepInv.gone_of_left (h : SweepInv env s s' looked) (hT : T ∈ s.myTimerQueue)
    (hout : T ∉ s'.myTimerQueue) : T ∈ gone looked := by
  by_contra hkept
  exact hout (h.mem_queue.2 ⟨hT, hkept⟩)

/-- An entry that is still queued is as it was, and so is its connection. -/
theorem SweepInv.request_kept (h : SweepInv env s s' looked) (hs : Sweepable s) (hT : T ∈ s'.myTimerQueue)
    {R : ReqId} (hR : requestOf s.timer T = some R) : s'.request R = s.request R := by
  obtain ⟨hq, hkept⟩ := h.mem_queue.1 hT
  rw [h.request, if_neg]
  intro hgone
  obtain ⟨T', hT', hR'⟩ := List.mem_filterMap.1 hgone
  obtain ⟨l, hl, rfl⟩ := List.mem_map.1 hT'
  have back : ∀ {T}, T ∈ s.myTimerQueue → requestOf s.timer T = some R → timerOf s.request R = some T := by
    intro T hT hR
    obtain ⟨t, ht, hcase⟩ := hs.queued T hT
    rw [requestOf_eq ht] at hR
    rcases hcase with ⟨-, hnone⟩ | ⟨-, R', r, hR', hr, hr'⟩
    · rw [hnone] at hR; cases hR
    · rw [hR'] at hR; cases hR
      rw [timerOf_eq hr, hr']
  have hsame := (back hq hR).symm.trans (back (h.due l hl).1 hR')
  cases hsame
  exact hkept hT'

/-- **A removal** keeps the invariant: the entry leaves the queue, and it and its connection are
freed. -/
theorem SweepInv.remove (h : SweepInv env s s' looked) (hs : Sweepable s)
    (hdue : l.Due s) (hread : ∀ now ∈ l.reading, now = env.reading (readings looked).length)
    (hqueue : s''.myTimerQueue = s'.myTimerQueue.erase l.timer)
    (htimer : s''.timer = update s'.timer l.timer .freed)
    (hrequest : s''.request = match requestOf s.timer l.timer with
      | none => s'.request
      | some R => update s'.request R .freed) :
    SweepInv env s s'' (looked ++ [l]) where
  queue := by
    have hnodup : s'.myTimerQueue.Nodup := h.queue ▸ hs.nodup.filter _
    rw [hqueue, hnodup.erase_eq_filter, h.queue, List.filter_filter]
    refine List.filter_congr fun T _ => ?_
    by_cases hTl : T = l.timer <;> simp [gone, hTl]
  timer T := by
    rw [htimer]
    by_cases hTl : T = l.timer
    · subst hTl
      simp [gone]
    · rw [update_of_ne hTl, h.timer]
      simp [gone, hTl]
  request R := by
    rw [hrequest]
    cases hR : requestOf s.timer l.timer with
    | none =>
      dsimp only
      rw [h.request]
      simp [goneRequests, gone, hR]
    | some R' =>
      dsimp only
      by_cases hRR : R = R'
      · subst hRR
        rw [update_self, if_pos]
        simp [goneRequests, gone, hR]
      · rw [update_of_ne hRR, h.request]
        simp [goneRequests, gone, hR, hRR]
  due l' hl' := by
    rcases List.mem_append.1 hl' with hl' | hl'
    · exact h.due l' hl'
    · rw [List.mem_singleton.1 hl']
      exact hdue
  clock := by
    cases hl : l.reading with
    | none =>
      have hsame : readings (looked ++ [l]) = readings looked := by simp [readings, hl]
      rw [hsame]
      exact h.clock
    | some now =>
      have hmore : readings (looked ++ [l]) = readings looked ++ [now] := by simp [readings, hl]
      rw [hmore, List.length_append, List.length_singleton, List.range_succ, List.map_append, ← h.clock,
        hread now hl]
      rfl

end Pass

/-! ## The whole sweep -/

section Whole

variable {env : SweepEnv} {s s' : Server} {looked : List Look}

/-- Everything looked at is removed, or a last entry has been found alive. -/
inductive SweepEnd (env : SweepEnv) (s : Server) : List Look → Server → Prop where
  | emptied {looked : List Look} {s' : Server} (h : SweepInv env s s' looked) (he : s'.myTimerQueue = []) :
      SweepEnd env s looked s'
  | alive {looked : List Look} {s' : Server} {T : TimerId} (h : SweepInv env s s' looked) (hT : s'.IsTop T)
      (hlt : env.reading (readings looked).length < s'.expiredTime T) :
      SweepEnd env s (looked ++ [⟨T, some (env.reading (readings looked).length)⟩])
        { s' with clock := env.reading (readings looked).length }

/-- **The loop** comes to its end in as many passes as there are entries, and one more. -/
theorem sweep_end (hs : Sweepable s) : ∀ (fuel : Nat) (looked : List Look) (s' : Server),
    SweepInv env s s' looked → s'.myTimerQueue.length < fuel →
    ∃ looked' s'', s'.sweep env fuel looked = some (.ok (looked', s'')) ∧ SweepEnd env s looked' s''
  | 0, _, _, _, hfuel => absurd hfuel (Nat.not_lt_zero _)
  | fuel + 1, looked, s', h, hfuel => by
    by_cases hempty : s'.myTimerQueue = []
    · exact ⟨looked, s', by rw [Server.sweep, if_pos hempty], .emptied h hempty⟩
    obtain ⟨T, hTop⟩ : ∃ T, env.top s' = T := ⟨_, rfl⟩
    have htop : s'.IsTop T := hTop ▸ env.isTop s' hempty
    obtain ⟨hq, hkept⟩ := h.mem_queue.1 htop.1
    obtain ⟨t, ht, hcase⟩ := hs.queued T hq
    have ht' : s'.timer T = .live t := by rw [h.timer, if_neg hkept, ht]
    have hlen : (s'.myTimerQueue.erase T).length < fuel := by
      rw [List.length_erase_of_mem htop.1]
      have := List.length_pos_of_mem htop.1
      omega
    rw [Server.sweep, if_neg hempty]
    dsimp only
    rw [hTop, Server.getTimer_live ht']
    dsimp only
    rcases hcase with ⟨hdel, hnone⟩ | ⟨hdel, R, r, hR, hr, hback⟩
    · -- flagged: the clock is not read
      rw [if_pos hdel, Server.popDelete_alone ht' hnone]
      refine sweep_end hs fuel _ _ (h.remove hs (l := ⟨T, none⟩) ⟨hq, t, ht, Or.inl hdel⟩
        (by simp) rfl rfl ?_) hlen
      rw [requestOf_eq ht, hnone]
    · have hreq : requestOf s.timer T = some R := by rw [requestOf_eq ht, hR]
      have hr' : s'.request R = .live r := by rw [h.request_kept hs htop.1 hreq, hr]
      rw [if_neg (by simp [hdel])]
      unfold TimerStamp.isvalid
      by_cases hlt : env.reading (readings looked).length < t.expiredTime
      · rw [if_pos hlt]
        refine ⟨_, _, rfl, .alive h htop ?_⟩
        rw [Server.expiredTime, ht']
        exact hlt
      · rw [if_neg hlt]
        dsimp only
        have hflagged : ({ s' with clock := env.reading (readings looked).length }.setTimer T
            t.setDeleted).timer T = .live t.setDeleted := update_self ..
        rw [Server.popDelete_both hflagged hR hr' hback]
        refine sweep_end hs fuel _ _ (h.remove hs (l := ⟨T, some _⟩)
          ⟨hq, t, ht, Or.inr ⟨_, rfl, Nat.le_of_not_lt hlt⟩⟩ (by simp) rfl ?_ ?_) hlen
        · exact update_idem ..
        · rw [hreq]
          rfl

/-- The facts about the entries, read off the invariant. -/
theorem SweepInv.swept {looked' : List Look} {clock : Nat} (h : SweepInv env s s' looked) (hs : Sweepable s)
    (hmore : ∀ l ∈ looked, l ∈ looked')
    (hclock : readings looked' = (List.range (readings looked').length).map env.reading)
    (hdue : s'.myTimerQueue = [] ∨ ∃ now, (readings looked').getLast? = some now ∧
      ∀ T ∈ s'.myTimerQueue, now < s'.expiredTime T) :
    Swept env s { s' with clock := clock } looked' where
  clock := hclock
  kept T hT := by
    obtain ⟨hq, hkept⟩ := h.mem_queue.1 hT
    exact ⟨hq, by rw [h.timer, if_neg hkept]⟩
  removed T hT hout := by
    have hgone := h.gone_of_left hT hout
    obtain ⟨⟨T, reading⟩, hl, rfl⟩ := List.mem_map.1 hgone
    obtain ⟨-, t, ht, hdue⟩ := h.due _ hl
    refine ⟨by rw [h.timer, if_pos hgone], t, ht, hdue.imp_right ?_⟩
    rintro ⟨now, rfl, hle⟩
    exact ⟨now, hmore _ hl, hle⟩
  deleted R := by
    rintro ⟨T, t, hT, hout, ht, -, hR⟩
    rw [h.request, if_pos]
    exact List.mem_filterMap.2 ⟨T, h.gone_of_left hT hout, by rw [requestOf_eq ht, hR]⟩
  spared R hR := by
    rw [h.request, if_neg]
    intro hgone
    obtain ⟨T, hT, hTR⟩ := List.mem_filterMap.1 hgone
    obtain ⟨l, hl, rfl⟩ := List.mem_map.1 hT
    have hq := (h.due l hl).1
    obtain ⟨t, ht, hcase⟩ := hs.queued l.timer hq
    rw [requestOf_eq ht] at hTR
    refine hR ⟨l.timer, t, hq, fun hin => (h.mem_queue.1 hin).2 hT, ht, ?_, hTR⟩
    rcases hcase with ⟨-, hnone⟩ | ⟨hdel, -⟩
    · rw [hnone] at hTR; cases hTR
    · exact hdel
  due := hdue

theorem SweepEnd.swept (h : SweepEnd env s looked s') (hs : Sweepable s) : Swept env s s' looked := by
  cases h with
  | emptied h hempty =>
    show Swept env s { s' with clock := s'.clock } looked
    exact h.swept hs (fun _ hl => hl) h.clock (Or.inl hempty)
  | alive h hT hlt =>
    rename_i looked s' T
    have hmore : readings (looked ++ [⟨T, some (env.reading (readings looked).length)⟩]) =
        readings looked ++ [env.reading (readings looked).length] := by simp [readings]
    refine h.swept hs (fun _ hl => List.mem_append_left _ hl) ?_
      (Or.inr ⟨env.reading (readings looked).length, ?_, fun T' hT' => ?_⟩)
    · rw [hmore, List.length_append, List.length_singleton, List.range_succ, List.map_append, ← h.clock]
      rfl
    · rw [hmore, List.getLast?_append_cons]
      rfl
    · exact Nat.lt_of_lt_of_le hlt (hT.2 T' hT')

/-- **The sweep** ends without touching anything that is gone, removes only what is flagged or due,
deletes the connections of the unflagged entries that it removes and no others, and leaves nothing
that is due at its last reading. -/
theorem sweep_exact (hs : Sweepable s) (env : SweepEnv) {fuel : Nat}
    (hfuel : s.myTimerQueue.length < fuel) :
    ∃ looked s', s.sweep env fuel [] = some (.ok (looked, s')) ∧ Swept env s s' looked := by
  obtain ⟨looked, s', hrun, hend⟩ := sweep_end hs fuel [] s SweepInv.start hfuel
  exact ⟨looked, s', hrun, hend.swept hs⟩

/-- The first of the least entries. -/
def leastFirst (reading : Nat → Nat) (mono : Monotone reading) : SweepEnv where
  top s := (s.myTimerQueue.argmin s.expiredTime).getD 0
  reading := reading
  isTop s hne := by
    cases ht : s.myTimerQueue.argmin s.expiredTime with
    | none => exact absurd (List.argmin_eq_none.1 ht) hne
    | some T => exact ⟨List.argmin_mem ht, fun T' hT' => List.le_of_mem_argmin hT' ht⟩
  mono := mono

/-- A flagged entry that is not due, one that is due, and one that is alive. -/
def threeTimers : Server where
  request R := if R = 7 then .live { RequestData.new 3 5 PATH with timer := some 1 }
    else if R = 8 then .live { RequestData.new 3 6 PATH with timer := some 2 } else .unborn
  timer T := if T = 0 then .live ⟨true, 20, none⟩ else if T = 1 then .live ⟨false, 10, some 7⟩
    else if T = 2 then .live ⟨false, 100, some 8⟩ else .unborn
  myTimerQueue := [2, 0, 1]
  armed := fun _ => true
  pool := []
  clock := 0

theorem threeTimers_swept : ∃ looked s',
    threeTimers.sweep (leastFirst (fun i => 10 + i) fun _ _ h => Nat.add_le_add_left h 10) 4 [] =
      some (.ok (looked, s')) ∧
    Swept (leastFirst (fun i => 10 + i) fun _ _ h => Nat.add_le_add_left h 10) threeTimers s' looked := by
  have hsweepable : Sweepable threeTimers := by
    refine ⟨by decide, fun T hT => ?_⟩
    have hT' : T = 2 ∨ T = 0 ∨ T = 1 := by simpa [threeTimers] using hT
    rcases hT' with rfl | rfl | rfl
    · exact ⟨_, rfl, Or.inr ⟨rfl, 8, _, rfl, rfl, rfl⟩⟩
    · exact ⟨_, rfl, Or.inl ⟨rfl, rfl⟩⟩
    · exact ⟨_, rfl, Or.inr ⟨rfl, 7, _, rfl, rfl, rfl⟩⟩
  exact sweep_exact hsweepable _ (by decide)

end Whole

/-! ## The passes of `handleExpiredEvent` -/

namespace Server

variable {s s' : Server} {R : ReqId} {T : TimerId}

theorem clearReq_clock {t : Option TimerId} (h : s.clearReq t = .ok s') : s'.clock = s.clock := by
  cases t with
  | none => cases h; rfl
  | some T =>
    obtain ⟨t, -, h⟩ := bind_eq_ok.1 h
    cases h; rfl

theorem deleteRequest_clock (h : s.deleteRequest R = .ok s') : s'.clock = s.clock := by
  unfold deleteRequest at h
  split at h
  · obtain ⟨s₁, hc, h⟩ := bind_eq_ok.1 h
    cases h
    have hclock := clearReq_clock hc
    exact hclock
  · cases h
  · cases h

theorem popDelete_clock (h : s.popDelete T = .ok s') : s'.clock = s.clock := by
  unfold popDelete deleteTimer at h
  split at h
  · rename_i t ht
    cases hR : t.requestData with
    | none => rw [hR] at h; cases h; rfl
    | some R =>
      rw [hR] at h
      obtain ⟨s₁, hd, h⟩ := bind_eq_ok.1 (show deleteRequest _ R >>= _ = .ok s' from h)
      cases h
      have hclock := deleteRequest_clock hd
      exact hclock
  · cases h
  · cases h

/-- The condition at `main.cpp:147` is evaluated for a timer that is there. -/
theorem handleExpiredEvent_looks {t : TimerStamp} {now : Nat} (htop : s.IsTop T) (hle : s.clock ≤ now)
    (ht : s.getTimer T = .ok t) (script : List (TimerId × Nat)) :
    s.handleExpiredEvent ((T, now) :: script) =
      if t.deleted then
        match { s with clock := now }.popDelete T with
        | .error f => some (.error f)
        | .ok s' => s'.handleExpiredEvent script
      else
        match t.isvalid now with
        | (true, _) => if script = [] then some (.ok { s with clock := now }) else none
        | (false, t) =>
          match ({ s with clock := now }.setTimer T t).popDelete T with
          | .error f => some (.error f)
          | .ok s' => s'.handleExpiredEvent script := by
  have ht' : { s with clock := now }.getTimer T = .ok t := ht
  rw [handleExpiredEvent, if_pos ⟨htop, hle⟩]
  dsimp only
  rewrite [ht']
  rfl

/-- A sweep is one of `handleExpiredEvent`, whose clock stands still while it is not read. -/
theorem sweep_handleExpiredEvent {env : SweepEnv} : ∀ (fuel : Nat) (looked : List Look) (s : Server)
    {res : Except Fault (List Look × Server)}, s.clock ≤ env.reading (readings looked).length →
    s.sweep env fuel looked = some res → ∃ script, s.handleExpiredEvent script = some (res.map Prod.snd)
  | 0, _, _, _, _, h => by cases h
  | fuel + 1, looked, s, res, hclock, h => by
    rw [sweep] at h
    by_cases hempty : s.myTimerQueue = []
    · rw [if_pos hempty] at h
      cases h
      exact ⟨[], if_pos hempty⟩
    rw [if_neg hempty] at h
    dsimp only at h
    have htop := env.isTop s hempty
    generalize env.top s = T at h htop
    cases ht : s.getTimer T with
    | error f =>
      rw [ht] at h
      cases h
      have ht' : { s with clock := s.clock }.getTimer T = .error f := ht
      refine ⟨[(T, s.clock)], ?_⟩
      rw [handleExpiredEvent, if_pos ⟨htop, Nat.le_refl _⟩]
      dsimp only
      rw [ht']
      rfl
    | ok t =>
      rw [ht] at h
      dsimp only at h
      by_cases hdel : t.deleted = true
      · -- the clock is not read
        have hlooks := handleExpiredEvent_looks htop (Nat.le_refl _) ht
        rw [if_pos hdel] at h
        simp only [if_pos hdel] at hlooks
        cases hpop : s.popDelete T with
        | error f =>
          rw [hpop] at h
          cases h
          exact ⟨[(T, s.clock)], by rw [hlooks, hpop]; rfl⟩
        | ok s' =>
          rw [hpop] at h
          have hnone : readings (looked ++ [⟨T, none⟩]) = readings looked := by simp [readings]
          obtain ⟨script, hscript⟩ := sweep_handleExpiredEvent fuel _ s'
            (by rw [popDelete_clock hpop, hnone]; exact hclock) h
          exact ⟨(T, s.clock) :: script, by rw [hlooks, hpop]; exact hscript⟩
      · have hlooks := handleExpiredEvent_looks htop hclock ht
        rw [if_neg hdel] at h
        simp only [if_neg hdel] at hlooks
        unfold TimerStamp.isvalid at h hlooks
        by_cases hlt : env.reading (readings looked).length < t.expiredTime
        · rw [if_pos hlt] at h
          simp only [if_pos hlt] at hlooks
          cases h
          exact ⟨[(T, _)], hlooks []⟩
        · rw [if_neg hlt] at h
          simp only [if_neg hlt] at hlooks
          dsimp only at h
          cases hpop : ({ s with clock := env.reading (readings looked).length }.setTimer T
              t.setDeleted).popDelete T with
          | error f =>
            rw [hpop] at h
            cases h
            exact ⟨[(T, _)], by rw [hlooks, hpop]; rfl⟩
          | ok s' =>
            rw [hpop] at h
            have hmore : (readings (looked ++ [⟨T, some (env.reading (readings looked).length)⟩])).length =
                (readings looked).length + 1 := by simp [readings]
            have hnext : s'.clock ≤ env.reading ((readings looked).length + 1) := by
              rw [popDelete_clock hpop]
              exact env.mono (Nat.le_succ _)
            obtain ⟨script, hscript⟩ := sweep_handleExpiredEvent fuel _ s' (by rw [hmore]; exact hnext) h
            exact ⟨(T, _) :: script, by rw [hlooks, hpop]; exact hscript⟩

end Server

end HPServer
