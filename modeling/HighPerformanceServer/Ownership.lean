import HighPerformanceServer.KeepAlive
import HighPerformanceServer.ThreadsInv
/-!
# Runs of whole calls

Between calls `main` waits and every worker is idle. A step is a whole call; it is a row of steps of
`Threads.lean`, so `Inv` carries over (`Quiet`).

| here | there |
| --- | --- |
| `acceptConnection` | `acceptConnection` behind a successful `accept` (main.cpp:85-99) |
| `handleEvent`      | `handle_events` on one event of a connection (main.cpp:110-126) |
| `handleRequest`    | `requestData::handleRequest` (requestData.cpp:108-215) |
-/

namespace HPServer

open Function CppStd

namespace Server

def acceptConnection (s : Server) (epollFd fd : Int) (R : ReqId) (T : TimerId) (added : Bool)
    (now : Nat) : Except Fault Server :=
  (s.acceptAdd epollFd fd R added).acceptPush R T now

def handleEvent (s : Server) (R : ReqId) (err : Bool) : Except Fault Server :=
  let s := s.disarm [R]
  if err then s.errorEvent R
  else do
    let s ← s.separate R
    return s.poolAdd R

/-- Behind the loop: the timer push, the re-arm, and the `delete` when it fails. -/
def rearm (s : Server) (R : ReqId) (env : CallEnv) (now : Nat) : Except Fault Server := do
  let s ← s.rearmPush R env.mtimer now
  let s ← s.epollMod R env.epollMod
  if env.epollMod then return s else s.deleteRequest R

/-- `none` when the call halts, or when `env` and `now` are none of this call's. -/
def handleRequest (s : Server) (R : ReqId) (env : CallEnv) (now : Nat) :
    Option (Except Fault Server) :=
  match s.getRequest R with
  | .error f => some (.error f)
  | .ok r =>
    match (HPServer.serve env r).decision with
    | .halted _ => none
    | .delete => some (s.deleteRequest R)
    | .rearm r =>
      if (s.timer env.mtimer).isUnborn ∧ s.clock ≤ now then some ((s.setRequest R r).rearm R env now)
      else none

end Server

/-- The server behind a call on `R`, when the object has no timer and fares as `fate` says. -/
def Server.left (s : Server) (R : ReqId) (env : CallEnv) (now : Nat) : Fate → Option Server
  | .halted _ => none
  | .deleted => some { s with
      request := update s.request R .freed
      armed := update s.armed R false }
  | .rearmFailed => some { s with
      myTimerQueue := env.mtimer :: s.myTimerQueue
      request := update s.request R .freed
      timer := update s.timer env.mtimer (.live (TimerStamp.new R now TIMER_TIME_OUT).clearReq)
      armed := update s.armed R false
      clock := now }
  | .kept r => some { s with
      myTimerQueue := env.mtimer :: s.myTimerQueue
      request := update s.request R (.live r)
      timer := update s.timer env.mtimer (.live (.new R now TIMER_TIME_OUT))
      armed := update s.armed R true
      clock := now }

/-- The call on the server's object does what the call on the object alone does, and a timer it
pushes is a new one. -/
theorem Server.handleRequest_left {s : Server} {R : ReqId} {r : RequestData} {env : CallEnv} {now : Nat}
    {x : Except Fault Server} (hr : s.request R = .live r) (hnone : r.timer = none)
    (hrun : s.handleRequest R env now = some x) :
    ∃ s', x = .ok s' ∧ s.left R env now (HPServer.handleRequest env r).2 = some s' ∧
      (s'.myTimerQueue = s.myTimerQueue ∨ s.timer env.mtimer = .unborn) := by
  rw [Server.handleRequest, Server.getRequest_live hr] at hrun
  simp only [HPServer.handleRequest]
  cases hd : (serve env r).decision with
  | halted e => simp only [hd] at hrun; cases hrun
  | delete =>
    simp only [hd, Server.deleteRequest_timerless hr hnone] at hrun
    cases hrun
    exact ⟨_, rfl, rfl, Or.inl rfl⟩
  | rearm r' =>
    simp only [hd] at hrun
    split at hrun
    case isFalse => cases hrun
    rename_i hguard
    cases hrun
    have hunborn := Cell.isUnborn_iff.1 hguard.1
    have hset : (s.setRequest R r').request R = .live r' := update_self R _ _
    simp only [Server.rearm, Server.rearmPush_eq hset now, Server.epollMod, bind, Except.bind]
    rw [Server.getRequest_live (update_self R _ _)]
    dsimp only [HPServer.rearm]
    cases hdone : env.epollMod with
    | true =>
      refine ⟨_, rfl, ?_, Or.inr hunborn⟩
      simp only [Server.left, Server.setRequest, Server.setArmed, if_true, update_idem]
    | false =>
      refine ⟨_, Server.deleteRequest_timed (update_self R _ _) rfl (update_self _ _ _), ?_, Or.inr hunborn⟩
      simp only [Server.left, Server.setRequest, Bool.false_eq_true, if_false, update_idem]

/-- What a call on `R` leaves behind, when its object fares as `fate` says. -/
def Server.Ends (s : Server) (R : ReqId) : Fate → Prop
  | .halted _ => False
  | .deleted | .rearmFailed => s.request R = .freed
  | .kept r => s.request R = .live r ∧ s.armed R = true

/-- The call on the server's object ends as the call on the object alone. -/
theorem Server.handleRequest_ends {s : Server} {R : ReqId} {r : RequestData} {env : CallEnv} {now : Nat}
    {x : Except Fault Server} (hr : s.request R = .live r) (hnone : r.timer = none)
    (hrun : s.handleRequest R env now = some x) :
    ∃ s', x = .ok s' ∧ s'.Ends R (HPServer.handleRequest env r).2 := by
  obtain ⟨s', hx, hleft, -⟩ := Server.handleRequest_left hr hnone hrun
  refine ⟨s', hx, ?_⟩
  cases hf : (HPServer.handleRequest env r).2 with
  | halted e => rw [hf] at hleft; cases hleft
  | deleted => rw [hf] at hleft; cases hleft; exact update_self R _ _
  | rearmFailed => rw [hf] at hleft; cases hleft; exact update_self R _ _
  | kept r' => rw [hf] at hleft; cases hleft; exact ⟨update_self R _ _, update_self R _ _⟩

inductive Call where
  /-- `accept` or `setSocketNonBlocking` fails. -/
  | acceptFails
  | acceptConnection (R : ReqId) (T : TimerId) (fd : Int) (added : Bool) (now : Nat)
  | handleEvent (R : ReqId) (err : Bool)
  /-- On the connection at the head of the pool. -/
  | handleRequest (env : CallEnv) (now : Nat)
  | handleExpiredEvent (script : List (TimerId × Nat))

def callStep (epollFd : Int) (s : Server) : Call → Option (Except Fault Server)
  | .acceptFails => some (.ok s)
  | .acceptConnection R T fd added now =>
    if (s.request R).isUnborn ∧ (s.timer T).isUnborn ∧ s.clock ≤ now ∧ 0 < fd then
      some (s.acceptConnection epollFd fd R T added now)
    else none
  | .handleEvent R err =>
    if s.armed R ∧ (err = false → s.pool.length < QUEUE_SIZE) then some (s.handleEvent R err) else none
  | .handleRequest env now =>
    match s.pool with
    | [] => none
    | R :: pool => { s with pool := pool }.handleRequest R env now
  | .handleExpiredEvent script => s.handleExpiredEvent script

def calls (epollFd : Int) : Lts (Except Fault Server) Call where
  init x := ∃ clock, x = .ok (.start clock)
  step x a :=
    match x with
    | .ok s => callStep epollFd s a
    | .error _ => none

/-- Nobody is inside a call. -/
def Quiet (s : Server) : Prop := ∃ own, Inv own ⟨s, .wait, fun _ => .idle⟩

/-- A call that comes back leaves the server quiet. -/
def Settles (x : Except Fault Server) : Prop := ∃ s, x = .ok s ∧ Quiet s

namespace Quiet

variable {own : ReqId → Owner} {s : Server} {R : ReqId} {T : TimerId} {x : Except Fault Server}

theorem of_handled (h : Inv own ⟨s, .handling [], fun _ => .idle⟩) : Quiet s :=
  ⟨own, h.mainSame (fun o R => by cases o <;> simp [MainPc.holds, MainPc.batch]) rfl⟩

theorem handling (h : Inv own ⟨s, .wait, fun _ => .idle⟩) (es : List Event) (hes : connections es = []) :
    Inv own ⟨s, .handling es, fun _ => .idle⟩ :=
  h.mainSame (fun o R => by cases o <;> simp [MainPc.holds, MainPc.batch, hes]) hes

theorem acceptConnection (h : Quiet s) (hR : s.request R = .unborn) (hT : s.timer T = .unborn)
    (epollFd fd : Int) (added : Bool) (now : Nat) :
    Settles (s.acceptConnection epollFd fd R T added now) := by
  obtain ⟨own, hinv⟩ := h
  have hadded := (handling hinv [.listen] rfl).accept hR epollFd fd added
  obtain ⟨s', hs', hpushed⟩ := hadded.push (T := T) hT now
  exact ⟨s', hs', of_handled hpushed⟩

theorem handleEvent (h : Quiet s) (harmed : s.armed R = true) (err : Bool) :
    Settles (s.handleEvent R err) := by
  obtain ⟨own, hinv⟩ := h
  have hd : s.Deliverable [.request R err] := ⟨List.nodup_singleton R, by
    intro R' hR'
    rw [connections_request, connections_nil, List.mem_singleton] at hR'
    rw [hR']; exact harmed⟩
  obtain ⟨own', hdelivered⟩ := hinv.epollWait hd
  cases err with
  | true =>
    obtain ⟨s', hs', hgone⟩ := hdelivered.errorEvent
    exact ⟨s', hs', of_handled hgone⟩
  | false =>
    obtain ⟨s', hs', -, hseparated⟩ := hdelivered.separate
    refine ⟨s'.poolAdd R, ?_, of_handled hseparated.poolAdd⟩
    show (s.disarm [R]).separate R >>= _ = _
    rw [show (s.disarm [R]).separate R = .ok s' from hs']; rfl

/-- The worker that made the call is idle again. -/
theorem of_worked {wk : Nat → WorkerPc} (h : Inv own ⟨s, .wait, update wk 0 .idle⟩)
    (hwk : ∀ w, w ≠ 0 → wk w = .idle) : Quiet s := by
  have hidle : update wk 0 .idle = fun _ => .idle := by
    ext w
    by_cases hw : w = 0
    · subst hw; simp
    · simp [hw, hwk w hw]
  rw [hidle] at h
  exact ⟨own, h⟩

theorem rearm {wk : Nat → WorkerPc} (h : Inv own ⟨s, .wait, wk⟩) (hpc : wk 0 = .pushing R)
    (hwk : ∀ w, w ≠ 0 → wk w = .idle) {env : CallEnv} (hT : s.timer env.mtimer = .unborn) (now : Nat) :
    Settles (s.rearm R env now) := by
  obtain ⟨s₁, hs₁, -, hpushed⟩ := h.rearmPush hpc hT now
  obtain ⟨s₂, own₂, hs₂, hmodded⟩ := hpushed.epollMod (update_self 0 _ _) env.epollMod
  rw [update_idem] at hmodded
  simp only [Settles, Server.rearm, hs₁, hs₂, bind, Except.bind]
  cases hdone : env.epollMod with
  | true =>
    rw [hdone] at hmodded
    exact ⟨s₂, rfl, of_worked hmodded hwk⟩
  | false =>
    rw [hdone] at hmodded
    obtain ⟨s₃, hs₃, hgone⟩ := hmodded.delete (Or.inr (update_self 0 _ _))
    rw [update_idem] at hgone
    exact ⟨s₃, hs₃, of_worked hgone hwk⟩

theorem handleRequest (h : Quiet s) {pool : List ReqId} (hp : s.pool = R :: pool) {env : CallEnv}
    {now : Nat} (hrun : { s with pool := pool }.handleRequest R env now = some x) : Settles x := by
  obtain ⟨own, hinv⟩ := h
  have htaken := hinv.take (w := 0) rfl hp
  have hpc : update (fun _ => WorkerPc.idle) 0 (.serving R) 0 = .serving R := update_self 0 _ _
  have hwk : ∀ pc w, w ≠ 0 → update (fun _ => WorkerPc.idle) 0 pc w = .idle :=
    fun pc w hw => update_of_ne hw _ _
  obtain ⟨r, hr, -⟩ := htaken.heap.timerless (R := R) (by simp) (by rw [update_self]; rfl)
  rw [Server.handleRequest, Server.getRequest_live hr] at hrun
  cases hd : (HPServer.serve env r).decision with
  | halted e => simp only [hd] at hrun; cases hrun
  | delete =>
    simp only [hd] at hrun
    cases hrun
    have hserved := htaken.serve hpc (Or.inl rfl) htaken.heap rfl
    rw [update_idem] at hserved
    obtain ⟨s', hs', hgone⟩ := hserved.delete (Or.inl (update_self 0 _ _))
    rw [update_idem] at hgone
    exact ⟨s', hs', of_worked hgone (hwk _)⟩
  | rearm r' =>
    simp only [hd] at hrun
    split at hrun
    · rename_i hguard
      cases hrun
      have hserved := htaken.serve hpc (Or.inr rfl) (htaken.heap.setRequest hr (serve_same hd).2.2) rfl
      rw [update_idem] at hserved
      exact rearm hserved (update_self 0 _ _) (hwk _) (Cell.isUnborn_iff.1 hguard.1) now
    · cases hrun

theorem handleExpiredEvent (h : Quiet s) {script : List (TimerId × Nat)}
    (hrun : s.handleExpiredEvent script = some x) : Settles x := by
  obtain ⟨own, hinv⟩ := h
  obtain ⟨s', own', rfl, hswept⟩ := (handling hinv [] rfl).sweep
    (by rintro w R (e | e) <;> cases e) hrun
  exact ⟨s', rfl, own', hswept⟩

/-- **One call**, whatever it is. -/
theorem step {epollFd : Int} (h : Quiet s) {a : Call} (hs : callStep epollFd s a = some x) :
    Settles x := by
  cases a with
  | acceptFails => cases hs; exact ⟨s, rfl, h⟩
  | acceptConnection R T fd added now =>
    simp only [callStep] at hs
    split at hs
    · rename_i hguard
      cases hs
      exact h.acceptConnection (Cell.isUnborn_iff.1 hguard.1) (Cell.isUnborn_iff.1 hguard.2.1)
        epollFd fd added now
    · cases hs
  | handleEvent R err =>
    simp only [callStep] at hs
    split at hs
    · rename_i hguard
      cases hs
      exact h.handleEvent hguard.1 err
    · cases hs
  | handleRequest env now =>
    simp only [callStep] at hs
    split at hs
    · cases hs
    · rename_i R pool hp
      exact h.handleRequest hp hs
  | handleExpiredEvent script => exact h.handleExpiredEvent hs

/-- Between calls a connection waits with its timer, or is in the pool. -/
theorem owner_cases (h : Inv own ⟨s, .wait, fun _ => .idle⟩) (R : ReqId) :
    own R = .nobody ∨ own R = .epoll ∨ own R = .pool := by
  cases ho : own R with
  | nobody => exact Or.inl rfl
  | epoll => exact Or.inr (Or.inl rfl)
  | pool => exact Or.inr (Or.inr rfl)
  | batch => cases (h.main .batch R rfl).2 ho
  | stamping => obtain ⟨es, e⟩ := (h.main .stamping R rfl).2 ho; cases e
  | adding => obtain ⟨es, e⟩ := (h.main .adding R rfl).2 ho; cases e
  | serving w => rcases (h.worker w (.serving w) R rfl).2 ho with e | e | e <;> cases e
  | rearming w => rcases (h.worker w (.rearming w) R rfl).2 ho with e | e <;> cases e

end Quiet

theorem settles_reachable {epollFd : Int} {x : Except Fault Server} (h : (calls epollFd).Reachable x) :
    Settles x := by
  apply h.invariant
  · rintro x ⟨clock, rfl⟩
    exact ⟨_, rfl, _, .start clock⟩
  · rintro x a y ⟨s, rfl, hquiet⟩ - hs
    exact hquiet.step hs

/-- **Ownership of connections and timers**, in any run of whole calls. No call deletes an object
that was deleted before, or touches one: that would be a `Fault`. -/
theorem owned_reachable {epollFd : Int} {x : Except Fault Server} (h : (calls epollFd).Reachable x) :
    ∃ s, x = .ok s ∧ s.myTimerQueue.Nodup ∧
      (∀ T ∈ s.myTimerQueue, ∃ t, s.timer T = .live t ∧
        (∀ R, t.requestData = some R ↔ ∃ r, s.request R = .live r ∧ r.timer = some T) ∧
        (t.deleted = false ↔ t.requestData ≠ none)) ∧
      ∀ R r, s.request R = .live r →
        (R ∈ s.pool ∧ r.timer = none) ∨
        (R ∉ s.pool ∧ ∃! T, T ∈ s.myTimerQueue ∧ ∃ t, s.timer T = .live t ∧ t.requestData = some R) := by
  obtain ⟨s, rfl, own, hinv⟩ := settles_reachable h
  have hpair := hinv.heap.pairing
  refine ⟨s, rfl, hpair.nodup, fun T hT => ?_, fun R r hr => ?_⟩
  · obtain ⟨t, ht⟩ := (hpair.queued T).1 hT
    refine ⟨t, ht, fun R => ⟨hpair.request_live ht, ?_⟩, ?_⟩
    · rintro ⟨r, hr, hT⟩
      obtain ⟨t', ht', hback⟩ := hpair.timer_live hr hT
      rw [show s.timer T = _ from ht] at ht'
      cases ht'; exact hback
    · rw [hpair.flag T t ht]
      cases t.requestData <;> simp
  · have hpool : R ∈ s.pool ↔ own R = .pool := hinv.pool .pool R rfl
    rcases Quiet.owner_cases hinv R with ho | ho | ho
    · exact absurd ho ((hinv.heap.live R).1 ⟨r, hr⟩)
    · obtain ⟨-, T, t, -, -, ht, hback⟩ := hinv.heap.linked (R := R) (by rw [ho]; rfl)
      refine Or.inr ⟨fun hm => ?_, hpair.unique_timer ht hback⟩
      rw [hpool.1 hm] at ho; cases ho
    · obtain ⟨r', hr', hnone⟩ := hinv.heap.timerless (R := R) (by rw [ho]; simp) (by rw [ho]; rfl)
      rw [show s.request R = _ from hr] at hr'
      cases hr'
      exact Or.inl ⟨hpool.2 ho, hnone⟩

/-- Two connections: the one is served and waits again, the other sits in the pool while the timer
it was accepted with leaves the queue. -/
def twoConnections : List Call :=
  [.acceptConnection 0 0 5 true 0, .acceptConnection 1 1 6 true 1, .handleEvent 0 false,
    .handleRequest (reading (ascii "GET")) 2, .handleEvent 1 false, .handleExpiredEvent [(0, 3), (1, 3), (7, 3)]]

theorem twoConnections_owned : ∃ s, (calls 3).Reachable (.ok s) ∧ s.myTimerQueue = [7] ∧ s.pool = [1] ∧
    ∃! T, T ∈ s.myTimerQueue ∧ ∃ t, s.timer T = .live t ∧ t.requestData = some 0 := by
  have hreach : (calls 3).Reachable _ :=
    Lts.reach_of_replay twoConnections (.init ⟨0, rfl⟩) rfl
  obtain ⟨s, hs, -, -, howned⟩ := owned_reachable hreach
  cases hs
  refine ⟨_, hreach, rfl, rfl, ?_⟩
  exact ((howned 0 _ rfl).resolve_left fun h => by cases h.2).2

end HPServer
