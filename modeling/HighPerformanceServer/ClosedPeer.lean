import HighPerformanceServer.CallEnds
/-!
# A peer that has closed its end

`readn` returns 0 for an end of file and for `EAGAIN`. `handleRequest` asks `errno` which of the
two it was (requestData.cpp:117-129), but the `read` that finds the end of file succeeds and leaves
`errno` as some earlier call on the thread left it.

| here | there |
| --- | --- |
| `PeerClosed` | the first `read` of the call returns 0 (this_util.cpp:23) |
| `Notices`    | the branches of requestData.cpp:119-128 that set `is_error` |
-/

namespace HPServer

open CppStd

/-- The first `read` answers end of file. -/
def CallEnv.PeerClosed (env : CallEnv) : Prop := ∃ reads, env.reads = .bytes [] :: reads

/-- `errno` is an error, and an `EAGAIN` has been seen too often. -/
def CallEnv.Notices (env : CallEnv) (r : RequestData) : Prop :=
  env.errno ≠ none ∧ (env.errno = some .eagain → MAX_READ_TIMES < r.readTimes)

instance (env : CallEnv) (r : RequestData) : Decidable (env.Notices r) :=
  inferInstanceAs (Decidable (_ ∧ (_ → _)))

variable {env : CallEnv} {r : RequestData}

/-- What goes on waiting for a peer that is gone: an `EAGAIN` is counted, no `errno` at all is
not. -/
def unnoticed (env : CallEnv) (r : RequestData) : RequestData :=
  if env.errno = some .eagain then { r with readTimes := r.readTimes + 1 } else r

theorem readStage_closed (h : env.PeerClosed) :
    readStage env r = .error (if env.Notices r then .brk true r else .brk false (unnoticed env r)) := by
  obtain ⟨reads, hreads⟩ := h
  have hread : readn env.errno env.reads MAX_BUFF = .ok ⟨0, [], env.errno, reads⟩ := by
    rw [hreads]
    unfold readn
    rw [show MAX_BUFF = 4095 + 1 from rfl, readnLoop, if_pos rfl]
    rfl
  rw [readStage, hread]
  dsimp only
  rw [if_neg (by decide), if_pos rfl]
  by_cases hagain : env.errno = some .eagain
  · rw [if_pos hagain, unnoticed, if_pos hagain]
    by_cases htimes : r.readTimes > MAX_READ_TIMES
    · have hn : env.Notices r := ⟨by rw [hagain]; simp, fun _ => htimes⟩
      rw [if_pos htimes, if_pos hn]
    · have hn : ¬ env.Notices r := fun hn => htimes (hn.2 hagain)
      rw [if_neg htimes, if_neg hn]
  · rw [if_neg hagain, unnoticed, if_neg hagain]
    by_cases herr : env.errno ≠ none
    · have hn : env.Notices r := ⟨herr, fun e => absurd e hagain⟩
      rw [if_pos herr, if_pos hn]
    · have hn : ¬ env.Notices r := fun hn => herr hn.1
      rw [if_neg herr, if_neg hn]

theorem handleRequest_closed (h : env.PeerClosed) (hr : r.state ≠ .finish) : handleRequest env r =
    ([], if env.Notices r then .deleted else rearm env (unnoticed env r)) := by
  have hstate : (unnoticed env r).state = r.state := by unfold unnoticed; split <;> rfl
  have hserve : serve env r =
      ⟨[], if env.Notices r then .delete else .rearm (unnoticed env r)⟩ := by
    rw [serve, parseStages, readStage_closed h]
    by_cases hn : env.Notices r
    · rw [if_pos hn, if_pos hn]; rfl
    · rw [if_neg hn, if_neg hn]
      simp only [bind, Except.bind, leave, hstate, if_neg hr]
  rw [handleRequest, hserve]
  by_cases hn : env.Notices r
  · simp only [if_pos hn]
  · simp only [if_neg hn]

theorem closed_deleted_iff (h : env.PeerClosed) (hr : r.state ≠ .finish) :
    (handleRequest env r).2 = .deleted ↔ env.Notices r := by
  rw [handleRequest_closed h hr]
  dsimp only
  by_cases hn : env.Notices r
  · rw [if_pos hn]
    exact ⟨fun _ => hn, fun _ => rfl⟩
  · rw [if_neg hn, rearm]
    refine ⟨fun e => ?_, fun e => absurd e hn⟩
    split at e <;> cases e

/-! ## One dead socket -/

/-- With an error in `errno`, the attempts run out: at most `MAX_READ_TIMES + 2` calls look at a dead
socket. -/
theorem deadSocket_noticed : ∀ (envs : List CallEnv) (r : RequestData), r.state ≠ .finish →
    r.readTimes ≤ MAX_READ_TIMES + 1 → (∀ env ∈ envs, env.PeerClosed ∧ env.errno ≠ none) →
    (observe r envs).length + r.readTimes ≤ MAX_READ_TIMES + 2
  | [], r, _, htimes, _ => by
    rw [observe, List.length_nil]
    omega
  | env :: envs, r, hr, htimes, henvs => by
    obtain ⟨hclosed, herr⟩ := henvs env List.mem_cons_self
    have hrest : ∀ e ∈ envs, e.PeerClosed ∧ e.errno ≠ none := fun e he => henvs e (List.mem_cons_of_mem env he)
    simp only [observe, handleRequest_closed (r := r.separateTimer) hclosed hr, List.length_cons]
    by_cases hn : env.Notices r.separateTimer
    · rw [if_pos hn, List.length_nil]
      omega
    · have hagain : env.errno = some .eagain := by
        by_contra hne
        exact hn ⟨herr, fun e => absurd e hne⟩
      have hleft : r.readTimes ≤ MAX_READ_TIMES := by
        by_contra hlt
        exact hn ⟨herr, fun _ => Nat.lt_of_not_le hlt⟩
      rw [if_neg hn, unnoticed, if_pos hagain, rearm]
      cases env.epollMod with
      | true =>
        have ih := deadSocket_noticed envs
          { r.separateTimer with readTimes := r.readTimes + 1, timer := some env.mtimer } hr
          (Nat.succ_le_succ hleft) hrest
        rw [Nat.add_assoc, Nat.add_comm 1]
        exact ih
      | false =>
        show 0 + 1 + r.readTimes ≤ MAX_READ_TIMES + 2
        omega

/-- With none, a dead socket is re-armed by every call, for ever. -/
theorem deadSocket_unnoticed : ∀ (envs : List CallEnv) (r : RequestData), r.state ≠ .finish →
    (∀ env ∈ envs, env.PeerClosed ∧ env.errno = none ∧ env.epollMod = true) →
    observe r envs = envs.map fun _ => ⟨r.epollfd, r.fd, [], .rearmed⟩
  | [], _, _, _ => rfl
  | env :: envs, r, hr, henvs => by
    obtain ⟨hclosed, hnone, hmod⟩ := henvs env List.mem_cons_self
    have hn : ¬ env.Notices r.separateTimer := fun hn => hn.1 hnone
    have hsame : unnoticed env r.separateTimer = r.separateTimer := by
      rw [unnoticed, if_neg (by rw [hnone]; simp)]
    have ih := deadSocket_unnoticed envs { r.separateTimer with timer := some env.mtimer } hr
      fun e he => henvs e (List.mem_cons_of_mem env he)
    simp only [observe, handleRequest_closed (r := r.separateTimer) hclosed hr, if_neg hn, hsame, rearm,
      hmod, if_true, Fate.outcome, ih]
    rfl

/-! ## The server -/

/-- **Bug** (`requestData.cpp:119`, `:126`): `errno` is not what this `read` has said. A closed peer
costs the connection its object, without another timer or event, exactly when an earlier call on
the thread has left an error in `errno` and, if the error is `EAGAIN`, the connection has used up its
attempts. -/
theorem closedPeer_dropped_iff {epollFd : Int} {s : Server} (h : (calls epollFd).Reachable (.ok s))
    {R : ReqId} {pool : List ReqId} (hp : s.pool = R :: pool) (hr : s.request R = .live r)
    (hclosed : env.PeerClosed) {now : Nat} {x : Except Fault Server}
    (hrun : callStep epollFd s (.handleRequest env now) = some x) :
    ∃ s', x = .ok s' ∧ (s.Drops R s' ↔ env.Notices r) := by
  obtain ⟨hrest, s', hx, hleft, -⟩ := served_reachable h hp hr hrun
  refine ⟨s', hx, ?_⟩
  rw [Server.left_drops s hleft rfl, closed_deleted_iff hclosed hrest.state]

/-- A client connects and hangs up. -/
def hungUp : List Call := [.acceptConnection 0 0 5 true 0, .handleEvent 0 false]

/-- The end of file, on a thread whose `errno` is as given. -/
def endOfFile (errno : Option Errno) : CallEnv :=
  { CallEnv.idle with errno := errno, reads := [.bytes []], mtimer := 7 }

/-- A thread that has seen an error notices. -/
theorem staleErrno_dropped : ∃ s, (calls 3).Reachable (.ok s) ∧ ∃ s',
    callStep 3 s (.handleRequest (endOfFile (some (.other 104))) 2) = some (.ok s') ∧ s.Drops 0 s' := by
  have hreach : (calls 3).Reachable _ := Lts.reach_of_replay hungUp (.init ⟨0, rfl⟩) rfl
  have hclosed : (endOfFile (some (.other 104))).PeerClosed := ⟨[], rfl⟩
  obtain ⟨s', hx, hiff⟩ := closedPeer_dropped_iff hreach rfl rfl hclosed
    (show callStep 3 _ (.handleRequest _ 2) = _ from rfl)
  exact ⟨_, hreach, s', congrArg some hx, hiff.2 (by decide)⟩

/-- A fresh thread does not: it queues another timer and waits for more. -/
theorem freshErrno_kept : ¬ ∀ (epollFd : Int) (s : Server) (R : ReqId) (pool : List ReqId)
    (r : RequestData) (env : CallEnv) (now : Nat) (x : Except Fault Server),
    (calls epollFd).Reachable (.ok s) → s.pool = R :: pool → s.request R = .live r → env.PeerClosed →
    callStep epollFd s (.handleRequest env now) = some x → ∃ s', x = .ok s' ∧ s.Drops R s' := by
  intro hall
  have hreach : (calls 3).Reachable _ := Lts.reach_of_replay hungUp (.init ⟨0, rfl⟩) rfl
  obtain ⟨s', hx, hdrops⟩ := hall 3 _ 0 [] _ (endOfFile none) 2 _ hreach rfl rfl ⟨[], rfl⟩ rfl
  cases hx
  exact absurd hdrops.myTimerQueue (by decide)

end HPServer
