import HighPerformanceServer.Threads
/-!
# The listening socket

The socket is registered once, with `EPOLLIN | EPOLLET` (main.cpp:181-184). A client that connects
extends the backlog and raises an edge; edges merge until an `epoll_wait` returns the event for the
socket. `acceptConnection` (:77-100) takes one connection for each event, where the earlier server
(history_version/failed/src/server_simple.cpp:55) loops until `accept` fails.

The threads are those of `Threads.lean`; `accept` fails only on an empty backlog, and
`setSocketNonBlocking` succeeds.
-/

namespace HPServer

structure Listener where
  backlog : Nat
  edge : Bool
deriving DecidableEq

/-- What a step of the threads does to the socket. -/
def Listener.answer (l : Listener) : Label → Option Listener
  | .epollWait es =>
    if .listen ∈ es then
      if l.edge = true ∧ es.count .listen = 1 then some { l with edge := false } else none
    else some l
  | .accept _ _ _ => if 0 < l.backlog then some { l with backlog := l.backlog - 1 } else none
  | .acceptFails => if l.backlog = 0 then some l else none
  | _ => some l

inductive ListenLabel where
  | arrive
  | sys (a : Label)

/-- The threads, with clients that connect at any time. -/
def listening (epollFd : Int) : Lts (Except Fault Sys × Listener) ListenLabel where
  init x := (threads epollFd).init x.1 ∧ x.2 = ⟨0, false⟩
  step x a :=
    match a with
    | .arrive => some (x.1, ⟨x.2.backlog + 1, true⟩)
    | .sys a => do return (← (threads epollFd).step x.1 a, ← x.2.answer a)

/-- Between two iterations of `main`'s loop a connection in the backlog has its edge. -/
def NoneWaiting (x : Except Fault Sys × Listener) : Prop :=
  ∀ sys, x.1 = .ok sys → sys.main = .wait → x.2.backlog ≠ 0 → x.2.edge = true

/-- `acceptConnection` runs on the only connection in the backlog, or another one has arrived since
the event was delivered. -/
def AcceptsLast (x : Except Fault Sys × Listener) (a : ListenLabel) : Prop :=
  ∀ R fd added, a = .sys (.accept R fd added) → x.2.backlog ≤ 1 ∨ x.2.edge = true

/-- What is left of the batch. -/
def MainPc.events : MainPc → List Event
  | .wait => []
  | .handling es | .stamping _ es | .adding _ es => es

/-- The events for the socket among them. -/
def MainPc.listens (pc : MainPc) : Nat := pc.events.count .listen

/-! ## What a step leaves of the batch -/

section Batch

variable {x y : Sys} {a : Label} {epollFd : Int}

theorem goMain_main {pc : MainPc} {s : Except Fault Server}
    (h : x.goMain pc s = some (.ok y)) : y.main = pc := by
  cases s with
  | error f => cases h
  | ok s =>
    cases h
    rfl

theorem goWorker_main {w : Nat} {pc : WorkerPc} {s : Except Fault Server}
    (h : x.goWorker w pc s = some (.ok y)) : y.main = x.main := by
  cases s with
  | error f => cases h
  | ok s =>
    cases h
    rfl

theorem workerStep_main (h : x.workerStep a = some (.ok y)) : y.main = x.main := by
  unfold Sys.workerStep at h
  split at h
  · split at h
    · exact goWorker_main (x := { x with server := _ }) h
    · cases h
  · split at h
    · unfold Sys.serveStep at h
      split at h
      · cases h
      · split at h
        · cases h
        · exact goWorker_main h
        · exact goWorker_main h
    · cases h
  · split at h
    · exact goWorker_main h
    · exact goWorker_main h
    · cases h
  · split at h
    · split at h
      · exact goWorker_main h
      · cases h
    · cases h
  · split at h
    · exact goWorker_main h
    · cases h
  · cases h

/-- What a step of `main` does to the events for the socket that are left in the batch. -/
theorem mainStep_listens (h : x.mainStep epollFd x.main a = some (.ok y)) :
    (∃ es, a = .epollWait es ∧ x.main.listens = 0 ∧ y.main.listens = es.count .listen) ∨
    (x.main.listens = y.main.listens + 1 ∧ (a = .acceptFails ∨ ∃ R fd added, a = .accept R fd added)) ∨
    (y.main.listens = x.main.listens ∧ ∀ l : Listener, l.answer a = some l) := by
  unfold Sys.mainStep at h
  unfold MainPc.listens
  split at h <;> rename_i hm
  · split at h
    · rw [goMain_main h, hm]
      exact Or.inl ⟨_, rfl, rfl, rfl⟩
    · cases h
  · refine Or.inr (Or.inl ⟨?_, Or.inl rfl⟩)
    rw [goMain_main h, hm]
    exact List.count_cons_self
  · refine Or.inr (Or.inl ⟨?_, Or.inr ⟨_, _, _, rfl⟩⟩)
    split at h
    · rw [goMain_main h, hm]
      exact List.count_cons_self
    · cases h
  · split at h
    · rw [goMain_main h, hm]
      exact Or.inr (Or.inr ⟨rfl, fun _ => rfl⟩)
    · cases h
  · rw [goMain_main h, hm]
    exact Or.inr (Or.inr ⟨(List.count_cons_of_ne (by simp)).symm, fun _ => rfl⟩)
  · rw [goMain_main h, hm]
    exact Or.inr (Or.inr ⟨(List.count_cons_of_ne (by simp)).symm, fun _ => rfl⟩)
  · split at h
    · rw [goMain_main h, hm]
      exact Or.inr (Or.inr ⟨rfl, fun _ => rfl⟩)
    · cases h
  · obtain ⟨s, -, h⟩ := Option.bind_eq_some_iff.1 h
    rw [goMain_main h, hm]
    exact Or.inr (Or.inr ⟨rfl, fun _ => rfl⟩)
  · cases h

/-- The same for a step of any thread. -/
theorem step_listens (h : x.step epollFd a = some (.ok y)) :
    (∃ es, a = .epollWait es ∧ x.main.listens = 0 ∧ y.main.listens = es.count .listen) ∨
    (x.main.listens = y.main.listens + 1 ∧ (a = .acceptFails ∨ ∃ R fd added, a = .accept R fd added)) ∨
    (y.main.listens = x.main.listens ∧ ∀ l : Listener, l.answer a = some l) := by
  unfold Sys.step at h
  split at h
  case h_6 => exact mainStep_listens h
  all_goals exact Or.inr (Or.inr ⟨by rw [workerStep_main h], fun _ => rfl⟩)

end Batch

/-! ## The runs -/

section Runs

variable {x y : Except Fault Sys × Listener} {a : ListenLabel} {epollFd : Int}

theorem listening_sys {b : Label} {s' : Sys} (hs : (listening epollFd).step x (.sys b) = some y)
    (hy : y.1 = .ok s') :
    ∃ s, x.1 = .ok s ∧ s.step epollFd b = some (.ok s') ∧ x.2.answer b = some y.2 := by
  obtain ⟨z, hz, hs⟩ := Option.bind_eq_some_iff.1 hs
  obtain ⟨l, hl, hs⟩ := Option.bind_eq_some_iff.1 hs
  cases hs
  cases hx : x.1 with
  | error f =>
    rw [hx] at hz
    cases hz
  | ok s =>
    rw [hx] at hz
    obtain rfl : z = .ok s' := hy
    exact ⟨s, rfl, hz, hl⟩

/-- A connection in the backlog has its edge, or its event in the batch, of which there is one. -/
structure Tracked (x : Except Fault Sys × Listener) : Prop where
  tracked : ∀ s, x.1 = .ok s → x.2.backlog ≠ 0 → x.2.edge = true ∨ 0 < s.main.listens
  once : ∀ s, x.1 = .ok s → s.main.listens ≤ 1

theorem Tracked.step (h : Tracked x) (hok : AcceptsLast x a)
    (hs : (listening epollFd).step x a = some y) : Tracked y := by
  obtain ⟨z, l⟩ := x
  obtain ⟨z', l'⟩ := y
  cases a with
  | arrive =>
    cases hs
    exact ⟨fun _ _ _ => Or.inl rfl, h.once⟩
  | sys b =>
    have hboth : ∀ s', z' = .ok s' →
        (l'.backlog ≠ 0 → l'.edge = true ∨ 0 < s'.main.listens) ∧ s'.main.listens ≤ 1 := by
      intro s' hy
      obtain ⟨s, hx, hstep, hanswer⟩ := listening_sys hs hy
      have htracked := h.tracked s hx
      have honce := h.once s hx
      obtain ⟨es, rfl, hwait, hes⟩ | ⟨hes, rfl | ⟨R, fd, added, rfl⟩⟩ | ⟨hes, hl⟩ := step_listens hstep
      · -- an edge turns into an event
        simp only [Listener.answer] at hanswer
        split at hanswer
        · split at hanswer
          · rename_i hone
            exact ⟨fun _ => Or.inr (by omega), by omega⟩
          · cases hanswer
        · rename_i hnone
          cases hanswer
          have hzero := List.count_eq_zero.2 hnone
          exact ⟨fun hne => Or.inl ((htracked hne).resolve_right (by omega)), by omega⟩
      · simp only [Listener.answer] at hanswer
        split at hanswer
        · rename_i hempty
          cases hanswer
          exact ⟨fun hne => absurd hempty hne, by omega⟩
        · cases hanswer
      · simp only [Listener.answer] at hanswer
        split at hanswer
        · cases hanswer
          refine ⟨fun hne => Or.inl ?_, by omega⟩
          exact (hok R fd added rfl).resolve_left fun hle => hne (by dsimp only at hle ⊢; omega)
        · cases hanswer
      · rw [hl] at hanswer
        cases hanswer
        rw [hes]
        exact ⟨htracked, honce⟩
    exact ⟨fun s' hy => (hboth s' hy).1, fun s' hy => (hboth s' hy).2⟩

theorem Tracked.noneWaiting (h : Tracked x) : NoneWaiting x := by
  intro s hx hwait hbacklog
  refine (h.tracked s hx hbacklog).resolve_right fun hpos => ?_
  rw [hwait] at hpos
  exact absurd hpos (Nat.lt_irrefl 0)

/-- **No connection waits without an edge**, as long as `accept` always takes the last one. -/
theorem noneWaiting_acceptsLast (h : (listening epollFd).Reach AcceptsLast x) : NoneWaiting x := by
  have htracked : Tracked x := by
    apply h.invariant
    · rintro ⟨z, l⟩ ⟨⟨clock, hz⟩, hl⟩
      obtain rfl : z = .ok (.start clock) := hz
      obtain rfl : l = ⟨0, false⟩ := hl
      refine ⟨fun s _ hne => absurd rfl hne, fun s hs => ?_⟩
      cases hs
      exact Nat.zero_le 1
    · exact fun x a y h hok hs => h.step hok hs
  exact htracked.noneWaiting

/-- One client at a time: the batch of its event is done before the next one connects. -/
theorem oneClient_noneWaiting : ∃ x, (listening 3).Reach AcceptsLast x ∧
    (∃ sys, x.1 = .ok sys ∧ sys.main = .wait) ∧ x.2 = ⟨1, true⟩ ∧ NoneWaiting x := by
  have hother : ∀ as : List ListenLabel, (∀ R fd added, .sys (.accept R fd added) ∉ as) →
      ∀ a ∈ as, ∀ x, AcceptsLast x a := fun as hnot a ha x R fd added e => absurd (e ▸ ha) (hnot R fd added)
  have hstart : (listening 3).Reach AcceptsLast (.ok (.start 0), ⟨0, false⟩) := .init ⟨⟨0, rfl⟩, rfl⟩
  have hdelivered : (listening 3).Reach AcceptsLast _ :=
    Lts.reach_of_replay_ok [.arrive, .sys (.epollWait [.listen])] (hother _ (by simp)) hstart rfl
  have haccepted : (listening 3).Reach AcceptsLast _ :=
    .step hdelivered (a := .sys (.accept 0 5 true)) (fun _ _ _ _ => Or.inl (Nat.le_refl 1)) rfl
  have hnext : (listening 3).Reach AcceptsLast _ :=
    Lts.reach_of_replay_ok [.sys (.push 0 0), .sys (.sweep [(0, 0)]), .arrive] (hother _ (by simp))
      haccepted rfl
  exact ⟨_, hnext, ⟨_, rfl, rfl⟩, rfl, noneWaiting_acceptsLast hnext⟩

/-- Two clients connect before `epoll_wait` returns. -/
def twoClients : List ListenLabel :=
  [.arrive, .arrive, .sys (.epollWait [.listen]), .sys (.accept 0 5 true), .sys (.push 0 0),
   .sys (.sweep [(0, 0)])]

/-- **Bug** (main.cpp:77-100): one `accept` for an event that may stand for many connections. -/
theorem twoClients_waits : ¬∀ x, (listening 3).Reachable x → NoneWaiting x := by
  intro h
  have hstart : (listening 3).Reachable (.ok (.start 0), ⟨0, false⟩) := .init ⟨⟨0, rfl⟩, rfl⟩
  obtain ⟨x, hx, ⟨sys, hsys, hwait⟩, hl⟩ : ∃ x, (listening 3).replay (.ok (.start 0), ⟨0, false⟩) twoClients
      = some x ∧ (∃ sys, x.1 = .ok sys ∧ sys.main = .wait) ∧ x.2 = ⟨1, false⟩ :=
    ⟨_, rfl, ⟨_, rfl, rfl⟩, rfl⟩
  have hedge := h x (Lts.reach_of_replay twoClients hstart hx) sys hsys hwait
  rw [hl] at hedge
  exact absurd (hedge (by decide)) (by decide)

/-! ## What the condition leaves out -/

/-- A connection without edge or event. -/
structure Stranded (x : Except Fault Sys × Listener) : Prop where
  backlog : x.2.backlog ≠ 0
  edge : x.2.edge = false
  listens : ∀ s, x.1 = .ok s → s.main.listens = 0

/-- A connection that an `accept` leaves behind is stranded. -/
theorem acceptOne_strands (h : Tracked x) (hbad : ¬AcceptsLast x a)
    (hs : (listening epollFd).step x a = some y) : Stranded y := by
  obtain ⟨z, l⟩ := x
  obtain ⟨z', l'⟩ := y
  simp only [AcceptsLast, not_forall, not_or] at hbad
  obtain ⟨R, fd, added, rfl, hmore, hedge⟩ := hbad
  have hanswer : l.answer (.accept R fd added) = some l' := by
    obtain ⟨_, -, hs⟩ := Option.bind_eq_some_iff.1 hs
    obtain ⟨_, hl, hs⟩ := Option.bind_eq_some_iff.1 hs
    cases hs
    exact hl
  simp only [Listener.answer] at hanswer
  split at hanswer
  · cases hanswer
    refine ⟨?_, by simpa using hedge, ?_⟩
    · dsimp only at hmore ⊢
      omega
    · intro s' hy
      obtain ⟨s, hx, hstep, -⟩ := listening_sys hs hy
      have honce := h.once s hx
      obtain ⟨_, e, -⟩ | ⟨hes, -⟩ | ⟨-, hl⟩ := step_listens hstep
      · cases e
      · omega
      · have hnone := hl ⟨0, false⟩
        cases hnone
  · cases hanswer

/-- Then it stays so until another client connects. -/
theorem Stranded.step {b : Label} {s' : Sys} (h : Stranded x)
    (hs : (listening epollFd).step x (.sys b) = some y) (hy : y.1 = .ok s') : Stranded y := by
  obtain ⟨z, l⟩ := x
  obtain ⟨z', l'⟩ := y
  obtain rfl : z' = .ok s' := hy
  obtain ⟨s, hx, hstep, hanswer⟩ := listening_sys hs rfl
  have hnone := h.listens s hx
  obtain ⟨es, rfl, -, hes⟩ | ⟨hes, -⟩ | ⟨hes, hl⟩ := step_listens hstep
  · simp only [Listener.answer] at hanswer
    split at hanswer
    · split at hanswer
      · rename_i hdelivered
        exact absurd h.edge (by rw [hdelivered.1]; decide)
      · cases hanswer
    · rename_i hnot
      cases hanswer
      refine ⟨h.backlog, h.edge, fun s hs => ?_⟩
      cases hs
      rw [hes]
      exact List.count_eq_zero.2 hnot
  · omega
  · rw [hl] at hanswer
    cases hanswer
    refine ⟨h.backlog, h.edge, fun s hs => ?_⟩
    cases hs
    rw [hes]
    exact hnone

end Runs

end HPServer
