import HighPerformanceServer.Program
/-!
# Where a connection is

In the whole program a live connection is in the hands of `main`, in the queue of the pool, with one
worker, or it waits for an event with a timer that will find it. `Inv` says so of the threads with
an `Owner` map; here the places are read off the state of the program.
-/

namespace HPServer

open Function

/-- The connections that `main` deals with. -/
def MainPc.handles : MainPc → List ReqId
  | .wait => []
  | .handling es => connections es
  | .stamping R es | .adding R es => R :: connections es

def WorkerPc.handles : WorkerPc → List ReqId
  | .idle => []
  | .serving R | .deleting R | .pushing R | .rearming R | .failing R => [R]

def Program.handles (P : Program) : Side → List ReqId
  | .shared => []
  | .main => P.sys.main.handles
  | .pool => P.queued
  | .worker w => (P.sys.worker w).handles

/-- Each connection is in one place, and nothing is forgotten. -/
structure Program.Placed (P : Program) : Prop where
  nodup : ∀ side, (P.handles side).Nodup
  apart : ∀ side side' R, R ∈ P.handles side → R ∈ P.handles side' → side = side'
  live : ∀ side, ∀ R ∈ P.handles side, (P.sys.server.request R).Live
  /-- An event comes for a connection only when nobody has it in hand, or `main` has yet to push its
  first timer. -/
  armed : ∀ R, P.sys.server.armed R = true → (P.sys.server.request R).Live ∧
    ∀ side, R ∈ P.handles side → ∃ es, P.sys.main = .stamping R es
  /-- What nobody has in hand is found by a sweep. -/
  timed : ∀ R, (P.sys.server.request R).Live → (∀ side, R ∉ P.handles side) →
    ∃ T t, T ∈ P.sys.server.myTimerQueue ∧ P.sys.server.timer T = .live t ∧ t.deleted = false ∧
      t.requestData = some R

section Holds

variable {R : ReqId} {w : Nat}

theorem MainPc.mem_handles (pc : MainPc) : R ∈ pc.handles ↔ ∃ o, o.side = .main ∧ pc.holds o R := by
  constructor
  · intro hR
    cases pc with
    | wait => cases hR
    | handling es => exact ⟨.batch, rfl, hR⟩
    | stamping R' es =>
      rcases List.mem_cons.1 hR with rfl | hR
      · exact ⟨.stamping, rfl, es, rfl⟩
      · exact ⟨.batch, rfl, hR⟩
    | adding R' es =>
      rcases List.mem_cons.1 hR with rfl | hR
      · exact ⟨.adding, rfl, es, rfl⟩
      · exact ⟨.batch, rfl, hR⟩
  · rintro ⟨o, ho, hR⟩
    cases o with
    | batch =>
      have hR : R ∈ pc.batch := hR
      cases pc with
      | wait => cases hR
      | handling es => exact hR
      | stamping R' es | adding R' es => exact List.mem_cons_of_mem _ hR
    | stamping | adding =>
      obtain ⟨es, rfl⟩ := hR
      exact List.mem_cons_self
    | nobody | epoll | pool | serving | rearming => cases ho

theorem WorkerPc.mem_handles (pc : WorkerPc) :
    R ∈ pc.handles ↔ ∃ o, o.side = .worker w ∧ pc.holds o R := by
  constructor
  · intro hR
    cases pc with
    | idle => cases hR
    | serving R' | deleting R' | pushing R' =>
      obtain rfl := List.mem_singleton.1 hR
      exact ⟨.serving w, rfl, by simp [WorkerPc.holds]⟩
    | rearming R' | failing R' =>
      obtain rfl := List.mem_singleton.1 hR
      exact ⟨.rearming w, rfl, by simp [WorkerPc.holds]⟩
  · rintro ⟨o, ho, hR⟩
    cases o with
    | serving v => rcases hR with rfl | rfl | rfl <;> exact List.mem_cons_self
    | rearming v => rcases hR with rfl | rfl <;> exact List.mem_cons_self
    | nobody | epoll | batch | stamping | adding | pool => cases ho

end Holds

/-- Who has it in hand. -/
theorem Roles.mem_iff {side : Side} {holds : Owner → ReqId → Prop} {own : ReqId → Owner} {R : ReqId}
    (h : Roles side holds own) : (∃ o, o.side = side ∧ holds o R) ↔ (own R).side = side := by
  constructor
  · rintro ⟨o, ho, hR⟩
    rwa [(h o R ho).1 hR]
  · exact fun ho => ⟨own R, ho, (h _ R ho).2 rfl⟩

namespace Inv

variable {own : ReqId → Owner} {P : Program} {R : ReqId}

theorem mem_handles (h : Inv own P.abstract) {side : Side} (hside : side ≠ .shared) :
    R ∈ P.handles side ↔ (own R).side = side := by
  cases side with
  | shared => exact absurd rfl hside
  | main => exact (MainPc.mem_handles _).trans h.main.mem_iff
  | worker w => exact (WorkerPc.mem_handles _).trans (h.worker w).mem_iff
  | pool =>
    rw [← h.pool.mem_iff]
    exact ⟨fun hR => ⟨.pool, rfl, hR⟩, fun ⟨_, _, hR⟩ => hR⟩

theorem handled (h : Inv own P.abstract) {side : Side} (hR : R ∈ P.handles side) :
    side ≠ .shared ∧ (own R).side = side := by
  have hside : side ≠ .shared := by
    rintro rfl
    cases hR
  exact ⟨hside, (h.mem_handles hside).1 hR⟩

/-- In a batch each connection has one event. -/
theorem nodup_main (h : Inv own P.abstract) : P.sys.main.handles.Nodup := by
  have hbatch : P.sys.main.batch.Nodup := h.batch
  have hmain : Roles .main P.sys.main.holds own := h.main
  cases hpc : P.sys.main with
  | wait => exact List.nodup_nil
  | handling es => rwa [hpc] at hbatch
  | stamping R es =>
    rw [hpc] at hbatch hmain
    have hR := (hmain .stamping R rfl).1 ⟨es, rfl⟩
    refine List.nodup_cons.2 ⟨fun hmem => ?_, hbatch⟩
    have hother := (hmain .batch R rfl).1 hmem
    rw [hR] at hother
    cases hother
  | adding R es =>
    rw [hpc] at hbatch hmain
    have hR := (hmain .adding R rfl).1 ⟨es, rfl⟩
    refine List.nodup_cons.2 ⟨fun hmem => ?_, hbatch⟩
    have hother := (hmain .batch R rfl).1 hmem
    rw [hR] at hother
    cases hother

theorem placed (h : Inv own P.abstract) : P.Placed where
  nodup side := by
    cases side with
    | shared => exact List.nodup_nil
    | main => exact h.nodup_main
    | pool => exact h.poolNodup
    | worker w =>
      show (P.sys.worker w).handles.Nodup
      cases P.sys.worker w with
      | idle => exact List.nodup_nil
      | serving R | deleting R | pushing R | rearming R | failing R => exact List.nodup_singleton R
  apart side side' R hR hR' := (h.handled hR).2.symm.trans (h.handled hR').2
  live side R hR := by
    refine (h.heap.live R).2 fun hnobody => (h.handled hR).1 ?_
    rw [← (h.handled hR).2, hnobody]
    rfl
  armed R harmed := by
    have harm := h.heap.armed R harmed
    refine ⟨(h.heap.live R).2 (by rintro hnobody; rw [hnobody] at harm; cases harm), fun side hR => ?_⟩
    obtain ⟨hside, hown⟩ := h.handled hR
    cases ho : own R with
    | stamping => exact (h.main .stamping R rfl).2 ho
    | epoll => rw [ho] at hown; exact absurd hown.symm hside
    | nobody | batch | adding | pool | serving w | rearming w => rw [ho] at harm; cases harm
  timed R hlive hnone := by
    have hshared : (own R).side = .shared := by
      by_contra hside
      exact hnone _ ((h.mem_handles hside).2 rfl)
    have howned := (h.heap.live R).1 hlive
    have hepoll : own R = .epoll := by
      cases ho : own R with
      | epoll => rfl
      | nobody => exact absurd ho howned
      | batch | stamping | adding | pool | serving w | rearming w => rw [ho] at hshared; cases hshared
    obtain ⟨r, T, t, -, -, ht, hback⟩ := h.heap.linked (R := R) (by rw [hepoll]; rfl)
    refine ⟨T, t, (h.heap.pairing.queued T).2 ⟨t, ht⟩, ht, ?_, hback⟩
    rw [h.heap.pairing.flag T t ht, hback]
    rfl

end Inv

/-- Nothing has faulted, the pool is in order, and every connection has its owner. -/
theorem program_sound {epollFd : Int} {y : Except Fault Program}
    (h : (program epollFd).Reach (Allowed SweepSafe) y) :
    ∃ P own, y = .ok P ∧ ProgramOk P ∧ Inv own P.abstract := by
  obtain ⟨x, hx, rfl, hok⟩ := (program_simulation epollFd SweepSafe).reach h
  obtain ⟨z, own, hz, hinv⟩ := sound_sweepSafe hx
  cases y with
  | error f => cases hz
  | ok P =>
    cases hz
    exact ⟨P, own, rfl, hok P rfl, hinv⟩

/-- **Every connection is in one place**, and no connection or timer is touched that is not live, in
every run of the program in which the wait of `main` for a slot ends only behind a notify and no sweep
finds a connection due that a worker is re-arming. -/
theorem program_placed {epollFd : Int} {y : Except Fault Program}
    (h : (program epollFd).Reach (Allowed SweepSafe) y) : ∃ P, y = .ok P ∧ P.Placed := by
  obtain ⟨P, own, rfl, -, hinv⟩ := program_sound h
  exact ⟨P, rfl, hinv.placed⟩

/-- Neither a sweep nor a wait of `main` that ends without a notify. -/
def ProgramStep.isPlain : ProgramStep → Bool
  | .sys a => !a.isSweep
  | .pool (.spuriousAdd _) => false
  | .pool _ => true

theorem allowed_of_plain {a : ProgramStep} (h : a.isPlain = true) (y : Except Fault Program) :
    Allowed SweepSafe y a := by
  refine ⟨(by rintro p rfl; cases h), fun b hb => sweepSafe_of_other ?_ _⟩
  cases a with
  | sys a =>
    cases hb
    simpa [ProgramStep.isPlain] using h
  | pool m => cases m <;> cases hb <;> rfl

/-- The connection is accepted, and swept past. -/
theorem firstBytesProgram_swept :
    ∃ P, (program 3).replay (.ok (.start 0)) (firstBytesProgram.take 4) = some (.ok P) ∧
      (program 3).Run (Allowed SweepSafe) (.ok (.start 0)) (firstBytesProgram.take 4) (.ok P) := by
  have haccepted : (program 3).Run (Allowed SweepSafe) (.ok (.start 0)) (firstBytesProgram.take 3) _ :=
    Lts.run_of_replay (fun a ha => allowed_of_plain
      ((by decide : ∀ a ∈ firstBytesProgram.take 3, a.isPlain = true) a ha)) rfl
  have hswept := haccepted.snoc (a := .sys (.sweep [(0, 0)])) ⟨(by rintro p e; cases e), by
      rintro _ ⟨rfl⟩ w R (e | e) <;> cases e⟩ rfl
  exact ⟨_, rfl, hswept⟩

theorem firstBytesProgram_placed : ∃ P : Program, P.sys.worker 0 = .idle ∧ P.sys.server.armed 0 = true ∧
    P.Placed := by
  obtain ⟨P, hP, hswept⟩ := firstBytesProgram_swept
  obtain rfl : _ = P := Except.ok.inj (Option.some.inj hP)
  have hrearmed : (program 3).Reach (Allowed SweepSafe) _ :=
    Lts.reach_of_replay_ok (firstBytesProgram.drop 4)
      (fun a ha => allowed_of_plain ((by decide : ∀ a ∈ firstBytesProgram.drop 4, a.isPlain = true) a ha))
      (hswept.reach (.init ⟨0, rfl⟩)) rfl
  obtain ⟨P, e, hplaced⟩ := program_placed hrearmed
  cases e
  exact ⟨_, rfl, rfl, hplaced⟩

end HPServer
