import HighPerformanceServer.Owners
import HighPerformanceServer.Threads
/-!
# Every step keeps every connection in one place

`Roles side holds own`: what one party claims to hold is what `own` gives it. `Inv` asks this of
`main`, the pool and each worker, and `HeapOk` of the objects. Most steps move one connection, and
the claims of the parties it does not concern are framed away (`Roles.frame`). There is one lemma
for each step; only the sweep needs a condition.
-/

namespace HPServer

open Function

inductive Side where
  | shared | main | pool
  | worker (w : Nat)
deriving DecidableEq

def Owner.side : Owner → Side
  | .nobody | .epoll => .shared
  | .batch | .stamping | .adding => .main
  | .pool => .pool
  | .serving w | .rearming w => .worker w

def Roles (side : Side) (holds : Owner → ReqId → Prop) (own : ReqId → Owner) : Prop :=
  ∀ o R, o.side = side → (holds o R ↔ own R = o)

namespace Roles

variable {side : Side} {holds holds' : Owner → ReqId → Prop} {own own' : ReqId → Owner} {R : ReqId}
  {o : Owner}

theorem frame (h : Roles side holds own)
    (hsame : ∀ R, own' R = own R ∨ ((own R).side ≠ side ∧ (own' R).side ≠ side)) :
    Roles side holds own' := by
  intro o R ho
  rw [h o R ho]
  rcases hsame R with e | ⟨hne, hne'⟩
  · rw [e]
  · constructor
    · rintro rfl; exact absurd ho hne
    · rintro rfl; exact absurd ho hne'

theorem frame_update (h : Roles side holds own) (hR : (own R).side ≠ side) (ho : o.side ≠ side) :
    Roles side holds (update own R o) :=
  h.frame fun R' => by
    by_cases he : R' = R
    · subst he; rw [update_self]; exact Or.inr ⟨hR, ho⟩
    · rw [update_of_ne he]; exact Or.inl rfl

/-- `R` stays with the party `side'`, or is given to or taken from nobody's hands. -/
theorem frame_move (h : Roles side holds own) {side' : Side}
    (hR : (own R).side = .shared ∨ (own R).side = side') (ho : o.side = .shared ∨ o.side = side')
    (hs : .shared ≠ side) (hne : side' ≠ side) : Roles side holds (update own R o) := by
  apply h.frame_update
  · rcases hR with e | e <;> rw [e] <;> assumption
  · rcases ho with e | e <;> rw [e] <;> assumption

/-- A party moves `R`, or takes it, or lets go of it. -/
theorem change (h : Roles side holds own)
    (hother : ∀ o' R', o'.side = side → R' ≠ R → (holds' o' R' ↔ holds o' R'))
    (hself : ∀ o', o'.side = side → (holds' o' R ↔ o = o')) : Roles side holds' (update own R o) := by
  intro o' R' ho
  by_cases he : R' = R
  · subst he; rw [update_self]; exact hself o' ho
  · rw [update_of_ne he, hother o' R' ho he]; exact h o' R' ho

end Roles

def MainPc.batch : MainPc → List ReqId
  | .wait => []
  | .handling es | .stamping _ es | .adding _ es => connections es

def MainPc.holds (pc : MainPc) : Owner → ReqId → Prop
  | .batch, R => R ∈ pc.batch
  | .stamping, R => ∃ es, pc = .stamping R es
  | .adding, R => ∃ es, pc = .adding R es
  | _, _ => False

def WorkerPc.holds (pc : WorkerPc) : Owner → ReqId → Prop
  | .serving _, R => pc = .serving R ∨ pc = .deleting R ∨ pc = .pushing R
  | .rearming _, R => pc = .rearming R ∨ pc = .failing R
  | _, _ => False

/-! ## What a party claims of the connection it deals with -/

/-- `main` deals with `R`, which `o` holds; the events `es` are behind it. -/
inductive MainPc.On (R : ReqId) (es : List Event) : Owner → MainPc → Prop where
  | listen {o : Owner} (ho : o.side ≠ .main) : On R es o (.handling (.listen :: es))
  | request (err : Bool) : On R es .batch (.handling (.request R err :: es))
  | stamping : On R es .stamping (.stamping R es)
  | adding : On R es .adding (.adding R es)
  | handling {o : Owner} (ho : o.side ≠ .main) : On R es o (.handling es)

/-- Worker `w` deals with `R`, which `o` holds. -/
inductive WorkerPc.On (w : Nat) (R : ReqId) : Owner → WorkerPc → Prop where
  | idle {o : Owner} (ho : o.side ≠ .worker w) : On w R o .idle
  | serving : On w R (.serving w) (.serving R)
  | deleting : On w R (.serving w) (.deleting R)
  | pushing : On w R (.serving w) (.pushing R)
  | rearming : On w R (.rearming w) (.rearming R)
  | failing : On w R (.rearming w) (.failing R)

section On

variable {R R' : ReqId} {es : List Event} {o o' : Owner} {w : Nat}

theorem MainPc.On.self {m : MainPc} (h : m.On R es o) (hR : R ∉ connections es) (ho' : o'.side = .main) :
    m.holds o' R ↔ o = o' := by
  cases h with
  | listen ho | handling ho =>
    have hne : o ≠ o' := by rintro rfl; exact ho ho'
    cases o' <;> simp [MainPc.holds, MainPc.batch, hR, hne]
  | request | stamping | adding =>
    cases o' <;> simp [MainPc.holds, MainPc.batch, hR, Owner.side] at ho' ⊢

theorem MainPc.On.other {m : MainPc} (h : m.On R es o) (hne : R' ≠ R) :
    m.holds o' R' ↔ (MainPc.handling es).holds o' R' := by
  cases h <;> cases o' <;> simp [MainPc.holds, MainPc.batch, hne, Ne.symm hne]

theorem WorkerPc.On.self {pc : WorkerPc} (h : pc.On w R o) (ho' : o'.side = .worker w) :
    pc.holds o' R ↔ o = o' := by
  cases h with
  | idle ho =>
    have hne : o ≠ o' := by rintro rfl; exact ho ho'
    cases o' <;> simp [WorkerPc.holds, hne]
  | serving | deleting | pushing | rearming | failing =>
    cases o' <;> simp [WorkerPc.holds, Owner.side] at ho' ⊢
    exact ho'.symm

theorem WorkerPc.On.other {pc : WorkerPc} (h : pc.On w R o) (hne : R' ≠ R) : ¬pc.holds o' R' := by
  cases h <;> cases o' <;> simp [WorkerPc.holds, Ne.symm hne]

end On

structure Inv (own : ReqId → Owner) (x : Sys) : Prop where
  heap : HeapOk own x.server
  main : Roles .main x.main.holds own
  batch : x.main.batch.Nodup
  pool : Roles .pool (fun _ R => R ∈ x.server.pool) own
  poolNodup : x.server.pool.Nodup
  worker : ∀ w, Roles (.worker w) (x.worker w).holds own

namespace Inv

variable {own : ReqId → Owner} {s s' : Server} {m : MainPc} {wk : Nat → WorkerPc} {es : List Event}
  {R : ReqId} {T : TimerId} {w : Nat} {o o₀ : Owner}

theorem start (clock : Nat) : Inv (fun _ => .nobody) (.start clock) where
  heap := .start clock
  main o R ho := by cases o <;> simp [Sys.start, MainPc.holds, MainPc.batch, Owner.side] at ho ⊢
  batch := List.nodup_nil
  pool o R ho := by
    constructor
    · intro h; cases h
    · rintro rfl; cases ho
  poolNodup := List.nodup_nil
  worker w o R ho := by cases o <;> simp [Sys.start, WorkerPc.holds, Owner.side] at ho ⊢

/-- A step of `main` on `R` that leaves the pool alone. -/
theorem mainMove (h : Inv own ⟨s, m, wk⟩) {m' : MainPc} (hown : own R = o₀)
    (hR : o₀.side = .shared ∨ o₀.side = .main) (ho : o.side = .shared ∨ o.side = .main)
    (hm : m.On R es o₀) (hm' : m'.On R es o) (hes : R ∉ connections es)
    (hheap : HeapOk (update own R o) s') (hpool : s'.pool = s.pool) (hbatch : m'.batch.Nodup) :
    Inv (update own R o) ⟨s', m', wk⟩ where
  heap := hheap
  main := h.main.change (fun _ _ _ hne => (hm'.other hne).trans (hm.other hne).symm)
    fun _ ho' => hm'.self hes ho'
  batch := hbatch
  pool := by
    rw [show Sys.server _ = s' from rfl, hpool]
    exact h.pool.frame_move (hown ▸ hR) ho (by simp) (by simp)
  poolNodup := by
    rw [show Sys.server _ = s' from rfl, hpool]
    exact h.poolNodup
  worker w := (h.worker w).frame_move (hown ▸ hR) ho (by simp) (by simp)

/-- A step of worker `w` on `R` that leaves the pool alone. -/
theorem workerMove (h : Inv own ⟨s, m, wk⟩) {pc : WorkerPc} (hown : own R = o₀)
    (hR : o₀.side = .shared ∨ o₀.side = .worker w) (ho : o.side = .shared ∨ o.side = .worker w)
    (hw : (wk w).On w R o₀) (hpc : pc.On w R o)
    (hheap : HeapOk (update own R o) s') (hpool : s'.pool = s.pool) :
    Inv (update own R o) ⟨s', m, update wk w pc⟩ where
  heap := hheap
  main := h.main.frame_move (hown ▸ hR) ho (by simp) (by simp)
  batch := h.batch
  pool := by
    rw [show Sys.server _ = s' from rfl, hpool]
    exact h.pool.frame_move (hown ▸ hR) ho (by simp) (by simp)
  poolNodup := by
    rw [show Sys.server _ = s' from rfl, hpool]
    exact h.poolNodup
  worker w' := by
    by_cases he : w' = w
    · subst he
      simp only [update_self]
      exact (h.worker w').change
        (fun _ _ _ hne => iff_of_false (hpc.other hne) (hw.other hne)) fun _ ho' => hpc.self ho'
    · simp only [update_of_ne he]
      exact (h.worker w').frame_move (hown ▸ hR) ho (by simp) (by simp [Ne.symm he])

/-! ## The steps of `main` -/

/-- The claims of `main` do not depend on where it is, only on the events left. -/
theorem mainSame (h : Inv own ⟨s, m, wk⟩) {m' : MainPc} (hholds : ∀ o R, m'.holds o R ↔ m.holds o R)
    (hbatch : m'.batch = m.batch) : Inv own ⟨s, m', wk⟩ where
  heap := h.heap
  main o R ho := by
    show m'.holds o R ↔ own R = o
    rw [hholds]; exact h.main o R ho
  batch := by
    show m'.batch.Nodup
    rw [hbatch]; exact h.batch
  pool := h.pool
  poolNodup := h.poolNodup
  worker := h.worker

theorem acceptFails (h : Inv own ⟨s, .handling (.listen :: es), wk⟩) :
    Inv own ⟨s, .handling es, wk⟩ :=
  h.mainSame (fun o R => by cases o <;> simp [MainPc.holds, MainPc.batch])
    rfl

theorem epollWait (h : Inv own ⟨s, .wait, wk⟩) (hd : s.Deliverable es) :
    ∃ own', Inv own' ⟨s.disarm (connections es), .handling es, wk⟩ := by
  have hnone : ∀ o R, o.side = .main → own R ≠ o := by
    intro o R ho he
    have := (h.main o R ho).2 he
    cases o <;> simp [MainPc.holds, MainPc.batch] at this
  have hepoll : ∀ R ∈ connections es, own R = .epoll := by
    intro R hR
    have harm := h.heap.armed R (hd.2 R hR)
    cases ho : own R with
    | epoll => rfl
    | stamping => exact absurd ho (hnone .stamping R rfl)
    | nobody | batch | adding | pool | serving w | rearming w => rw [ho] at harm; cases harm
  have hsame : ∀ side, side ≠ .shared → side ≠ .main → ∀ R,
      (if R ∈ connections es then Owner.batch else own R) = own R ∨
      ((own R).side ≠ side ∧
        (if R ∈ connections es then Owner.batch else own R).side ≠ side) := by
    intro side hs hm R
    by_cases hR : R ∈ connections es
    · rw [if_pos hR, hepoll R hR]; exact Or.inr ⟨Ne.symm hs, Ne.symm hm⟩
    · rw [if_neg hR]; exact Or.inl rfl
  refine ⟨_, h.heap.disarm hepoll, ?_, hd.1, h.pool.frame (hsame _ (by simp) (by simp)), h.poolNodup,
    fun w => (h.worker w).frame (hsame _ (by simp) (by simp))⟩
  intro o R ho
  by_cases hR : R ∈ connections es
  · cases o <;> simp [MainPc.holds, MainPc.batch, Owner.side, hR] at ho ⊢
  · have := hnone o R ho
    cases o <;> simp [MainPc.holds, MainPc.batch, Owner.side, hR, this] at ho ⊢

/-- What is not in the batch has no event left. -/
theorem notMem_batch (h : Inv own ⟨s, m, wk⟩) (hne : own R ≠ .batch) : R ∉ m.batch :=
  fun hm => hne ((h.main .batch R rfl).1 hm)

theorem accept (h : Inv own ⟨s, .handling (.listen :: es), wk⟩) (hR : s.request R = .unborn)
    (epollFd fd : Int) (added : Bool) :
    Inv (update own R .stamping) ⟨s.acceptAdd epollFd fd R added, .stamping R es, wk⟩ := by
  obtain ⟨hown, hheap⟩ := h.heap.acceptAdd hR epollFd fd added
  have hbatch : R ∉ connections es := by
    intro hm
    have := (h.main .batch R rfl).1 (hm)
    rw [hown] at this; cases this
  exact h.mainMove hown (Or.inl rfl) (Or.inr rfl) (.listen (by simp [Owner.side])) .stamping hbatch
    hheap rfl h.batch

theorem push (h : Inv own ⟨s, .stamping R es, wk⟩) (hT : s.timer T = .unborn) (now : Nat) :
    ∃ s', s.acceptPush R T now = .ok s' ∧ Inv (update own R .epoll) ⟨s', .handling es, wk⟩ := by
  have hown : own R = .stamping := (h.main .stamping R rfl).1 ⟨es, rfl⟩
  have hbatch : R ∉ connections es := h.notMem_batch (by rw [hown]; simp)
  obtain ⟨s', hs', hpool, hheap⟩ := h.heap.acceptPush hown hT now
  exact ⟨s', hs', h.mainMove hown (Or.inr rfl) (Or.inl rfl) .stamping (.handling (by simp [Owner.side]))
    hbatch hheap hpool h.batch⟩

/-- The connection of an event has been delivered, and only this event is about it. -/
theorem delivered {err : Bool} (h : Inv own ⟨s, .handling (.request R err :: es), wk⟩) :
    own R = .batch ∧ R ∉ connections es :=
  ⟨(h.main .batch R rfl).1 List.mem_cons_self, (List.nodup_cons.1 h.batch).1⟩

theorem errorEvent (h : Inv own ⟨s, .handling (.request R true :: es), wk⟩) :
    ∃ s', s.errorEvent R = .ok s' ∧ Inv (update own R .nobody) ⟨s', .handling es, wk⟩ := by
  obtain ⟨hown, hbatch⟩ := h.delivered
  obtain ⟨s', hs', hpool, hheap⟩ := h.heap.deleteRequest (R := R) (by rw [hown]; simp)
  obtain ⟨r, -, -, hr, -⟩ := h.heap.linked (R := R) (by rw [hown]; rfl)
  refine ⟨s', ?_, h.mainMove hown (Or.inr rfl) (Or.inl rfl) (.request true)
    (.handling (by simp [Owner.side])) hbatch hheap hpool (List.nodup_cons.1 h.batch).2⟩
  rw [Server.errorEvent, Server.getRequest_live hr]
  exact hs'

theorem separate (h : Inv own ⟨s, .handling (.request R false :: es), wk⟩) :
    ∃ s', s.separate R = .ok s' ∧ s'.pool = s.pool ∧
      Inv (update own R .adding) ⟨s', .adding R es, wk⟩ := by
  obtain ⟨hown, hbatch⟩ := h.delivered
  obtain ⟨s', hs', hpool, hheap⟩ := h.heap.separateTimer hown
  obtain ⟨r, -, -, hr, -⟩ := h.heap.linked (R := R) (by rw [hown]; rfl)
  refine ⟨s', ?_, hpool, h.mainMove hown (Or.inr rfl) (Or.inr rfl) (.request false) .adding hbatch
    hheap hpool (List.nodup_cons.1 h.batch).2⟩
  rw [Server.separate, Server.getRequest_live hr]
  exact hs'

theorem poolAdd (h : Inv own ⟨s, .adding R es, wk⟩) :
    Inv (update own R .pool) ⟨s.poolAdd R, .handling es, wk⟩ := by
  have hown : own R = .adding := (h.main .adding R rfl).1 ⟨es, rfl⟩
  have hbatch : R ∉ connections es := h.notMem_batch (by rw [hown]; simp)
  have hnew : R ∉ s.pool := by
    intro hm
    have := (h.pool .pool R rfl).1 hm
    rw [hown] at this; cases this
  refine ⟨?_, ?_, h.batch, ?_, ?_, fun w => ?_⟩
  · exact h.heap.relabel (by rw [hown]; simp) (by simp) (by rw [hown]; rfl)
      (by rw [hown]; intro e; cases e) _
  · have hbefore : (MainPc.adding R es).On R es .adding := .adding
    have hbehind : (MainPc.handling es).On R es .pool := .handling (by simp [Owner.side])
    exact h.main.change (fun _ _ _ hne => (hbehind.other hne).trans (hbefore.other hne).symm)
      fun _ ho' => hbehind.self hbatch ho'
  · refine h.pool.change ?_ ?_
    · intro o' R' ho' he
      simp [Server.poolAdd, he]
    · intro o' ho'
      cases o' <;> simp [Server.poolAdd, Owner.side] at ho' ⊢
  · exact List.nodup_append.2 ⟨h.poolNodup, List.nodup_singleton R, by
      intro a ha b hb e
      rw [List.mem_singleton] at hb
      subst e hb; exact hnew ha⟩
  · exact (h.worker w).frame_update (by rw [hown]; simp [Owner.side]) (by simp [Owner.side])

/-- **The sweep.** It runs with the batch done, so what it deletes was waiting in epoll. -/
theorem sweep (h : Inv own ⟨s, .handling [], wk⟩) {script : List (TimerId × Nat)}
    {x : Except Fault Server}
    (hspares : ∀ w R, wk w = .rearming R ∨ wk w = .failing R → ¬ s.Due script R)
    (hrun : s.handleExpiredEvent script = some x) :
    ∃ s' own', x = .ok s' ∧ Inv own' ⟨s', .wait, wk⟩ := by
  obtain ⟨s', own', hx, hpool, hheap, hmoved⟩ := h.heap.sweep hrun
  have hepoll : ∀ R, s.Due script R → own R = .epoll := by
    intro R hdue
    have htimed := h.heap.due_timed hdue
    cases ho : own R with
    | epoll => rfl
    | batch => cases (h.main .batch R rfl).2 ho
    | rearming w => exact absurd hdue (hspares w R ((h.worker w (.rearming w) R rfl).2 ho))
    | nobody | stamping | adding | pool | serving w => rw [ho] at htimed; cases htimed
  have hsame : ∀ side, side ≠ .shared → ∀ R, own' R = own R ∨
      ((own R).side ≠ side ∧ (own' R).side ≠ side) := by
    intro side hs R
    by_cases hdue : s.Due script R
    · rw [hepoll R hdue, (hmoved R).1 hdue]; exact Or.inr ⟨Ne.symm hs, Ne.symm hs⟩
    · exact Or.inl ((hmoved R).2 hdue)
  refine ⟨s', own', hx, hheap, ?_, List.nodup_nil, ?_, ?_, fun w => (h.worker w).frame (hsame _ (by simp))⟩
  · intro o R ho
    rw [← h.main.frame (hsame _ (by simp)) o R ho]
    cases o <;> simp [MainPc.holds, MainPc.batch]
  · rw [show Sys.server _ = s' from rfl, hpool]
    exact h.pool.frame (hsame _ (by simp))
  · rw [show Sys.server _ = s' from rfl, hpool]
    exact h.poolNodup

/-! ## The steps of a worker -/

theorem take (h : Inv own ⟨s, m, wk⟩) (hw : wk w = .idle) {pool : List ReqId} (hp : s.pool = R :: pool) :
    Inv (update own R (.serving w)) ⟨{ s with pool := pool }, m, update wk w (.serving R)⟩ := by
  have hown : own R = .pool := (h.pool .pool R rfl).1 (by
    rw [show Sys.server _ = s from rfl, hp]; exact List.mem_cons_self)
  have hnodup := h.poolNodup
  rw [show Sys.server _ = s from rfl, hp, List.nodup_cons] at hnodup
  refine ⟨?_, ?_, h.batch, ?_, hnodup.2, fun w' => ?_⟩
  · exact h.heap.relabel (by rw [hown]; simp) (by simp) (by rw [hown]; rfl)
      (by rw [hown]; intro e; cases e) _
  · exact h.main.frame_update (by rw [hown]; simp [Owner.side]) (by simp [Owner.side])
  · refine h.pool.change ?_ ?_
    · intro o' R' ho' he
      simp [hp, he]
    · intro o' ho'
      cases o' <;> simp [Owner.side] at ho' ⊢
      exact hnodup.1
  · by_cases he : w' = w
    · subst he
      simp only [update_self]
      have hbehind : (WorkerPc.serving R).On w' R (.serving w') := .serving
      refine (h.worker w').change (fun o' R' _ hne => iff_of_false (hbehind.other hne) ?_)
        fun _ ho' => hbehind.self ho'
      simp only [hw]
      cases o' <;> simp [WorkerPc.holds]
    · simp only [update_of_ne he]
      exact (h.worker w').frame_update (by rw [hown]; simp [Owner.side])
        (by simp [Owner.side, Ne.symm he])

theorem serving (h : Inv own ⟨s, m, wk⟩)
    (hw : wk w = .serving R ∨ wk w = .deleting R ∨ wk w = .pushing R) : own R = .serving w :=
  (h.worker w (.serving w) R rfl).1 hw

theorem rearming (h : Inv own ⟨s, m, wk⟩) (hw : wk w = .rearming R ∨ wk w = .failing R) :
    own R = .rearming w :=
  (h.worker w (.rearming w) R rfl).1 hw

/-- `serve` writes the object, and decides. -/
theorem serve (h : Inv own ⟨s, m, wk⟩) (hw : wk w = .serving R) {pc : WorkerPc}
    (hpc : pc = .deleting R ∨ pc = .pushing R) (hheap : HeapOk own s') (hpool : s'.pool = s.pool) :
    Inv own ⟨s', m, update wk w pc⟩ := by
  have hown := h.serving (Or.inl hw)
  have hsame : update own R (.serving w) = own := by rw [← hown, update_eq_self]
  rw [← hsame]
  have hpc : pc.On w R (.serving w) := by
    rcases hpc with rfl | rfl
    · exact .deleting
    · exact .pushing
  exact h.workerMove hown (Or.inr rfl) (Or.inr rfl) (hw ▸ .serving) hpc (by rw [hsame]; exact hheap) hpool

theorem delete (h : Inv own ⟨s, m, wk⟩) (hw : wk w = .deleting R ∨ wk w = .failing R) :
    ∃ s', s.deleteRequest R = .ok s' ∧ Inv (update own R .nobody) ⟨s', m, update wk w .idle⟩ := by
  obtain ⟨o, hown, hside, hon⟩ : ∃ o, own R = o ∧ o.side = .worker w ∧ (wk w).On w R o := by
    rcases hw with e | e <;> rw [e]
    · exact ⟨_, h.serving (Or.inr (Or.inl e)), rfl, .deleting⟩
    · exact ⟨_, h.rearming (Or.inr e), rfl, .failing⟩
  obtain ⟨s', hs', hpool, hheap⟩ := h.heap.deleteRequest (R := R) (by
    rw [hown]; rintro rfl; cases hside)
  exact ⟨s', hs', h.workerMove hown (Or.inr hside) (Or.inl rfl) hon (.idle (by simp [Owner.side]))
    hheap hpool⟩

theorem rearmPush (h : Inv own ⟨s, m, wk⟩) (hw : wk w = .pushing R) (hT : s.timer T = .unborn)
    (now : Nat) : ∃ s', s.rearmPush R T now = .ok s' ∧ s'.pool = s.pool ∧
      Inv (update own R (.rearming w)) ⟨s', m, update wk w (.rearming R)⟩ := by
  have hown := h.serving (Or.inr (Or.inr hw))
  obtain ⟨s', hs', hpool, hheap⟩ := h.heap.rearmPush hown hT now
  exact ⟨s', hs', hpool, h.workerMove hown (Or.inr rfl) (Or.inr rfl) (hw ▸ .pushing) .rearming hheap
    hpool⟩

theorem epollMod (h : Inv own ⟨s, m, wk⟩) (hw : wk w = .rearming R) (done : Bool) :
    ∃ s' own', s.epollMod R done = .ok s' ∧
      Inv own' ⟨s', m, update wk w (if done then .idle else .failing R)⟩ := by
  have hown := h.rearming (Or.inl hw)
  obtain ⟨s', hs', hpool, hheap⟩ := h.heap.epollMod hown done
  have hon : (wk w).On w R (.rearming w) := hw ▸ .rearming
  cases done with
  | true =>
    exact ⟨s', update own R .epoll, hs', h.workerMove hown (Or.inr rfl) (Or.inl rfl) hon
      (.idle (by simp [Owner.side])) hheap hpool⟩
  | false =>
    have hsame : update own R (.rearming w) = own := by rw [← hown, update_eq_self]
    refine ⟨s', own, hs', ?_⟩
    rw [← hsame]
    exact h.workerMove hown (Or.inr rfl) (Or.inr rfl) hon .failing (by rw [hsame]; exact hheap) hpool

end Inv

end HPServer
