import HighPerformanceServer.Lts
import HighPerformanceServer.Monitor
/-!
# `MutexLock` and its `holder_` (threadpool.cpp:299-355)

Any threads share one `MutexLock`, through `lock` and `unlock`, guards, and the `wait` of any
conditions on it. A step is one `pthread` call or one store to `holder_`. `lock` stores behind
`pthread_mutex_lock` (:312-315), `unlock` behind `pthread_mutex_unlock` (:317-320), when the mutex
may be another's already, and `wait` (:345-347) not at all.

| here | there |
| --- | --- |
| `LockSys.owner`    | who has `mutex_` |
| `LockSys.holder`   | `holder_`; `none` is `0`, which is no thread |
| `isLockedByThisThread` | :308-310 |
| `LockCall`, `call` | the calls a thread makes; a guard is a `lock` and an `unlock` (:326-333) |
| `run`              | the next step inside a call |
| `.exit`            | `pthread_exit`, which unlocks when there is a guard in scope |
| `.asleep`          | inside `pthread_cond_wait`; any notify, or none, may end the sleep |

A second `lock` in a locked section never returns. A thread that ends its life there without a guard
never leaves the section.
-/

namespace HPServer

open Function Monitor

variable {Thread : Type}

inductive LockPc where
  | outside
  /-- At `pthread_mutex_lock` (:313). -/
  | locking
  /-- At the store behind it (:314). -/
  | acquired
  /-- `lock` or `wait` has returned. -/
  | locked
  /-- In a second `lock`. -/
  | relocking
  /-- At `pthread_mutex_unlock` (:318). -/
  | unlocking (exits : Bool)
  /-- At the store behind it (:319). -/
  | released (exits : Bool)
  /-- In `pthread_cond_wait`, before it gives up the mutex. -/
  | waiting
  | asleep
  /-- Woken, to take the mutex back. -/
  | woken
  | exited
deriving DecidableEq

inductive LockCall where
  | lock | unlock | wait | exit
  /-- A new thread gets the identity of one that has ended. -/
  | spawn
deriving DecidableEq

/-- `displaced` is history: another thread has stored into `holder_` since the last call of `wait`. -/
structure LockSys (Thread : Type) where
  owner : Option Thread
  holder : Option Thread
  pc : Thread → LockPc
  displaced : Thread → Bool

inductive LockStep (Thread : Type) where
  | call (t : Thread) (f : LockCall)
  | run (t : Thread)

namespace LockPc

/-- Between the return of `pthread_mutex_lock` and the release of the mutex. -/
def inside : LockPc → Prop
  | .acquired | .locked | .relocking | .unlocking _ | .waiting => True
  | .outside | .locking | .released _ | .asleep | .woken | .exited => False

/-- From the return of `lock` or `wait` to the next `unlock` or `wait`. -/
def inSection : LockPc → Prop
  | .locked | .relocking => True
  | _ => False

def inWait : LockPc → Prop
  | .waiting | .asleep | .woken => True
  | _ => False

/-- Not in `lock`, `unlock`, `wait` or a locked section. -/
def quiescent : LockPc → Prop
  | .outside | .exited => True
  | _ => False

/-- Free to make a call. -/
def running : LockPc → Prop
  | .outside | .locked => True
  | _ => False

/-- Past the store of `lock`, and before the one of `unlock`. -/
def marked : LockPc → Prop
  | .locked | .relocking | .unlocking _ | .released _ | .waiting | .asleep | .woken => True
  | .outside | .locking | .acquired | .exited => False

end LockPc

namespace LockSys

variable [DecidableEq Thread]

def isLockedByThisThread (s : LockSys Thread) (t : Thread) : Bool := s.holder = some t

theorem isLockedByThisThread_iff {s : LockSys Thread} {t : Thread} :
    s.isLockedByThisThread t = true ↔ s.holder = some t := decide_eq_true_iff

def goto (s : LockSys Thread) (t : Thread) (x : LockPc) : LockSys Thread :=
  { s with pc := update s.pc t x }

/-- A store of `t` to `holder_`. -/
def setHolder (s : LockSys Thread) (t : Thread) (holder : Option Thread) : LockSys Thread :=
  { s with holder := holder, displaced := update (fun _ => true) t (s.displaced t) }

def call (s : LockSys Thread) (t : Thread) (f : LockCall) : Option (LockSys Thread) :=
  match s.pc t, f with
  | .outside, .lock => some (s.goto t .locking)
  | .outside, .exit => some (s.goto t .exited)
  | .locked, .lock => some (s.goto t .relocking)
  | .locked, .unlock => some (s.goto t (.unlocking false))
  | .locked, .wait => some ({ s with displaced := update s.displaced t false }.goto t .waiting)
  | .locked, .exit => some (s.goto t (.unlocking true))
  | .exited, .spawn => some (s.goto t .outside)
  | _, _ => none

def run (s : LockSys Thread) (t : Thread) : Option (LockSys Thread) :=
  match s.pc t with
  | .locking =>
    if s.owner = none then some ({ s with owner := some t }.goto t .acquired) else none
  | .acquired => some ((s.setHolder t (some t)).goto t .locked)
  | .unlocking exits => some ({ s with owner := none }.goto t (.released exits))
  | .released exits =>
    some ((s.setHolder t none).goto t (if exits then .exited else .outside))
  | .waiting => some ({ s with owner := none }.goto t .asleep)
  | .asleep => some (s.goto t .woken)
  | .woken => if s.owner = none then some ({ s with owner := some t }.goto t .locked) else none
  | .outside | .locked | .relocking | .exited => none

def step (s : LockSys Thread) : LockStep Thread → Option (LockSys Thread)
  | .call t f => s.call t f
  | .run t => s.run t

def start : LockSys Thread where
  owner := none
  holder := none
  pc := fun _ => .outside
  displaced := fun _ => false

end LockSys

/-- From behind the constructor on. -/
def mutexLock (Thread : Type) [DecidableEq Thread] : Lts (LockSys Thread) (LockStep Thread) where
  init s := s = .start
  step := LockSys.step

namespace LockSys

variable [DecidableEq Thread] {s s' : LockSys Thread} {t u : Thread}

/-- `isLockedByThisThread` is true of the thread in its locked section and false of the others that
can call it. -/
def KnowsHolder (s : LockSys Thread) : Prop :=
  ∀ t, (s.pc t).inSection → s.isLockedByThisThread t = true ∧
    ∀ u, u ≠ t → (s.pc u).running → s.isLockedByThisThread u = false

/-- No `unlock` stores its `0` into another thread's section, and no `wait` returns behind another
thread's store. -/
structure Undisturbed (s : LockSys Thread) (a : LockStep Thread) : Prop where
  clear : ∀ t exits, a = .run t → s.pc t = .released exits → ∀ u, u ≠ t → ¬ (s.pc u).inSection
  wait : ∀ t, a = .run t → s.pc t = .woken → s.displaced t = false

/-! ## What a step can do -/

inductive Effect (s : LockSys Thread) (a : LockStep Thread) : LockSys Thread → Prop where
  /-- A step that stores nothing. -/
  | go (t : Thread) (owner : Option Thread) (x : LockPc)
      (lock : LockMove s.owner owner t (s.pc t).inside x.inside)
      (marked : x.marked ↔ (s.pc t).marked)
      (inSection : x.inSection → (s.pc t).inSection ∨ (a = .run t ∧ s.pc t = .woken))
      (inWait : x.inWait → (s.pc t).inWait) :
      Effect s a ({ s with owner := owner }.goto t x)
  | wait (t : Thread) (ht : s.pc t = .locked) :
      Effect s a ({ s with displaced := update s.displaced t false }.goto t .waiting)
  | store (t : Thread) (ht : s.pc t = .acquired) :
      Effect s a ((s.setHolder t (some t)).goto t .locked)
  | clear (t : Thread) (exits : Bool) (x : LockPc) (ha : a = .run t) (ht : s.pc t = .released exits)
      (hx : x = if exits then .exited else .outside) :
      Effect s a ((s.setHolder t none).goto t x)

theorem call_effect {f : LockCall} {a : LockStep Thread} (hs : s.call t f = some s') :
    Effect s a s' := by
  unfold call at hs
  split at hs <;> rename_i ht
  case h_5 =>
    cases hs
    exact .wait t ht
  case h_8 => cases hs
  all_goals
    cases hs
    refine .go t s.owner _ (Or.inr (Or.inr ⟨rfl, ?_⟩)) ?_ ?_ ?_ <;>
      simp [ht, LockPc.inside, LockPc.marked, LockPc.inSection, LockPc.inWait]

theorem run_effect (hs : s.run t = some s') : Effect s (.run t) s' := by
  unfold run at hs
  split at hs <;> rename_i ht
  case h_1 =>
    split at hs <;> cases hs
    rename_i hfree
    refine .go t _ _ (Or.inl ⟨hfree, rfl, by trivial⟩) ?_ ?_ ?_ <;>
      simp [ht, LockPc.marked, LockPc.inSection, LockPc.inWait]
  case h_2 =>
    cases hs
    exact .store t ht
  case h_3 exits =>
    cases hs
    refine .go t _ _ (Or.inr (Or.inl ⟨?_, id, rfl⟩)) ?_ ?_ ?_ <;>
      simp [ht, LockPc.inside, LockPc.marked, LockPc.inSection, LockPc.inWait]
  case h_4 exits =>
    cases hs
    exact .clear t exits _ rfl ht rfl
  case h_5 =>
    cases hs
    refine .go t _ _ (Or.inr (Or.inl ⟨?_, id, rfl⟩)) ?_ ?_ ?_ <;>
      simp [ht, LockPc.inside, LockPc.marked, LockPc.inSection, LockPc.inWait]
  case h_6 =>
    cases hs
    refine .go t s.owner _ (Or.inr (Or.inr ⟨rfl, ?_⟩)) ?_ ?_ ?_ <;>
      simp [ht, LockPc.inside, LockPc.marked, LockPc.inSection, LockPc.inWait]
  case h_7 =>
    split at hs <;> cases hs
    rename_i hfree
    refine .go t _ _ (Or.inl ⟨hfree, rfl, by trivial⟩) ?_ ?_ ?_ <;>
      simp [ht, LockPc.marked, LockPc.inSection, LockPc.inWait]
  all_goals cases hs

theorem step_effect {a : LockStep Thread} (hs : s.step a = some s') : Effect s a s' := by
  cases a with
  | call t f => exact call_effect hs
  | run t => exact run_effect hs

/-! ## Every run -/

/-- `holder_` names nobody outside of its section, its `unlock` or its `wait`; and nobody whose wait
another thread's store has come into. -/
structure LockInv (s : LockSys Thread) : Prop where
  mutex : Guards s.owner fun t => (s.pc t).inside
  marked : ∀ t, s.holder = some t → (s.pc t).marked
  stale : ∀ t, (s.pc t).inWait → s.displaced t = true → s.holder ≠ some t

omit [DecidableEq Thread] in
theorem LockInv.start : LockInv (.start : LockSys Thread) where
  mutex := .free fun _ => id
  marked := by simp [LockSys.start]
  stale := by simp [LockSys.start]

theorem guards_goto {pc : Thread → LockPc} {owner owner' : Option Thread} {x : LockPc}
    (h : Guards owner fun u => (pc u).inside)
    (hmove : LockMove owner owner' t (pc t).inside x.inside) :
    Guards owner' fun u => (update pc t x u).inside := by
  apply h.move (t := t)
  · rw [update_self]
    exact hmove
  · intro u hu
    rw [update_of_ne hu]

/-- Of the threads at their places, `t` alone needs a proof of its own. -/
theorem forall_goto {P : Thread → LockPc → Prop} {pc : Thread → LockPc} {x : LockPc} (ht : P t x)
    (hother : ∀ u, u ≠ t → P u (pc u)) (u : Thread) : P u (update pc t x u) := by
  by_cases hu : u = t
  · subst hu
    rw [update_self]
    exact ht
  · rw [update_of_ne hu]
    exact hother u hu

theorem LockInv.step {a : LockStep Thread} (h : LockInv s) (hs : s.step a = some s') : LockInv s' := by
  cases step_effect hs with
  | go t owner x hlock hmarked hsection hwait =>
    refine ⟨guards_goto h.mutex hlock, ?_, ?_⟩
    · exact forall_goto (P := fun u y => s.holder = some u → y.marked)
        (fun hu => hmarked.2 (h.marked t hu)) fun u _ => h.marked u
    · exact forall_goto (P := fun u y => y.inWait → s.displaced u = true → s.holder ≠ some u)
        (fun hx => h.stale t (hwait hx)) fun u _ => h.stale u
  | wait t ht =>
    have hstays : LockPc.waiting.inside ↔ (s.pc t).inside := by rw [ht]; exact Iff.rfl
    refine ⟨guards_goto h.mutex (Or.inr (Or.inr ⟨rfl, hstays⟩)), ?_, ?_⟩
    · exact forall_goto (P := fun u y => s.holder = some u → y.marked)
        (fun _ => trivial) fun u _ => h.marked u
    · refine forall_goto (P := fun u y => y.inWait → update s.displaced t false u = true →
        s.holder ≠ some u) ?_ ?_
      · intro _ hd
        rw [update_self] at hd
        cases hd
      · intro u hu
        rw [update_of_ne hu]
        exact h.stale u
  | store t ht =>
    have hstays : LockPc.locked.inside ↔ (s.pc t).inside := by rw [ht]; exact Iff.rfl
    refine ⟨guards_goto h.mutex (Or.inr (Or.inr ⟨rfl, hstays⟩)), ?_, ?_⟩
    · exact forall_goto (P := fun u y => some t = some u → y.marked) (fun _ => trivial)
        fun u hu e => absurd (Option.some.inj e).symm hu
    · exact forall_goto (P := fun u y => y.inWait → _ → some t ≠ some u) (fun hx => hx.elim)
        fun u hu _ _ e => hu (Option.some.inj e).symm
  | clear t exits x ha ht hx =>
    have hstays : x.inside ↔ (s.pc t).inside := by
      rw [hx, ht]
      cases exits <;> exact Iff.rfl
    refine ⟨guards_goto h.mutex (Or.inr (Or.inr ⟨rfl, hstays⟩)), ?_, ?_⟩
    · rintro u ⟨⟩
    · rintro u - - ⟨⟩

theorem reach_lockInv (h : (mutexLock Thread).Reachable s) : LockInv s := by
  apply h.invariant
  · rintro s rfl
    exact .start
  · intro s a s' h _ hs
    exact h.step hs

theorem not_marked_of_quiescent {x : LockPc} (h : x.quiescent) : ¬ x.marked := by
  cases x <;> first | exact id | exact h.elim

/-- **The assertion of `~MutexLock` holds** when nobody is in the lock's functions or in a locked
section, in whatever order the stores came. -/
theorem holder_cleared (h : (mutexLock Thread).Reachable s) (hq : ∀ t, (s.pc t).quiescent) :
    s.holder = none := by
  cases hholder : s.holder with
  | none => rfl
  | some t => exact absurd ((reach_lockInv h).marked t hholder) (not_marked_of_quiescent (hq t))

/-- A worker that ends in the scope of its guard (`do_thread`, :276). -/
def exitInGuard : List (LockStep Bool) :=
  [.call true .lock, .run true, .run true, .call true .exit, .run true, .call false .lock, .run false,
   .run false, .call false .unlock, .run true, .run false, .run false]

theorem exitInGuard_cleared :
    ∃ s, (mutexLock Bool).Reachable s ∧ s.pc true = .exited ∧ s.holder = none := by
  have hreach : (mutexLock Bool).Reachable _ := Lts.reach_of_replay exitInGuard (.init rfl) rfl
  exact ⟨_, hreach, rfl, holder_cleared hreach fun t => by cases t <;> trivial⟩

/-! ## Undisturbed runs -/

/-- Who is in its section, or in a wait no store has come into, is named by `holder_`. -/
structure Held (s : LockSys Thread) : Prop where
  locked : ∀ t, (s.pc t).inSection → s.holder = some t
  waits : ∀ t, (s.pc t).inWait → s.displaced t = false → s.holder = some t

theorem inside_of_inSection {x : LockPc} (h : x.inSection) : x.inside := by
  cases x <;> trivial

theorem Held.step {a : LockStep Thread} (h : Held s) (hinv : LockInv s) (hok : s.Undisturbed a)
    (hs : s.step a = some s') : Held s' := by
  cases step_effect hs with
  | go t owner x hlock hmarked hsection hwait =>
    constructor
    · refine forall_goto (P := fun u y => y.inSection → s.holder = some u) ?_ fun u _ => h.locked u
      intro hx
      rcases hsection hx with ht | ⟨ha, ht⟩
      · exact h.locked t ht
      · exact h.waits t (by rw [ht]; trivial) (hok.wait t ha ht)
    · exact forall_goto (P := fun u y => y.inWait → s.displaced u = false → s.holder = some u)
        (fun hx => h.waits t (hwait hx)) fun u _ => h.waits u
  | wait t ht =>
    constructor
    · exact forall_goto (P := fun u y => y.inSection → s.holder = some u) (fun hx => hx.elim)
        fun u _ => h.locked u
    · refine forall_goto (P := fun u y => y.inWait → update s.displaced t false u = false →
        s.holder = some u) ?_ ?_
      · intro _ _
        exact h.locked t (by rw [ht]; trivial)
      · intro u hu
        rw [update_of_ne hu]
        exact h.waits u
  | store t ht =>
    constructor
    · refine forall_goto (P := fun u y => y.inSection → some t = some u) (fun _ => rfl) ?_
      intro u hu hsec
      have hin : (s.pc u).inside := inside_of_inSection hsec
      have hint : (s.pc t).inside := by rw [ht]; trivial
      exact absurd (hinv.mutex.exclusive hin hint) hu
    · refine forall_goto (P := fun u y => y.inWait →
        update (fun _ => true) t (s.displaced t) u = false → some t = some u) (fun hx => hx.elim) ?_
      intro u hu _ hd
      rw [update_of_ne hu] at hd
      cases hd
  | clear t exits x ha ht hx =>
    constructor
    · refine forall_goto (P := fun u y => y.inSection → none = some u) ?_ ?_
      · rw [hx]
        cases exits <;> exact False.elim
      · intro u hu hsec
        exact absurd hsec (hok.clear t exits ha ht u hu)
    · refine forall_goto (P := fun u y => y.inWait →
        update (fun _ => true) t (s.displaced t) u = false → none = some u) ?_ ?_
      · rw [hx]
        cases exits <;> exact False.elim
      · intro u hu _ hd
        rw [update_of_ne hu] at hd
        cases hd

theorem reach_held (h : (mutexLock Thread).Reach Undisturbed s) : LockInv s ∧ Held s := by
  apply h.invariant
  · rintro s rfl
    exact ⟨.start, fun _ hx => hx.elim, fun _ hx => hx.elim⟩
  · rintro s a s' ⟨hinv, hheld⟩ hok hs
    exact ⟨hinv.step hs, hheld.step hinv hok hs⟩

/-- **`isLockedByThisThread` knows the holder** in every run in which no `unlock` stores its `0` into
another section and no `wait` returns behind another thread's store. -/
theorem knowsHolder (h : (mutexLock Thread).Reach Undisturbed s) : s.KnowsHolder := by
  intro t ht
  have hholder := (reach_held h).2.locked t ht
  refine ⟨isLockedByThisThread_iff.2 hholder, fun u hu _ => ?_⟩
  rw [← Bool.not_eq_true, isLockedByThisThread_iff, hholder]
  exact fun e => hu (Option.some.inj e).symm

/-- The two kinds of steps left out make `isLockedByThisThread` wrong at once. -/
theorem disturbed_breaks {a : LockStep Thread} (h : LockInv s) (hbad : ¬ s.Undisturbed a)
    (hs : s.step a = some s') : ¬ s'.KnowsHolder := by
  intro hknows
  apply hbad
  constructor
  · rintro t exits rfl ht u hu hsec
    simp only [LockSys.step, run, ht] at hs
    cases hs
    have hpc : (((s.setHolder t none).goto t (if exits then .exited else .outside)).pc u).inSection := by
      simpa [goto, setHolder, update_of_ne hu] using hsec
    cases isLockedByThisThread_iff.1 (hknows u hpc).1
  · rintro t rfl ht
    by_contra hd
    have hstale := h.stale t (by rw [ht]; trivial) (by simpa using hd)
    simp only [LockSys.step, run, ht] at hs
    split at hs <;> cases hs
    have hpc : (({ s with owner := some t }.goto t .locked).pc t).inSection := by
      simp [goto, LockPc.inSection]
    exact hstale (isLockedByThisThread_iff.1 (hknows t hpc).1)

omit [DecidableEq Thread] in
theorem undisturbed_call {f : LockCall} : s.Undisturbed (.call t f) where
  clear := by rintro _ _ ⟨⟩
  wait := by rintro _ ⟨⟩

omit [DecidableEq Thread] in
theorem undisturbed_run (hclear : ∀ exits, s.pc t ≠ .released exits)
    (hwait : s.pc t = .woken → s.displaced t = false) : s.Undisturbed (.run t) := by
  constructor
  · rintro _ exits ⟨⟩ ht
    exact absurd ht (hclear exits)
  · rintro _ ⟨⟩
    exact hwait

/-- A wait that no store comes into. -/
theorem quietWait_knows : ∃ s : LockSys Bool, (mutexLock Bool).Reach Undisturbed s ∧
    s.pc true = .locked ∧ s.KnowsHolder := by
  have h : (mutexLock Bool).Reach Undisturbed .start := .init rfl
  have h := h.step (a := .call true .lock) undisturbed_call rfl
  have h := h.step (a := .run true) (undisturbed_run (by decide) (by decide)) rfl
  have h := h.step (a := .run true) (undisturbed_run (by decide) (by decide)) rfl
  have h := h.step (a := .call true .wait) undisturbed_call rfl
  have h := h.step (a := .run true) (undisturbed_run (by decide) (by decide)) rfl
  have h := h.step (a := .run true) (undisturbed_run (by decide) (by decide)) rfl
  have h := h.step (a := .run true) (undisturbed_run (by decide) (by decide)) rfl
  exact ⟨_, h, rfl, knowsHolder h⟩

/-- `unlock` stores its `0` when the other thread has locked already. -/
def lateClear : List (LockStep Bool) :=
  [.call false .lock, .run false, .run false, .call true .lock, .call false .unlock, .run false,
   .run true, .run true, .run false]

/-- **Bug** (threadpool.cpp:318-319, :345-347). -/
theorem lateClear_forgets : ¬ ∀ s, (mutexLock Bool).Reachable s → s.KnowsHolder := by
  intro h
  have hknows := h _ (Lts.reach_of_replay lateClear (.init rfl) rfl)
  exact absurd (hknows true trivial).1 (by decide)

end LockSys

end HPServer
