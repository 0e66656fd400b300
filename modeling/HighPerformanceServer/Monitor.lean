import Mathlib.Data.List.Basic
import Mathlib.Logic.Function.Basic
/-!
# Threads around one lock, and condition variables

`Guards lock inside`: the holder of the lock is the one thread that is `inside` its critical
section. A step of a thread takes the lock, gives it up, or leaves it alone; each keeps `Guards`.

A condition variable is given by `wake`: where a thread that sleeps on it goes when it is woken
(`none`: it does not sleep on it). `signal` wakes one sleeper, when there is one, `broadcast` all.
-/

namespace Monitor

section Lock

variable {τ : Type} {lock : Option τ} {inside inside' : τ → Prop} {t u : τ}

def Guards (lock : Option τ) (inside : τ → Prop) : Prop := ∀ t, inside t ↔ lock = some t

theorem Guards.free (h : ∀ t, ¬inside t) : Guards none inside := fun t => by simp [h t]

theorem Guards.exclusive (h : Guards lock inside) (ht : inside t) (hu : inside u) : t = u :=
  Option.some.inj (((h t).1 ht).symm.trans ((h u).1 hu))

theorem Guards.acquire (h : Guards none inside) (ht : inside' t)
    (hother : ∀ u, u ≠ t → (inside' u ↔ inside u)) : Guards (some t) inside' := by
  intro u
  by_cases hu : u = t
  · subst hu
    simp [ht]
  · rw [hother u hu, h u]
    simp [Ne.symm hu]

theorem Guards.release (h : Guards lock inside) (hin : inside t) (ht : ¬inside' t)
    (hother : ∀ u, u ≠ t → (inside' u ↔ inside u)) : Guards none inside' := by
  apply Guards.free
  intro u hu
  by_cases hut : u = t
  · subst hut
    exact ht hu
  · exact hut (h.exclusive ((hother u hut).1 hu) hin)

theorem Guards.stay (h : Guards lock inside) (hsame : ∀ u, inside' u ↔ inside u) :
    Guards lock inside' := fun u => (hsame u).trans (h u)

/-- A step of `t` within its critical section, or outside of it. -/
theorem Guards.local (h : Guards lock inside) (ht : inside' t ↔ inside t)
    (hother : ∀ u, u ≠ t → (inside' u ↔ inside u)) : Guards lock inside' := by
  apply h.stay
  intro u
  by_cases hu : u = t
  · subst hu
    exact ht
  · exact hother u hu

/-- A step of `t` on the lock: it takes it on its way in, gives it up on its way out, or neither. -/
def LockMove (lock lock' : Option τ) (t : τ) (before after : Prop) : Prop :=
  (lock = none ∧ lock' = some t ∧ after) ∨ (before ∧ ¬after ∧ lock' = none) ∨
  (lock' = lock ∧ (after ↔ before))

theorem Guards.move {lock' : Option τ} (h : Guards lock inside)
    (hmove : LockMove lock lock' t (inside t) (inside' t))
    (hother : ∀ u, u ≠ t → (inside' u ↔ inside u)) : Guards lock' inside' := by
  obtain ⟨rfl, rfl, hin⟩ | ⟨hin, hout, rfl⟩ | ⟨rfl, hsame⟩ := hmove
  · exact h.acquire hin hother
  · exact h.release hin hout hother
  · exact h.local hsame hother

end Lock

section Condition

variable {Pc : Type} {wake : Pc → Option Pc} {n : Nat} {pc pc' : Nat → Pc} {who : Option Nat}

/-- `who` is the sleeper that wakes, among threads `0 … n-1`. -/
def signal (wake : Pc → Option Pc) (n : Nat) (pc : Nat → Pc) (who : Option Nat) :
    Option (Nat → Pc) :=
  match who with
  | some i => (wake (pc i)).map (Function.update pc i)
  | none => if ∀ i < n, (wake (pc i)).isNone then some pc else none

def broadcast (wake : Pc → Option Pc) (pc : Nat → Pc) : Nat → Pc :=
  fun i => (wake (pc i)).getD (pc i)

/-- Some of the sleepers have woken, and nothing else has happened. -/
def Woken (wake : Pc → Option Pc) (pc pc' : Nat → Pc) : Prop :=
  ∀ i, pc' i = pc i ∨ wake (pc i) = some (pc' i)

theorem woken_update {i : Nat} {x : Pc} (h : wake (pc i) = some x) :
    Woken wake pc (Function.update pc i x) := by
  intro j
  by_cases hj : j = i
  · subst hj
    rw [Function.update_self]
    exact Or.inr h
  · rw [Function.update_of_ne hj]
    exact Or.inl rfl

theorem signal_cases (h : signal wake n pc who = some pc') :
    (who = none ∧ pc' = pc ∧ ∀ i < n, wake (pc i) = none) ∨
    ∃ i x, who = some i ∧ wake (pc i) = some x ∧ pc' = Function.update pc i x := by
  cases who with
  | none =>
    simp only [signal, Option.isNone_iff_eq_none] at h
    split at h
    · rename_i hnone
      exact Or.inl ⟨rfl, (Option.some.inj h).symm, hnone⟩
    · cases h
  | some i =>
    obtain ⟨x, hx, rfl⟩ := Option.map_eq_some_iff.1 h
    exact Or.inr ⟨i, x, rfl, hx, rfl⟩

theorem signal_woken (h : signal wake n pc who = some pc') : Woken wake pc pc' := by
  rcases signal_cases h with ⟨-, rfl, -⟩ | ⟨i, x, -, hx, rfl⟩
  · exact fun _ => Or.inl rfl
  · exact woken_update hx

theorem broadcast_woken (wake : Pc → Option Pc) (pc : Nat → Pc) :
    Woken wake pc (broadcast wake pc) := by
  intro i
  cases hi : wake (pc i) with
  | none => simp [broadcast, hi]
  | some x => simp [broadcast, hi]

/-- A property that waking keeps is kept. -/
theorem Woken.forall (h : Woken wake pc pc') {P : Pc → Prop}
    (hwake : ∀ x y, wake x = some y → P x → P y) (hP : ∀ i, P (pc i)) (i : Nat) : P (pc' i) := by
  rcases h i with e | e
  · rw [e]
    exact hP i
  · exact hwake _ _ e (hP i)

end Condition

end Monitor
