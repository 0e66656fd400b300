import Mathlib.Data.List.Basic
/-!
# Labelled transition systems

A system is a guarded, executable step function: `step s a` is `some s'` when `a` can happen in
`s`. All choice is in the labels, so a run is replayed by computing it (`reach_of_replay`).
`Reach ok` are the states of runs whose steps all meet `ok`; an invariant of such runs needs
preservation by such steps only (`Reach.invariant`).
-/

structure Lts (σ α : Type) where
  init : σ → Prop
  step : σ → α → Option σ

namespace Lts

variable {σ α : Type} (M : Lts σ α) (ok : σ → α → Prop)

inductive Reach : σ → Prop
  | init {s : σ} : M.init s → Reach s
  | step {s s' : σ} {a : α} : Reach s → ok s a → M.step s a = some s' → Reach s'

/-- The states of all runs. -/
abbrev Reachable : σ → Prop := M.Reach fun _ _ => True

def replay (s : σ) (as : List α) : Option σ := as.foldlM M.step s

variable {M ok}

theorem Reach.invariant {P : σ → Prop} (hinit : ∀ s, M.init s → P s)
    (hstep : ∀ s a s', P s → ok s a → M.step s a = some s' → P s') {s : σ} (h : M.Reach ok s) :
    P s := by
  induction h with
  | init h => exact hinit _ h
  | step _ hok hs ih => exact hstep _ _ _ ih hok hs

theorem reach_of_replay_ok {s s' : σ} (as : List α) (hok : ∀ a ∈ as, ∀ s, ok s a) (hs : M.Reach ok s)
    (h : M.replay s as = some s') : M.Reach ok s' := by
  induction as generalizing s with
  | nil => cases h; exact hs
  | cons a as ih =>
    simp only [replay, List.foldlM_cons] at h
    obtain ⟨s₁, hstep, h⟩ := Option.bind_eq_some_iff.1 h
    exact ih (fun b hb => hok b (List.mem_cons_of_mem a hb))
      (.step hs (hok a List.mem_cons_self s) hstep) h

theorem reach_of_replay {s s' : σ} (as : List α) (hs : M.Reachable s) (h : M.replay s as = some s') :
    M.Reachable s' :=
  reach_of_replay_ok as (fun _ _ _ => trivial) hs h

end Lts
