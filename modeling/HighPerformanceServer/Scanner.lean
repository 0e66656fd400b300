import Mathlib.Data.List.Basic
/-!
# Scanners that stop

A scanner reads a word letter by letter. Some of its states are *done*: it stays there whatever
follows. A word that leads to a done state has a first letter that decides it (`exists_deciding`),
and everything behind that letter is irrelevant (`run_append_of_done`).
-/

structure Scanner (σ β : Type) where
  next : σ → β → σ
  done : σ → Prop
  sticky : ∀ s c, done s → next s c = s

namespace Scanner

variable {σ β : Type} (M : Scanner σ β)

def run (s : σ) (w : List β) : σ := w.foldl M.next s

@[simp] theorem run_nil (s : σ) : M.run s [] = s := rfl

@[simp] theorem run_cons (s : σ) (c : β) (w : List β) : M.run s (c :: w) = M.run (M.next s c) w := rfl

theorem run_append (s : σ) (u v : List β) : M.run s (u ++ v) = M.run (M.run s u) v :=
  List.foldl_append ..

theorem run_of_done {s : σ} (h : M.done s) (w : List β) : M.run s w = s := by
  induction w with
  | nil => rfl
  | cons c w ih => rw [run_cons, M.sticky s c h, ih]

theorem run_append_of_done {s : σ} {u : List β} (h : M.done (M.run s u)) (v : List β) :
    M.run s (u ++ v) = M.run s u := by
  rw [run_append, M.run_of_done h]

/-- A scanner still running at the end of a word was running all along. -/
theorem not_done_of_append {s : σ} {u v : List β} (h : ¬ M.done (M.run s (u ++ v))) :
    ¬ M.done (M.run s u) := by
  intro hd; rw [M.run_append_of_done hd] at h; exact h hd

/-- The letter that decides: before it the scanner runs, with it the scanner is done. -/
theorem exists_deciding {s : σ} (hs : ¬ M.done s) {w : List β} (h : M.done (M.run s w)) :
    ∃ u c v, w = u ++ c :: v ∧ ¬ M.done (M.run s u) ∧ M.done (M.next (M.run s u) c) ∧
      M.run s w = M.next (M.run s u) c := by
  induction w generalizing s with
  | nil => exact absurd h hs
  | cons c w ih =>
    by_cases hc : M.done (M.next s c)
    · exact ⟨[], c, w, rfl, hs, hc, by rw [run_cons, M.run_of_done hc, run_nil]⟩
    · obtain ⟨u, d, v, rfl, h1, h2, h3⟩ := ih hc h
      exact ⟨c :: u, d, v, rfl, h1, h2, h3⟩

end Scanner
