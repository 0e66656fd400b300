import HighPerformanceServer.Monitor
import Mathlib.Algebra.BigOperators.Group.Finset.Basic
/-!
# Sleepers that somebody works for

Threads `0 … n-1` share some units of work, or of room. A thread that `heads` for a unit will come by
to take one; one that is `blocked` has found none left. Waking a single sleeper for each new unit
is enough as long as they are `Backed`: when somebody is blocked, there are no more units than
threads heading for one.
-/

namespace Monitor

variable {Pc : Type} {n i : Nat} {pc pc' : Nat → Pc} {x : Pc}

/-- The sum of the weights of threads `0 … n-1`. -/
def total (weight : Pc → Nat) (n : Nat) (pc : Nat → Pc) : Nat := ∑ i ∈ Finset.range n, weight (pc i)

section Total

variable {weight : Pc → Nat}

theorem total_update (hi : i < n) :
    total weight n (Function.update pc i x) + weight (pc i) = total weight n pc + weight x := by
  have hmem := Finset.mem_range.2 hi
  have hrest : ∑ j ∈ (Finset.range n).erase i, weight (Function.update pc i x j) =
      ∑ j ∈ (Finset.range n).erase i, weight (pc j) :=
    Finset.sum_congr rfl fun j hj => by rw [Function.update_of_ne (Finset.ne_of_mem_erase hj)]
  have hold := Finset.add_sum_erase _ (fun j => weight (pc j)) hmem
  have hnew := Finset.add_sum_erase _ (fun j => weight (Function.update pc i x j)) hmem
  rw [Function.update_self, hrest] at hnew
  simp only [total]
  omega

theorem total_update_of_le (hi : n ≤ i) : total weight n (Function.update pc i x) = total weight n pc :=
  Finset.sum_congr rfl fun j hj => by
    rw [Function.update_of_ne (Nat.ne_of_lt (Nat.lt_of_lt_of_le (Finset.mem_range.1 hj) hi))]

/-- A signal adds what it adds to the one sleeper that it wakes. -/
theorem total_signal_le {wake : Pc → Option Pc} {who : Option Nat} {bonus : Nat}
    (hwake : ∀ x y, wake x = some y → weight y ≤ weight x + bonus)
    (h : Monitor.signal wake n pc who = some pc') : total weight n pc' ≤ total weight n pc + bonus := by
  rcases signal_cases h with ⟨-, rfl, -⟩ | ⟨i, y, -, hy, rfl⟩
  · exact Nat.le_add_right ..
  · by_cases hi : i < n
    · have htotal : total weight n (Function.update pc i y) + weight (pc i) = total weight n pc + weight y :=
        total_update hi
      have hle := hwake _ _ hy
      omega
    · rw [total_update_of_le (Nat.le_of_not_lt hi)]
      exact Nat.le_add_right ..

theorem total_pos (h : 0 < total weight n pc) : ∃ i < n, 0 < weight (pc i) := by
  by_contra hnone
  have hzero : total weight n pc = 0 := Finset.sum_eq_zero fun i hi => by
    by_contra hne
    exact hnone ⟨i, Finset.mem_range.1 hi, Nat.pos_of_ne_zero hne⟩
  omega

end Total

/-- Nobody sleeps while there are units that nobody is coming for. -/
def Backed (blocked : Pc → Prop) (heads : Pc → Bool) (n : Nat) (pc : Nat → Pc) (units : Nat) : Prop :=
  (∃ i, blocked (pc i)) → units ≤ total (fun x => (heads x).toNat) n pc

namespace Backed

variable {blocked : Pc → Prop} {heads : Pc → Bool} {units units' : Nat} {wake : Pc → Option Pc}
  {who : Option Nat}

/-- Thread `i` goes to `x`. It gets blocked only when no unit is left, and takes one at most when it
stops heading for it. -/
theorem move (h : Backed blocked heads n pc units) (hi : i < n)
    (hx : units' = 0 ∨
      ((blocked x → blocked (pc i)) ∧ units' + (heads (pc i)).toNat ≤ units + (heads x).toNat)) :
    Backed blocked heads n (Function.update pc i x) units' := by
  rintro ⟨j, hj⟩
  rcases hx with rfl | ⟨hblocked, hunits⟩
  · exact Nat.zero_le _
  have hbefore : ∃ j, blocked (pc j) := by
    by_cases hji : j = i
    · subst hji
      rw [Function.update_self] at hj
      exact ⟨j, hblocked hj⟩
    · rw [Function.update_of_ne hji] at hj
      exact ⟨j, hj⟩
  have hbacked := h hbefore
  have htotal : total (fun x => (heads x).toNat) n (Function.update pc i x) + (heads (pc i)).toNat =
      total (fun x => (heads x).toNat) n pc + (heads x).toNat := total_update hi
  omega

/-- **One signal for each unit**: whoever is blocked sleeps, so either nobody is, or somebody wakes
and heads for the new unit. -/
theorem signal (h : Backed blocked heads n pc units)
    (hsleeps : ∀ i, blocked (pc i) → i < n ∧ wake (pc i) ≠ none)
    (hwake : ∀ x y, wake x = some y → blocked x ∧ heads x = false ∧ heads y = true ∧ ¬blocked y)
    (hsignal : Monitor.signal wake n pc who = some pc') : Backed blocked heads n pc' (units + 1) := by
  rcases signal_cases hsignal with ⟨-, rfl, hnone⟩ | ⟨i, y, -, hy, rfl⟩
  · rintro ⟨i, hi⟩
    obtain ⟨hlt, hasleep⟩ := hsleeps i hi
    exact absurd (hnone i hlt) hasleep
  · obtain ⟨hblocked, hbefore, hbehind, hout⟩ := hwake _ _ hy
    refine h.move (hsleeps i hblocked).1 (Or.inr ⟨fun hy => absurd hy hout, ?_⟩)
    rw [hbefore, hbehind]
    rfl

/-- A sleeper and a unit mean that somebody heads for it. -/
theorem exists_heads (h : Backed blocked heads n pc units) (hi : blocked (pc i)) (hunits : 0 < units) :
    ∃ j < n, heads (pc j) = true := by
  obtain ⟨j, hj, hpos⟩ := total_pos (Nat.lt_of_lt_of_le hunits (h ⟨i, hi⟩))
  refine ⟨j, hj, ?_⟩
  cases hheads : heads (pc j) with
  | true => rfl
  | false =>
    rw [hheads] at hpos
    exact absurd hpos (Nat.lt_irrefl 0)

end Backed

/-- Some choice of the signal is possible. -/
theorem exists_signal (wake : Pc → Option Pc) (n : Nat) (pc : Nat → Pc) :
    ∃ who pc', signal wake n pc who = some pc' := by
  by_cases hnone : ∀ i < n, (wake (pc i)).isNone
  · exact ⟨none, pc, if_pos hnone⟩
  · simp only [not_forall] at hnone
    obtain ⟨i, -, hi⟩ := hnone
    cases hy : wake (pc i) with
    | none => exact absurd (by rw [hy]; rfl) hi
    | some y => exact ⟨some i, Function.update pc i y, by rw [Monitor.signal, hy]; rfl⟩

end Monitor
