import Mathlib.Data.List.Basic
import Mathlib.Logic.Function.Basic
/-!
# Circular buffers

A buffer of `size` slots holds `n` values from slot `head` on, wrapping around. `window` is the
sequence it denotes: a write behind the last value appends (`window_push`), and moving `head` past
the first one takes it off (`window_pop`), whatever the wrap position.
-/

namespace Ring

variable {α : Type} {size head n : Nat} {slots : Nat → α}

def window (slots : Nat → α) (size head n : Nat) : List α :=
  (List.range n).map fun i => slots ((head + i) % size)

@[simp] theorem window_zero : window slots size head 0 = [] := rfl

/-- Two places of one round of the buffer are different slots. -/
theorem slot_ne {i j : Nat} (hij : i < j) (hj : j < size) : (head + i) % size ≠ (head + j) % size := by
  intro h
  have hzero := Nat.sub_mod_eq_zero_of_mod_eq h.symm
  rw [Nat.mod_eq_of_lt (by omega)] at hzero
  omega

theorem window_push (hn : n < size) (x : α) :
    window (Function.update slots ((head + n) % size) x) size head (n + 1) =
      window slots size head n ++ [x] := by
  unfold window
  rw [List.range_succ, List.map_append, List.map_singleton, Function.update_self]
  congr 1
  refine List.map_congr_left fun i hi => ?_
  exact Function.update_of_ne (slot_ne (List.mem_range.1 hi) hn) _ _

theorem window_pop (hh : head < size) :
    window slots size head (n + 1) = slots head :: window slots size ((head + 1) % size) n := by
  unfold window
  rw [List.range_succ_eq_map, List.map_cons, List.map_map, Nat.add_zero, Nat.mod_eq_of_lt hh]
  congr 1
  refine List.map_congr_left fun i _ => ?_
  simp only [Function.comp, Nat.mod_add_mod]
  congr 2; omega

end Ring
