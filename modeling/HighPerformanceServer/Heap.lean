import Mathlib.Logic.Function.Basic
/-!
# Objects that are created once and deleted once

A heap maps the name of an object to its `Cell`. A name is never given to a second object: an
address that the allocator hands out again is a new name.

`Matched f g` says of two kinds of objects that point at each other that no pointer is one-sided:
`f` follows the pointers of the one kind, `g` those of the other.
-/

inductive Cell (α : Type) where
  | unborn
  | live (a : α)
  | freed

namespace Cell

variable {α β : Type}

def Live (c : Cell α) : Prop := ∃ a, c = .live a

def isUnborn : Cell α → Bool
  | .unborn => true
  | .live _ | .freed => false

/-- A pointer field of the object; a dead object has none. -/
def field (f : α → Option β) : Cell α → Option β
  | .live a => f a
  | .unborn | .freed => none

@[simp] theorem live_live (a : α) : (live a).Live := ⟨a, rfl⟩

@[simp] theorem not_live_unborn : ¬ (unborn : Cell α).Live := by rintro ⟨_, h⟩; cases h

@[simp] theorem not_live_freed : ¬ (freed : Cell α).Live := by rintro ⟨_, h⟩; cases h

@[simp] theorem field_live (f : α → Option β) (a : α) : (live a).field f = f a := rfl

@[simp] theorem field_unborn (f : α → Option β) : (unborn : Cell α).field f = none := rfl

@[simp] theorem field_freed (f : α → Option β) : (freed : Cell α).field f = none := rfl

theorem field_eq_some {f : α → Option β} {c : Cell α} {b : β} :
    c.field f = some b ↔ ∃ a, c = .live a ∧ f a = some b := by
  cases c <;> simp

theorem isUnborn_iff {c : Cell α} : c.isUnborn = true ↔ c = .unborn := by
  cases c <;> simp [isUnborn]

end Cell

abbrev Heap (ι α : Type) := ι → Cell α

/-- Following a pointer field through a heap in which one cell has changed. -/
theorem Heap.field_update {ι α β : Type} [DecidableEq ι] (h : Heap ι α) (f : α → Option β) (i : ι) (c : Cell α) :
    (fun j => (Function.update h i c j).field f) =
      Function.update (fun j => (h j).field f) i (c.field f) :=
  Function.comp_update (Cell.field f) h i c

/-! ## Objects that point at each other -/

def Matched {α β : Type} (f : α → Option β) (g : β → Option α) : Prop := ∀ a b, f a = some b ↔ g b = some a

namespace Matched

variable {α β : Type} {f : α → Option β} {g : β → Option α} {a : α} {b : β}

/-- Two objects do not point at the same one. -/
theorem unique (h : Matched f g) {a' : α} (ha : f a = some b) (ha' : f a' = some b) : a = a' := by
  have hb := (h a b).1 ha
  rw [(h a' b).1 ha'] at hb
  exact (Option.some.inj hb).symm

variable [DecidableEq α] [DecidableEq β]

/-- A pair lets go of each other. -/
theorem unpair (h : Matched f g) (hab : f a = some b) :
    Matched (Function.update f a none) (Function.update g b none) := by
  intro a' b'
  have hba := (h a b).1 hab
  by_cases ha : a' = a
  · subst ha
    have hne : b' ≠ b → g b' ≠ some a' := by
      intro hb hg
      have := (h a' b').2 hg
      rw [hab] at this
      exact hb (Option.some.inj this).symm
    by_cases hb : b' = b
    · subst hb; simp
    · simpa [hb] using hne hb
  · by_cases hb : b' = b
    · subst hb
      have hf : f a' ≠ some b' := fun hf => ha (h.unique hf hab)
      simpa [ha] using hf
    · simpa [ha, hb] using h a' b'

/-- Two free objects take hold of each other. -/
theorem pair (h : Matched f g) (ha : f a = none) (hb : g b = none) :
    Matched (Function.update f a (some b)) (Function.update g b (some a)) := by
  intro a' b'
  by_cases hea : a' = a
  · subst hea
    by_cases heb : b' = b
    · subst heb; simp
    · have hg : g b' ≠ some a' := fun hg => by rw [(h a' b').2 hg] at ha; cases ha
      simpa [heb, Ne.symm heb] using hg
  · by_cases heb : b' = b
    · subst heb
      have hf : f a' ≠ some b' := fun hf => by rw [(h a' b').1 hf] at hb; cases hb
      simpa [hea, Ne.symm hea] using hf
    · simpa [hea, heb] using h a' b'

end Matched
