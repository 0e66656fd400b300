import Mathlib.Data.List.Basic
/-!
# Terminated lines

A text is a sequence of lines, each closed by the terminator `c :: t`; a message is a text, an
empty line and a body. When no line is empty and none contains `c`, a message can be taken apart in
one way only (`message_inj`).
-/

namespace Lines

variable {α : Type} (c : α) (t : List α)

def text (ls : List (List α)) : List α := ls.flatMap (· ++ c :: t)

def message (ls : List (List α)) (body : List α) : List α := text c t ls ++ c :: t ++ body

/-- A line that a message may contain. -/
def IsLine (l : List α) : Prop := l ≠ [] ∧ c ∉ l

instance [DecidableEq α] (l : List α) : Decidable (IsLine c l) :=
  inferInstanceAs (Decidable (_ ∧ _))

variable {c t}

theorem message_ne_nil (ls : List (List α)) (body : List α) : message c t ls body ≠ [] := by
  simp [message]

theorem message_cons (l : List α) (ls : List (List α)) (body : List α) :
    message c t (l :: ls) body = l ++ c :: (t ++ message c t ls body) := by
  simp [message, text]

theorem length_lt_message (ls : List (List α)) (body : List α) : ls.length < (message c t ls body).length := by
  induction ls with
  | nil => exact List.length_pos_iff.2 (message_ne_nil [] body)
  | cons l ls ih =>
    rw [message_cons]
    simp only [List.length_cons, List.length_append]
    omega

theorem message_append (ls : List (List α)) (b b' : List α) :
    message c t ls b ++ b' = message c t ls (b ++ b') := by
  simp [message]

/-- The first terminator of a word is where it is. -/
theorem split_first {l l' r r' : List α} (hl : c ∉ l) (hl' : c ∉ l') (h : l ++ c :: r = l' ++ c :: r') :
    l = l' ∧ r = r' := by
  induction l generalizing l' with
  | nil =>
    cases l' with
    | nil => simpa using h
    | cons x l' => simp only [List.nil_append, List.cons_append, List.cons.injEq] at h
                   exact absurd (h.1 ▸ List.mem_cons_self) hl'
  | cons x l ih =>
    cases l' with
    | nil => simp only [List.nil_append, List.cons_append, List.cons.injEq] at h
             exact absurd (h.1 ▸ List.mem_cons_self) hl
    | cons y l' =>
      simp only [List.cons_append, List.cons.injEq] at h
      obtain ⟨rfl, h⟩ := h
      obtain ⟨rfl, rfl⟩ := ih (fun hm => hl (by simp [hm])) (fun hm => hl' (by simp [hm])) h
      exact ⟨rfl, rfl⟩

theorem message_inj {ls ls' : List (List α)} {b b' : List α} (hl : ∀ l ∈ ls, IsLine c l)
    (hl' : ∀ l ∈ ls', IsLine c l) (h : message c t ls b = message c t ls' b') : ls = ls' ∧ b = b' := by
  induction ls generalizing ls' with
  | nil =>
    cases ls' with
    | nil => exact ⟨rfl, by simpa [message, text] using h⟩
    | cons l' ls' =>
      rw [message_cons] at h
      have hempty : message c t [] b = [] ++ c :: (t ++ b) := by simp [message, text]
      rw [hempty] at h
      have hline := hl' l' (by simp)
      exact absurd (split_first (by simp) hline.2 h).1.symm hline.1
  | cons l ls ih =>
    have hline := hl l (by simp)
    rw [message_cons] at h
    cases ls' with
    | nil =>
      have hempty : message c t [] b' = [] ++ c :: (t ++ b') := by simp [message, text]
      rw [hempty] at h
      exact absurd (split_first hline.2 (by simp) h).1 hline.1
    | cons l' ls' =>
      rw [message_cons] at h
      obtain ⟨rfl, hrest⟩ := split_first hline.2 (hl' l' (by simp)).2 h
      obtain ⟨rfl, rfl⟩ := ih (fun x hx => hl x (by simp [hx])) (fun x hx => hl' x (by simp [hx]))
        (List.append_cancel_left hrest)
      exact ⟨rfl, rfl⟩

end Lines
