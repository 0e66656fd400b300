import HighPerformanceServer.CppStd
/-!
# Texts that differ in the letter case of header names

`Respelled K P w w'`: from the place `P` of a request on, `w` and `w'` are the same text except that in
front of the first `':'` of a line a letter may be upper case in the one and lower case in the other.
`K` is what else is asked of the two spellings of a name. The request line, which only a CR ends, is
the same in both.
-/

namespace HPServer

open CppStd

/-! ## Letters -/

/-- `tolower` in the C locale. -/
def lower (c : Byte) : Byte := if 65 ≤ c ∧ c ≤ 90 then c + 32 else c

def isLetter (c : Byte) : Bool := (65 ≤ c && c ≤ 90) || (97 ≤ c && c ≤ 122)

section Letters

variable {c d x : Byte}

theorem toNat_lower (c : Byte) :
    (lower c).toNat = if 65 ≤ c.toNat ∧ c.toNat ≤ 90 then c.toNat + 32 else c.toNat := by
  have hc : (65 ≤ c ∧ c ≤ 90) ↔ (65 ≤ c.toNat ∧ c.toNat ≤ 90) := by simp [UInt8.le_iff_toNat_le]
  unfold lower
  simp only [hc]
  split
  · rw [UInt8.toNat_add]
    show (c.toNat + 32) % 256 = _
    omega
  · rfl

theorem isLetter_iff :
    isLetter c = true ↔ (65 ≤ c.toNat ∧ c.toNat ≤ 90) ∨ (97 ≤ c.toNat ∧ c.toNat ≤ 122) := by
  simp [isLetter, UInt8.le_iff_toNat_le]

/-- Bytes that agree up to case are equal, or letters. -/
theorem lower_eq (h : lower c = lower d) : c = d ∨ (isLetter c = true ∧ isLetter d = true) := by
  have hnat := congrArg UInt8.toNat h
  rw [toNat_lower, toNat_lower] at hnat
  rw [isLetter_iff, isLetter_iff, ← UInt8.toNat_inj]
  split at hnat <;> split at hnat <;> omega

theorem lower_lower (c : Byte) : lower (lower c) = lower c := by
  have hnat := toNat_lower c
  have hnat' := toNat_lower (lower c)
  rw [← UInt8.toNat_inj]
  split at hnat <;> split at hnat' <;> omega

theorem letter_ne (h : isLetter c = true) (hx : isLetter x = false) : c ≠ x := by
  rintro rfl
  rw [h] at hx
  cases hx

/-- A byte that is no letter stands in both texts or in neither. -/
theorem same_at (h : lower c = lower d) (hx : isLetter x = false) : c = x ↔ d = x := by
  rcases lower_eq h with rfl | ⟨hc, hd⟩
  · exact Iff.rfl
  · exact iff_of_false (letter_ne hc hx) (letter_ne hd hx)

theorem isDigit_letter (h : isLetter c = true) : isDigit c = false := by
  unfold isLetter at h
  unfold isDigit
  grind

theorem isSpace_letter (h : isLetter c = true) : isSpace c = false := by
  unfold isLetter at h
  unfold isSpace
  grind

theorem isDigit_lower (c : Byte) : isDigit (lower c) = isDigit c := by
  rcases lower_eq (lower_lower c) with h | ⟨h, h'⟩
  · rw [h]
  · rw [isDigit_letter h, isDigit_letter h']

theorem isSpace_lower (c : Byte) : isSpace (lower c) = isSpace c := by
  rcases lower_eq (lower_lower c) with h | ⟨h, h'⟩
  · rw [h]
  · rw [isSpace_letter h, isSpace_letter h']

theorem lower_digit (h : isDigit c = true) : lower c = c := by
  rcases lower_eq (lower_lower c) with h' | ⟨-, h'⟩
  · exact h'
  · rw [isDigit_letter h'] at h
    cases h

end Letters

/-! ## Numbers -/

theorem sign_lower (s : Bytes) : sign (s.map lower) = ((sign s).1, (sign s).2.map lower) := by
  cases s with
  | nil => rfl
  | cons c s =>
    have h45 := same_at (x := 45) (lower_lower c) (by decide)
    have h43 := same_at (x := 43) (lower_lower c) (by decide)
    rw [List.map_cons]
    by_cases hm : c = 45
    · rw [h45.2 hm, hm]; rfl
    by_cases hp : c = 43
    · rw [h43.2 hp, hp]; rfl
    · have other : ∀ {d : Byte} {t : Bytes}, d ≠ 45 → d ≠ 43 → sign (d :: t) = (false, d :: t) := by
        intro d t h h'
        unfold sign
        split
        · rename_i heq; exact absurd (List.cons.inj heq).1 h
        · rename_i heq; exact absurd (List.cons.inj heq).1 h'
        · rfl
      rw [other (h45.not.2 hm) (h43.not.2 hp), other hm hp]
      rfl

theorem takeWhile_digit (s : Bytes) : (s.map lower).takeWhile isDigit = s.takeWhile isDigit := by
  induction s with
  | nil => rfl
  | cons c s ih =>
    rw [List.map_cons, List.takeWhile_cons, List.takeWhile_cons, isDigit_lower]
    by_cases hc : isDigit c = true
    · rw [if_pos hc, if_pos hc, ih, lower_digit hc]
    · rw [if_neg hc, if_neg hc]

theorem dropWhile_space (s : Bytes) :
    (s.map lower).dropWhile isSpace = (s.dropWhile isSpace).map lower := by
  have hspace : isSpace ∘ lower = isSpace := funext isSpace_lower
  rw [List.dropWhile_map, hspace]

theorem stoi_lower (s : Bytes) : stoi (s.map lower) = stoi s := by
  simp only [stoi, dropWhile_space, sign_lower, takeWhile_digit]

/-- `std::stoi` reads no letters. -/
theorem stoi_respelled {s t : Bytes} (h : s.map lower = t.map lower) : stoi s = stoi t := by
  rw [← stoi_lower s, h, stoi_lower]

/-! ## The relation -/

/-- In the request line; in a line behind it, with what the two texts have of its name; behind the
`':'` of such a line. -/
inductive Place where
  | line
  | name (m n : Bytes)
  | value

namespace Place

/-- Where a header line may begin. -/
def AtStart (P : Place) : Prop := P = .line ∨ P = .name [] []

/-- Where the two texts are the same. -/
def Equal (P : Place) : Prop := P = .line ∨ P = .value

/-- One byte of each text. -/
inductive Step (K : Bytes → Bytes → Prop) : Place → Byte → Byte → Place → Prop where
  | line {c : Byte} (hc : c ≠ CR) : Step K .line c c .line
  | lineEnd : Step K .line CR CR (.name [] [])
  | nameEnd {m n : Bytes} {c : Byte} (hc : c = LF ∨ c = CR) : Step K (.name m n) c c (.name [] [])
  | letter {m n : Bytes} {c d : Byte} (hc : c ≠ COLON ∧ c ≠ LF ∧ c ≠ CR) (hcd : lower c = lower d) :
      Step K (.name m n) c d (.name (m ++ [c]) (n ++ [d]))
  | colon {m n : Bytes} (hK : K m n) : Step K (.name m n) COLON COLON .value
  | value {c : Byte} (hc : c ≠ LF ∧ c ≠ CR) : Step K .value c c .value
  | valueEnd {c : Byte} (hc : c = LF ∨ c = CR) : Step K .value c c (.name [] [])

section Step

variable {K : Bytes → Bytes → Prop} {P P' : Place} {c d : Byte}

theorem Step.lower (h : Step K P c d P') : lower c = lower d := by
  cases h with
  | letter hc hcd => exact hcd
  | line | lineEnd | nameEnd | colon | value | valueEnd => rfl

theorem Step.mono {K' : Bytes → Bytes → Prop} (hK : ∀ m n, K m n → K' m n) (h : Step K P c d P') :
    Step K' P c d P' := by
  cases h with
  | line hc => exact .line hc
  | lineEnd => exact .lineEnd
  | nameEnd hc => exact .nameEnd hc
  | letter hc hcd => exact .letter hc hcd
  | colon h => exact .colon (hK _ _ h)
  | value hc => exact .value hc
  | valueEnd hc => exact .valueEnd hc

/-- Where the texts are the same, they stay so up to a line end. -/
theorem Step.equal (h : Step K P c d P') (hP : P.Equal) : c = d ∧ (P'.Equal ∨ c = LF ∨ c = CR) := by
  rcases hP with rfl | rfl
  · cases h with
    | line hc => exact ⟨rfl, Or.inl (Or.inl rfl)⟩
    | lineEnd => exact ⟨rfl, Or.inr (Or.inr rfl)⟩
  · cases h with
    | value hc => exact ⟨rfl, Or.inl (Or.inr rfl)⟩
    | valueEnd hc => exact ⟨rfl, Or.inr hc⟩

theorem Step.colon_equal (h : Step K P COLON d P') : P'.Equal := by
  cases h with
  | line hc => exact Or.inl rfl
  | nameEnd hc => exact absurd hc (by decide)
  | letter hc hcd => exact absurd rfl hc.1
  | colon hK => exact Or.inr rfl
  | value hc => exact Or.inr rfl
  | valueEnd hc => exact absurd hc (by decide)

/-- Behind an LF a header line may begin, and also with that LF. -/
theorem Step.lf (h : Step K P LF d P') : d = LF ∧ P'.AtStart ∧ Step K P' LF LF P' := by
  cases h with
  | line hc => exact ⟨rfl, Or.inl rfl, .line hc⟩
  | nameEnd hc => exact ⟨rfl, Or.inr rfl, .nameEnd hc⟩
  | letter hc hcd => exact absurd rfl hc.2.1
  | value hc => exact absurd rfl hc.1
  | valueEnd hc => exact ⟨rfl, Or.inr rfl, .nameEnd hc⟩

/-- Line ends lead from a start to a start. -/
theorem Step.blank (h : Step K P c d P') (hP : P.AtStart) (hc : c = LF ∨ c = CR) : P'.AtStart := by
  rcases hP with rfl | rfl
  · cases h with
    | line hc => exact Or.inl rfl
    | lineEnd => exact Or.inr rfl
  · cases h with
    | nameEnd hc => exact Or.inr rfl
    | letter hc' hcd => exact absurd hc (not_or.2 hc'.2)
    | colon hK => exact absurd hc (by decide)

end Step

/-- The two texts have the same of a name. -/
def Same (P : Place) : Prop := ∀ m n, P = .name m n → m = n

theorem Same.step {K : Bytes → Bytes → Prop} {P : Place} (hK : ∀ m, K m m) (h : P.Same) (c : Byte) :
    ∃ P', Step K P c c P' ∧ P'.Same := by
  have fresh : (name [] []).Same := by rintro m n ⟨⟩; rfl
  cases P with
  | line =>
    by_cases hc : c = CR
    · subst hc
      exact ⟨_, .lineEnd, fresh⟩
    · exact ⟨_, .line hc, by rintro m n ⟨⟩⟩
  | name m n =>
    obtain rfl := h m n rfl
    by_cases hend : c = LF ∨ c = CR
    · exact ⟨_, .nameEnd hend, fresh⟩
    by_cases hc : c = COLON
    · subst hc
      exact ⟨_, .colon (hK m), by rintro m n ⟨⟩⟩
    · exact ⟨_, .letter ⟨hc, not_or.1 hend⟩ rfl, by rintro m n ⟨⟩; rfl⟩
  | value =>
    by_cases hend : c = LF ∨ c = CR
    · exact ⟨_, .valueEnd hend, fresh⟩
    · exact ⟨_, .value (not_or.1 hend), by rintro m n ⟨⟩⟩

end Place

inductive Respelled (K : Bytes → Bytes → Prop) : Place → Bytes → Bytes → Prop where
  | nil (P : Place) : Respelled K P [] []
  | cons {P P' : Place} {c d : Byte} {w w' : Bytes} (hstep : P.Step K c d P') (hw : Respelled K P' w w') :
      Respelled K P (c :: w) (d :: w')

namespace Respelled

variable {K : Bytes → Bytes → Prop} {P : Place} {w w' : Bytes}

theorem lower (h : Respelled K P w w') : w.map lower = w'.map lower := by
  induction h with
  | nil => rfl
  | cons hstep _ ih => rw [List.map_cons, List.map_cons, hstep.lower, ih]

theorem length (h : Respelled K P w w') : w.length = w'.length := by
  simpa using congrArg List.length h.lower

theorem mono {K' : Bytes → Bytes → Prop} (hK : ∀ m n, K m n → K' m n) (h : Respelled K P w w') :
    Respelled K' P w w' := by
  induction h with
  | nil P => exact .nil P
  | cons hstep _ ih => exact .cons (hstep.mono hK) ih

/-- Before its CR the request line is the same. -/
theorem line_append {l l' : Bytes} (h : Respelled K .line (l ++ w) (l' ++ w'))
    (hlen : l.length = l'.length) (hcr : CR ∉ l) : l = l' ∧ Respelled K .line w w' := by
  induction l generalizing l' with
  | nil =>
    obtain rfl := List.length_eq_zero_iff.1 hlen.symm
    exact ⟨rfl, h⟩
  | cons c l ih =>
    obtain ⟨d, l', rfl⟩ := List.exists_cons_of_length_pos (by rw [← hlen]; exact Nat.succ_pos _)
    rw [List.mem_cons, not_or] at hcr
    cases h with
    | cons hstep hw =>
      cases hstep with
      | line _ =>
        obtain ⟨rfl, hrest⟩ := ih hw (Nat.succ.inj hlen) hcr.2
        exact ⟨rfl, hrest⟩
      | lineEnd => exact absurd rfl hcr.1

/-- Behind any part of the request line, its CR included, a header line may begin. -/
theorem line_drop {l : Bytes} (h : Respelled K .line (l ++ CR :: w) (l ++ CR :: w')) (hcr : CR ∉ l)
    {k : Nat} (hk : k ≤ l.length) :
    ∃ P : Place, P.AtStart ∧
      Respelled K P ((l ++ CR :: w).drop (k + 1)) ((l ++ CR :: w').drop (k + 1)) := by
  by_cases hlt : k < l.length
  · have hsplit : ∀ x : Bytes, (l ++ CR :: x).drop (k + 1) = l.drop (k + 1) ++ CR :: x := fun x =>
      List.drop_append_of_le_length hlt
    have hl : ∀ x : Bytes, l ++ CR :: x = l.take (k + 1) ++ (l ++ CR :: x).drop (k + 1) := fun x => by
      rw [hsplit, ← List.append_assoc, List.take_append_drop]
    rw [hl w, hl w'] at h
    have hrest := (h.line_append rfl fun hm => hcr (List.mem_of_mem_take hm)).2
    exact ⟨.line, Or.inl rfl, hrest⟩
  · obtain rfl : k = l.length := by omega
    have hdrop : ∀ x : Bytes, (l ++ CR :: x).drop (l.length + 1) = x := fun x => by simp
    obtain ⟨-, hrest⟩ := h.line_append rfl hcr
    rw [hdrop, hdrop]
    cases hrest with
    | cons hstep hw =>
      cases hstep with
      | line hc => exact absurd rfl hc
      | lineEnd => exact ⟨_, Or.inr rfl, hw⟩

/-! ## Texts that are put together -/

/-- A text is spelled as itself. -/
theorem refl (hK : ∀ m, K m m) (w : Bytes) : ∀ {P : Place}, P.Same → Respelled K P w w := by
  induction w with
  | nil => exact fun {P} _ => .nil P
  | cons c w ih =>
    intro P hP
    obtain ⟨P', hstep, hP'⟩ := hP.step hK c
    exact .cons hstep (ih hP')

theorem line_cr {l : Bytes} (hl : CR ∉ l) (h : Respelled K (.name [] []) w w') :
    Respelled K .line (l ++ CR :: w) (l ++ CR :: w') := by
  induction l with
  | nil => exact .cons .lineEnd h
  | cons c l ih =>
    rw [List.mem_cons, not_or] at hl
    exact .cons (.line (Ne.symm hl.1)) (ih hl.2)

theorem name_colon {m n : Bytes} (hmn : m.map HPServer.lower = n.map HPServer.lower)
    (hm : ∀ c ∈ m, c ≠ COLON ∧ c ≠ LF ∧ c ≠ CR) (h : Respelled K .value w w') :
    ∀ {a b : Bytes}, K (a ++ m) (b ++ n) →
    Respelled K (.name a b) (m ++ COLON :: w) (n ++ COLON :: w') := by
  induction m generalizing n with
  | nil =>
    intro a b hK
    obtain rfl := List.map_eq_nil_iff.1 hmn.symm
    rw [List.append_nil, List.append_nil] at hK
    exact .cons (.colon hK) h
  | cons c m ih =>
    intro a b hK
    obtain ⟨d, n, rfl⟩ := List.exists_cons_of_length_pos (l := n) (by
      rw [← List.length_map HPServer.lower, ← hmn]; exact Nat.succ_pos _)
    obtain ⟨hcd, hmn'⟩ := List.cons.inj hmn
    refine .cons (.letter (hm c List.mem_cons_self) hcd) ?_
    refine ih hmn' (fun x hx => hm x (List.mem_cons_of_mem c hx)) ?_
    rw [List.append_assoc, List.append_assoc]
    exact hK

theorem value_cr {v : Bytes} (hv : ∀ c ∈ v, c ≠ LF ∧ c ≠ CR) (h : Respelled K (.name [] []) w w') :
    Respelled K .value (v ++ CR :: w) (v ++ CR :: w') := by
  induction v with
  | nil => exact .cons (.valueEnd (Or.inr rfl)) h
  | cons c v ih =>
    exact .cons (.value (hv c List.mem_cons_self)) (ih fun x hx => hv x (List.mem_cons_of_mem c hx))

/-- Line ends between the lines. -/
theorem name_lf (h : Respelled K (.name [] []) w w') : Respelled K (.name [] []) (LF :: w) (LF :: w') :=
  .cons (.nameEnd (Or.inl rfl)) h

end Respelled

end HPServer
