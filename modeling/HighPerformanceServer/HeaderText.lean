import HighPerformanceServer.RequestData
import HighPerformanceServer.Scanner
/-!
# The header section as a language

What a header section is, with no buffer and no positions: line ends before the first name, then
lines `name ": " value CR LF`, then `CR LF`. `HeaderText` reads a section byte by byte and collects
the headers. A name ends at the first `':'`; a value is any byte followed by at most 255 bytes
that are not CR. `Headers.lean` shows that one call of `parse_request_head` on a whole section
reads this language.
-/

namespace HPServer

open CppStd

inductive Phase where
  | blank | name | colon | gap | value | cr | lf | endCr | complete | broken
deriving DecidableEq, Repr

/-- How far a section has been read: the name and value of the current line and the headers of the
lines before it. -/
structure Scan where
  phase : Phase
  name : Bytes
  value : Bytes
  headers : Headers

namespace Scan

def start (H : Headers) : Scan := ⟨.blank, [], [], H⟩

def next (a : Scan) (c : Byte) : Scan :=
  match a.phase with
  | .blank => if c = LF ∨ c = CR then a else { a with phase := .name, name := [c] }
  | .name =>
    if c = COLON then { a with phase := .colon }
    else if c = LF ∨ c = CR then { a with phase := .broken }
    else { a with name := a.name ++ [c] }
  | .colon => { a with phase := if c = SP then .gap else .broken }
  | .gap => { a with phase := .value, value := [c] }
  | .value =>
    if c = CR then { a with phase := .cr }
    else if 255 < a.value.length then { a with phase := .broken }
    else { a with value := a.value ++ [c] }
  | .cr =>
    if c = LF then { a with phase := .lf, headers := a.headers.insert a.name a.value }
    else { a with phase := .broken }
  | .lf => if c = CR then { a with phase := .endCr } else { a with phase := .name, name := [c] }
  | .endCr => { a with phase := if c = LF then .complete else .broken }
  | .complete | .broken => a

/-- The section has ended, or can no longer be one. -/
def Done (a : Scan) : Prop := a.phase = .complete ∨ a.phase = .broken

instance (a : Scan) : Decidable a.Done := inferInstanceAs (Decidable (_ ∨ _))

end Scan

def HeaderText : Scanner Scan Byte where
  next := Scan.next
  done := Scan.Done
  sticky := by rintro a c (h | h) <;> simp [Scan.next, h]

namespace HeaderText

/-- Bytes that only separate lines. -/
def Blank (w : Bytes) : Prop := ∀ c ∈ w, c = LF ∨ c = CR

instance (w : Bytes) : Decidable (Blank w) := List.decidableBAll (fun c => c = LF ∨ c = CR) w

theorem blank_nil : Blank [] := by intro c hc; cases hc

theorem run_blank {w : Bytes} (h : Blank w) (H : Headers) :
    HeaderText.run (Scan.start H) w = Scan.start H := by
  induction w with
  | nil => rfl
  | cons c w ih =>
    have hc : (Scan.start H).next c = Scan.start H := by simp [Scan.start, Scan.next, h c (by simp)]
    rw [Scanner.run_cons]
    show HeaderText.run ((Scan.start H).next c) w = _
    rw [hc]; exact ih fun d hd => h d (by simp [hd])

/-- Only line ends keep the scanner before the first name. -/
theorem blank_of_phase {w : Bytes} {H : Headers}
    (h : (HeaderText.run (Scan.start H) w).phase = .blank) : Blank w := by
  have stays : ∀ (w : Bytes) (a : Scan), a.phase ≠ .blank → (HeaderText.run a w).phase ≠ .blank := by
    intro w
    induction w with
    | nil => intro a ha; exact ha
    | cons c w ih =>
      intro a ha
      refine ih (a.next c) ?_
      unfold Scan.next
      cases hp : a.phase <;> simp only [hp] at ha ⊢ <;> (try split) <;> (try split) <;> simp_all
  induction w with
  | nil => intro c hc; cases hc
  | cons c w ih =>
    by_cases hc : c = LF ∨ c = CR
    · have hn : (Scan.start H).next c = Scan.start H := by simp [Scan.start, Scan.next, hc]
      have hrest : Blank w := ih (by
        have : HeaderText.run (Scan.start H) (c :: w) = HeaderText.run ((Scan.start H).next c) w := rfl
        rw [this, hn] at h; exact h)
      intro d hd
      rcases List.mem_cons.1 hd with rfl | hd
      · exact hc
      · exact hrest d hd
    · refine absurd h (stays w ((Scan.start H).next c) ?_)
      simp [Scan.start, Scan.next, hc]

/-- The bytes a section still needs at least. -/
def need : Phase → Nat
  | .blank => 8
  | .name => 7
  | .colon => 6
  | .gap => 5
  | .value => 4
  | .cr => 3
  | .lf => 2
  | .endCr => 1
  | .complete => 0
  | .broken => 8

theorem need_next (a : Scan) (c : Byte) : need a.phase ≤ 1 + need (a.next c).phase := by
  unfold Scan.next
  cases hp : a.phase <;> dsimp only <;> (try split) <;> (try split) <;> simp [need, hp]

theorem need_run (w : Bytes) (a : Scan) :
    need a.phase ≤ w.length + need (HeaderText.run a w).phase := by
  induction w generalizing a with
  | nil => simp
  | cons c w ih =>
    have h1 := need_next a c
    have h2 : need (a.next c).phase ≤ w.length + need (HeaderText.run a (c :: w)).phase :=
      ih (a.next c)
    rw [List.length_cons]; omega

/-! ## The end of a section -/

/-- A section ends with two line ends, and these phases are where they are read. -/
theorem next_lineEnd {a : Scan} (hd : ¬ a.Done) (c : Byte) :
    ((a.next c).phase = .cr → a.phase = .value ∧ c = CR) ∧
    ((a.next c).phase = .lf → a.phase = .cr ∧ c = LF) ∧
    ((a.next c).phase = .endCr → a.phase = .lf ∧ c = CR) ∧
    ((a.next c).phase = .complete → a.phase = .endCr ∧ c = LF) := by
  unfold Scan.Done at hd
  unfold Scan.next
  cases hp : a.phase <;> simp only [hp] at hd ⊢ <;> (try split) <;> (try split) <;> simp_all

/-- A phase that only a letter can lead to. -/
theorem run_last {w : Bytes} {H : Headers} {q : Phase} (hq : q ≠ .blank)
    (h : (HeaderText.run (Scan.start H) w).phase = q) :
    ∃ w' c, w = w' ++ [c] ∧ ((HeaderText.run (Scan.start H) w').next c).phase = q := by
  rcases List.eq_nil_or_concat w with rfl | ⟨w', c, rfl⟩
  · exact absurd h.symm hq
  · rw [List.concat_eq_append, HeaderText.run_append] at h
    exact ⟨w', c, List.concat_eq_append, h⟩

/-- The letter that completes a section is the LF of its blank line. -/
theorem ends_blankLine {u : Bytes} {c : Byte} {H : Headers}
    (hu : ¬ (HeaderText.run (Scan.start H) u).Done)
    (hc : ((HeaderText.run (Scan.start H) u).next c).phase = .complete) :
    ∃ u', u ++ [c] = u' ++ (CRLF ++ CRLF) := by
  -- nothing before a phase that is not done is done
  have hbefore : ∀ {w : Bytes} {c : Byte}, ¬ (HeaderText.run (Scan.start H) (w ++ [c])).Done →
      ¬ (HeaderText.run (Scan.start H) w).Done := by
    intro w c hd hdone
    rw [HeaderText.run_append, HeaderText.run_of_done hdone] at hd
    exact hd hdone
  obtain ⟨h₁, rfl⟩ := (next_lineEnd hu c).2.2.2 hc
  obtain ⟨u₁, c₁, rfl, hc₁⟩ := run_last (by decide) h₁
  have hu₁ := hbefore hu
  obtain ⟨h₂, rfl⟩ := (next_lineEnd hu₁ c₁).2.2.1 hc₁
  obtain ⟨u₂, c₂, rfl, hc₂⟩ := run_last (by decide) h₂
  have hu₂ := hbefore hu₁
  obtain ⟨h₃, rfl⟩ := (next_lineEnd hu₂ c₂).2.1 hc₂
  obtain ⟨u₃, c₃, rfl, hc₃⟩ := run_last (by decide) h₃
  obtain ⟨-, rfl⟩ := (next_lineEnd (hbefore hu₂) c₃).1 hc₃
  exact ⟨u₃, by simp [CRLF]⟩

end HeaderText

end HPServer
