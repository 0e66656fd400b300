import HighPerformanceServer.HeaderText
/-!
# The lines that a header section is read into

`LooseLine` is what the scanner takes for a header line: between `name ": "` and `CR LF` it lets any
byte be the first of the value, a line break too, and an LF stand anywhere behind it; a line behind
another one may start with an LF. A section is read into the lines it begins with (`run_section`),
and stays open exactly as long as it ends inside a line or behind a lone CR (`run_open_iff`).
-/

namespace HPServer

open CppStd

def NameText (n : Bytes) : Prop :=
  n ≠ [] ∧ n.head? ≠ some CR ∧ ∀ c ∈ n.tail, c ≠ COLON ∧ c ≠ CR ∧ c ≠ LF

def ValueText (v : Bytes) : Prop := v ≠ [] ∧ CR ∉ v.tail ∧ v.length ≤ 256

structure LooseLine where
  name : Bytes
  value : Bytes
  name_text : NameText name
  value_text : ValueText value

/-- `name ": " value CR LF`. -/
def LooseLine.print (l : LooseLine) : Bytes := l.name ++ [COLON, SP] ++ l.value ++ CRLF

def printLoose (lines : List LooseLine) : Bytes := lines.flatMap LooseLine.print

/-- A later line replaces an earlier one of the same name. -/
def storeLoose (lines : List LooseLine) (H : Headers) : Headers :=
  lines.foldl (fun H l => H.insert l.name l.value) H

def lineEnd (c : Byte) : Bool := c = LF ∨ c = CR

/-- The section without the line ends in front of it. -/
def sectionText (w : Bytes) : Bytes := w.dropWhile lineEnd

/-- No line begins here. -/
def NoLine (q : Bytes) : Prop := ∀ (l : LooseLine) (q' : Bytes), q ≠ l.print ++ q'

/-- The lines that a section begins with, all of them. -/
def SectionLines (w : Bytes) (lines : List LooseLine) : Prop :=
  ∃ q, sectionText w = printLoose lines ++ q ∧ NoLine q

/-- A section that may still go on: it ends inside a line, at the start of one, or behind the first
byte of its empty line. -/
def OpenSection (w : Bytes) : Prop :=
  ∃ lines q, sectionText w = printLoose lines ++ q ∧
    (q = [CR] ∨ ∃ (l : LooseLine) (t : Bytes), t ≠ [] ∧ l.print = q ++ t)

/-- A section with at least one line and its empty line. -/
def WholeSection (w : Bytes) : Prop :=
  ∃ lines q, lines ≠ [] ∧ sectionText w = printLoose lines ++ CRLF ++ q

/-! ## Names and values, byte by byte -/

theorem NameText.single {c : Byte} (h : c ≠ CR) : NameText [c] := by simp [NameText, h]

theorem NameText.snoc {n : Bytes} {c : Byte} (hn : NameText n) (hc : c ≠ COLON ∧ c ≠ CR ∧ c ≠ LF) :
    NameText (n ++ [c]) := by
  obtain ⟨hne, hhead, htail⟩ := hn
  obtain ⟨d, n, rfl⟩ := List.exists_cons_of_ne_nil hne
  refine ⟨by simp, hhead, fun x hx => ?_⟩
  rw [List.cons_append, List.tail_cons, List.mem_append, List.mem_singleton] at hx
  rcases hx with hx | rfl
  · exact htail x hx
  · exact hc

theorem ValueText.single (c : Byte) : ValueText [c] := by simp [ValueText]

theorem ValueText.snoc {v : Bytes} {c : Byte} (hv : ValueText v) (hc : c ≠ CR) (hlen : v.length ≤ 255) :
    ValueText (v ++ [c]) := by
  obtain ⟨hne, htail, -⟩ := hv
  obtain ⟨d, v, rfl⟩ := List.exists_cons_of_ne_nil hne
  refine ⟨by simp, ?_, by rw [List.length_append]; exact Nat.succ_le_succ hlen⟩
  rw [List.cons_append, List.tail_cons, List.mem_append, List.mem_singleton]
  rintro (h | rfl)
  · exact htail h
  · exact hc rfl

theorem printLoose_cons (l : LooseLine) (lines : List LooseLine) :
    printLoose (l :: lines) = l.print ++ printLoose lines := List.flatMap_cons

theorem printLoose_append (lines lines' : List LooseLine) :
    printLoose (lines ++ lines') = printLoose lines ++ printLoose lines' := List.flatMap_append ..

theorem LooseLine.print_ne (l : LooseLine) : 4 < l.print.length := by
  have hname := List.length_pos_iff.2 l.name_text.1
  have hvalue := List.length_pos_iff.2 l.value_text.1
  simp [print, CRLF]
  omega

theorem NoLine.prefix {q q' : Bytes} (h : NoLine (q ++ q')) : NoLine q := by
  intro l t e
  exact h l (t ++ q') (by rw [e, List.append_assoc])

/-- Where a line ends can be seen in the text. -/
theorem LooseLine.print_inj {l l' : LooseLine} {x y : Bytes} (h : l.print ++ x = l'.print ++ y) :
    l = l' ∧ x = y := by
  obtain ⟨name, value, hn, hv⟩ := l
  obtain ⟨name', value', hn', hv'⟩ := l'
  obtain ⟨c, name, rfl⟩ := List.exists_cons_of_ne_nil hn.1
  obtain ⟨c', name', rfl⟩ := List.exists_cons_of_ne_nil hn'.1
  obtain ⟨d, value, rfl⟩ := List.exists_cons_of_ne_nil hv.1
  obtain ⟨d', value', rfl⟩ := List.exists_cons_of_ne_nil hv'.1
  have hcolon : COLON ∉ name := fun hc => (hn.2.2 COLON hc).1 rfl
  have hcolon' : COLON ∉ name' := fun hc => (hn'.2.2 COLON hc).1 rfl
  have hcr : CR ∉ value := hv.2.1
  have hcr' : CR ∉ value' := hv'.2.1
  simp only [print, CRLF, List.cons_append, List.append_assoc, List.nil_append, List.cons.injEq] at h
  obtain ⟨rfl, h⟩ := h
  -- the name ends at its first ':', the value at the first CR behind its first byte
  obtain ⟨rfl, hline⟩ := cut_unique hcolon hcolon' h
  obtain ⟨rfl, hvalue⟩ := List.cons.inj (List.cons.inj hline).2
  obtain ⟨rfl, hrest⟩ := cut_unique hcr hcr' hvalue
  exact ⟨rfl, (List.cons.inj hrest).2⟩

theorem printLoose_prefix {pre lines : List LooseLine} {x q : Bytes}
    (h : printLoose pre ++ x = printLoose lines ++ q) (hq : NoLine q) : pre <+: lines := by
  induction pre generalizing lines with
  | nil => exact List.nil_prefix
  | cons l pre ih =>
    rw [printLoose_cons, List.append_assoc] at h
    cases lines with
    | nil => exact absurd h.symm (hq l _)
    | cons l' lines =>
      rw [printLoose_cons, List.append_assoc] at h
      obtain ⟨rfl, hrest⟩ := LooseLine.print_inj h
      exact List.cons_prefix_cons.2 ⟨rfl, ih hrest⟩

theorem noLine_nil : NoLine [] := by
  intro l t h
  have hpos := l.print_ne
  have hlen := congrArg List.length h
  rw [List.length_append, List.length_nil] at hlen
  omega

/-- No name begins with a CR. -/
theorem noLine_cr (q : Bytes) : NoLine (CR :: q) := by
  intro l t h
  obtain ⟨c, name, hname⟩ := List.exists_cons_of_ne_nil l.name_text.1
  have hhead := l.name_text.2.1
  simp only [LooseLine.print, hname, List.cons_append] at h
  rw [hname, ← (List.cons.inj h).1] at hhead
  exact hhead rfl

/-- Every text begins with as many lines as it has. -/
theorem lines_split : ∀ (n : Nat) (w : Bytes), w.length ≤ n →
    ∃ lines q, w = printLoose lines ++ q ∧ NoLine q
  | 0, w, h => ⟨[], w, rfl, fun l q' e => by
      have hpos := l.print_ne
      rw [e, List.length_append] at h
      omega⟩
  | n + 1, w, h => by
    by_cases hw : NoLine w
    · exact ⟨[], w, rfl, hw⟩
    · simp only [NoLine, not_forall, not_not] at hw
      obtain ⟨l, q', rfl⟩ := hw
      have hpos := l.print_ne
      obtain ⟨lines, q, rfl, hq⟩ := lines_split n q' (by rw [List.length_append] at h; omega)
      exact ⟨l :: lines, q, by rw [printLoose_cons, List.append_assoc], hq⟩

theorem exists_sectionLines (w : Bytes) : ∃ lines, SectionLines w lines := by
  obtain ⟨lines, q, hw, hq⟩ := lines_split _ (sectionText w) (Nat.le_refl _)
  exact ⟨lines, q, hw, hq⟩

theorem sectionText_append {u : Bytes} (hu : sectionText u ≠ []) (v : Bytes) :
    sectionText (u ++ v) = sectionText u ++ v := by
  unfold sectionText at hu ⊢
  rw [List.dropWhile_append, if_neg (by simpa using hu)]

/-- A part of the section behind the same line ends. -/
theorem sectionText_part {w x y : Bytes} (h : sectionText w = x ++ y) :
    sectionText (w.takeWhile lineEnd ++ x) = x := by
  have hskip : ∀ c ∈ w.takeWhile lineEnd, lineEnd c = true := List.all_eq_true.1 List.all_takeWhile
  rw [sectionText, List.dropWhile_append_of_pos hskip]
  cases x with
  | nil => rfl
  | cons c x =>
    have hhead := List.head?_dropWhile_not lineEnd w
    rw [sectionText] at h
    rw [h] at hhead
    rw [List.dropWhile_cons_of_neg (by simpa using hhead)]

/-- The lines of a section come one after another. -/
theorem SectionLines.prefix {u w : Bytes} {pre lines : List LooseLine} (hu : SectionLines u pre)
    (hw : SectionLines w lines) (h : u <+: w) : pre <+: lines := by
  obtain ⟨x, hu, -⟩ := hu
  obtain ⟨q, hw, hq⟩ := hw
  obtain ⟨v, rfl⟩ := h
  by_cases hblank : sectionText u = []
  · have hpre : pre = [] := by
      cases pre with
      | nil => rfl
      | cons l pre =>
        have hpos := l.print_ne
        have hlen := congrArg List.length hu
        rw [hblank, printLoose_cons, List.length_append, List.length_append] at hlen
        simp at hlen
        omega
    exact hpre ▸ List.nil_prefix
  · rw [sectionText_append hblank, hu, List.append_assoc] at hw
    exact printLoose_prefix hw hq

/-- The value under a name is that of its last line. -/
theorem lookup_store {lines : List LooseLine} {n v : Bytes} :
    (storeLoose lines ∅).lookup n = some v ↔ ∃ pre l post, lines = pre ++ l :: post ∧
      l.name = n ∧ l.value = v ∧ ∀ l' ∈ post, l'.name ≠ n := by
  induction lines using List.reverseRecOn with
  | nil =>
    refine iff_of_false (by simp [storeLoose]) ?_
    rintro ⟨pre, l, post, h, -⟩
    simp at h
  | append_singleton lines l ih =>
    have hstore : storeLoose (lines ++ [l]) ∅ = (storeLoose lines ∅).insert l.name l.value := by
      rw [storeLoose, List.foldl_append]
      rfl
    rw [hstore]
    by_cases hname : l.name = n
    · subst hname
      rw [Finmap.lookup_insert]
      constructor
      · intro h
        exact ⟨lines, l, [], rfl, rfl, Option.some.inj h, by simp⟩
      · rintro ⟨pre, l', post, hsplit, hn, rfl, hpost⟩
        rcases List.eq_nil_or_concat post with rfl | ⟨post, d, rfl⟩
        · obtain ⟨-, hl⟩ := List.append_inj' hsplit rfl
          rw [(List.cons.inj hl).1]
        · rw [List.concat_eq_append, ← List.cons_append, ← List.append_assoc] at hsplit
          obtain ⟨-, hl⟩ := List.append_inj' hsplit rfl
          exact absurd (congrArg LooseLine.name (List.cons.inj hl).1.symm) (hpost d (by simp))
    · rw [Finmap.lookup_insert_of_ne _ (Ne.symm hname), ih]
      constructor
      · rintro ⟨pre, l', post, rfl, hn, hv, hpost⟩
        refine ⟨pre, l', post ++ [l], by simp, hn, hv, fun x hx => ?_⟩
        rcases List.mem_append.1 hx with hx | hx
        · exact hpost x hx
        · rw [List.mem_singleton.1 hx]
          exact hname
      · rintro ⟨pre, l', post, hsplit, hn, hv, hpost⟩
        rcases List.eq_nil_or_concat post with rfl | ⟨post, d, rfl⟩
        · obtain ⟨-, hl⟩ := List.append_inj' hsplit rfl
          rw [(List.cons.inj hl).1] at hname
          exact absurd hn hname
        · rw [List.concat_eq_append, ← List.cons_append, ← List.append_assoc] at hsplit
          obtain ⟨rfl, -⟩ := List.append_inj' hsplit rfl
          exact ⟨pre, l', post, rfl, hn, hv, fun x hx => hpost x (by simp [hx])⟩

/-! ## The scanner on lines -/

namespace HeaderText

variable {n v w u : Bytes} {H : Headers} {a : Scan}

theorem run_name (hw : ∀ c ∈ w, c ≠ COLON ∧ c ≠ CR ∧ c ≠ LF) (n : Bytes) :
    HeaderText.run ⟨.name, n, v, H⟩ w = ⟨.name, n ++ w, v, H⟩ := by
  induction w generalizing n with
  | nil => simp
  | cons c w ih =>
    obtain ⟨hcolon, hcr, hlf⟩ := hw c List.mem_cons_self
    have hnext : HeaderText.next ⟨.name, n, v, H⟩ c = ⟨.name, n ++ [c], v, H⟩ := by
      simp [HeaderText, Scan.next, hcolon, hcr, hlf]
    rw [Scanner.run_cons, hnext, ih fun d hd => hw d (List.mem_cons_of_mem c hd)]
    simp

theorem run_value (hw : CR ∉ w) (v : Bytes) (hlen : v.length + w.length ≤ 256) :
    HeaderText.run ⟨.value, n, v, H⟩ w = ⟨.value, n, v ++ w, H⟩ := by
  induction w generalizing v with
  | nil => simp
  | cons c w ih =>
    rw [List.length_cons] at hlen
    have hc : c ≠ CR := fun h => hw (by simp [h])
    have hnext : HeaderText.next ⟨.value, n, v, H⟩ c = ⟨.value, n, v ++ [c], H⟩ := by
      have hshort : ¬255 < v.length := by omega
      simp [HeaderText, Scan.next, hc, hshort]
    rw [Scanner.run_cons, hnext,
      ih (fun hd => hw (List.mem_cons_of_mem c hd)) _ (by rw [List.length_append]; simp; omega)]
    simp

/-- A line may start here with the byte `c`. -/
def AtLine (a : Scan) (c : Byte) : Prop := a.phase = .lf ∨ (a.phase = .blank ∧ lineEnd c = false)

theorem next_atLine {c : Byte} (ha : AtLine a c) (hc : c ≠ CR) :
    a.next c = ⟨.name, [c], a.value, a.headers⟩ := by
  rcases ha with h | ⟨h, hend⟩
  · simp [Scan.next, h, hc]
  · have hlf : c ≠ LF := by
      rintro rfl
      exact absurd hend (by decide)
    simp [Scan.next, h, hc, hlf]

/-- A line is read from the start of the section, or behind another line. -/
theorem run_line (l : LooseLine) (ha : ∀ c ∈ l.name.head?, AtLine a c) :
    HeaderText.run a l.print = ⟨.lf, l.name, l.value, a.headers.insert l.name l.value⟩ := by
  obtain ⟨name, value, ⟨hname, hhead, hfree⟩, ⟨hvalue, hbody, hshort⟩⟩ := l
  obtain ⟨c, name, rfl⟩ := List.exists_cons_of_ne_nil hname
  obtain ⟨d, value, rfl⟩ := List.exists_cons_of_ne_nil hvalue
  have hfirst : HeaderText.run a [c] = ⟨.name, [c], a.value, a.headers⟩ :=
    next_atLine (ha c rfl) (by simpa using hhead)
  have hlen : [d].length + value.length ≤ 256 := by
    rw [List.length_singleton, Nat.add_comm]
    exact hshort
  have hprint : LooseLine.print ⟨c :: name, d :: value, ⟨hname, hhead, hfree⟩, ⟨hvalue, hbody, hshort⟩⟩ =
      [c] ++ name ++ [COLON, SP, d] ++ value ++ CRLF := by simp [LooseLine.print]
  have hmiddle : HeaderText.run ⟨.name, [c] ++ name, a.value, a.headers⟩ [COLON, SP, d] =
      ⟨.value, [c] ++ name, [d], a.headers⟩ := by
    simp [HeaderText, Scan.next]
  rw [hprint, Scanner.run_append, Scanner.run_append, Scanner.run_append, Scanner.run_append, hfirst,
    run_name (w := name) hfree, hmiddle, run_value (w := value) hbody _ hlen]
  simp [HeaderText, Scan.next, CRLF]

/-- The bytes `u` since the start of a line, none of which has ended it. -/
def InLine (u : Bytes) (H : Headers) (a : Scan) : Prop :=
  a.headers = H ∧
  match a.phase with
  | .name => u = a.name ∧ NameText a.name
  | .colon => u = a.name ++ [COLON] ∧ NameText a.name
  | .gap => u = a.name ++ [COLON, SP] ∧ NameText a.name
  | .value => u = a.name ++ [COLON, SP] ++ a.value ∧ NameText a.name ∧ ValueText a.value
  | .cr => u = a.name ++ [COLON, SP] ++ a.value ++ [CR] ∧ NameText a.name ∧ ValueText a.value
  | .endCr => u = [CR]
  | .complete => ∃ v, u = CRLF ++ v
  | .broken => True
  | .blank | .lf => False

theorem inLine_first {c : Byte} (ha : AtLine a c) : InLine [c] a.headers (a.next c) := by
  by_cases hc : c = CR
  · subst hc
    rcases ha with h | ⟨-, hend⟩
    · simp [InLine, Scan.next, h]
    · exact absurd hend (by decide)
  · rw [next_atLine ha hc]
    exact ⟨rfl, rfl, NameText.single hc⟩

/-- **One byte** inside a line: it goes on, or `u ++ [c]` is the whole line. -/
theorem inLine_next (h : InLine u H a) (c : Byte) :
    InLine (u ++ [c]) H (a.next c) ∨ ∃ l : LooseLine, u ++ [c] = l.print := by
  obtain ⟨hH, h⟩ := h
  cases hp : a.phase with
  | blank => rw [hp] at h; exact h.elim
  | lf => rw [hp] at h; exact h.elim
  | name =>
    rw [hp] at h; obtain ⟨rfl, hn⟩ := h
    refine Or.inl ?_
    unfold Scan.next; rw [hp]; dsimp only
    split
    · rename_i hc; subst hc; exact ⟨hH, rfl, hn⟩
    split
    · exact ⟨hH, trivial⟩
    · rename_i hcolon hend
      rw [not_or] at hend
      exact ⟨hH, rfl, hn.snoc ⟨hcolon, hend.2, hend.1⟩⟩
  | colon =>
    rw [hp] at h; obtain ⟨rfl, hn⟩ := h
    refine Or.inl ?_
    unfold Scan.next; rw [hp]; dsimp only
    by_cases hc : c = SP
    · subst hc; exact ⟨hH, by simp [hn]⟩
    · rw [if_neg hc]; exact ⟨hH, trivial⟩
  | gap =>
    rw [hp] at h; obtain ⟨rfl, hn⟩ := h
    refine Or.inl ?_
    unfold Scan.next; rw [hp]
    exact ⟨hH, rfl, hn, ValueText.single c⟩
  | value =>
    rw [hp] at h; obtain ⟨rfl, hn, hv⟩ := h
    refine Or.inl ?_
    unfold Scan.next; rw [hp]; dsimp only
    split
    · rename_i hc; subst hc; exact ⟨hH, rfl, hn, hv⟩
    split
    · exact ⟨hH, trivial⟩
    · rename_i hc hlong
      exact ⟨hH, by simp, hn, hv.snoc hc (by omega)⟩
  | cr =>
    rw [hp] at h; obtain ⟨rfl, hn, hv⟩ := h
    by_cases hc : c = LF
    · subst hc
      exact Or.inr ⟨⟨a.name, a.value, hn, hv⟩, by simp [LooseLine.print, CRLF]⟩
    · refine Or.inl ?_
      unfold Scan.next; rw [hp]; dsimp only
      rw [if_neg hc]
      exact ⟨hH, trivial⟩
  | endCr =>
    rw [hp] at h; subst h
    refine Or.inl ?_
    unfold Scan.next; rw [hp]; dsimp only
    by_cases hc : c = LF
    · subst hc; exact ⟨hH, [], rfl⟩
    · rw [if_neg hc]; exact ⟨hH, trivial⟩
  | complete =>
    rw [hp] at h; obtain ⟨v, rfl⟩ := h
    refine Or.inl ?_
    unfold Scan.next; rw [hp]
    exact ⟨hH, by rw [hp]; exact ⟨v ++ [c], by simp⟩⟩
  | broken =>
    refine Or.inl ?_
    unfold Scan.next; rw [hp]
    exact ⟨hH, by rw [hp]; trivial⟩

/-- Bytes that no line begins: the scanner stays in the line they start. -/
theorem run_inLine {q : Bytes} (hne : q ≠ []) (hq : NoLine q) (ha : ∀ c ∈ q.head?, AtLine a c) :
    InLine q a.headers (HeaderText.run a q) := by
  induction q using List.reverseRecOn with
  | nil => exact absurd rfl hne
  | append_singleton u c ih =>
    by_cases hu : u = []
    · subst hu
      exact inLine_first (ha c rfl)
    · have hhead : (u ++ [c]).head? = u.head? := by
        obtain ⟨d, u, rfl⟩ := List.exists_cons_of_ne_nil hu
        rfl
      rw [hhead] at ha
      rw [HeaderText.run_append]
      rcases inLine_next (ih hu hq.prefix ha) c with h | ⟨l, hl⟩
      · exact h
      · exact absurd (by rw [hl, List.append_nil]) (hq l [])

theorem storeLoose_cons (l : LooseLine) (lines : List LooseLine) (H : Headers) :
    storeLoose (l :: lines) H = storeLoose lines (H.insert l.name l.value) := rfl

theorem run_lines (lines : List LooseLine) : ∀ {a : Scan},
    (∀ c ∈ (printLoose lines).head?, AtLine a c) →
    (HeaderText.run a (printLoose lines)).headers = storeLoose lines a.headers ∧
      (lines ≠ [] → (HeaderText.run a (printLoose lines)).phase = .lf) := by
  induction lines with
  | nil => intro a _; exact ⟨rfl, fun h => absurd rfl h⟩
  | cons l lines ih =>
    intro a ha
    have hhead : ∀ c ∈ l.name.head?, AtLine a c := by
      intro c hc
      obtain ⟨d, t, hname⟩ := List.exists_cons_of_ne_nil l.name_text.1
      refine ha c ?_
      rw [hname] at hc
      simpa [printLoose_cons, LooseLine.print, hname] using hc
    rw [printLoose_cons, HeaderText.run_append, run_line l hhead, storeLoose_cons]
    obtain ⟨hheaders, hphase⟩ := ih (a := ⟨.lf, l.name, l.value, a.headers.insert l.name l.value⟩)
      fun c _ => Or.inl rfl
    refine ⟨hheaders, fun _ => ?_⟩
    by_cases hlines : lines = []
    · subst hlines
      rfl
    · exact hphase hlines

/-- The line ends in front of a section are skipped. -/
theorem run_sectionText (w : Bytes) (H : Headers) :
    HeaderText.run (Scan.start H) w = HeaderText.run (Scan.start H) (sectionText w) := by
  have hblank : Blank (w.takeWhile lineEnd) := by
    intro c hc
    simpa [lineEnd] using List.all_eq_true.1 List.all_takeWhile c hc
  conv_lhs => rw [← List.takeWhile_append_dropWhile (p := lineEnd) (l := w)]
  rw [HeaderText.run_append, run_blank hblank]
  rfl

theorem atLine_start (w : Bytes) (H : Headers) : ∀ c ∈ (sectionText w).head?, AtLine (Scan.start H) c := by
  intro c hc
  refine Or.inr ⟨rfl, ?_⟩
  have hhead := List.head?_dropWhile_not lineEnd w
  rw [sectionText] at hc
  rw [Option.mem_def.1 hc] at hhead
  simpa using hhead

/-- **A section is read into its lines**, and then goes on from the start of a line. -/
theorem run_section {lines : List LooseLine} {q : Bytes} (h : sectionText w = printLoose lines ++ q)
    (H : Headers) : ∃ b, HeaderText.run (Scan.start H) w = HeaderText.run b q ∧
      b.headers = storeLoose lines H ∧ (lines ≠ [] → b.phase = .lf) ∧ (lines = [] → b = Scan.start H) ∧
      ∀ c ∈ q.head?, AtLine b c := by
  have hstart := atLine_start w H
  rw [run_sectionText, h, HeaderText.run_append]
  rw [h] at hstart
  by_cases hlines : lines = []
  · subst hlines
    exact ⟨_, rfl, rfl, fun hne => absurd rfl hne, fun _ => rfl, hstart⟩
  · have hhead : ∀ c ∈ (printLoose lines).head?, AtLine (Scan.start H) c := by
      intro c hc
      refine hstart c ?_
      rw [Option.mem_def] at hc ⊢
      rw [List.head?_append, hc]
      rfl
    obtain ⟨hheaders, hphase⟩ := run_lines lines hhead
    exact ⟨_, rfl, hheaders, hphase, fun h => absurd h hlines, fun c _ => Or.inl (hphase hlines)⟩

/-- What is stored are the lines. -/
theorem run_headers {lines : List LooseLine} (h : SectionLines w lines) (H : Headers) :
    (HeaderText.run (Scan.start H) w).headers = storeLoose lines H := by
  obtain ⟨q, hw, hq⟩ := h
  obtain ⟨b, hrun, hheaders, -, -, hat⟩ := run_section hw H
  rw [hrun, ← hheaders]
  by_cases hne : q = []
  · subst hne
    rfl
  · exact (run_inLine hne hq hat).1

/-- A name of one byte and a value of one byte. -/
theorem short_text : NameText [120] ∧ ValueText [120] := ⟨NameText.single (by decide), ValueText.single _⟩

/-- Inside a line the section can be continued to the end of that line. -/
theorem InLine.continues {q : Bytes} (h : InLine q H a) (hd : ¬ a.Done) :
    q = [CR] ∨ ∃ (l : LooseLine) (t : Bytes), t ≠ [] ∧ l.print = q ++ t := by
  obtain ⟨-, h⟩ := h
  cases hp : a.phase with
  | blank => rw [hp] at h; exact h.elim
  | lf => rw [hp] at h; exact h.elim
  | name =>
    rw [hp] at h; obtain ⟨rfl, hn⟩ := h
    exact Or.inr ⟨⟨a.name, [120], hn, short_text.2⟩, [COLON, SP, 120] ++ CRLF, by simp,
      by simp [LooseLine.print]⟩
  | colon =>
    rw [hp] at h; obtain ⟨rfl, hn⟩ := h
    exact Or.inr ⟨⟨a.name, [120], hn, short_text.2⟩, [SP, 120] ++ CRLF, by simp, by simp [LooseLine.print]⟩
  | gap =>
    rw [hp] at h; obtain ⟨rfl, hn⟩ := h
    exact Or.inr ⟨⟨a.name, [120], hn, short_text.2⟩, [120] ++ CRLF, by simp, by simp [LooseLine.print]⟩
  | value =>
    rw [hp] at h; obtain ⟨rfl, hn, hv⟩ := h
    exact Or.inr ⟨⟨a.name, a.value, hn, hv⟩, CRLF, by simp [CRLF], rfl⟩
  | cr =>
    rw [hp] at h; obtain ⟨rfl, hn, hv⟩ := h
    exact Or.inr ⟨⟨a.name, a.value, hn, hv⟩, [LF], by simp, by simp [LooseLine.print, CRLF]⟩
  | endCr => rw [hp] at h; exact Or.inl h
  | complete => exact absurd (Or.inl hp) hd
  | broken => exact absurd (Or.inr hp) hd

/-- **A section is open** as long as it can be continued. -/
theorem run_open_iff (w : Bytes) (H : Headers) :
    ¬ (HeaderText.run (Scan.start H) w).Done ↔ OpenSection w := by
  constructor
  · intro hopen
    obtain ⟨lines, q, hw, hq⟩ := exists_sectionLines w
    obtain ⟨b, hrun, -, -, -, hat⟩ := run_section hw H
    rw [hrun] at hopen
    refine ⟨lines, q, hw, ?_⟩
    by_cases hne : q = []
    · subst hne
      exact Or.inr ⟨⟨[120], [120], short_text.1, short_text.2⟩, _, by simp, rfl⟩
    · exact (run_inLine hne hq hat).continues hopen
  · rintro ⟨lines, q, hw, hq⟩
    obtain ⟨b, hrun, -, hlf, hstart, hat⟩ := run_section hw H
    have hb : ¬ b.Done := by
      by_cases hlines : lines = []
      · rw [hstart hlines]; simp [Scan.Done, Scan.start]
      · simp [Scan.Done, hlf hlines]
    rw [hrun]
    rcases hq with rfl | ⟨l, t, -, hl⟩
    · -- the first byte of the empty line
      rcases hat CR rfl with h | ⟨-, hend⟩
      · simp [HeaderText, Scan.next, h, Scan.Done]
      · exact absurd hend (by decide)
    · by_cases hne : q = []
      · subst hne
        exact hb
      · have hhead : ∀ c ∈ l.name.head?, AtLine b c := by
          intro c hc
          obtain ⟨d, n, hname⟩ := List.exists_cons_of_ne_nil l.name_text.1
          obtain ⟨e, q, rfl⟩ := List.exists_cons_of_ne_nil hne
          have hde : d = e := by
            simp only [LooseLine.print, hname, List.cons_append] at hl
            exact (List.cons.inj hl).1
          rw [hname, hde] at hc
          exact hat c hc
        refine HeaderText.not_done_of_append (v := t) ?_
        rw [← hl, run_line l hhead]
        simp [HeaderText, Scan.Done]

theorem run_complete_iff (w : Bytes) (H : Headers) :
    (HeaderText.run (Scan.start H) w).phase = .complete ↔ WholeSection w := by
  constructor
  · intro hc
    obtain ⟨lines, q, hw, hq⟩ := exists_sectionLines w
    obtain ⟨b, hrun, -, hlf, hstart, hat⟩ := run_section hw H
    rw [hrun] at hc
    by_cases hne : q = []
    · subst hne
      by_cases hlines : lines = []
      · rw [hstart hlines] at hc
        cases hc
      · rw [Scanner.run_nil, hlf hlines] at hc
        cases hc
    · have hline := (run_inLine hne hq hat).2
      rw [hc] at hline
      obtain ⟨v, rfl⟩ := hline
      refine ⟨lines, v, fun hlines => ?_, by rw [hw, List.append_assoc]⟩
      rw [hstart hlines] at hat
      rcases hat CR rfl with h | ⟨-, hend⟩
      · cases h
      · exact absurd hend (by decide)
  · rintro ⟨lines, q, hne, hw⟩
    obtain ⟨b, hrun, -, hlf, -, -⟩ := run_section (q := CRLF ++ q) (by rw [hw, List.append_assoc]) H
    have hc : (HeaderText.run b CRLF).phase = .complete := by
      simp [CRLF, HeaderText, Scan.next, hlf hne]
    rw [hrun, HeaderText.run_append_of_done (Or.inl hc)]
    exact hc

end HeaderText

end HPServer
