import HighPerformanceServer.Headers
import HighPerformanceServer.HeaderLines
/-!
# Printing a header section, and reading it back

`HeaderField` is a header that `parse_request_head` can read: a name without `':'`, CR and LF, and a
value of 1 to 256 bytes without CR and LF. A section is the lines of any number of them, at least
one, and the empty line.
-/

namespace HPServer

open CppStd

structure HeaderField where
  name : Bytes
  value : Bytes
  name_ne : name ≠ []
  name_free : ∀ c ∈ name, c ≠ COLON ∧ c ≠ CR ∧ c ≠ LF
  value_ne : value ≠ []
  value_short : value.length ≤ 256
  value_free : ∀ c ∈ value, c ≠ CR ∧ c ≠ LF

/-- `name ": " value CR LF`. -/
def HeaderField.print (l : HeaderField) : Bytes := l.name ++ [COLON, SP] ++ l.value ++ CRLF

def printHeaders (lines : List HeaderField) : Bytes := lines.flatMap HeaderField.print

/-- The map the lines stand for: a later line replaces an earlier one of the same name. -/
def headersOf (lines : List HeaderField) (H : Headers) : Headers :=
  lines.foldl (fun H l => H.insert l.name l.value) H

def lastValue (lines : List HeaderField) (name : Bytes) : Option Bytes :=
  (lines.reverse.find? fun l => l.name = name).map HeaderField.value

theorem lookup_headersOf (lines : List HeaderField) (name : Bytes) :
    (headersOf lines ∅).lookup name = lastValue lines name := by
  induction lines using List.reverseRecOn with
  | nil => exact Finmap.lookup_empty name
  | append_singleton lines l ih =>
    unfold headersOf lastValue at ih ⊢
    rw [List.foldl_append, List.foldl_cons, List.foldl_nil, List.reverse_append, List.reverse_singleton,
      List.singleton_append, List.find?_cons]
    by_cases hname : l.name = name
    · subst hname
      simp [Finmap.lookup_insert]
    · rw [Finmap.lookup_insert_of_ne _ (Ne.symm hname), ih]
      simp [hname]

/-! ## A printed section is one of lines -/

def HeaderField.loose (l : HeaderField) : LooseLine where
  name := l.name
  value := l.value
  name_text := by
    obtain ⟨name, -, hne, hfree, -, -, -⟩ := l
    obtain ⟨c, name, rfl⟩ := List.exists_cons_of_ne_nil hne
    exact ⟨hne, fun h => (hfree c List.mem_cons_self).2.1 (Option.some.inj h),
      fun x hx => hfree x (List.mem_cons_of_mem c hx)⟩
  value_text := ⟨l.value_ne, fun h => (l.value_free CR (List.mem_of_mem_tail h)).1 rfl, l.value_short⟩

theorem printHeaders_loose (lines : List HeaderField) :
    printHeaders lines = printLoose (lines.map HeaderField.loose) := by
  rw [printHeaders, printLoose, List.flatMap_map]
  rfl

theorem headersOf_loose (lines : List HeaderField) (H : Headers) :
    headersOf lines H = storeLoose (lines.map HeaderField.loose) H := by
  rw [headersOf, storeLoose, List.foldl_map]
  rfl

/-- A printed section starts with a byte of a name. -/
theorem printHeaders_head {lines : List HeaderField} :
    ∀ c ∈ (printHeaders lines).head?, lineEnd c = false := by
  intro c hc
  cases lines with
  | nil => cases hc
  | cons l lines =>
    obtain ⟨d, name, hname⟩ := List.exists_cons_of_ne_nil l.name_ne
    obtain ⟨-, hcr, hlf⟩ := l.name_free d (by simp [hname])
    have hd : c = d := by simpa [printHeaders, HeaderField.print, hname, eq_comm] using hc
    subst hd
    simp [lineEnd, hcr, hlf]

/-- **Parsing undoes printing**: from line ends, at least one header and a body, one call leaves the
headers, each with the value of its last line, and the body. -/
theorem parseRequestHead_print {r : RequestData} {p body : Bytes} {lines : List HeaderField}
    (hstate : r.hState = .hStart) (hheaders : r.headers = ∅) (hp : HeaderText.Blank p)
    (hlines : lines ≠ []) (hbody : body ≠ [])
    (hcontent : r.content = p ++ printHeaders lines ++ CRLF ++ body)
    (hlen : r.content.length < 2147483648) :
    ∃ H, parseRequestHead r =
        .ok (.success, { r with content := body, hState := .hEndLF, headers := H }) ∧
      ∀ name, H.lookup name = lastValue lines name := by
  obtain ⟨hstored, hphase⟩ := HeaderText.run_lines (a := Scan.start ∅) (lines.map HeaderField.loose)
    (by rw [← printHeaders_loose]; exact fun c hc => Or.inr ⟨rfl, printHeaders_head c hc⟩)
  rw [← printHeaders_loose, ← headersOf_loose] at hstored
  rw [← printHeaders_loose] at hphase
  have hline := hphase (by simpa using hlines)
  have hrun : HeaderText.run (Scan.start r.headers) (p ++ printHeaders lines ++ [CR]) =
      { HeaderText.run (Scan.start ∅) (printHeaders lines) with phase := .endCr } := by
    rw [hheaders, HeaderText.run_append, HeaderText.run_append, HeaderText.run_blank hp]
    show Scan.next _ CR = _
    rw [Scan.next, hline]
    rfl
  have hw : r.content = p ++ printHeaders lines ++ [CR] ++ LF :: body := by
    rw [hcontent]
    simp [CRLF]
  refine ⟨headersOf lines ∅, ?_, lookup_headersOf lines⟩
  rw [parseRequestHead_complete hstate hlen hw, hrun]
  · rw [if_neg hbody]
    simp only [Scan.next, hstored]
    rfl
  · rw [hrun]
    simp [Scan.Done]
  · rw [hrun]
    rfl

/-- Two lines of one name, the second value with `": "` in it, and a body that looks like a header. -/
def twoLines : List HeaderField :=
  [⟨ascii "A", ascii "1", by decide, by simp [ascii, COLON, CR, LF], by decide, by decide,
      by simp [ascii, CR, LF]⟩,
   ⟨ascii "A", ascii "2: 3", by decide, by simp [ascii, COLON, CR, LF], by decide, by decide,
      by simp [ascii, CR, LF]⟩]

theorem twoLines_parsed : ∃ H, parseRequestHead { RequestData.new 3 5 [] with
      content := [LF] ++ printHeaders twoLines ++ CRLF ++ ascii "B: 4" } =
        .ok (.success, { RequestData.new 3 5 [] with
          content := ascii "B: 4", hState := .hEndLF, headers := H }) ∧
      H.lookup (ascii "A") = some (ascii "2: 3") ∧ H.lookup (ascii "B") = none := by
  obtain ⟨H, hparse, hlookup⟩ := parseRequestHead_print
    (r := { RequestData.new 3 5 [] with
      content := [LF] ++ printHeaders twoLines ++ CRLF ++ ascii "B: 4" })
    rfl rfl (show HeaderText.Blank [LF] by decide) (show twoLines ≠ [] by decide)
    (show ascii "B: 4" ≠ [] by decide) rfl (by decide)
  exact ⟨H, hparse, (hlookup _).trans (by decide), (hlookup _).trans (by decide)⟩

end HPServer
