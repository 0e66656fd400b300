import HighPerformanceServer.Headers
import HighPerformanceServer.HeaderLines
/-!
# Line breaks inside stored headers

| here | there |
| --- | --- |
| `headersPut` | `headers` after each pass of a call (:327, the only place that writes it) |
| `Unbroken`   | no name and no value with a CR or an LF |

`h_key` tests a byte of a name for both, but `h_LF` takes the first one untested; `h_value` ends at a
CR only, and `h_spaces_after_colon` takes the first byte of a value untested.
-/

namespace HPServer

open CppStd

/-- `headers` after each pass of the loop from index `i` on. -/
def headPasses (str : Bytes) : Nat → Bytes → HeadLoop → List Headers
  | _, [], _ => []
  | i, c :: rest, s =>
    if s.notFinish then
      match headStep str i c s with
      | .ok (.next s) =>
        s.headers :: if i = 2147483647 then [] else headPasses str (i + 1) rest s
      | .ok (.fail s) => [s.headers]
      | .error _ => []
    else []

def headersPut (r : RequestData) : List Headers :=
  headPasses r.content 0 r.content (.init r.hState r.headers)

def NoBreak (x : Bytes) : Prop := ∀ c ∈ x, c ≠ CR ∧ c ≠ LF

def Unbroken (H : Headers) : Prop := ∀ name value, H.lookup name = some value → NoBreak name ∧ NoBreak value

/-- A line that keeps its breaks to its end. -/
def LooseLine.OneLine (l : LooseLine) : Prop :=
  l.name.head? ≠ some LF ∧ l.value.head? ≠ some CR ∧ LF ∉ l.value

def Iter.headers : Iter → Headers
  | .next s | .fail s => s.headers

theorem LooseLine.oneLine_iff (l : LooseLine) : l.OneLine ↔ NoBreak l.name ∧ NoBreak l.value := by
  obtain ⟨name, value, ⟨hname, hhead, hfree⟩, ⟨hvalue, hbody, -⟩⟩ := l
  obtain ⟨c, name, rfl⟩ := List.exists_cons_of_ne_nil hname
  obtain ⟨d, value, rfl⟩ := List.exists_cons_of_ne_nil hvalue
  have hcr : c ≠ CR := by simpa using hhead
  constructor
  · rintro ⟨hlf, hd, hvalue⟩
    refine ⟨fun x hx => ?_, fun x hx => ⟨?_, fun h => hvalue (h ▸ hx)⟩⟩
    · rcases List.mem_cons.1 hx with rfl | hx
      · exact ⟨hcr, by simpa using hlf⟩
      · exact (hfree x hx).2
    · rintro rfl
      rcases List.mem_cons.1 hx with rfl | hx
      · exact hd rfl
      · exact hbody hx
  · rintro ⟨hn, hv⟩
    exact ⟨fun h => (hn c (by simp)).2 (Option.some.inj h), fun h => (hv d (by simp)).1 (Option.some.inj h),
      fun h => (hv LF h).2 rfl⟩

/-! ## What the passes of a call store -/

theorem headLoop_stopped {s : HeadLoop} (hs : s.notFinish = false) (str : Bytes) (i : Nat) (rest : Bytes) :
    headLoop str i rest s = .ok (.next s) ∧ headPasses str i rest s = [] := by
  cases rest <;> simp [headLoop, headPasses, hs]

/-- Behind the section one more pass ends the loop. -/
theorem headLoop_endLF {str rest : Bytes} {i : Nat} {s : HeadLoop} {it : Iter}
    (hs : s.hState = .hEndLF) (h : headLoop str i rest s = .ok it) :
    it.headers = s.headers ∧ ∀ H ∈ headPasses str i rest s, H = s.headers := by
  cases rest with
  | nil =>
    cases h
    exact ⟨rfl, by simp [headPasses]⟩
  | cons c rest =>
    by_cases hn : s.notFinish = true
    · have hstep : headStep str i c s = .ok (.next { s with
          notFinish := false, keyStart := i, nowReadLineBegin := i }) := by
        unfold headStep; rw [hs]
      rw [headLoop, if_pos hn, hstep] at h
      rw [headPasses, if_pos hn, hstep]
      simp only [bind, Except.bind] at h
      split at h
      · cases h
      · obtain ⟨hloop, hpasses⟩ := headLoop_stopped (s := { s with
          notFinish := false, keyStart := i, nowReadLineBegin := i }) rfl str (i + 1) rest
        rw [hloop] at h
        cases h
        simp [Iter.headers, hpasses]
    · obtain ⟨hloop, hpasses⟩ := headLoop_stopped (eq_false_of_ne_true hn) str i (c :: rest)
      rw [hloop] at h
      cases h
      simp [Iter.headers, hpasses]

theorem exists_prefix_cons {c : Byte} {cs : Bytes} {P : Bytes → Prop} :
    (∃ u, u <+: c :: cs ∧ P u) ↔ P [] ∨ ∃ u, u <+: cs ∧ P (c :: u) := by
  constructor
  · rintro ⟨u, hu, h⟩
    rcases List.prefix_cons_iff.1 hu with rfl | ⟨t, rfl, ht⟩
    · exact Or.inl h
    · exact Or.inr ⟨t, ht, h⟩
  · rintro (h | ⟨t, ht, h⟩)
    · exact ⟨[], List.nil_prefix, h⟩
    · exact ⟨c :: t, List.cons_prefix_cons.2 ⟨rfl, ht⟩, h⟩

/-- **The passes of a loop that returns** store what the scanner has stored after some of the bytes,
whatever their number. -/
theorem headLoop_stores {cs : Bytes} : ∀ {p : Bytes} {s : HeadLoop} {a : Scan} {it : Iter},
    Reads p s a → headLoop (p ++ cs) p.length cs s = .ok it →
    it.headers = (HeaderText.run a cs).headers ∧
      ∀ H, H ∈ s.headers :: headPasses (p ++ cs) p.length cs s ↔
        ∃ u, u <+: cs ∧ H = (HeaderText.run a u).headers := by
  induction cs with
  | nil =>
    intro p s a it h hloop
    cases hloop
    refine ⟨h.2.1, fun H => ?_⟩
    simp [headPasses, h.2.1]
  | cons c cs ih =>
    intro p s a it h hloop
    by_cases hd : a.Done
    · -- complete: the section is over
      have hend : s.hState = .hEndLF := by
        obtain ⟨-, -, h⟩ := h
        rcases hd with hc | hb
        · rw [hc] at h; exact h.1
        · rw [hb] at h; exact h.elim
      obtain ⟨hit, hpasses⟩ := headLoop_endLF hend hloop
      have hrun : ∀ u, HeaderText.run a u = a := HeaderText.run_of_done hd
      refine ⟨by rw [hit, hrun, h.2.1], fun H => ?_⟩
      simp only [hrun, ← h.2.1, List.mem_cons]
      constructor
      · exact fun hH => ⟨[], List.nil_prefix, hH.elim id (hpasses H)⟩
      · rintro ⟨-, -, hH⟩
        exact Or.inl hH
    · have hstep := headStep_reads h hd c cs
      rw [headLoop, if_pos h.1] at hloop
      rw [headPasses, if_pos h.1]
      simp only [exists_prefix_cons]
      cases hr : headStep (p ++ c :: cs) p.length c s with
      | error e => rw [hr] at hstep; exact hstep.elim
      | ok it' =>
        rw [hr] at hstep hloop
        simp only [bind, Except.bind] at hloop
        cases it' with
        | fail s' =>
          cases hloop
          have hrun : ∀ u, HeaderText.run a (c :: u) = a.next c :=
            HeaderText.run_of_done (s := a.next c) (Or.inr hstep.1)
          simp only [hrun, Iter.headers, hstep.2, h.2.1, List.mem_cons, List.not_mem_nil, or_false]
          refine ⟨trivial, fun H => or_congr Iff.rfl ⟨fun hH => ⟨[], List.nil_prefix, hH⟩, ?_⟩⟩
          rintro ⟨-, -, hH⟩
          exact hH
        | next s' =>
          have e : p ++ c :: cs = p ++ [c] ++ cs := by simp
          have elen : p.length + 1 = (p ++ [c]).length := by simp
          dsimp only at hloop ⊢
          split at hloop
          · cases hloop
          · rename_i hi
            rw [e, elen] at hloop
            obtain ⟨hit, hpasses⟩ := ih hstep hloop
            refine ⟨hit, fun H => ?_⟩
            rw [if_neg hi, List.mem_cons, h.2.1, e, elen]
            exact or_congr Iff.rfl (hpasses H)

theorem headersPut_spec {r r' : RequestData} {v : HeadVerdict} (hstate : r.hState = .hStart)
    (hempty : r.headers = ∅) (h : parseRequestHead r = .ok (v, r')) :
    r'.headers = (HeaderText.run (Scan.start ∅) r.content).headers ∧
      ∀ H, H = ∅ ∨ H ∈ headersPut r ↔
        ∃ u, u <+: r.content ∧ H = (HeaderText.run (Scan.start ∅) u).headers := by
  unfold parseRequestHead at h
  rw [hstate, hempty] at h
  obtain ⟨it, hloop, h⟩ := bind_eq_ok.1 h
  obtain ⟨hit, hpasses⟩ := headLoop_stores (p := []) (reads_init ∅) hloop
  constructor
  · rw [← hit]
    cases it with
    | fail s => cases h; rfl
    | next s =>
      obtain ⟨str, -, h⟩ := bind_eq_ok.1 h
      cases h; rfl
  · intro H
    rw [headersPut, hstate, hempty, ← hpasses H, List.mem_cons]
    rfl

/-! ## Lines with a break in them -/

/-- What a section stores on its way is its first lines. -/
theorem stored_prefixes {w : Bytes} {lines : List LooseLine} (h : SectionLines w lines) (H : Headers) :
    (∃ u, u <+: w ∧ H = (HeaderText.run (Scan.start ∅) u).headers) ↔
      ∃ pre, pre <+: lines ∧ H = storeLoose pre ∅ := by
  constructor
  · rintro ⟨u, hu, rfl⟩
    obtain ⟨pre, hpre⟩ := exists_sectionLines u
    exact ⟨pre, hpre.prefix h hu, HeaderText.run_headers hpre ∅⟩
  · rintro ⟨pre, ⟨post, rfl⟩, rfl⟩
    obtain ⟨q, hw, -⟩ := h
    rw [printLoose_append, List.append_assoc] at hw
    have hpart : SectionLines (w.takeWhile lineEnd ++ printLoose pre) pre :=
      ⟨[], by rw [sectionText_part hw, List.append_nil], noLine_nil⟩
    refine ⟨_, ?_, (HeaderText.run_headers hpart ∅).symm⟩
    have hsplit := List.takeWhile_append_dropWhile (p := lineEnd) (l := w)
    rw [show w.dropWhile lineEnd = _ from hw, ← List.append_assoc] at hsplit
    exact ⟨_, hsplit⟩

theorem unbroken_store {lines : List LooseLine} :
    Unbroken (storeLoose lines ∅) ↔ ∀ pre l post, lines = pre ++ l :: post →
      (∀ l' ∈ post, l'.name ≠ l.name) → l.OneLine := by
  constructor
  · intro h pre l post hsplit hlast
    exact l.oneLine_iff.2 (h l.name l.value (lookup_store.2 ⟨pre, l, post, hsplit, rfl, rfl, hlast⟩))
  · intro h name value hlookup
    obtain ⟨pre, l, post, hsplit, rfl, rfl, hlast⟩ := lookup_store.1 hlookup
    exact l.oneLine_iff.1 (h pre l post hsplit hlast)

theorem unbroken_prefixes {lines : List LooseLine} :
    (∀ pre, pre <+: lines → Unbroken (storeLoose pre ∅)) ↔ ∀ l ∈ lines, l.OneLine := by
  constructor
  · intro h l hl
    obtain ⟨pre, post, rfl⟩ := List.append_of_mem hl
    exact unbroken_store.1 (h (pre ++ [l]) ⟨post, by simp⟩) pre l [] rfl (by simp)
  · rintro h pre ⟨post, rfl⟩
    refine unbroken_store.2 fun p l q hsplit _ => h l ?_
    simp [hsplit]

/-- **Bug** (`requestData.cpp:308-311`, `:313-320`, `:333-338`): the test for an empty value looks at
the second byte behind the space, and an LF is tested for in neither a value nor the first byte of a
name. What a call stores has no line break exactly when every line it reads is one line; what it
leaves stored, when every line is that is the last of its name. -/
theorem headersPut_unbroken_iff {r r' : RequestData} {v : HeadVerdict} {lines : List LooseLine}
    (hstate : r.hState = .hStart) (hempty : r.headers = ∅) (h : parseRequestHead r = .ok (v, r'))
    (hlines : SectionLines r.content lines) :
    ((∀ H ∈ headersPut r, Unbroken H) ↔ ∀ l ∈ lines, l.OneLine) ∧
    (Unbroken r'.headers ↔ ∀ pre l post, lines = pre ++ l :: post →
      (∀ l' ∈ post, l'.name ≠ l.name) → l.OneLine) := by
  obtain ⟨hleft, hput⟩ := headersPut_spec hstate hempty h
  refine ⟨?_, by rw [hleft, HeaderText.run_headers hlines, unbroken_store]⟩
  have hnone : Unbroken ∅ := fun name value hn => by simp at hn
  rw [← unbroken_prefixes]
  constructor
  · intro hall pre hpre
    rcases (hput _).2 ((stored_prefixes hlines _).2 ⟨pre, hpre, rfl⟩) with hH | hH
    · rw [hH]; exact hnone
    · exact hall _ hH
  · intro hall H hH
    obtain ⟨pre, hpre, rfl⟩ := (stored_prefixes hlines H).1 ((hput H).1 (Or.inr hH))
    exact hall pre hpre

def oneHeader : LooseLine :=
  ⟨ascii "A", ascii "1", by simp [NameText, ascii, CR], by simp [ValueText, ascii]⟩

theorem oneHeader_unbroken : ∃ r', parseRequestHead { RequestData.new 3 5 [] with
      content := ascii "\nA: 1\r\n\r\n" } = .ok (.success, r') ∧ Unbroken r'.headers := by
  have hlines : SectionLines (ascii "\nA: 1\r\n\r\n") [oneHeader] := ⟨CRLF, by decide, noLine_cr [LF]⟩
  refine ⟨_, rfl, (headersPut_unbroken_iff (r := { RequestData.new 3 5 [] with
    content := ascii "\nA: 1\r\n\r\n" }) rfl rfl rfl hlines).2.2 fun pre l post hsplit _ => ?_⟩
  have hl : l ∈ [oneHeader] := by simp [hsplit]
  rw [List.mem_singleton.1 hl]
  simp [LooseLine.OneLine, oneHeader, ascii, CR, LF]

/-- An empty value takes the next line into it. -/
theorem emptyValue_swallows : ∃ r', parseRequestHead { RequestData.new 3 5 [] with
      content := ascii "\nA: \r\nB: c\r\n\r\n" } = .ok (.success, r') ∧
    r'.headers.lookup (ascii "A") = some (ascii "\r\nB: c") ∧ ¬ Unbroken r'.headers := by
  refine ⟨_, rfl, by decide, fun h => ?_⟩
  exact ((h (ascii "A") (ascii "\r\nB: c") (by decide)).2 CR (by decide)).1 rfl

end HPServer
