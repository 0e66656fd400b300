import HighPerformanceServer.Headers
import HighPerformanceServer.HeaderLines
/-!
# Which texts one call decides

`parse_request_head` returns `PARSE_HEADER_AGAIN` exactly on an open section. A text with the empty
line in it can be one: `h_start` skips the line ends of a section without headers, and a value takes
the CR of its own line when it is empty. On more than `INT_MAX` bytes the call has to return before
`i` overflows.
-/

namespace HPServer

open CppStd

/-- `PARSE_HEADER_SUCCESS` or `PARSE_HEADER_ERROR`. -/
def Decides (x : Exec (HeadVerdict × RequestData)) : Prop := ∃ v r', x = .ok (v, r') ∧ v ≠ .again

/-- Some front part of the text is not open, and `i` stays an `int` until the call returns: at the
byte that breaks a section, or one pass behind the byte that ends it. -/
def DecidedText (w : Bytes) : Prop :=
  ∃ u v, w = u ++ v ∧ ¬ OpenSection u ∧
    (w.length < 2147483648 ∨ u.length < 2147483647 ∨ (u.length ≤ 2147483648 ∧ ¬ WholeSection u))

variable {u v w : Bytes} {c : Byte} {r : RequestData}

theorem decidedText_short (h : w.length < 2147483648) : DecidedText w ↔ ¬ OpenSection w := by
  constructor
  · rintro ⟨u, v, rfl, hu, -⟩
    rw [← HeaderText.run_open_iff _ ∅, not_not] at hu ⊢
    rw [HeaderText.run_append_of_done hu]
    exact hu
  · intro hw
    exact ⟨w, [], (List.append_nil w).symm, hw, Or.inl h⟩

/-! ## The last index -/

/-- At index `INT_MAX` a pass that does not return is followed by `++i`. -/
theorem headLoop_intMax {s : HeadLoop} {a : Scan} {p rest : Bytes} (h : Reads p s a)
    (hp : p.length = 2147483647) (hc : (a.next c).phase ≠ .broken) :
    headLoop (p ++ c :: rest) p.length (c :: rest) s = .error .undefined := by
  have hpass : ∃ s', headStep (p ++ c :: rest) p.length c s = .ok (.next s') := by
    by_cases hd : a.Done
    · rcases hd with hc | hb
      · obtain ⟨-, -, hs⟩ := h
        rw [hc] at hs
        exact ⟨_, by unfold headStep; rw [hs.1]⟩
      · obtain ⟨-, -, hs⟩ := h
        rw [hb] at hs
        exact hs.elim
    · have hstep := headStep_reads h hd c rest
      cases hr : headStep (p ++ c :: rest) p.length c s with
      | error e => rw [hr] at hstep; exact hstep.elim
      | ok it =>
        rw [hr] at hstep
        cases it with
        | fail s' => exact absurd hstep.1 hc
        | next s' => exact ⟨s', rfl⟩
  obtain ⟨s', hpass⟩ := hpass
  rw [headLoop, if_pos h.1, hpass]
  simp only [bind, Except.bind]
  rw [if_pos hp]

/-- The scanner has not ended the call when `i` reaches `INT_MAX`. -/
theorem parseRequestHead_overruns (h0 : r.hState = .hStart) (hw : r.content = u ++ c :: v)
    (hlen : u.length = 2147483647) (hu : ¬ (HeaderText.run (Scan.start r.headers) u).Done)
    (hc : ((HeaderText.run (Scan.start r.headers) u).next c).phase ≠ .broken) :
    parseRequestHead r = .error .undefined := by
  obtain ⟨s, hR, hloop⟩ := headLoop_open (c :: v) (reads_init r.headers) hu
    (by rw [List.nil_append, hlen])
  simp only [List.nil_append, List.length_nil, ← hw] at hR hloop
  have hlast : headLoop (u ++ c :: v) u.length (c :: v) s = .error .undefined :=
    headLoop_intMax hR hlen hc
  unfold parseRequestHead
  rw [h0, hloop, hw, hlast]
  rfl

/-- The section ends one byte before, and there is one more byte to look at. -/
theorem parseRequestHead_overruns_end (h0 : r.hState = .hStart) (hw : r.content = u ++ c :: v)
    (hlen : u.length = 2147483646) (hv : v ≠ [])
    (hu : ¬ (HeaderText.run (Scan.start r.headers) u).Done)
    (hc : ((HeaderText.run (Scan.start r.headers) u).next c).phase = .complete) :
    parseRequestHead r = .error .undefined := by
  obtain ⟨d, v, rfl⟩ := List.exists_cons_of_ne_nil hv
  obtain ⟨s, hR, hloop⟩ := headLoop_open (c :: d :: v) (reads_init r.headers) hu
    (by rw [List.nil_append, hlen]; decide)
  simp only [List.nil_append, List.length_nil, ← hw] at hR hloop
  have hstep := headStep_reads hR hu c (d :: v)
  rw [← hw] at hstep
  have hi : u.length ≠ 2147483647 := by omega
  have hlast : (u ++ [c]).length = 2147483647 := by simp [hlen]
  unfold parseRequestHead
  rw [h0, hloop, headLoop, if_pos hR.1]
  cases hr : headStep r.content u.length c s with
  | error e => rw [hr] at hstep; exact hstep.elim
  | ok it =>
    rw [hr] at hstep
    cases it with
    | fail s' =>
      have hb := hstep.1
      rw [hc] at hb
      cases hb
    | next s' =>
      have hstays : ((HeaderText.run (Scan.start r.headers) u).next c).next d =
          (HeaderText.run (Scan.start r.headers) u).next c := HeaderText.sticky _ d (Or.inl hc)
      have hover : headLoop (u ++ [c] ++ d :: v) (u ++ [c]).length (d :: v) s' = .error .undefined :=
        headLoop_intMax hstep hlast (by rw [hstays, hc]; decide)
      have e : u ++ [c] ++ d :: v = r.content := by rw [hw]; simp
      have elen : (u ++ [c]).length = u.length + 1 := by simp
      rw [e, elen] at hover
      simp only [bind, Except.bind]
      rw [if_neg hi, hover]

theorem parseRequestHead_overruns_open (h0 : r.hState = .hStart) (hw : r.content = u ++ v)
    (hlen : 2147483647 < u.length) (hu : ¬ (HeaderText.run (Scan.start r.headers) u).Done) :
    parseRequestHead r = .error .undefined := by
  obtain ⟨x, t, rfl, hx⟩ : ∃ x t, u = x ++ t ∧ x.length = 2147483647 :=
    ⟨u.take 2147483647, u.drop 2147483647, (List.take_append_drop ..).symm,
      by rw [List.length_take, Nat.min_eq_left (Nat.le_of_lt hlen)]⟩
  have ht : t ≠ [] := by
    rintro rfl
    rw [List.append_nil] at hlen
    omega
  obtain ⟨d, t, rfl⟩ := List.exists_cons_of_ne_nil ht
  have hnext : ¬ (HeaderText.run (Scan.start r.headers) (x ++ [d])).Done :=
    HeaderText.not_done_of_append (v := t) (by rw [List.append_assoc]; exact hu)
  rw [HeaderText.run_append] at hnext
  exact parseRequestHead_overruns h0 (by simpa using hw) hx (HeaderText.not_done_of_append hu)
    fun hb => hnext (Or.inr hb)

/-- The section ends too late for the pass behind its end. -/
theorem parseRequestHead_overruns_complete (h0 : r.hState = .hStart) (hw : r.content = u ++ c :: v)
    (hlen : 2147483646 ≤ u.length) (hlong : 2147483648 ≤ r.content.length)
    (hu : ¬ (HeaderText.run (Scan.start r.headers) u).Done)
    (hc : ((HeaderText.run (Scan.start r.headers) u).next c).phase = .complete) :
    parseRequestHead r = .error .undefined := by
  rcases Nat.lt_trichotomy u.length 2147483647 with hlt | heq | hgt
  · have hv : v ≠ [] := by
      rintro rfl
      rw [hw, List.length_append, List.length_singleton] at hlong
      omega
    exact parseRequestHead_overruns_end h0 hw (by omega) hv hu hc
  · exact parseRequestHead_overruns h0 hw heq hu fun hb => by cases hc.symm.trans hb
  · exact parseRequestHead_overruns_open h0 hw hgt hu

theorem not_decides_undefined {e : Halt} : ¬ Decides (.error e) := by
  rintro ⟨v, r', h, -⟩
  cases h

/-! ## The texts that are decided -/

/-- A front part that is not open has the deciding byte in it. -/
theorem deciding_prefix {H : Headers} {t : Bytes} (hw : w = u ++ c :: v)
    (hu : ¬ (HeaderText.run (Scan.start H) u).Done) (ht : t <+: w) (hopen : ¬ OpenSection t) :
    u ++ [c] <+: t := by
  subst hw
  rw [← HeaderText.run_open_iff _ H, not_not] at hopen
  have hlen : (u ++ [c]).length ≤ t.length := by
    by_contra hlt
    have hle : t.length ≤ u.length := by simp at hlt; omega
    obtain ⟨x, rfl⟩ := List.prefix_of_prefix_length_le ht (List.prefix_append u (c :: v)) hle
    exact hu (by rw [HeaderText.run_append_of_done hopen]; exact hopen)
  exact List.prefix_of_prefix_length_le ⟨v, by simp⟩ ht hlen

/-- What the scanner has done with is not open. -/
theorem not_openSection {H : Headers} {t : Bytes} (h : (HeaderText.run (Scan.start H) t).Done) :
    ¬ OpenSection t := by
  rwa [← HeaderText.run_open_iff _ H, not_not]

/-- A text that is open: the call waits, or its index overflows. -/
theorem decides_open (h0 : r.hState = .hStart)
    (hd : ¬ (HeaderText.run (Scan.start r.headers) r.content).Done) :
    ¬ Decides (parseRequestHead r) ∧ ¬ DecidedText r.content := by
  constructor
  · by_cases hlen : r.content.length < 2147483648
    · obtain ⟨s, -, hagain⟩ := parseRequestHead_open h0 hlen hd
      rintro ⟨v, r', hdecides, hv⟩
      rw [hagain] at hdecides
      cases hdecides
      exact hv rfl
    · rw [parseRequestHead_overruns_open h0 (List.append_nil _).symm (by omega) hd]
      exact not_decides_undefined
  · rintro ⟨t, x, ht, hclosed, -⟩
    rw [← HeaderText.run_open_iff _ r.headers, not_not] at hclosed
    refine hd ?_
    rw [ht, HeaderText.run_append_of_done hclosed]
    exact hclosed

/-- The byte `c` completes the section; one more pass ends the loop. -/
theorem decides_complete (h0 : r.hState = .hStart) (hw : r.content = u ++ c :: v)
    (hu : ¬ (HeaderText.run (Scan.start r.headers) u).Done)
    (hc : ((HeaderText.run (Scan.start r.headers) u).next c).phase = .complete) :
    Decides (parseRequestHead r) ↔ DecidedText r.content := by
  have hwlen : r.content.length = u.length + 1 + v.length := by rw [hw]; simp; omega
  have hnext : HeaderText.run (Scan.start r.headers) (u ++ [c]) =
      (HeaderText.run (Scan.start r.headers) u).next c := HeaderText.run_append ..
  by_cases hfit : u.length < 2147483646 ∨ r.content.length < 2147483648
  · refine iff_of_true ⟨_, _, parseRequestHead_completes h0 hw hfit hu hc, by decide⟩ ?_
    refine ⟨u ++ [c], v, by simp [hw], not_openSection (by rw [hnext]; exact Or.inl hc), ?_⟩
    rw [List.length_append, List.length_singleton]
    omega
  rw [not_or] at hfit
  refine iff_of_false ?_ ?_
  · rw [parseRequestHead_overruns_complete h0 hw (by omega) (by omega) hu hc]
    exact not_decides_undefined
  · rintro ⟨t, x, ht, hopen, hlen⟩
    obtain ⟨y, rfl⟩ := deciding_prefix hw hu ⟨x, ht.symm⟩ hopen
    have hwhole : WholeSection (u ++ [c] ++ y) := by
      rw [← HeaderText.run_complete_iff _ r.headers, HeaderText.run_append_of_done, hnext, hc]
      rw [hnext]; exact Or.inl hc
    simp only [List.length_append, List.length_singleton] at hlen
    rcases hlen with h | h | ⟨-, h⟩
    · omega
    · omega
    · exact h hwhole

/-- The byte `c` breaks the section, which ends the loop at once. -/
theorem decides_broken (h0 : r.hState = .hStart) (hw : r.content = u ++ c :: v)
    (hu : ¬ (HeaderText.run (Scan.start r.headers) u).Done)
    (hb : ((HeaderText.run (Scan.start r.headers) u).next c).phase = .broken) :
    Decides (parseRequestHead r) ↔ DecidedText r.content := by
  have hwlen : r.content.length = u.length + 1 + v.length := by rw [hw]; simp; omega
  have hnext : HeaderText.run (Scan.start r.headers) (u ++ [c]) =
      (HeaderText.run (Scan.start r.headers) u).next c := HeaderText.run_append ..
  by_cases hfit : u.length ≤ 2147483647
  · obtain ⟨hs, hbreaks⟩ := parseRequestHead_breaks h0 hw hfit hu hb
    refine iff_of_true ⟨_, _, hbreaks, by decide⟩
      ⟨u ++ [c], v, by simp [hw], not_openSection (by rw [hnext]; exact Or.inr hb), ?_⟩
    refine Or.inr (Or.inr ⟨by simp; omega, ?_⟩)
    rw [← HeaderText.run_complete_iff _ r.headers, hnext, hb]
    decide
  · refine iff_of_false ?_ ?_
    · rw [parseRequestHead_overruns_open h0 hw (by omega) hu]
      exact not_decides_undefined
    · rintro ⟨t, x, ht, hopen, hlen⟩
      obtain ⟨y, rfl⟩ := deciding_prefix hw hu ⟨x, ht.symm⟩ hopen
      simp only [List.length_append, List.length_singleton] at hlen
      omega

/-- **Bug** (`requestData.cpp:285-287`, `:308-311`): a finished section is decided exactly when it is
not open, and for more than `INT_MAX` bytes when a front part of it is not. -/
theorem parseRequestHead_decides_iff (h0 : r.hState = .hStart) :
    Decides (parseRequestHead r) ↔ DecidedText r.content := by
  by_cases hd : (HeaderText.run (Scan.start r.headers) r.content).Done
  · have hstart : ¬ (Scan.start r.headers).Done := by simp [Scan.Done, Scan.start]
    obtain ⟨u, c, v, hw, hu, hdone, -⟩ := HeaderText.exists_deciding hstart hd
    rcases hdone with hc | hb
    · exact decides_complete h0 hw hu hc
    · exact decides_broken h0 hw hu hb
  · exact iff_of_false (decides_open h0 hd).1 (decides_open h0 hd).2

theorem oneHeader_decided : Decides (parseRequestHead { RequestData.new 3 5 [] with
    content := ascii "\nA: 1\r\n\r\n" }) := by
  have hclosed : ¬ OpenSection (ascii "\nA: 1\r\n\r\n") := by
    rw [← HeaderText.run_open_iff _ ∅, not_not]
    exact Or.inl (by decide)
  exact (parseRequestHead_decides_iff rfl).2 ((decidedText_short (by decide)).2 hclosed)

/-- No header at all, or a last header without a value: the call waits for more. -/
theorem emptyLine_undecided :
    ([LF, CR, LF] <:+: [LF, CR, LF] ∧ ¬ Decides (parseRequestHead { RequestData.new 3 5 [] with
      content := [LF, CR, LF] })) ∧
    ([LF, CR, LF] <:+: ascii "\nA: \r\n\r\n" ∧ ¬ Decides (parseRequestHead { RequestData.new 3 5 [] with
      content := ascii "\nA: \r\n\r\n" })) := by
  have hagain : ∀ {x r'}, x = .ok (.again, r') → ¬ Decides x := by
    rintro x r' rfl ⟨v, r'', h, hv⟩
    cases h
    exact hv rfl
  refine ⟨⟨List.infix_refl _, hagain rfl⟩, ⟨ascii "\nA: \r", [], by decide⟩, hagain rfl⟩

end HPServer
