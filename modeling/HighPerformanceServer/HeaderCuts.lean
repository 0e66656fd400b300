import HighPerformanceServer.HeaderEnds
/-!
# A header section that arrives in pieces

`handleRequest` appends what it has read to `content` and calls `parse_request_head` again as long
as the verdict is `PARSE_HEADER_AGAIN` (requestData.cpp:131-152). `feed` is that sequence of calls.
It agrees with one call on the whole section when every call but the last deciding one has seen
only line ends (`feed_eq_whole`); after any other cut some continuation tells the two apart
(`cut_breaks`). A section of more than `INT_MAX` bytes that is still open there is undefined, in one
piece or in many.
-/

namespace HPServer

open CppStd

/-- One call a piece, up to the first verdict that is not `PARSE_HEADER_AGAIN`. -/
def feed : RequestData → List Bytes → Exec (HeadVerdict × RequestData)
  | r, [] => .ok (.again, r)
  | r, c :: cs => do
    let (v, r) ← parseRequestHead { r with content := r.content ++ c }
    if v = .again then feed r cs else .ok (v, r)

/-- What a sequence of calls shows: the last verdict and the headers map. -/
def shown (out : Exec (HeadVerdict × RequestData)) : Exec (HeadVerdict × Headers) :=
  out.map fun x => (x.1, x.2.headers)

/-- A call on `u` is the last, and what follows would not change it: the section is decided, and not by
its `INT_MAX`th byte, behind which `i` has no room for another one; or `i` has come to its limit. -/
def Settled (u : Bytes) : Prop :=
  ((HeaderText.run (Scan.start ∅) u).Done ∧
    (u.length = 2147483647 → (HeaderText.run (Scan.start ∅) u).phase = .complete →
      (HeaderText.run (Scan.start ∅) u.dropLast).Done)) ∨
  2147483648 ≤ u.length

/-- Every cut made before the calls have come to an end lies among the line ends before the first name. -/
def CutsOutsideLines (cs : List Bytes) : Prop :=
  ∀ pre post, cs = pre ++ post → post ≠ [] → Settled pre.flatten ∨ HeaderText.Blank pre.flatten

/-- Two pieces have one cut between them. -/
theorem cutsOutsideLines_pair {c₁ c₂ : Bytes} : CutsOutsideLines [c₁, c₂] ↔
    Settled c₁ ∨ HeaderText.Blank c₁ := by
  constructor
  · intro h; simpa using h [c₁] [c₂] rfl (by simp)
  · intro h pre post he hpost
    match pre, he with
    | [], _ => exact Or.inr HeaderText.blank_nil
    | [x], he =>
      simp only [List.cons_append, List.nil_append, List.cons.injEq] at he
      simpa [← he.1] using h
    | x :: y :: pre, he =>
      simp only [List.cons_append, List.cons.injEq] at he
      exact absurd (List.append_eq_nil_iff.1 he.2.2.symm).2 hpost

theorem settled_short {u : Bytes} (h : u.length < 2147483647) :
    Settled u ↔ (HeaderText.run (Scan.start ∅) u).Done := by
  constructor
  · rintro (⟨hd, -⟩ | hlen)
    · exact hd
    · omega
  · exact fun hd => Or.inl ⟨hd, fun h' => by omega⟩

theorem start_not_done (H : Headers) : ¬ (Scan.start H).Done := by simp [Scan.Done, Scan.start]

theorem shown_fresh {r : RequestData} (h0 : r.hState = .hStart) (hH : r.headers = ∅)
    (hlen : r.content.length < 2147483648) :
    shown (parseRequestHead r) = .ok ((HeaderText.run (Scan.start ∅) r.content).verdict,
      (HeaderText.run (Scan.start ∅) r.content).headers) := by
  have := parseRequestHead_verdict h0 hlen
  rwa [hH] at this

/-- A call that has seen only line ends leaves the object as it was. -/
theorem parseRequestHead_blank {r : RequestData} (h0 : r.hState = .hStart)
    (hlen : r.content.length < 2147483648) (hb : HeaderText.Blank r.content) :
    parseRequestHead r = .ok (.again, r) := by
  have hrun := HeaderText.run_blank hb r.headers
  obtain ⟨s, hR, e⟩ := parseRequestHead_open h0 hlen (by rw [hrun]; exact start_not_done _)
  obtain ⟨-, -, hph⟩ := hR
  rw [hrun] at hph e
  obtain ⟨hs, hbegin⟩ := hph
  rw [e, hs, hbegin]
  obtain ⟨⟩ := r
  simp only at h0
  subst h0; rfl

/-- What a call shows of a settled section, whatever follows it. -/
theorem Settled.outcome {r : RequestData} (h0 : r.hState = .hStart) (hH : r.headers = ∅) {u : Bytes}
    (h : Settled u) : ∃ out, (∀ v, shown (parseRequestHead { r with content := u ++ v }) = out) ∧
      ∀ H, out ≠ .ok (.again, H) := by
  have hfresh : ∀ w, HeaderText.run (Scan.start { r with content := w }.headers) = HeaderText.run (Scan.start ∅) :=
    fun w => by rw [← hH]
  have overflows : (∀ v, parseRequestHead { r with content := u ++ v } = .error .undefined) →
      ∃ out, (∀ v, shown (parseRequestHead { r with content := u ++ v }) = out) ∧ ∀ H, out ≠ .ok (.again, H) :=
    fun hall => ⟨.error .undefined, fun v => by rw [hall v]; rfl, nofun⟩
  by_cases hd : (HeaderText.run (Scan.start ∅) u).Done
  · obtain ⟨p, c, q, rfl, hp, hdone, hrun⟩ := HeaderText.exists_deciding (start_not_done ∅) hd
    have hw : ∀ v, p ++ c :: q ++ v = p ++ c :: (q ++ v) := fun v => by simp
    rcases hdone with hc | hb
    · -- the byte `c` completes the section
      by_cases hfits : p.length < 2147483646
      · refine ⟨.ok (.success, ((HeaderText.run (Scan.start ∅) p).next c).headers), fun v => ?_, nofun⟩
        rw [parseRequestHead_completes (r := { r with content := p ++ c :: q ++ v }) h0 (hw v) (Or.inl hfits)
          (by rw [hfresh]; exact hp) (by rw [hfresh]; exact hc), hfresh]
        rfl
      · have hlong : 2147483648 ≤ (p ++ c :: q).length := by
          rcases h with ⟨-, hlast⟩ | hlong
          · by_contra hshort
            simp only [List.length_append, List.length_cons] at hlast hshort
            obtain rfl : q = [] := List.length_eq_zero_iff.1 (by omega)
            refine hp ?_
            have hbefore := hlast (by simp; omega) (by rw [hrun]; exact hc)
            rwa [List.dropLast_concat] at hbefore
          · exact hlong
        refine overflows fun v => parseRequestHead_overruns_complete (r := { r with content := p ++ c :: q ++ v })
          h0 (hw v) (by omega) ?_ (by rw [hfresh]; exact hp) (by rw [hfresh]; exact hc)
        show _ ≤ (p ++ c :: q ++ v).length
        rw [List.length_append]
        omega
    · -- it breaks it
      by_cases hfits : p.length ≤ 2147483647
      · refine ⟨.ok (.error, ((HeaderText.run (Scan.start ∅) p).next c).headers), fun v => ?_, nofun⟩
        obtain ⟨hs, hbreaks⟩ := parseRequestHead_breaks (r := { r with content := p ++ c :: q ++ v }) h0 (hw v)
          hfits (by rw [hfresh]; exact hp) (by rw [hfresh]; exact hb)
        rw [hbreaks, hfresh]
        rfl
      · exact overflows fun v => parseRequestHead_overruns_open (r := { r with content := p ++ c :: q ++ v }) h0
          (hw v) (by omega) (by rw [hfresh]; exact hp)
  · have hlong : 2147483648 ≤ u.length := h.resolve_left fun hsettled => hd hsettled.1
    exact overflows fun v => parseRequestHead_overruns_open (r := { r with content := u ++ v }) h0 rfl (by omega)
      (by rw [hfresh]; exact hd)

/-! ## Cuts that do no harm -/

theorem shown_feed_one (r : RequestData) (c : Bytes) :
    shown (feed r [c]) = shown (parseRequestHead { r with content := r.content ++ c }) := by
  rw [feed]
  cases hp : parseRequestHead { r with content := r.content ++ c } with
  | error e => rfl
  | ok x =>
    obtain ⟨v, r'⟩ := x
    simp only [bind, Except.bind]
    by_cases hv : v = .again
    · rw [if_pos hv, feed, hv]
    · rw [if_neg hv]

/-- A call that does not return `PARSE_HEADER_AGAIN` is the last. -/
theorem shown_feed_last {r : RequestData} {c : Bytes}
    (h : ∀ H, shown (parseRequestHead { r with content := r.content ++ c }) ≠ .ok (.again, H)) (cs : List Bytes) :
    shown (feed r (c :: cs)) = shown (parseRequestHead { r with content := r.content ++ c }) := by
  rw [feed]
  cases hp : parseRequestHead { r with content := r.content ++ c } with
  | error e => rfl
  | ok x =>
    obtain ⟨v, r'⟩ := x
    rw [hp] at h
    simp only [bind, Except.bind]
    rw [if_neg]
    rintro rfl
    exact h r'.headers rfl

/-- The calls agree with one call on all the bytes, from any run of line ends on. -/
theorem feed_from_blank : ∀ (cs : List Bytes) (r : RequestData), r.hState = .hStart →
    r.headers = ∅ → HeaderText.Blank r.content → r.content.length < 2147483648 →
    CutsOutsideLines (r.content :: cs) →
    shown (feed r cs) = shown (parseRequestHead { r with content := r.content ++ cs.flatten })
  | [], r, h0, _, hb, hlen, _ => by
    have e : ({ r with content := r.content ++ ([] : List Bytes).flatten } : RequestData) = r := by
      simp
    rw [e, parseRequestHead_blank h0 hlen hb]; rfl
  | [c], r, _, _, _, _, _ => by
    rw [shown_feed_one]
    simp
  | c :: d :: ds, r, h0, hH, hb, hlen, hcuts => by
    have hcut := hcuts [r.content, c] (d :: ds) rfl (by simp)
    simp only [List.flatten_cons, List.flatten_nil, List.append_nil] at hcut
    by_cases hsettled : Settled (r.content ++ c)
    · obtain ⟨out, hout, hlast⟩ := hsettled.outcome h0 hH
      have hcall : shown (parseRequestHead { r with content := r.content ++ c }) = out := by
        simpa using hout []
      rw [shown_feed_last (by rw [hcall]; exact hlast), hcall, ← hout (d :: ds).flatten]
      simp
    · -- another piece follows, so this cut lies among the leading line ends
      have hb' := hcut.resolve_left hsettled
      have hlen' : (r.content ++ c).length < 2147483648 := by
        by_contra hlong
        exact hsettled (Or.inr (by omega))
      rw [feed, parseRequestHead_blank (r := { r with content := r.content ++ c }) h0 hlen' hb']
      simp only [bind, Except.bind, if_true]
      have ih := feed_from_blank (d :: ds) { r with content := r.content ++ c } h0 hH hb' hlen' (by
        intro pre post he hpost
        cases pre with
        | nil => exact Or.inr HeaderText.blank_nil
        | cons x pre =>
          simp only [List.cons_append, List.cons.injEq] at he
          obtain ⟨rfl, he⟩ := he
          have := hcuts (r.content :: c :: pre) post (by rw [he]; rfl) hpost
          simpa using this)
      simpa using ih

theorem feed_eq_whole {r : RequestData} (h0 : r.hState = .hStart) (hH : r.headers = ∅)
    {cs : List Bytes} (hcuts : CutsOutsideLines cs) :
    shown (feed { r with content := [] } cs) =
      shown (parseRequestHead { r with content := cs.flatten }) := by
  have := feed_from_blank cs { r with content := [] } h0 hH HeaderText.blank_nil
    (show ([] : Bytes).length < _ by decide) (by
      intro pre post he hpost
      cases pre with
      | nil => exact Or.inr HeaderText.blank_nil
      | cons x pre =>
        simp only [List.cons_append, List.cons.injEq] at he
        obtain ⟨rfl, he⟩ := he
        simpa using hcuts pre post he hpost)
  simpa using this

/-! ## Every other cut breaks -/

theorem shown_feed_two {r r₁ : RequestData} {c₁ : Bytes} (c₂ : Bytes)
    (h : parseRequestHead { r with content := r.content ++ c₁ } = .ok (.again, r₁)) :
    shown (feed r [c₁, c₂]) = shown (parseRequestHead { r₁ with content := r₁.content ++ c₂ }) := by
  rw [feed, h]
  exact shown_feed_one r₁ c₂

/-- A continuation that tells a resumed call from one call on the whole: the rest of the header
section, or, behind its last CR, a byte that is not LF. -/
def telling : Phase → Bytes
  | .name => [COLON, SP, 120, CR, LF, CR, LF]
  | .colon => [SP, 120, CR, LF, CR, LF]
  | .gap => [120, CR, LF, CR, LF]
  | .value => [CR, LF, CR, LF]
  | .cr => [LF, CR, LF]
  | .lf => [CR, LF]
  | _ => [120]

theorem run_telling (a : Scan) : (HeaderText.run a (telling a.phase)).phase =
    if a.phase = .blank then .name else if a.phase = .endCr then .broken
    else if a.phase = .broken then .broken else .complete := by
  cases hp : a.phase <;>
    simp [telling, Scanner.run, HeaderText, Scan.next, hp, COLON, SP, CR, LF]

/-- After any cut that is neither among the leading line ends nor behind the section's end, some
continuation gets another answer than the whole section does. -/
theorem cut_breaks {r : RequestData} (h0 : r.hState = .hStart) (hH : r.headers = ∅) {c₁ : Bytes}
    (hlen : c₁.length + 7 < 2147483648) (hopen : ¬ (HeaderText.run (Scan.start ∅) c₁).Done)
    (hb : ¬ HeaderText.Blank c₁) :
    ∃ c₂, c₂ ≠ [] ∧
      shown (feed { r with content := [] } [c₁, c₂]) ≠
        shown (parseRequestHead { r with content := c₁ ++ c₂ }) := by
  generalize ha : HeaderText.run (Scan.start ∅) c₁ = a at hopen
  have hwlen : (c₁ ++ telling a.phase).length < 2147483648 := by
    have : (telling a.phase).length ≤ 7 := by cases a.phase <;> decide
    rw [List.length_append]; omega
  have hwhole := shown_fresh (r := { r with content := c₁ ++ telling a.phase }) h0 hH hwlen
  simp only [HeaderText.run_append, ha] at hwhole
  have hrun : HeaderText.run (Scan.start r.headers) c₁ = a := by rw [hH, ha]
  obtain ⟨s, hR, hfirst⟩ := parseRequestHead_open (r := { r with content := c₁ }) h0
    (show c₁.length < _ by omega) (by rw [hrun]; exact hopen)
  simp only [hrun] at hR hfirst
  have htwo := shown_feed_two (r := { r with content := [] }) (telling a.phase) hfirst
  refine ⟨telling a.phase, by cases a.phase <;> simp [telling], ?_⟩
  rw [htwo, hwhole]
  have hphase := run_telling a
  obtain ⟨-, -, hph⟩ := hR
  -- inside a line: the whole section succeeds, the resumed call cannot
  have inside : InsideLine s.hState → (HeaderText.run a (telling a.phase)).phase = .complete →
      shown (parseRequestHead { r with
        content := c₁.drop s.nowReadLineBegin ++ telling a.phase
        hState := s.hState
        headers := a.headers }) ≠
      .ok ((HeaderText.run a (telling a.phase)).verdict,
        (HeaderText.run a (telling a.phase)).headers) := by
    intro hin hc heq
    simp only [Scan.verdict, hc] at heq
    cases hp : parseRequestHead { r with
        content := c₁.drop s.nowReadLineBegin ++ telling a.phase
        hState := s.hState
        headers := a.headers } with
    | error e => rw [hp] at heq; cases heq
    | ok x =>
      obtain ⟨v, r'⟩ := x
      rw [hp] at heq
      simp only [shown, Except.map, Except.ok.injEq, Prod.mk.injEq] at heq
      exact parseRequestHead_resumed (by exact hin) hp heq.1
  cases hp : a.phase <;> simp only [hp, reduceCtorEq, if_false, if_true] at hph hphase inside ⊢
  · exact absurd (HeaderText.blank_of_phase (by rw [ha, hp])) hb
  · exact inside (by rw [hph.1]; trivial) hphase
  · exact inside (by rw [hph.1]; trivial) hphase
  · exact inside (by rw [hph.1]; trivial) hphase
  · exact inside (by rw [hph.1]; trivial) hphase
  · exact inside (by rw [hph.1]; trivial) hphase
  · -- behind a line's LF: the LF is read again, as the first byte of a name
    obtain ⟨hs, q, hq, hbegin⟩ := hph
    have hkept : c₁.drop s.nowReadLineBegin = [LF] := by rw [hq, hbegin, List.drop_left]
    rw [hs, hkept]
    intro heq
    simp only [Scan.verdict, hphase] at heq
    cases heq
  · -- behind the last CR: the LF before it is read again, as the end of the section
    obtain ⟨hs, q, hq, hbegin⟩ := hph
    have hkept : c₁.drop s.nowReadLineBegin = [LF, CR] := by rw [hq, hbegin, List.drop_left]
    rw [hs, hkept]
    intro heq
    simp only [Scan.verdict, hphase] at heq
    cases heq
  · exact absurd (Or.inl hp) hopen

/-- The object between the two parsers, with the bytes `s` after the request line. -/
def headersFresh (r : RequestData) (s : Bytes) : RequestData :=
  { r with content := s, hState := .hStart, headers := ∅ }

/-- **Bug** (`requestData.cpp:278-281`, `:361`): a call that resumes inside a header line reads the
kept start of the line again in the state it had reached, with the slice indices back at `-1`. The
pieces agree with the whole, in their undefined overflow as well, when each cut made before the calls have
come to an end lies among the line ends before the first name. Behind any other `c₁` there is a
continuation on which they differ, unless `i` is about to overflow. -/
theorem pieces_agree (r : RequestData) :
    (∀ cs : List Bytes, CutsOutsideLines cs →
      shown (feed (headersFresh r []) cs) = shown (parseRequestHead (headersFresh r cs.flatten))) ∧
    (∀ c₁ : Bytes, c₁.length + 7 < 2147483648 ∨ 2147483648 ≤ c₁.length →
      ((∀ c₂ : Bytes, c₂ ≠ [] → shown (feed (headersFresh r []) [c₁, c₂]) =
          shown (parseRequestHead (headersFresh r (c₁ ++ c₂)))) ↔
        Settled c₁ ∨ HeaderText.Blank c₁)) := by
  refine ⟨fun cs hcuts => feed_eq_whole (r := headersFresh r []) rfl rfl hcuts, ?_⟩
  intro c₁ hlen
  constructor
  · intro hagree
    rcases hlen with hshort | hlong
    · rw [settled_short (by omega)]
      by_contra hcut
      rw [not_or] at hcut
      obtain ⟨c₂, hne, hdiff⟩ := cut_breaks (r := headersFresh r []) rfl rfl hshort hcut.1 hcut.2
      exact hdiff (hagree c₂ hne)
    · exact Or.inl (Or.inr hlong)
  · intro hcut c₂ _
    have hcuts : CutsOutsideLines [c₁, c₂] := cutsOutsideLines_pair.2 hcut
    have := feed_eq_whole (r := headersFresh r []) rfl rfl hcuts
    simpa [headersFresh] using this

theorem pieces_agree_leadingLF :
    shown (feed (headersFresh (RequestData.new 3 5 (ascii "/")) []) [[LF], ascii "Host: a" ++ CRLF]) =
      shown (parseRequestHead (headersFresh (RequestData.new 3 5 (ascii "/"))
        ([[LF], ascii "Host: a" ++ CRLF] : List Bytes).flatten)) :=
  (pieces_agree (RequestData.new 3 5 (ascii "/"))).1 [[LF], ascii "Host: a" ++ CRLF]
    (cutsOutsideLines_pair.2 (Or.inr (by decide)))

/-- `Host: a` cut behind its colon is an error, although the section is well formed. -/
theorem cutBehindColon_differs :
    ¬ ∀ (r : RequestData) (cs : List Bytes), (∀ c ∈ cs, c ≠ []) →
      shown (feed (headersFresh r []) cs) = shown (parseRequestHead (headersFresh r cs.flatten)) := by
  intro h
  have hne := h (RequestData.new 3 5 (ascii "/")) [LF :: ascii "Host:", ascii " a" ++ CRLF ++ CRLF]
    (by decide)
  revert hne
  decide

end HPServer
