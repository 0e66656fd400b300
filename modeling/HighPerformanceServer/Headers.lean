import HighPerformanceServer.HeaderText
/-!
# `requestData::parse_request_head` (requestData.cpp:276-364)

| here | there |
| --- | --- |
| `HeadLoop`           | `h_state`, `headers` and the locals of the loop (:278-281) |
| `headStep`           | the `switch` (:284-352) |
| `headLoop`           | the `for` loop; `++i` past `INT_MAX` is undefined |
| `parseRequestHead`   | the whole function; a `return` inside the loop leaves `content` uncut |

The four slice indices are locals that start at `-1` in every call, while `h_state` is a member:
a call that resumes inside a line has no start for the slices it cuts (`headLoop_resumed`).

`Reads` ties the loop's state after the bytes `p` to the state of `HeaderText` after them.
-/

namespace HPServer

open CppStd

/-- `PARSE_HEADER_SUCCESS`, `PARSE_HEADER_AGAIN`, `PARSE_HEADER_ERROR` (`requestData.h:24-26`). -/
inductive HeadVerdict where
  | success | again | error
deriving DecidableEq, Repr

structure HeadLoop where
  hState : HeadersState
  keyStart : Int
  keyEnd : Int
  valueStart : Int
  valueEnd : Int
  nowReadLineBegin : Nat
  notFinish : Bool
  headers : Headers

/-- One pass through the loop body: it goes on, or returns `PARSE_HEADER_ERROR`. -/
inductive Iter where
  | next (s : HeadLoop)
  | fail (s : HeadLoop)

def headStep (str : Bytes) (i : Nat) (c : Byte) (s : HeadLoop) : Exec Iter :=
  match s.hState with
  | .hStart =>
    if c = LF ∨ c = CR then .ok (.next s)
    else .ok (.next { s with hState := .hKey, keyStart := i, nowReadLineBegin := i })
  | .hKey =>
    if c = COLON then
      if (i : Int) - s.keyStart ≤ 0 then .ok (.fail { s with keyEnd := i })
      else .ok (.next { s with keyEnd := i, hState := .hColon })
    else if c = LF ∨ c = CR then .ok (.fail s)
    else .ok (.next s)
  | .hColon => if c = SP then .ok (.next { s with hState := .hSpacesAfterColon }) else .ok (.fail s)
  | .hSpacesAfterColon => .ok (.next { s with hState := .hValue, valueStart := i })
  | .hValue =>
    if c = CR then
      if (i : Int) - s.valueStart ≤ 0 then .ok (.fail { s with hState := .hCR, valueEnd := i })
      else .ok (.next { s with hState := .hCR, valueEnd := i })
    else if (i : Int) - s.valueStart > 255 then .ok (.fail s)
    else .ok (.next s)
  | .hCR =>
    if c = LF then do
      let key ← slice str s.keyStart s.keyEnd
      let value ← slice str s.valueStart s.valueEnd
      .ok (.next { s with hState := .hLF, headers := s.headers.insert key value,
                          nowReadLineBegin := i })
    else .ok (.fail s)
  | .hLF =>
    if c = CR then .ok (.next { s with hState := .hEndCR })
    else .ok (.next { s with keyStart := i, hState := .hKey })
  | .hEndCR => if c = LF then .ok (.next { s with hState := .hEndLF }) else .ok (.fail s)
  | .hEndLF => .ok (.next { s with notFinish := false, keyStart := i, nowReadLineBegin := i })

/-- The loop from index `i` on, where `rest` are the bytes of `str` not yet read. -/
def headLoop (str : Bytes) : Nat → Bytes → HeadLoop → Exec Iter
  | _, [], s => .ok (.next s)
  | i, c :: rest, s =>
    if s.notFinish then do
      match ← headStep str i c s with
      | .fail s => .ok (.fail s)
      | .next s => if i = 2147483647 then .error .undefined else headLoop str (i + 1) rest s
    else .ok (.next s)

/-- The locals at the start of a call. -/
def HeadLoop.init (h : HeadersState) (H : Headers) : HeadLoop := ⟨h, -1, -1, -1, -1, 0, true, H⟩

def parseRequestHead (r : RequestData) : Exec (HeadVerdict × RequestData) := do
  match ← headLoop r.content 0 r.content (.init r.hState r.headers) with
  | .fail s => .ok (.error, { r with hState := s.hState, headers := s.headers })
  | .next s =>
    let str ← substr r.content s.nowReadLineBegin npos
    .ok (if s.hState = .hEndLF then .success else .again,
      { r with content := str, hState := s.hState, headers := s.headers })

/-- Everything a call that returns can do: only `content`, `h_state` and `headers` move, and the
verdict is read off `h_state`. -/
theorem parseRequestHead_cases {r r' : RequestData} {v : HeadVerdict}
    (h : parseRequestHead r = .ok (v, r')) :
    (v = .error ∧ ∃ hs H, r' = { r with hState := hs, headers := H }) ∨
    (v = .success ∧ ∃ str H, r' = { r with content := str, hState := .hEndLF, headers := H }) ∨
    (v = .again ∧ ∃ str hs H, hs ≠ .hEndLF ∧
      r' = { r with content := str, hState := hs, headers := H }) := by
  unfold parseRequestHead at h
  obtain ⟨it, -, h⟩ := bind_eq_ok.1 h
  cases it with
  | fail s => cases h; exact Or.inl ⟨rfl, _, _, rfl⟩
  | next s =>
    obtain ⟨str, -, h⟩ := bind_eq_ok.1 h
    by_cases hs : s.hState = .hEndLF
    · rw [hs] at h; cases h
      exact Or.inr (Or.inl ⟨rfl, str, s.headers, rfl⟩)
    · rw [if_neg hs] at h; cases h
      exact Or.inr (Or.inr ⟨rfl, str, s.hState, s.headers, hs, rfl⟩)

/-! ## One call reads the language -/

/-- Where the current line is kept from: its first byte, or the LF before it. -/
def LineStart (q : Bytes) (n : Nat) : Prop :=
  n = q.length ∨ ∃ q', q = q' ++ [LF] ∧ n = q'.length

theorem LineStart.le {q : Bytes} {n : Nat} (h : LineStart q n) : n ≤ q.length := by
  rcases h with rfl | ⟨q', rfl, rfl⟩
  · exact Nat.le_refl _
  · simp

/-- The loop has read `p`, and `HeaderText` has read `p` to `a`. -/
def Reads (p : Bytes) (s : HeadLoop) (a : Scan) : Prop :=
  s.notFinish = true ∧ s.headers = a.headers ∧
  match a.phase with
  | .blank => s.hState = .hStart ∧ s.nowReadLineBegin = 0
  | .name => s.hState = .hKey ∧ ∃ q, p = q ++ a.name ∧ a.name ≠ [] ∧ s.keyStart = q.length ∧
      LineStart q s.nowReadLineBegin
  | .colon => s.hState = .hColon ∧ ∃ q, p = q ++ a.name ++ [COLON] ∧ s.keyStart = q.length ∧
      s.keyEnd = (q ++ a.name).length ∧ LineStart q s.nowReadLineBegin
  | .gap => s.hState = .hSpacesAfterColon ∧ ∃ q, p = q ++ a.name ++ [COLON, SP] ∧
      s.keyStart = q.length ∧ s.keyEnd = (q ++ a.name).length ∧ LineStart q s.nowReadLineBegin
  | .value => s.hState = .hValue ∧ ∃ q, p = q ++ a.name ++ [COLON, SP] ++ a.value ∧ a.value ≠ [] ∧
      s.keyStart = q.length ∧ s.keyEnd = (q ++ a.name).length ∧
      s.valueStart = (q ++ a.name ++ [COLON, SP]).length ∧ LineStart q s.nowReadLineBegin
  | .cr => s.hState = .hCR ∧ ∃ q, p = q ++ a.name ++ [COLON, SP] ++ a.value ++ [CR] ∧
      s.keyStart = q.length ∧ s.keyEnd = (q ++ a.name).length ∧
      s.valueStart = (q ++ a.name ++ [COLON, SP]).length ∧
      s.valueEnd = (q ++ a.name ++ [COLON, SP] ++ a.value).length ∧ LineStart q s.nowReadLineBegin
  | .lf => s.hState = .hLF ∧ ∃ q, p = q ++ [LF] ∧ s.nowReadLineBegin = q.length
  | .endCr => s.hState = .hEndCR ∧ ∃ q, p = q ++ [LF, CR] ∧ s.nowReadLineBegin = q.length
  | .complete => s.hState = .hEndLF ∧ ∃ q, p = q ++ [LF, CR, LF] ∧ s.nowReadLineBegin = q.length
  | .broken => False

/-- The outcome of one pass, against the scanner's next state. -/
def StepReads (p : Bytes) (a : Scan) : Exec Iter → Prop
  | .ok (.next s) => Reads p s a
  | .ok (.fail s) => a.phase = .broken ∧ s.headers = a.headers
  | .error _ => False

/-- **One byte.** While the section is open, a pass of the loop does what `HeaderText` does. -/
theorem headStep_reads {p : Bytes} {s : HeadLoop} {a : Scan} (h : Reads p s a) (hd : ¬ a.Done)
    (c : Byte) (rest : Bytes) :
    StepReads (p ++ [c]) (a.next c) (headStep (p ++ c :: rest) p.length c s) := by
  obtain ⟨hn, hH, h⟩ := h
  cases hp : a.phase with
  | blank =>
    rw [hp] at h; obtain ⟨hs, hb⟩ := h
    unfold headStep Scan.next; rw [hs, hp]; dsimp only
    split
    · exact ⟨hn, hH, by rw [hp]; exact ⟨hs, hb⟩⟩
    · exact ⟨hn, hH, rfl, p, rfl, by simp, rfl, Or.inl rfl⟩
  | name =>
    rw [hp] at h; obtain ⟨hs, q, rfl, hne, hk, hb⟩ := h
    have hpos : 0 < a.name.length := List.length_pos_of_ne_nil hne
    unfold headStep Scan.next; rw [hs, hp]; dsimp only
    split
    · rename_i hc; subst hc
      rw [if_neg (by rw [hk, List.length_append]; push_cast; omega)]
      exact ⟨hn, hH, rfl, q, rfl, hk, rfl, hb⟩
    split
    · exact ⟨rfl, hH⟩
    · exact ⟨hn, hH, hs, q, by simp, by simp, hk, hb⟩
  | colon =>
    rw [hp] at h; obtain ⟨hs, q, rfl, hk, hke, hb⟩ := h
    unfold headStep Scan.next; rw [hs, hp]; dsimp only
    split
    · rename_i hc; subst hc
      exact ⟨hn, hH, rfl, q, by simp, hk, hke, hb⟩
    · exact ⟨rfl, hH⟩
  | gap =>
    rw [hp] at h; obtain ⟨hs, q, rfl, hk, hke, hb⟩ := h
    unfold headStep Scan.next; rw [hs, hp]
    exact ⟨hn, hH, rfl, q, rfl, by simp, hk, hke, rfl, hb⟩
  | value =>
    rw [hp] at h; obtain ⟨hs, q, rfl, hne, hk, hke, hv, hb⟩ := h
    have hpos : 0 < a.value.length := List.length_pos_of_ne_nil hne
    have hlen : ((q ++ a.name ++ [COLON, SP] ++ a.value).length : Int) - s.valueStart =
        a.value.length := by
      rw [hv]; simp only [List.length_append]; push_cast; omega
    unfold headStep Scan.next; rw [hs, hp]; dsimp only
    rw [hlen]
    split
    · rename_i hc; subst hc
      rw [if_neg (by omega)]
      exact ⟨hn, hH, rfl, q, rfl, hk, hke, hv, rfl, hb⟩
    by_cases hlong : 255 < a.value.length
    · rw [if_pos (show (a.value.length : Int) > 255 by omega), if_pos hlong]
      exact ⟨rfl, hH⟩
    · rw [if_neg (show ¬ (a.value.length : Int) > 255 by omega), if_neg hlong]
      exact ⟨hn, hH, hs, q, by simp, by simp, hk, hke, hv, hb⟩
  | cr =>
    rw [hp] at h; obtain ⟨hs, q, rfl, hk, hke, hv, hve, hb⟩ := h
    unfold headStep Scan.next; rw [hs, hp]; dsimp only
    split
    · rename_i hc; subst hc
      -- both slices lie inside the buffer and are the current name and value
      have hkey : slice (q ++ a.name ++ [COLON, SP] ++ a.value ++ [CR] ++ LF :: rest)
          s.keyStart s.keyEnd = .ok a.name := by
        rw [hk, hke, slice_ok (by simp) (by simp)]
        simp
      have hvalue : slice (q ++ a.name ++ [COLON, SP] ++ a.value ++ [CR] ++ LF :: rest)
          s.valueStart s.valueEnd = .ok a.value := by
        have e : q ++ a.name ++ [COLON, SP] ++ a.value ++ [CR] ++ LF :: rest =
            (q ++ a.name ++ [COLON, SP]) ++ (a.value ++ (CR :: LF :: rest)) := by simp
        have hlen : ∀ p : Bytes, (p ++ a.value).length = p.length + a.value.length := fun _ =>
          List.length_append
        rw [hv, hve, slice_ok (by simp) (by simp), e, List.drop_left, hlen, Nat.add_sub_cancel_left,
          List.take_left]
      rw [hkey, hvalue]
      exact ⟨hn, by rw [hH], rfl, _, rfl, rfl⟩
    · exact ⟨rfl, hH⟩
  | lf =>
    rw [hp] at h; obtain ⟨hs, q, rfl, hb⟩ := h
    unfold headStep Scan.next; rw [hs, hp]; dsimp only
    split
    · rename_i hc; subst hc
      exact ⟨hn, hH, rfl, q, by simp, hb⟩
    · exact ⟨hn, hH, rfl, q ++ [LF], rfl, by simp, rfl, Or.inr ⟨q, rfl, hb⟩⟩
  | endCr =>
    rw [hp] at h; obtain ⟨hs, q, rfl, hb⟩ := h
    unfold headStep Scan.next; rw [hs, hp]; dsimp only
    split
    · rename_i hc; subst hc
      exact ⟨hn, hH, rfl, q, by simp, hb⟩
    · exact ⟨rfl, hH⟩
  | complete => exact absurd (Or.inl hp) hd
  | broken => exact absurd (Or.inr hp) hd

/-- The loop over bytes that leave the section open. -/
theorem headLoop_open {cs : Bytes} : ∀ {p : Bytes} {s : HeadLoop} {a : Scan} (rest : Bytes),
    Reads p s a → ¬ (HeaderText.run a cs).Done → (p ++ cs).length ≤ 2147483647 →
    ∃ s', Reads (p ++ cs) s' (HeaderText.run a cs) ∧
      headLoop (p ++ cs ++ rest) p.length (cs ++ rest) s =
        headLoop (p ++ cs ++ rest) (p ++ cs).length rest s' := by
  induction cs with
  | nil => intro p s a rest h _ _; exact ⟨s, by simpa using h, by simp⟩
  | cons c cs ih =>
    intro p s a rest h hopen hlen
    have ha : ¬ a.Done := HeaderText.not_done_of_append (u := []) hopen
    have hnext : ¬ (a.next c).Done := HeaderText.not_done_of_append (s := a.next c) (u := []) hopen
    have hstep := headStep_reads h ha c (cs ++ rest)
    have estr : p ++ c :: (cs ++ rest) = p ++ c :: cs ++ rest := by simp
    rw [estr] at hstep
    cases hr : headStep (p ++ c :: cs ++ rest) p.length c s with
    | error e => rw [hr] at hstep; exact hstep.elim
    | ok it =>
      rw [hr] at hstep
      cases it with
      | fail s' => exact absurd (Or.inr hstep.1) hnext
      | next s' =>
        have e : p ++ c :: cs = p ++ [c] ++ cs := by simp
        obtain ⟨s'', hR, hloop⟩ := ih rest hstep hopen (by rw [← e]; exact hlen)
        refine ⟨s'', by rw [e]; exact hR, ?_⟩
        have hi : p.length ≠ 2147483647 := by simp at hlen; omega
        rw [List.cons_append, headLoop, if_pos h.1, hr]
        simp only [bind, Except.bind]
        rw [if_neg hi, e]
        rw [show p.length + 1 = (p ++ [c]).length by simp]
        exact hloop

theorem reads_init (H : Headers) : Reads [] (.init .hStart H) (Scan.start H) :=
  ⟨rfl, rfl, rfl, rfl⟩

theorem reads_again {p : Bytes} {s : HeadLoop} {a : Scan} (h : Reads p s a) (hd : ¬ a.Done) :
    s.hState ≠ .hEndLF ∧ s.nowReadLineBegin ≤ p.length := by
  obtain ⟨-, -, h⟩ := h
  cases hp : a.phase <;> rw [hp] at h
  · rw [h.1, h.2]; simp
  · obtain ⟨hs, q, rfl, -, -, hb⟩ := h; have := hb.le; rw [hs]; simp; omega
  · obtain ⟨hs, q, rfl, -, -, hb⟩ := h; have := hb.le; rw [hs]; simp; omega
  · obtain ⟨hs, q, rfl, -, -, hb⟩ := h; have := hb.le; rw [hs]; simp; omega
  · obtain ⟨hs, q, rfl, -, -, -, -, hb⟩ := h; have := hb.le; rw [hs]; simp; omega
  · obtain ⟨hs, q, rfl, -, -, -, -, hb⟩ := h; have := hb.le; rw [hs]; simp; omega
  · obtain ⟨hs, q, rfl, hb⟩ := h; rw [hs, hb]; simp
  · obtain ⟨hs, q, rfl, hb⟩ := h; rw [hs, hb]; simp
  · exact absurd (Or.inl hp) hd
  · exact h.elim

/-- **An open section**: the call returns `PARSE_HEADER_AGAIN` with the headers read so far, and
keeps the bytes from the start of the current line. -/
theorem parseRequestHead_open {r : RequestData} (h0 : r.hState = .hStart)
    (hlen : r.content.length < 2147483648)
    (hopen : ¬ (HeaderText.run (Scan.start r.headers) r.content).Done) :
    ∃ s, Reads r.content s (HeaderText.run (Scan.start r.headers) r.content) ∧
      parseRequestHead r = .ok (.again, { r with
        content := r.content.drop s.nowReadLineBegin
        hState := s.hState
        headers := (HeaderText.run (Scan.start r.headers) r.content).headers }) := by
  obtain ⟨s, hR, hloop⟩ := headLoop_open [] (reads_init r.headers) hopen (by simp; omega)
  simp only [List.nil_append, List.append_nil, List.length_nil] at hR hloop
  obtain ⟨hne, hle⟩ := reads_again hR hopen
  refine ⟨s, hR, ?_⟩
  unfold parseRequestHead
  rw [h0, hloop, headLoop]
  simp only [bind, Except.bind, substr_npos hle, hR.2.1]
  rw [if_neg hne]

/-- **A section that breaks** at the byte `c`: the call returns `PARSE_HEADER_ERROR` whatever
follows. -/
theorem parseRequestHead_breaks {r : RequestData} (h0 : r.hState = .hStart) {u : Bytes} {c : Byte}
    {v : Bytes} (hw : r.content = u ++ c :: v) (hlen : u.length ≤ 2147483647)
    (hu : ¬ (HeaderText.run (Scan.start r.headers) u).Done)
    (hc : ((HeaderText.run (Scan.start r.headers) u).next c).phase = .broken) :
    ∃ hs, parseRequestHead r = .ok (.error, { r with
      hState := hs
      headers := ((HeaderText.run (Scan.start r.headers) u).next c).headers }) := by
  obtain ⟨s, hR, hloop⟩ := headLoop_open (c :: v) (reads_init r.headers) hu hlen
  simp only [List.nil_append, List.length_nil, ← hw] at hR hloop
  have hstep := headStep_reads hR hu c v
  rw [← hw] at hstep
  unfold parseRequestHead
  rw [h0, hloop, headLoop, if_pos hR.1]
  cases hr : headStep r.content u.length c s with
  | error e => rw [hr] at hstep; exact hstep.elim
  | ok it =>
    rw [hr] at hstep
    cases it with
    | next s' =>
      have := hstep.2.2; rw [hc] at this; exact this.elim
    | fail s' =>
      refine ⟨s'.hState, ?_⟩
      simp only [bind, Except.bind, hstep.2]

theorem parseRequestHead_broken {r : RequestData} (h0 : r.hState = .hStart)
    (hlen : r.content.length < 2147483648)
    (hb : (HeaderText.run (Scan.start r.headers) r.content).phase = .broken) :
    ∃ hs, parseRequestHead r = .ok (.error, { r with
      hState := hs
      headers := (HeaderText.run (Scan.start r.headers) r.content).headers }) := by
  have hstart : ¬ (Scan.start r.headers).Done := by simp [Scan.Done, Scan.start]
  obtain ⟨u, c, v, hw, hu, hd, hrun⟩ := HeaderText.exists_deciding hstart (Or.inr hb)
  rw [hrun] at hb ⊢
  exact parseRequestHead_breaks h0 hw (by rw [hw] at hlen; simp at hlen; omega) hu hb

/-- **A complete section** `u ++ [c]` followed by `v`: the call returns `PARSE_HEADER_SUCCESS` and
leaves `v`, except that it leaves the LF CR LF of the section's end when nothing follows. -/
theorem parseRequestHead_completes {r : RequestData} (h0 : r.hState = .hStart) {u : Bytes} {c : Byte}
    {v : Bytes} (hw : r.content = u ++ c :: v)
    (hlen : u.length < 2147483646 ∨ r.content.length < 2147483648)
    (hu : ¬ (HeaderText.run (Scan.start r.headers) u).Done)
    (hc : ((HeaderText.run (Scan.start r.headers) u).next c).phase = .complete) :
    parseRequestHead r = .ok (.success, { r with
      content := if v = [] then [LF, CR, LF] else v
      hState := .hEndLF
      headers := ((HeaderText.run (Scan.start r.headers) u).next c).headers }) := by
  have hlast : u.length < 2147483646 ∨ u.length + 1 + v.length < 2147483648 := by
    rw [hw] at hlen
    simpa [Nat.add_assoc, Nat.add_comm 1] using hlen
  obtain ⟨s, hR, hloop⟩ := headLoop_open (c :: v) (reads_init r.headers) hu (by simp; omega)
  simp only [List.nil_append, List.length_nil, ← hw] at hR hloop
  have hstep := headStep_reads hR hu c v
  rw [← hw] at hstep
  unfold parseRequestHead
  rw [h0, hloop, headLoop, if_pos hR.1]
  cases hr : headStep r.content u.length c s with
  | error e => rw [hr] at hstep; exact hstep.elim
  | ok it =>
    rw [hr] at hstep
    cases it with
    | fail s' => have := hstep.1; rw [hc] at this; cases this
    | next s' =>
      obtain ⟨hn, hH, hst⟩ := hstep
      rw [hc] at hst
      obtain ⟨hs, q, hq, hb⟩ := hst
      have hi : u.length ≠ 2147483647 := by omega
      simp only [bind, Except.bind]
      rw [if_neg hi]
      cases v with
      | nil =>
        -- nothing read past the end: the line start is still the LF of the last header line
        have hcont : r.content = q ++ [LF, CR, LF] := by rw [hw, ← hq]
        have hdrop : substr r.content s'.nowReadLineBegin npos = .ok [LF, CR, LF] := by
          rw [hcont, hb, substr_npos (by simp), List.drop_left]
        rw [headLoop]
        simp only [hdrop, hs, if_true, hH]
      | cons x v =>
        have hcont : r.content = (u ++ [c]) ++ (x :: v) := by rw [hw]; simp
        have hpass : headStep r.content (u.length + 1) x s' = .ok (.next { s' with
            notFinish := false, keyStart := ((u.length + 1 : Nat) : Int),
            nowReadLineBegin := u.length + 1 }) := by
          unfold headStep; rw [hs]
        have hdrop : substr r.content (u.length + 1) npos = .ok (x :: v) := by
          rw [hcont, substr_npos (by simp), show u.length + 1 = (u ++ [c]).length by simp,
            List.drop_left]
        have hi' : u.length + 1 ≠ 2147483647 := by rw [List.length_cons] at hlast; omega
        rw [headLoop, if_pos hn, hpass]
        simp only [bind, Except.bind]
        rw [if_neg hi']
        cases v with
        | nil => rw [headLoop]; simp only [hdrop, hs, if_true, hH]; simp
        | cons y v =>
          rw [headLoop, if_neg (by simp)]
          simp only [hdrop, hs, if_true, hH]; simp

theorem parseRequestHead_complete {r : RequestData} (h0 : r.hState = .hStart)
    (hlen : r.content.length < 2147483648) {u : Bytes} {c : Byte} {v : Bytes}
    (hw : r.content = u ++ c :: v)
    (hu : ¬ (HeaderText.run (Scan.start r.headers) u).Done)
    (hc : ((HeaderText.run (Scan.start r.headers) u).next c).phase = .complete) :
    parseRequestHead r = .ok (.success, { r with
      content := if v = [] then [LF, CR, LF] else v
      hState := .hEndLF
      headers := ((HeaderText.run (Scan.start r.headers) u).next c).headers }) :=
  parseRequestHead_completes h0 hw (Or.inr hlen) hu hc

/-- The verdict a section deserves. -/
def Scan.verdict (a : Scan) : HeadVerdict :=
  match a.phase with
  | .complete => .success
  | .broken => .error
  | _ => .again

/-- **One call on a whole section** gives the verdict and the headers of `HeaderText`. -/
theorem parseRequestHead_verdict {r : RequestData} (h0 : r.hState = .hStart)
    (hlen : r.content.length < 2147483648) :
    (parseRequestHead r).map (fun x => (x.1, x.2.headers)) =
      .ok ((HeaderText.run (Scan.start r.headers) r.content).verdict,
        (HeaderText.run (Scan.start r.headers) r.content).headers) := by
  have hstart : ¬ (Scan.start r.headers).Done := by simp [Scan.Done, Scan.start]
  by_cases hd : (HeaderText.run (Scan.start r.headers) r.content).Done
  · rcases hd with hc | hb
    · obtain ⟨u, c, v, hw, hu, -, hrun⟩ := HeaderText.exists_deciding hstart (Or.inl hc)
      have hphase : ((HeaderText.run (Scan.start r.headers) u).next c).phase = .complete :=
        (congrArg Scan.phase hrun).symm.trans hc
      rw [parseRequestHead_complete h0 hlen hw hu hphase]
      simp only [Except.map, Scan.verdict, hc]
      rw [congrArg Scan.headers hrun]; rfl
    · obtain ⟨hs, e⟩ := parseRequestHead_broken h0 hlen hb
      rw [e]; simp only [Except.map, Scan.verdict, hb]
  · obtain ⟨s, -, e⟩ := parseRequestHead_open h0 hlen hd
    have hv : (HeaderText.run (Scan.start r.headers) r.content).verdict = .again := by
      unfold Scan.verdict; split
      · rename_i hc; exact absurd (Or.inl hc) hd
      · rename_i hb; exact absurd (Or.inr hb) hd
      · rfl
    rw [e, hv]; rfl

/-! ## A call that resumes inside a line -/

/-- The states between the first byte of a name and the LF that ends its line. -/
def InsideLine : HeadersState → Prop
  | .hKey | .hColon | .hSpacesAfterColon | .hValue | .hCR => True
  | .hStart | .hLF | .hEndCR | .hEndLF => False

/-- With no start for the name, a pass stays inside the line, fails, or cuts a slice outside the
buffer. -/
theorem headStep_resumed {str : Bytes} {i : Nat} {c : Byte} {s s' : HeadLoop} (hk : s.keyStart < 0)
    (hin : InsideLine s.hState) (h : headStep str i c s = .ok (.next s')) :
    s'.keyStart < 0 ∧ InsideLine s'.hState := by
  unfold headStep at h
  cases hs : s.hState <;> rw [hs] at h hin <;> simp only [InsideLine] at hin <;> dsimp only at h
  · split at h
    · split at h
      · cases h
      · cases h; exact ⟨hk, trivial⟩
    · split at h
      · cases h
      · cases h; exact ⟨hk, by rw [hs]; trivial⟩
  · split at h
    · cases h; exact ⟨hk, trivial⟩
    · cases h
  · cases h; exact ⟨hk, trivial⟩
  · split at h
    · split at h
      · cases h
      · cases h; exact ⟨hk, trivial⟩
    · split at h
      · cases h
      · cases h; exact ⟨hk, by rw [hs]; trivial⟩
  · split at h
    · rw [slice_neg hk] at h; cases h
    · cases h

theorem headLoop_resumed {str : Bytes} : ∀ {rest : Bytes} {i : Nat} {s s' : HeadLoop},
    s.keyStart < 0 → InsideLine s.hState → headLoop str i rest s = .ok (.next s') →
    InsideLine s'.hState
  | [], i, s, s', _, hin, h => by rw [headLoop] at h; cases h; exact hin
  | c :: rest, i, s, s', hk, hin, h => by
    rw [headLoop] at h
    split at h
    · obtain ⟨it, hstep, h⟩ := bind_eq_ok.1 h
      cases it with
      | fail s₁ => cases h
      | next s₁ =>
        obtain ⟨hk₁, hin₁⟩ := headStep_resumed hk hin hstep
        dsimp only at h
        split at h
        · cases h
        · exact headLoop_resumed hk₁ hin₁ h
    · cases h; exact hin

/-- **A call that resumes inside a line never succeeds.** -/
theorem parseRequestHead_resumed {r r' : RequestData} {v : HeadVerdict}
    (hin : InsideLine r.hState) (h : parseRequestHead r = .ok (v, r')) : v ≠ .success := by
  unfold parseRequestHead at h
  obtain ⟨it, hloop, h⟩ := bind_eq_ok.1 h
  cases it with
  | fail s => cases h; simp
  | next s =>
    have hs := headLoop_resumed (by simp [HeadLoop.init]) hin hloop
    obtain ⟨str, -, h⟩ := bind_eq_ok.1 h
    have hne : s.hState ≠ .hEndLF := by intro e; rw [e] at hs; exact hs
    rw [if_neg hne] at h
    cases h; simp

end HPServer
