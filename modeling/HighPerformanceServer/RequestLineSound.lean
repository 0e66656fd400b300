import HighPerformanceServer.RequestLine
/-!
# What `parse_request_line` accepts, and in how many pieces

`RequestLine` is a line the parser takes for a request line. A call on less than two gigabytes
always returns: it waits for the CR, or reads the fields of the line before it
(`parseRequestLine_eq`), and on success that line is a `RequestLine` (`parseFields_cases`). What
stands behind the CR plays no part, so the bytes may arrive in any pieces (`feedLine_flatten`).
-/

namespace HPServer

open CppStd

/-- `m ' ' t ' ' w`, where `w` has a `'/'` directly in front of a version. -/
structure RequestLine where
  method : Bytes
  code : MethodCode
  known : (method, code) ∈ methodNames
  target : Bytes
  target_free : SP ∉ target
  target_slash : SLASH ∈ target
  before : Bytes
  version : Bytes
  versionCode : HttpVersion
  version_known : (version, versionCode) ∈ versionNames
  after : Bytes

def RequestLine.text (l : RequestLine) : Bytes :=
  l.method ++ SP :: (l.target ++ SP :: (l.before ++ SLASH :: (l.version ++ l.after)))

/-! ## A missing separator

`npos` becomes `-1` as an `int`: the string before the separator is then the whole string, and so
is the one behind it. -/

theorem npos_cut (s : Bytes) :
    toSize (-1) = npos ∧ incr (-1) = .ok 0 ∧ toSize 0 = 0 ∧ substr s 0 npos = .ok s := by
  refine ⟨rfl, rfl, rfl, ?_⟩
  rw [substr_npos (Nat.zero_le _), List.drop_zero]

theorem find_none {s : Bytes} {c : Byte} (h : c ∉ s) : toInt (find s c 0) = -1 := by
  rw [find_of_notMem h]
  rfl

theorem parseMethod_noSpace {s : Bytes} (h : SP ∉ s) : parseMethod s = .ok (-1, getMethod s, s) := by
  obtain ⟨h1, h2, h3, h4⟩ := npos_cut s
  simp only [parseMethod, find_none h, h1, h2, h3, h4, bind, Except.bind]

/-- Without its second space a request line leaves `pos` at `-1`. -/
theorem parseUrl_noSpace {s : Bytes} (h : SP ∉ s) (fileName : Bytes) :
    parseUrl s fileName = .ok none ∨ ∃ name, parseUrl s fileName = .ok (some (-1, s, name)) := by
  obtain ⟨h1, h2, h3, h4⟩ := npos_cut s
  simp only [parseUrl, find_none h, h1, h2, h3, h4, bind, Except.bind]
  split
  · exact Or.inr ⟨_, rfl⟩
  cases find s SLASH 0 with
  | none => exact Or.inl rfl
  | some n =>
    cases hq : find s QMARK 0 with
    | none => exact Or.inr ⟨_, rfl⟩
    | some q =>
      obtain ⟨name, hname⟩ : ∃ name, substr s 0 q = .ok name := ⟨_, if_pos (Nat.zero_le _)⟩
      simp only [hname]
      exact Or.inr ⟨name, rfl⟩

theorem parseUrl_noSlash {t : Bytes} (rest : Bytes) (ht : SP ∉ t) (hlen : t.length < 2147483647)
    (hs : SLASH ∉ t) (fileName : Bytes) : parseUrl (t ++ SP :: rest) fileName = .ok none := by
  obtain ⟨h1, h2, h3, h4, h5, h6⟩ := cut_spec (q := rest) ht hlen
  have hne : t ≠ ascii "/" := by
    rintro rfl
    exact hs (by decide)
  have hnone : find t SLASH 0 = none := by
    cases hf : find t SLASH 0 with
    | none => rfl
    | some n =>
      obtain ⟨-, hcut, -⟩ := find_zero_some hf
      exact absurd (by rw [hcut]; simp) hs
  simp only [parseUrl, h1, h2, h3, h4, h5, h6, if_neg hne, hnone, bind, Except.bind]

theorem parseVersion_noSpace {s : Bytes} (hlen : s.length < 2147483648) :
    parseVersion (-1) s = .ok none := by
  have hbig : toSize (-1) = npos := rfl
  have hnone : find s SLASH npos = none := by
    unfold find
    rw [if_neg (by unfold npos; omega)]
  simp only [parseVersion, hbig, hnone, toInt]
  rw [if_pos (Or.inl (by decide))]

/-- The version stands behind a `'/'`. -/
theorem parseVersion_cases {n : Nat} (hn : n < 2147483648) {s : Bytes} (hlen : s.length < 2147483648) :
    parseVersion n s = .ok none ∨ ∃ vc u v x, parseVersion n s = .ok (some vc) ∧
      s = u ++ SLASH :: (v ++ x) ∧ (v, vc) ∈ versionNames := by
  have hsize : toSize (n : Int) = n := toSize_natCast (by omega)
  simp only [parseVersion, hsize]
  cases hf : find s SLASH n with
  | none => exact Or.inl (if_pos (Or.inl (by decide)))
  | some k =>
    have hk : k < s.length ∧ s = s.take k ++ SLASH :: s.drop (k + 1) := by
      unfold find at hf
      split at hf
      · obtain ⟨m, hm, rfl⟩ := Option.map_eq_some_iff.1 hf
        obtain ⟨hlt, hc, -⟩ := List.findIdx?_eq_some_iff_getElem.1 hm
        rw [List.length_drop] at hlt
        have hbyte : s[m + n] = SLASH := by
          rw [List.getElem_drop] at hc
          simpa [Nat.add_comm] using hc
        refine ⟨by omega, ?_⟩
        rw [← hbyte, List.getElem_cons_drop (by omega), List.take_append_drop]
      · cases hf
    obtain ⟨hlt, hcut⟩ := hk
    have hpos : toInt (some k) = k := sizeToInt_of_lt (by omega)
    rw [hpos, toSize_natCast (by omega), incr_of_lt (by omega)]
    by_cases hshort : (k : Int) < 0 ∨ s.length - k ≤ 3
    · exact Or.inl (if_pos hshort)
    · rw [if_neg hshort]
      simp only [toSize_succ (show k < 2147483647 by omega), bind, Except.bind]
      have hsub : substr s (k + 1) 3 = .ok ((s.drop (k + 1)).take 3) := by
        simp [substr, npos, show k + 1 ≤ s.length by omega]
      have hword : s = s.take k ++ SLASH :: ((s.drop (k + 1)).take 3 ++ (s.drop (k + 1)).drop 3) := by
        rw [List.take_append_drop]; exact hcut
      rw [hsub]
      dsimp only
      split
      · rename_i hv
        exact Or.inr ⟨.http10, _, _, _, rfl, hword, by rw [hv]; decide⟩
      split
      · rename_i hv
        exact Or.inr ⟨.http11, _, _, _, rfl, hword, by rw [hv]; decide⟩
      · exact Or.inl rfl

/-! ## The fields of a line -/

/-- What is left of `parse_request_line` once the line has been taken off `content`. -/
def parseFields (r : RequestData) (line : Bytes) : Exec (UriVerdict × RequestData) := do
  let (pos, method, line) ← parseMethod line
  let r := { r with method := method }
  if pos < 0 ∨ method = .invalid then .ok (.error, r)
  else
    match ← parseUrl line r.fileName with
    | none => .ok (.error, r)
    | some (pos, line, fileName) =>
      let r := { r with fileName := fileName }
      match ← parseVersion pos line with
      | none => .ok (.error, r)
      | some version => .ok (.success, { r with httpVersion := version, state := .parseHeaders })

theorem parseRequestLine_taken {r : RequestData} {line str : Bytes}
    (h : takeRequestLine r.content r.nowReadPos = .ok (some (line, str))) :
    parseRequestLine r = parseFields { r with content := str } line := by
  rw [parseRequestLine, h]
  rfl

/-- The fields are read from the line alone. -/
theorem parseFields_rest (r : RequestData) (line str : Bytes) (H : Headers → Headers) :
    parseFields { r with content := str, headers := H r.headers } line =
      (parseFields r line).map fun x => (x.1, { x.2 with content := str, headers := H x.2.headers }) := by
  simp only [parseFields, bind, Except.bind]
  cases parseMethod line with
  | error e => rfl
  | ok x =>
    dsimp only
    by_cases hbad : x.1 < 0 ∨ x.2.1 = .invalid
    · simp only [if_pos hbad, Except.map]
    simp only [if_neg hbad]
    cases parseUrl x.2.2 r.fileName with
    | error e => rfl
    | ok url =>
      cases url with
      | none => rfl
      | some u =>
        dsimp only
        cases parseVersion u.1 u.2.1 with
        | error e => rfl
        | ok version => cases version <;> rfl

theorem parseFields_content (r : RequestData) (line str : Bytes) :
    parseFields { r with content := str } line =
      (parseFields r line).map fun x => (x.1, { x.2 with content := str }) :=
  parseFields_rest r line str id

/-- An error leaves `state` and `content` alone; success has read a `RequestLine`. -/
structure FieldsRead (r : RequestData) (line : Bytes) (v : UriVerdict) (r' : RequestData) : Prop where
  decided : v ≠ .again
  content : r'.content = r.content
  failed : v = .error → r'.state = r.state
  accepted : v = .success → ∃ l : RequestLine, line = l.text ∧ r'.method = l.code ∧
    r'.httpVersion = l.versionCode ∧ r'.state = .parseHeaders

/-- **Every missing separator** ends in an error: the fields of a short line are always read. -/
theorem parseFields_cases (r : RequestData) {line : Bytes} (hlen : line.length < 2147483647) :
    ∃ v r', parseFields r line = .ok (v, r') ∧ FieldsRead r line v r' := by
  have failed : ∀ {mc : MethodCode} {name : Bytes},
      FieldsRead r line .error { r with method := mc, fileName := name } :=
    ⟨by simp, rfl, fun _ => rfl, by simp⟩
  by_cases hsp : SP ∈ line
  · obtain ⟨m, x, rfl, hm⟩ := List.eq_append_cons_of_mem hsp
    have hlen' : m.length + x.length + 1 < 2147483647 := by simpa [Nat.add_assoc] using hlen
    simp only [parseFields, parseMethod_spec hm (show m.length < 2147483647 by omega), bind, Except.bind]
    by_cases hbad : getMethod m = .invalid
    · rw [if_pos (Or.inr hbad)]
      exact ⟨_, _, rfl, failed⟩
    rw [if_neg (by simp [hbad])]
    have hknown : (m, getMethod m) ∈ methodNames := by
      unfold getMethod at hbad ⊢
      split
      · rename_i h; rw [h]; decide
      split
      · rename_i h; rw [h]; decide
      · rename_i h1 h2; rw [if_neg h1, if_neg h2] at hbad; exact absurd rfl hbad
    by_cases hsp' : SP ∈ x
    · obtain ⟨t, w, rfl, ht⟩ := List.eq_append_cons_of_mem hsp'
      have hlen'' : t.length + w.length + 1 + m.length + 1 < 2147483647 := by
        simp at hlen'; omega
      by_cases hs : SLASH ∈ t
      · obtain ⟨name, hurl⟩ := parseUrl_spec w ht (by omega) hs r.fileName
        simp only [hurl]
        rcases parseVersion_cases (n := t.length) (by omega) (s := w) (by omega) with
          hv | ⟨vc, u, v, y, hv, hw, hvc⟩
        · rw [hv]; exact ⟨_, _, rfl, failed⟩
        · rw [hv]
          exact ⟨_, _, rfl, by simp, rfl, by simp, fun _ =>
            ⟨⟨m, _, hknown, t, ht, hs, u, v, vc, hvc, y⟩, by rw [RequestLine.text, hw], rfl, rfl, rfl⟩⟩
      · rw [parseUrl_noSlash w ht (by omega) hs]
        exact ⟨_, _, rfl, failed⟩
    · rcases parseUrl_noSpace hsp' r.fileName with hurl | ⟨name, hurl⟩
      · rw [hurl]; exact ⟨_, _, rfl, failed⟩
      · simp only [hurl, parseVersion_noSpace (show x.length < 2147483648 by omega)]
        exact ⟨_, _, rfl, failed⟩
  · simp only [parseFields, parseMethod_noSpace hsp, bind, Except.bind]
    rw [if_pos (Or.inl (by decide))]
    exact ⟨_, _, rfl, failed⟩

/-! ## One call -/

/-- Below two gigabytes there is no CR yet, or the line ends at the first one. -/
theorem takeRequestLine_total {content : Bytes} (hlen : content.length < 2147483648) :
    (CR ∉ content ∧ takeRequestLine content 0 = .ok none) ∨
    ∃ line str, content = line ++ CR :: str ∧ CR ∉ line ∧
      takeRequestLine content 0 = .ok (some (line, str)) := by
  by_cases hcr : CR ∈ content
  · obtain ⟨line, str, rfl, hline⟩ := List.eq_append_cons_of_mem hcr
    have hlt : line.length < 2147483647 := by simp at hlen; omega
    exact Or.inr ⟨line, str, rfl, hline, takeRequestLine_spec hline hlt⟩
  · refine Or.inl ⟨hcr, ?_⟩
    have h0 : toSize 0 = 0 := rfl
    simp only [takeRequestLine, h0, find_none hcr]
    rfl

/-- **What one call does**: it waits, or reads the fields of the line before the first CR and keeps
what follows. -/
theorem parseRequestLine_eq {r : RequestData} (h0 : r.nowReadPos = 0)
    (hlen : r.content.length < 2147483648) :
    (CR ∉ r.content ∧ parseRequestLine r = .ok (.again, r)) ∨
    ∃ line str v r', r.content = line ++ CR :: str ∧ CR ∉ line ∧ line.length < 2147483647 ∧
      parseFields r line = .ok (v, r') ∧ FieldsRead r line v r' ∧
      parseRequestLine r = .ok (v, { r' with content := str }) := by
  rcases takeRequestLine_total hlen with ⟨hcr, hcut⟩ | ⟨line, str, hcontent, hcr, hcut⟩
  · refine Or.inl ⟨hcr, ?_⟩
    rw [parseRequestLine, h0, hcut]
    rfl
  · have hlt : line.length < 2147483647 := by rw [hcontent] at hlen; simp at hlen; omega
    obtain ⟨v, r', hfields, hread⟩ := parseFields_cases r hlt
    refine Or.inr ⟨line, str, v, r', hcontent, hcr, hlt, hfields, hread, ?_⟩
    rw [parseRequestLine_taken (by rw [h0]; exact hcut), parseFields_content, hfields]
    rfl

/-- **Soundness**: no cut is out of range; success has read a `RequestLine` before the first CR and
keeps what follows it; an error has only taken the line off. -/
theorem parseRequestLine_sound {r : RequestData} (h0 : r.nowReadPos = 0)
    (hlen : r.content.length < 2147483648) :
    ∃ v r', parseRequestLine r = .ok (v, r') ∧
      (v = .success → ∃ l : RequestLine, CR ∉ l.text ∧ r.content = l.text ++ CR :: r'.content ∧
        r'.method = l.code ∧ r'.httpVersion = l.versionCode ∧ r'.state = .parseHeaders) ∧
      (v = .error → r'.state = r.state ∧ ∃ line, CR ∉ line ∧ r.content = line ++ CR :: r'.content) := by
  rcases parseRequestLine_eq h0 hlen with ⟨-, h⟩ | ⟨line, str, v, r', hcontent, hcr, -, -, hread, h⟩
  · exact ⟨_, _, h, by simp, by simp⟩
  · refine ⟨_, _, h, fun hv => ?_, fun hv => ⟨hread.failed hv, line, hcr, hcontent⟩⟩
    obtain ⟨l, rfl, hfields⟩ := hread.accepted hv
    exact ⟨l, hcr, hcontent, hfields⟩

theorem getSlash_sound : ∃ v r', parseRequestLine { RequestData.new 3 5 (ascii "/") with
      content := ascii "GET / HTTP/1.1\r\nHost" } = .ok (v, r') ∧
    (v = .success → ∃ l : RequestLine, CR ∉ l.text ∧
      ascii "GET / HTTP/1.1\r\nHost" = l.text ++ CR :: r'.content ∧ r'.method = l.code ∧
        r'.httpVersion = l.versionCode ∧ r'.state = .parseHeaders) ∧
    (v = .error → r'.state = .parseUri ∧
      ∃ line, CR ∉ line ∧ ascii "GET / HTTP/1.1\r\nHost" = line ++ CR :: r'.content) :=
  parseRequestLine_sound (r := { RequestData.new 3 5 (ascii "/") with
    content := ascii "GET / HTTP/1.1\r\nHost" }) rfl (by decide)

/-! ## Pieces -/

/-- The call on `a` and the one on `a ++ b`. -/
structure Extends (r : RequestData) (a b : Bytes) (v : UriVerdict) (r' : RequestData) : Prop where
  call : parseRequestLine { r with content := a } = .ok (v, r')
  waits : v = .again → r' = { r with content := a }
  decides : v ≠ .again → parseRequestLine { r with content := a ++ b } =
    .ok (v, { r' with content := r'.content ++ b })

theorem parseRequestLine_append {r : RequestData} (h0 : r.nowReadPos = 0) {a b : Bytes}
    (hlen : (a ++ b).length < 2147483648) : ∃ v r', Extends r a b v r' := by
  have ha : a.length < 2147483648 := by rw [List.length_append] at hlen; omega
  rcases parseRequestLine_eq (r := { r with content := a }) h0 ha with
    ⟨-, h⟩ | ⟨line, str, v, r', hcontent, hcr, hlt, hfields, hread, h⟩
  · exact ⟨_, _, h, fun _ => rfl, fun hv => absurd rfl hv⟩
  · refine ⟨v, _, h, fun hv => absurd hv hread.decided, fun _ => ?_⟩
    have hab : a ++ b = line ++ CR :: (str ++ b) := by
      have hcontent' : a = line ++ CR :: str := hcontent
      rw [hcontent', List.append_assoc, List.cons_append]
    have hfields' : parseFields { r with content := a ++ b } line =
        .ok (v, { r' with content := a ++ b }) := by
      have hcopy := parseFields_content { r with content := a } line (a ++ b)
      rwa [hfields] at hcopy
    have hcut : takeRequestLine (a ++ b) r.nowReadPos = .ok (some (line, str ++ b)) := by
      rw [h0, hab]; exact takeRequestLine_spec hcr hlt
    rw [parseRequestLine_taken (r := { r with content := a ++ b }) hcut]
    have hlast := parseFields_content { r with content := a ++ b } line (str ++ b)
    rw [hfields'] at hlast
    exact hlast

/-- One call a piece, up to the first verdict that is not `PARSE_URI_AGAIN`; the pieces behind it
are appended by later reads. -/
def feedLine : RequestData → List Bytes → Exec (UriVerdict × RequestData)
  | r, [] => .ok (.again, r)
  | r, c :: cs => do
    let (v, r) ← parseRequestLine { r with content := r.content ++ c }
    if v = .again then feedLine r cs else .ok (v, { r with content := r.content ++ cs.flatten })

/-- The pieces, behind bytes that have no CR. -/
theorem feedLine_waiting : ∀ (cs : List Bytes) {r : RequestData}, r.nowReadPos = 0 →
    parseRequestLine r = .ok (.again, r) → (r.content ++ cs.flatten).length < 2147483648 →
    feedLine r cs = parseRequestLine { r with content := r.content ++ cs.flatten }
  | [], r, _, hwait, _ => by
    rw [feedLine, List.flatten_nil, List.append_nil]
    exact hwait.symm
  | c :: cs, r, h0, _, hlen => by
    rw [List.flatten_cons, ← List.append_assoc] at hlen ⊢
    obtain ⟨v, r', hcall, hwaits, hdecides⟩ := parseRequestLine_append (r := r) h0 hlen
    rw [feedLine, hcall]
    simp only [bind, Except.bind]
    by_cases hv : v = .again
    · have hr' := hwaits hv
      rw [hv, hr'] at hcall
      rw [if_pos hv, hr']
      exact feedLine_waiting cs (r := { r with content := r.content ++ c }) h0 hcall hlen
    · rw [if_neg hv, hdecides hv]

/-- **Pieces.** A call that waits leaves the object as it is; a call that decides does so whatever
follows, which it keeps behind what it has left; so the calls on any pieces give what one call on
all the bytes gives. -/
theorem requestLine_pieces {r : RequestData} (h0 : r.nowReadPos = 0) :
    (∀ a b : Bytes, (a ++ b).length < 2147483648 →
      ∃ v r', parseRequestLine { r with content := a } = .ok (v, r') ∧
        (v = .again → r' = { r with content := a } ∧
          parseRequestLine { r' with content := r'.content ++ b } =
            parseRequestLine { r with content := a ++ b }) ∧
        (v ≠ .again → parseRequestLine { r with content := a ++ b } =
          .ok (v, { r' with content := r'.content ++ b }))) ∧
    ∀ cs : List Bytes, cs.flatten.length < 2147483648 →
      feedLine { r with content := [] } cs = parseRequestLine { r with content := cs.flatten } := by
  refine ⟨fun a b hlen => ?_, fun cs hlen => ?_⟩
  · obtain ⟨v, r', hcall, hwaits, hdecides⟩ := parseRequestLine_append h0 hlen
    refine ⟨v, r', hcall, fun hv => ⟨hwaits hv, ?_⟩, hdecides⟩
    rw [hwaits hv]
  · have hempty : parseRequestLine { r with content := [] } = .ok (.again, { r with content := [] }) := by
      rw [parseRequestLine, h0]
      rfl
    exact feedLine_waiting cs (r := { r with content := [] }) h0 hempty hlen

/-- `GET / HTTP/1.1`, cut right behind its CR. -/
theorem cutBehindCR_pieces : feedLine (.new 3 5 (ascii "/")) [ascii "GET / HT", ascii "TP/1.1\r", [LF]] =
    parseRequestLine { RequestData.new 3 5 (ascii "/") with
      content := [ascii "GET / HT", ascii "TP/1.1\r", [LF]].flatten } :=
  (requestLine_pieces (r := .new 3 5 (ascii "/")) rfl).2 [ascii "GET / HT", ascii "TP/1.1\r", [LF]]
    (by decide)

end HPServer
