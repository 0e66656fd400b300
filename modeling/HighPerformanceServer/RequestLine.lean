import HighPerformanceServer.RequestData
/-!
# `requestData::parse_request_line` (requestData.cpp:217-274)

The function is cut at the blank lines of the source: `takeRequestLine` (:218-231) takes the
request line off `content`, `parseMethod` (:234-241), `parseUrl` (:243-255) and `parseVersion`
(:257-270) read it from left to right. The `int pos` one of them leaves behind is what the next
one starts from, as in the source: `parseVersion` looks for `'/'` from the length of the target,
in a string the target has already been cut off of.
-/

namespace HPServer

open CppStd

/-- `PARSE_URI_SUCCESS`, `PARSE_URI_AGAIN`, `PARSE_URI_ERROR` (`requestData.h:20-22`). -/
inductive UriVerdict where
  | success | again | error
deriving DecidableEq, Repr

/-- Lines 218-231: the request line and what follows its CR; `none` when there is no CR yet. -/
def takeRequestLine (content : Bytes) (nowReadPos : Int) : Exec (Option (Bytes × Bytes)) :=
  let pos := toInt (find content CR (toSize nowReadPos))
  if pos < 0 then .ok none
  else do
    let requestLine ← substr content 0 (toSize pos)
    let next ← incr pos
    if toSize next < content.length then
      let str ← substr content (toSize next) npos
      .ok (some (requestLine, str))
    else .ok (some (requestLine, []))

/-- Lines 234-237: `pos`, the method code and the rest of the request line. -/
def parseMethod (requestLine : Bytes) : Exec (Int × MethodCode × Bytes) := do
  let pos := toInt (find requestLine SP 0)
  let temp ← substr requestLine 0 (toSize pos)
  let next ← incr pos
  let rest ← substr requestLine (toSize next) npos
  .ok (pos, getMethod temp, rest)

/-- Lines 243-255: `pos`, the rest of the request line and `file_name`; `none` when the target has
no `'/'`. A target that is neither `/` nor has a `'?'` leaves `file_name` as it was. -/
def parseUrl (requestLine fileName : Bytes) : Exec (Option (Int × Bytes × Bytes)) := do
  let pos := toInt (find requestLine SP 0)
  let temp ← substr requestLine 0 (toSize pos)
  let next ← incr pos
  let rest ← substr requestLine (toSize next) npos
  if temp = ascii "/" then .ok (some (pos, rest, ascii "index.html"))
  else
    match find temp SLASH 0 with
    | none => .ok none
    | some _ =>
      match find temp QMARK 0 with
      | none => .ok (some (pos, rest, fileName))
      | some q => do
        let name ← substr temp 0 q
        .ok (some (pos, rest, name))

/-- Lines 257-270; `none` is `PARSE_URI_ERROR`. -/
def parseVersion (pos : Int) (requestLine : Bytes) : Exec (Option HttpVersion) := do
  let pos := toInt (find requestLine SLASH (toSize pos))
  if pos < 0 ∨ requestLine.length - toSize pos ≤ 3 then .ok none
  else
    let next ← incr pos
    let version ← substr requestLine (toSize next) 3
    if version = ascii "1.0" then .ok (some .http10)
    else if version = ascii "1.1" then .ok (some .http11)
    else .ok none

def parseRequestLine (r : RequestData) : Exec (UriVerdict × RequestData) := do
  match ← takeRequestLine r.content r.nowReadPos with
  | none => .ok (.again, r)
  | some (requestLine, str) =>
    let (pos, method, requestLine) ← parseMethod requestLine
    let r := { r with content := str, method := method }
    if pos < 0 ∨ method = .invalid then .ok (.error, r)
    else
      match ← parseUrl requestLine r.fileName with
      | none => .ok (.error, r)
      | some (pos, requestLine, fileName) =>
        let r := { r with fileName := fileName }
        match ← parseVersion pos requestLine with
        | none => .ok (.error, r)
        | some version =>
          .ok (.success, { r with httpVersion := version, state := .parseHeaders })

/-! ## Where the line is cut -/

/-- A string cut at a byte that stands in its first two gigabytes. -/
theorem cut_spec {p q : Bytes} {c : Byte} (hc : c ∉ p) (hlen : p.length < 2147483647) :
    toInt (find (p ++ c :: q) c 0) = p.length ∧ toSize p.length = p.length ∧
      substr (p ++ c :: q) 0 p.length = .ok p ∧
      incr p.length = .ok ((p.length : Int) + 1) ∧ toSize ((p.length : Int) + 1) = p.length + 1 ∧
      substr (p ++ c :: q) (p.length + 1) npos = .ok q := by
  refine ⟨?_, toSize_natCast (by omega), ?_, incr_of_lt hlen, toSize_succ hlen, ?_⟩
  · rw [find_append hc, toInt, sizeToInt_of_lt (by omega)]
  · rw [substr_zero _ (by unfold npos; omega), List.take_left]
  · rw [substr_npos (by simp)]
    simp [List.drop_append]

theorem takeRequestLine_spec {line rest : Bytes} (hc : CR ∉ line) (hlen : line.length < 2147483647) :
    takeRequestLine (line ++ CR :: rest) 0 = .ok (some (line, rest)) := by
  obtain ⟨h1, h2, h3, h4, h5, h6⟩ := cut_spec (q := rest) hc hlen
  have h0 : toSize 0 = 0 := rfl
  simp only [takeRequestLine, h0, h1, h2, h3, h4, h5, h6, bind, Except.bind]
  rw [if_neg (by omega)]
  cases rest with
  | nil => simp
  | cons x xs => simp

/-- In less than two gigabytes, the line ends at the first CR. -/
theorem takeRequestLine_some {content line str : Bytes} (hlen : content.length < 2147483648)
    (h : takeRequestLine content 0 = .ok (some (line, str))) :
    CR ∉ line ∧ line.length < 2147483647 ∧ content = line ++ CR :: str := by
  cases hf : find content CR 0 with
  | none =>
    have h0 : find content CR (toSize 0) = none := hf
    simp [takeRequestLine, h0, toInt] at h
  | some P =>
    obtain ⟨hcr, hcut, hP⟩ := find_zero_some hf
    have htake : (content.take P).length = P := by rw [List.length_take]; omega
    rw [hcut, takeRequestLine_spec hcr (by omega)] at h
    simp only [Except.ok.injEq, Option.some.injEq, Prod.mk.injEq] at h
    obtain ⟨rfl, rfl⟩ := h
    exact ⟨hcr, by omega, hcut⟩

/-- What the first cut does when the first CR stands at `P`, whatever is behind it: it waits,
overflows, or cuts at some `k ≤ P`. -/
theorem takeRequestLine_at (P : Nat) :
    (∀ content, find content CR 0 = some P → takeRequestLine content 0 = .ok none) ∨
    (∀ content, find content CR 0 = some P → takeRequestLine content 0 = .error .undefined) ∨
    ∃ k, k ≤ P ∧ k < 2147483647 ∧ ∀ content, find content CR 0 = some P →
      takeRequestLine content 0 = .ok (some (content.take k, content.drop (k + 1))) := by
  have h0 : toSize 0 = 0 := rfl
  have cutAt : ∀ k : Nat, k ≤ P → k < 2147483647 → sizeToInt P = k → ∀ content,
      find content CR 0 = some P →
        takeRequestLine content 0 = .ok (some (content.take k, content.drop (k + 1))) := by
    intro k hk hlt e content h
    have hP := (find_zero_some h).2.2
    have h1 : toSize (k : Int) = k := toSize_natCast (by omega)
    have h2 : toSize ((k : Int) + 1) = k + 1 := toSize_succ hlt
    have h3 : substr content 0 k = .ok (content.take k) := substr_zero _ (by unfold npos; omega)
    have h4 : substr content (k + 1) npos = .ok (content.drop (k + 1)) := substr_npos (by omega)
    simp only [takeRequestLine, h0, h, toInt, e, h1, incr_of_lt hlt, h2, h3, h4, bind, Except.bind]
    rw [if_neg (by omega)]
    split
    · rfl
    · rename_i hge; rw [List.drop_of_length_le (by omega)]
  have overflows : sizeToInt P = (2147483647 : Nat) → ∀ content, find content CR 0 = some P →
      takeRequestLine content 0 = .error .undefined := by
    intro hmax content h
    simp only [takeRequestLine, h0, h, toInt, hmax]
    rw [if_neg (by omega), toSize_natCast (by omega), substr_zero _ (by unfold npos; omega)]
    rfl
  rcases sizeToInt_cases P with hneg | heq | ⟨k, hk, hlt, hle⟩
  · exact Or.inl fun content h => by simp [takeRequestLine, h0, h, toInt, hneg]
  · by_cases hlt : P < 2147483647
    · exact Or.inr (Or.inr ⟨P, Nat.le_refl _, hlt, cutAt P (Nat.le_refl _) hlt heq⟩)
    · have hmax : P = 2147483647 := by
        have : sizeToInt P < 2147483648 := by unfold sizeToInt; rw [Int.bmod_def]; omega
        omega
      exact Or.inr (Or.inl (overflows (by rw [heq, hmax])))
  · by_cases hmax : k = 2147483647
    · exact Or.inr (Or.inl (overflows (by rw [hk, hmax])))
    · exact Or.inr (Or.inr ⟨k, by omega, by omega, cutAt k (by omega) (by omega) hk⟩)

theorem takeRequestLine_cases {content : Bytes} {P : Nat} (h : find content CR 0 = some P) :
    takeRequestLine content 0 = .ok none ∨ takeRequestLine content 0 = .error .undefined ∨
    ∃ k, k ≤ P ∧ k < 2147483647 ∧
      takeRequestLine content 0 = .ok (some (content.take k, content.drop (k + 1))) := by
  rcases takeRequestLine_at P with hnone | hover | ⟨k, hk, hlt, hcut⟩
  · exact Or.inl (hnone content h)
  · exact Or.inr (Or.inl (hover content h))
  · exact Or.inr (Or.inr ⟨k, hk, hlt, hcut content h⟩)

theorem parseMethod_spec {m rest : Bytes} (hm : SP ∉ m) (hlen : m.length < 2147483647) :
    parseMethod (m ++ SP :: rest) = .ok ((m.length : Int), getMethod m, rest) := by
  obtain ⟨h1, h2, h3, h4, h5, h6⟩ := cut_spec (q := rest) hm hlen
  simp only [parseMethod, h1, h2, h3, h4, h5, h6, bind, Except.bind]

/-- The target is accepted as soon as it has a `'/'`, and `pos` is left at its length. -/
theorem parseUrl_spec {t : Bytes} (rest : Bytes) (ht : SP ∉ t) (hlen : t.length < 2147483647) (hs : SLASH ∈ t)
    (fileName : Bytes) :
    ∃ name, parseUrl (t ++ SP :: rest) fileName = .ok (some ((t.length : Int), rest, name)) := by
  obtain ⟨h1, h2, h3, h4, h5, h6⟩ := cut_spec (q := rest) ht hlen
  simp only [parseUrl, h1, h2, h3, h4, h5, h6, bind, Except.bind]
  split
  · exact ⟨_, rfl⟩
  · cases hf : find t SLASH 0 with
    | none => exact absurd hs (find_zero_none hf)
    | some n =>
      cases hq : find t QMARK 0 with
      | none => exact ⟨_, rfl⟩
      | some q =>
        have hlt := (find_zero_some hq).2.2
        simp only [substr_zero t (show q ≠ npos by unfold npos; omega)]
        exact ⟨_, rfl⟩

/-! ## Which well-formed request lines are accepted -/

/-- The methods and versions a well-formed request line names, with their codes. -/
def methodNames : List (Bytes × MethodCode) := [(ascii "GET", .get), (ascii "POST", .post)]
def versionNames : List (Bytes × HttpVersion) := [(ascii "1.0", .http10), (ascii "1.1", .http11)]

/-- The version is found from `pos` on exactly when `pos` is not past the `'/'` of `HTTP/`. -/
theorem parseVersion_spec {v : Bytes} {vc : HttpVersion} (hv : (v, vc) ∈ versionNames) {n : Nat}
    (hn : n < 2147483647) :
    parseVersion n (ascii "HTTP/" ++ v) = .ok (if n ≤ 4 then some vc else none) := by
  have hsize : toSize (n : Int) = n := toSize_natCast (by omega)
  simp only [versionNames, List.mem_cons, Prod.mk.injEq, List.not_mem_nil, or_false] at hv
  by_cases h : n ≤ 4
  · rw [if_pos h]
    have : n = 0 ∨ n = 1 ∨ n = 2 ∨ n = 3 ∨ n = 4 := by omega
    rcases hv with ⟨rfl, rfl⟩ | ⟨rfl, rfl⟩ <;> rcases this with rfl | rfl | rfl | rfl | rfl <;> decide
  · rw [if_neg h]
    have hnone : find (ascii "HTTP/" ++ v) SLASH n = none := by
      unfold find
      split
      · have h47 : ∀ w ∈ [ascii "HTTP/1.0", ascii "HTTP/1.1"], SLASH ∉ w.drop 5 := by decide
        have hw : ascii "HTTP/" ++ v ∈ [ascii "HTTP/1.0", ascii "HTTP/1.1"] := by
          rcases hv with ⟨rfl, rfl⟩ | ⟨rfl, rfl⟩ <;> decide
        have : ((ascii "HTTP/" ++ v).drop n).findIdx? (· == SLASH) = none := by
          rw [List.findIdx?_eq_none_iff]
          intro x hx
          have hx5 : x ∈ (ascii "HTTP/" ++ v).drop 5 := by
            rw [show n = 5 + (n - 5) by omega, ← List.drop_drop] at hx
            exact List.mem_of_mem_drop hx
          simp only [beq_eq_false_iff_ne, ne_eq]; rintro rfl; exact h47 _ hw hx5
        simp [this]
      · rfl
    simp only [parseVersion, hsize, hnone, toInt]
    rfl

/-- What a well-formed request line should leave behind. -/
def LineAccepted (mc : MethodCode) (vc : HttpVersion) (rest : Bytes)
    (out : Exec (UriVerdict × RequestData)) : Prop :=
  ∃ r', out = .ok (.success, r') ∧ r'.method = mc ∧ r'.httpVersion = vc ∧
    r'.state = .parseHeaders ∧ r'.content = rest

/-- The bytes of a request line with its CR, and what follows. -/
def requestLineText (m t v rest : Bytes) : Bytes :=
  (m ++ SP :: (t ++ SP :: (ascii "HTTP/" ++ v))) ++ CR :: rest

/-- A well-formed request line that is cut at its own CR. -/
theorem parseRequestLine_cutAtCR {r : RequestData} (hr : r.nowReadPos = 0) {m : Bytes}
    {mc : MethodCode} (hm : (m, mc) ∈ methodNames) {t : Bytes} (hs : SLASH ∈ t) (hsp : SP ∉ t)
    {v : Bytes} {vc : HttpVersion} (hv : (v, vc) ∈ versionNames) (rest : Bytes)
    (hlen : t.length < 2147483647)
    (hcut : takeRequestLine (requestLineText m t v rest) 0 =
      .ok (some (m ++ SP :: (t ++ SP :: (ascii "HTTP/" ++ v)), rest))) :
    ∃ r', parseRequestLine { r with content := requestLineText m t v rest } =
        .ok (if t.length ≤ 4 then .success else .error, r') ∧ r'.content = rest ∧ r'.method = mc ∧
      (t.length ≤ 4 → r'.httpVersion = vc ∧ r'.state = .parseHeaders) := by
  have hmc : SP ∉ m ∧ m.length < 2147483647 ∧ getMethod m = mc ∧ mc ≠ .invalid := by
    simp only [methodNames, List.mem_cons, Prod.mk.injEq, List.not_mem_nil, or_false] at hm
    rcases hm with ⟨rfl, rfl⟩ | ⟨rfl, rfl⟩ <;> decide
  obtain ⟨h1, h2, h3, h4⟩ := hmc
  obtain ⟨name, hurl⟩ := parseUrl_spec (ascii "HTTP/" ++ v) hsp hlen hs r.fileName
  simp only [parseRequestLine, hr, hcut, bind, Except.bind, parseMethod_spec h1 h2, h3]
  rw [if_neg (by simp [h4])]
  simp only [hurl, parseVersion_spec hv hlen]
  by_cases h : t.length ≤ 4
  · simp [h]
  · simp [h]

/-- Everything a call that returns can do: nothing, or take a line off `content` and then fail
with `method` and `file_name` possibly overwritten, or succeed with all four fields set. -/
theorem parseRequestLine_cases {r r' : RequestData} {v : UriVerdict}
    (h : parseRequestLine r = .ok (v, r')) :
    (v = .again ∧ r' = r ∧ takeRequestLine r.content r.nowReadPos = .ok none) ∨
    ∃ line str pos mc rest, takeRequestLine r.content r.nowReadPos = .ok (some (line, str)) ∧
      parseMethod line = .ok (pos, mc, rest) ∧
      ((v = .error ∧ ∃ name, r' = { r with content := str, method := mc, fileName := name }) ∨
       (v = .success ∧ ¬ (pos < 0 ∨ mc = .invalid) ∧ ∃ pos' rest' name vc,
          parseUrl rest r.fileName = .ok (some (pos', rest', name)) ∧
          parseVersion pos' rest' = .ok (some vc) ∧
          r' = { r with content := str, method := mc, fileName := name, httpVersion := vc,
                        state := .parseHeaders })) := by
  unfold parseRequestLine at h
  obtain ⟨cut, hcut, h⟩ := bind_eq_ok.1 h
  cases cut with
  | none => cases h; exact Or.inl ⟨rfl, rfl, hcut⟩
  | some p =>
    obtain ⟨line, str⟩ := p
    obtain ⟨⟨pos, mc, rest⟩, hm, h⟩ := bind_eq_ok.1 h
    refine Or.inr ⟨line, str, pos, mc, rest, hcut, hm, ?_⟩
    dsimp only at h
    split at h
    · cases h; exact Or.inl ⟨rfl, r.fileName, rfl⟩
    · rename_i hok
      obtain ⟨url, hurl, h⟩ := bind_eq_ok.1 h
      cases url with
      | none => cases h; exact Or.inl ⟨rfl, r.fileName, rfl⟩
      | some u =>
        obtain ⟨pos', rest', name⟩ := u
        obtain ⟨version, hver, h⟩ := bind_eq_ok.1 h
        cases version with
        | none => cases h; exact Or.inl ⟨rfl, name, rfl⟩
        | some vc =>
          cases h
          exact Or.inr ⟨rfl, hok, pos', rest', name, vc, hurl, hver, rfl⟩

/-- **Bug** (`requestData.cpp:258`): `pos` still holds the length of the target when the `'/'` of
`HTTP/` is looked for in what is left after the target, so a well-formed request line is accepted
exactly when its target has at most four bytes. -/
theorem wellFormed_accepted_iff {r : RequestData} (hr : r.nowReadPos = 0) {m : Bytes}
    {mc : MethodCode} (hm : (m, mc) ∈ methodNames) {t : Bytes} (hs : t.head? = some SLASH)
    (hsp : SP ∉ t) (hcr : CR ∉ t) {v : Bytes} {vc : HttpVersion} (hv : (v, vc) ∈ versionNames)
    (rest : Bytes) :
    LineAccepted mc vc rest (parseRequestLine { r with content := requestLineText m t v rest }) ↔
      t.length ≤ 4 := by
  have hmem : SLASH ∈ t := List.mem_of_mem_head? hs
  have hmv : CR ∉ m ∧ m.length ≤ 4 ∧ CR ∉ v ∧ v.length = 3 := by
    simp only [methodNames, versionNames, List.mem_cons, Prod.mk.injEq, List.not_mem_nil,
      or_false] at hm hv
    rcases hm with ⟨rfl, rfl⟩ | ⟨rfl, rfl⟩ <;> rcases hv with ⟨rfl, rfl⟩ | ⟨rfl, rfl⟩ <;> decide
  obtain ⟨hcm, hlm, hcv, hlv⟩ := hmv
  have hhttp : CR ∉ ascii "HTTP/" ∧ (ascii "HTTP/").length = 5 ∧ CR ≠ SP := by decide
  generalize hline : m ++ SP :: (t ++ SP :: (ascii "HTTP/" ++ v)) = line
  have htext : requestLineText m t v rest = line ++ CR :: rest := by rw [requestLineText, hline]
  have hcline : CR ∉ line := by
    rw [← hline]
    simp only [List.mem_append, List.mem_cons, hcm, hcr, hhttp.1, hhttp.2.2, hcv, or_self,
      not_false_eq_true]
  have hll : line.length = m.length + t.length + 10 := by
    rw [← hline]; simp [hhttp.2.1, hlv]; omega
  -- a line cut at its own CR is accepted exactly for a short target
  have main : takeRequestLine (requestLineText m t v rest) 0 = .ok (some (line, rest)) →
      t.length < 2147483647 → (LineAccepted mc vc rest
        (parseRequestLine { r with content := requestLineText m t v rest }) ↔ t.length ≤ 4) := by
    intro hcut hlen
    obtain ⟨r', hp, hc, hmc, hok⟩ := parseRequestLine_cutAtCR hr hm hmem hsp hv rest hlen
      (by rw [hline]; exact hcut)
    by_cases h4 : t.length ≤ 4
    · simp only [h4, if_true, iff_true] at hp ⊢
      exact ⟨r', hp, hmc, (hok h4).1, (hok h4).2, hc⟩
    · simp only [h4, if_false, iff_false] at hp ⊢
      rintro ⟨r'', hacc, -⟩
      rw [hp] at hacc; cases hacc
  by_cases hlen : line.length < 2147483647
  · exact main (by rw [htext]; exact takeRequestLine_spec hcline hlen) (by omega)
  · -- past 2^31 bytes the CR's position wraps, and the line is cut short or not at all
    have hfind : find (line ++ CR :: rest) CR 0 = some line.length := find_append hcline rest
    rcases takeRequestLine_cases hfind with hnone | hover | ⟨k, hk, hklt, hcut⟩
    · rw [← htext] at hnone
      refine iff_of_false ?_ (by omega)
      rintro ⟨r', hacc, -⟩
      rcases parseRequestLine_cases hacc with ⟨hv', -⟩ | ⟨_, _, _, _, _, hc, -⟩
      · cases hv'
      · simp only [hr, hnone] at hc; cases hc
    · rw [← htext] at hover
      refine iff_of_false ?_ (by omega)
      rintro ⟨r', hacc, -⟩
      rcases parseRequestLine_cases hacc with ⟨hv', -⟩ | ⟨_, _, _, _, _, hc, -⟩
      · cases hv'
      · simp only [hr, hover] at hc; cases hc
    · rw [← htext] at hcut
      refine iff_of_false ?_ (by omega)
      rintro ⟨r', hacc, -, -, -, hrest⟩
      rcases parseRequestLine_cases hacc with ⟨hv', -⟩ | ⟨_, str, _, _, _, hc, -, hr'⟩
      · cases hv'
      · simp only [hr, hcut, Except.ok.injEq, Option.some.injEq, Prod.mk.injEq] at hc
        have hstr : r'.content = str := by
          rcases hr' with ⟨-, _, rfl⟩ | ⟨-, -, _, _, _, _, -, -, rfl⟩ <;> rfl
        have hlen' := congrArg List.length (hc.2.trans (hstr.symm.trans hrest))
        rw [htext] at hlen'
        simp only [List.length_drop, List.length_append, List.length_cons] at hlen'
        omega

/-- `GET /index.html HTTP/1.1` is turned away. -/
theorem indexHtml_rejected :
    ¬ LineAccepted .get .http11 (ascii "\nHost: a" ++ CRLF)
      (parseRequestLine { RequestData.new 3 5 (ascii "/") with
        content := requestLineText (ascii "GET") (ascii "/index.html") (ascii "1.1")
          (ascii "\nHost: a" ++ CRLF) }) := by
  rintro ⟨r', h, -⟩
  have hv : (parseRequestLine { RequestData.new 3 5 (ascii "/") with
        content := requestLineText (ascii "GET") (ascii "/index.html") (ascii "1.1")
          (ascii "\nHost: a" ++ CRLF) }).map Prod.fst = .ok .error := by decide
  rw [h] at hv; cases hv

/-- The accepted side at `GET /a HTTP/1.0`. -/
theorem shortTarget_accepted :
    LineAccepted .get .http10 (ascii "\n")
      (parseRequestLine { RequestData.new 3 5 (ascii "/") with
        content := requestLineText (ascii "GET") (ascii "/a") (ascii "1.0") (ascii "\n") }) :=
  (wellFormed_accepted_iff (r := RequestData.new 3 5 (ascii "/")) rfl (by decide) (by decide)
    (by decide) (by decide) (by decide) (ascii "\n")).2 (by decide)

end HPServer
