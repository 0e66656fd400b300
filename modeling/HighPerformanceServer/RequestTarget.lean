import HighPerformanceServer.RequestLineSound
/-!
# Which file a target selects (requestData.cpp:243-255)

`file_name` is assigned for the target `/` and for a target with a `'?'`, and for no other.
-/

namespace HPServer

open CppStd

/-- What an accepted target leaves in `file_name`. -/
def targetName (t fileName : Bytes) : Bytes :=
  if t = ascii "/" then ascii "index.html"
  else
    match find t QMARK 0 with
    | none => fileName
    | some q => t.take q

theorem parseUrl_name {t : Bytes} (rest : Bytes) (ht : SP ∉ t) (hlen : t.length < 2147483647)
    {fileName : Bytes} {u : Int × Bytes × Bytes}
    (h : parseUrl (t ++ SP :: rest) fileName = .ok (some u)) : u.2.2 = targetName t fileName := by
  obtain ⟨h1, h2, h3, h4, h5, h6⟩ := cut_spec (q := rest) ht hlen
  simp only [parseUrl, h1, h2, h3, h4, h5, h6, bind, Except.bind] at h
  unfold targetName
  split at h
  · rename_i hroot
    cases h
    rw [if_pos hroot]
  · rename_i hroot
    rw [if_neg hroot]
    cases hs : find t SLASH 0 with
    | none => rw [hs] at h; cases h
    | some n =>
      rw [hs] at h
      cases hq : find t QMARK 0 with
      | none => rw [hq] at h; cases h; rfl
      | some q =>
        have hlt := (find_zero_some hq).2.2
        rw [hq] at h
        simp only [substr_zero t (show q ≠ npos by unfold npos; omega)] at h
        cases h
        rfl

/-- The bytes of a request line `m ' ' t ' ' w`. -/
def lineText (m t w : Bytes) : Bytes := m ++ SP :: (t ++ SP :: w)

section Accepted

variable {r r' : RequestData} {m t w rest : Bytes}

/-- An accepted line has taken `file_name` from its target, however long it is: a line that a
wrapped position cuts short is accepted only behind its target. -/
theorem accepted_target (h0 : r.nowReadPos = 0) (hm : SP ∉ m) (ht : SP ∉ t)
    (hcr : CR ∉ lineText m t w)
    (h : parseRequestLine { r with content := lineText m t w ++ CR :: rest } = .ok (.success, r')) :
    SLASH ∈ t ∧ r'.fileName = targetName t r.fileName := by
  obtain ⟨hv, -⟩ | ⟨line, str, pos, mc, x, hcut, hmethod, ⟨hv, -⟩ |
    ⟨-, hok, pos', x', name, vc, hurl, hversion, rfl⟩⟩ := parseRequestLine_cases h
  · cases hv
  · cases hv
  simp only [h0] at hcut
  -- the line taken is a beginning of the line, and its positions fit an `int`
  obtain ⟨tail, htail, hlt⟩ : ∃ tail, lineText m t w = line ++ tail ∧ line.length < 2147483647 := by
    have hfind : find (lineText m t w ++ CR :: rest) CR 0 = some (lineText m t w).length :=
      find_append hcr rest
    rcases takeRequestLine_cases hfind with hnone | hover | ⟨k, hk, hklt, htake⟩
    · rw [hnone] at hcut; cases hcut
    · rw [hover] at hcut; cases hcut
    · rw [htake] at hcut
      simp only [Except.ok.injEq, Option.some.injEq, Prod.mk.injEq] at hcut
      rw [List.take_append_of_le_length hk] at hcut
      refine ⟨(lineText m t w).drop k, by rw [← hcut.1, List.take_append_drop], ?_⟩
      rw [← hcut.1, List.length_take]
      omega
  -- its first space ends the method
  have hsp : SP ∈ line := by
    by_contra hsp
    rw [parseMethod_noSpace hsp] at hmethod
    cases hmethod
    exact hok (Or.inl (by decide))
  obtain ⟨m', y, rfl, hm'⟩ := List.eq_append_cons_of_mem hsp
  have hcut : m ++ SP :: (t ++ SP :: w) = m' ++ SP :: (y ++ tail) := by simpa [lineText] using htail
  obtain ⟨rfl, hy⟩ := cut_unique hm hm' hcut
  have hmlen : m.length + y.length + 1 < 2147483647 := by simpa [Nat.add_assoc] using hlt
  rw [parseMethod_spec hm (by omega)] at hmethod
  cases hmethod
  -- its second space ends the target
  have hsp' : SP ∈ x := by
    by_contra hsp'
    rcases parseUrl_noSpace hsp' r.fileName with hnone | ⟨name', hsome⟩
    · rw [hnone] at hurl; cases hurl
    · rw [hsome] at hurl
      cases hurl
      rw [parseVersion_noSpace (by omega)] at hversion
      cases hversion
  obtain ⟨t', z, rfl, ht'⟩ := List.eq_append_cons_of_mem hsp'
  have hcut' : t ++ SP :: w = t' ++ SP :: (z ++ tail) := by simpa using hy
  obtain ⟨rfl, -⟩ := cut_unique ht ht' hcut'
  have htlen : t.length < 2147483647 := by simp at hmlen; omega
  refine ⟨?_, parseUrl_name z ht htlen hurl⟩
  by_contra hs
  rw [parseUrl_noSlash z ht htlen hs] at hurl
  cases hurl

end Accepted

theorem targetName_query {t q fileName : Bytes} (hs : t ≠ []) (hq : QMARK ∉ t) :
    targetName (t ++ QMARK :: q) fileName = t := by
  have hroot : t ++ QMARK :: q ≠ ascii "/" := by
    intro h
    have hlen := congrArg List.length h
    have hpos := List.length_pos_iff.2 hs
    have hone : (ascii "/").length = 1 := by decide
    rw [hone] at hlen
    simp at hlen
    omega
  rw [targetName, if_neg hroot, find_append hq]
  exact List.take_left ..

theorem targetName_plain {t fileName : Bytes} (hq : QMARK ∉ t) :
    targetName t fileName = if t = ascii "/" then ascii "index.html" else fileName := by
  rw [targetName, find_of_notMem hq]

/-- A fresh object gets a name from `/`, and from a path in front of a `'?'`. -/
theorem targetName_ne_nil {t : Bytes} :
    targetName t [] ≠ [] ↔ t = ascii "/" ∨ (QMARK ∈ t ∧ t.head? ≠ some QMARK) := by
  by_cases hq : QMARK ∈ t
  · obtain ⟨p, q, rfl, hp⟩ := List.eq_append_cons_of_mem hq
    by_cases hpnil : p = []
    · subst hpnil
      have hne : [] ++ QMARK :: q ≠ ascii "/" := by
        intro h
        exact absurd (List.cons.inj h).1 (by decide)
      rw [targetName, if_neg hne, find_append hp]
      simpa using hne
    · obtain ⟨c, p, rfl⟩ := List.exists_cons_of_ne_nil hpnil
      have hc : c ≠ QMARK := fun h => hp (by simp [h])
      rw [targetName_query hpnil hp]
      simp [hc]
  · rw [targetName_plain hq]
    split
    · rename_i h
      exact iff_of_true (by decide) (Or.inl h)
    · rename_i h
      simp [h, hq]

/-- **Bug** (`requestData.cpp:246-255`): a path without a query leaves `file_name` as it was, and `/`
stands for another file than `/?..`. On a fresh object no two accepted lines that differ in a query
behind the path select one file; a name is selected exactly by `/` and by a path in front of a `'?'`. -/
theorem target_selects {r : RequestData} (h0 : r.nowReadPos = 0) (hname : r.fileName = []) :
    (∀ m t q w rest r₁ r₂, SP ∉ m → SP ∉ t → QMARK ∉ t → SP ∉ q → CR ∉ lineText m (t ++ QMARK :: q) w →
      parseRequestLine { r with content := lineText m t w ++ CR :: rest } = .ok (.success, r₁) →
      parseRequestLine { r with content := lineText m (t ++ QMARK :: q) w ++ CR :: rest } =
        .ok (.success, r₂) → r₁.fileName ≠ r₂.fileName) ∧
    (∀ m t w rest r', SP ∉ m → SP ∉ t → CR ∉ lineText m t w →
      parseRequestLine { r with content := lineText m t w ++ CR :: rest } = .ok (.success, r') →
      (r'.fileName ≠ [] ↔ t = ascii "/" ∨ (QMARK ∈ t ∧ t.head? ≠ some QMARK))) := by
  refine ⟨?_, ?_⟩
  · intro m t q w rest r₁ r₂ hm ht hq hsq hcr h₁ h₂
    have hsp : SP ∉ t ++ QMARK :: q := by
      have hne : SP ≠ QMARK := by decide
      simp [ht, hsq, hne]
    have hcr₁ : CR ∉ lineText m t w := by
      intro hmem
      refine hcr ?_
      simp only [lineText, List.mem_append, List.mem_cons] at hmem ⊢
      tauto
    obtain ⟨hs, hname₁⟩ := accepted_target h0 hm ht hcr₁ h₁
    have hne : t ≠ [] := List.ne_nil_of_mem hs
    rw [hname₁, (accepted_target h0 hm hsp hcr h₂).2, hname, targetName_plain hq, targetName_query hne hq]
    split
    · rename_i hroot
      rw [hroot]
      decide
    · exact Ne.symm hne
  · intro m t w rest r' hm ht hcr h
    rw [(accepted_target h0 hm ht hcr h).2, hname]
    exact targetName_ne_nil

/-- `GET /a HTTP/1.1` selects no file at all, `GET /?a HTTP/1.1` another one than `GET / HTTP/1.1`. -/
theorem plainPath_unnamed :
    ¬ ∀ r : RequestData, r.nowReadPos = 0 → r.fileName = [] →
      (∀ m t q w rest r₁ r₂, SP ∉ m → SP ∉ t → QMARK ∉ t → SP ∉ q →
        CR ∉ lineText m (t ++ QMARK :: q) w →
        parseRequestLine { r with content := lineText m t w ++ CR :: rest } = .ok (.success, r₁) →
        parseRequestLine { r with content := lineText m (t ++ QMARK :: q) w ++ CR :: rest } =
          .ok (.success, r₂) → r₁.fileName = r₂.fileName) ∧
      (∀ m t w rest r', SP ∉ m → SP ∉ t → CR ∉ lineText m t w →
        parseRequestLine { r with content := lineText m t w ++ CR :: rest } = .ok (.success, r') →
        r'.fileName ≠ []) := by
  intro h
  obtain ⟨hsame, hnamed⟩ := h (.new 3 5 (ascii "/")) rfl rfl
  have hroot := hsame (ascii "GET") (ascii "/") (ascii "a") (ascii "HTTP/1.1") [LF]
    { RequestData.new 3 5 (ascii "/") with
      content := [LF], fileName := ascii "index.html", method := .get, httpVersion := .http11,
      state := .parseHeaders }
    { RequestData.new 3 5 (ascii "/") with
      content := [LF], fileName := ascii "/", method := .get, httpVersion := .http11,
      state := .parseHeaders }
    (by decide) (by decide) (by decide) (by decide) (by decide) (by decide) (by decide)
  revert hroot
  decide

/-- The two accepted lines `GET /a HTTP/1.1` and `GET /a?b HTTP/1.1`. -/
theorem pathA_selects :
    ([] : Bytes) ≠ ascii "/a" ∧ (([] : Bytes) ≠ [] ↔
      ascii "/a" = ascii "/" ∨ (QMARK ∈ ascii "/a" ∧ (ascii "/a").head? ≠ some QMARK)) := by
  have h := target_selects (r := .new 3 5 (ascii "/")) rfl rfl
  have plain : parseRequestLine { RequestData.new 3 5 (ascii "/") with
      content := lineText (ascii "GET") (ascii "/a") (ascii "HTTP/1.1") ++ CR :: [LF] } =
    .ok (.success, { RequestData.new 3 5 (ascii "/") with
      content := [LF], method := .get, httpVersion := .http11, state := .parseHeaders }) := by decide
  have query : parseRequestLine { RequestData.new 3 5 (ascii "/") with
      content := lineText (ascii "GET") (ascii "/a" ++ QMARK :: ascii "b") (ascii "HTTP/1.1") ++ CR :: [LF] } =
    .ok (.success, { RequestData.new 3 5 (ascii "/") with
      content := [LF], fileName := ascii "/a", method := .get, httpVersion := .http11,
      state := .parseHeaders }) := by decide
  exact ⟨h.1 _ _ _ _ _ _ _ (by decide) (by decide) (by decide) (by decide) (by decide) plain query,
    h.2 _ _ _ _ _ (by decide) (by decide) (by decide) plain⟩

end HPServer
