import HighPerformanceServer.HeaderCuts
import HighPerformanceServer.HttpRequest
/-!
# A request that comes in pieces

`handleRequest` goes on where its last call has stopped. `Stands q c P r`: `r` is what the calls that
have read the bytes `P` of the request `q` have made of `c`. A cut between two reads does no harm in
the request line, in its CR LF, and in the body; between the first header and the blank line, and
directly behind that, it does (`SafeCut`).
-/

namespace HPServer

open CppStd

/-- The call behind `content += now_read`. -/
def onward (env : CallEnv) (r : RequestData) : Served :=
  match uriStage r >>= headStage with
  | .error e => ⟨[], leave e⟩
  | .ok r => bodyOnward env r

theorem serve_delivers {env : CallEnv} {b : Bytes} (h : env.Delivers b) (r : RequestData) :
    serve env r = onward env { r with content := r.content ++ b } := by
  unfold serve parseStages
  rw [(readStage_delivers h r).2]
  rfl

theorem delivers_ne_nil {env : CallEnv} {b : Bytes} (h : env.Delivers b) : b ≠ [] := by
  obtain ⟨x, hx, hpos, rfl⟩ := h
  intro hnil
  rcases (readn_ret hx).2 with hret | hret
  · omega
  · rw [hnil] at hret
    have hzero : sizeToInt ([] : Bytes).length = 0 := by decide
    omega

/-- Constructed, or left by `reset`, and without a timer. -/
structure Fresh (c : RequestData) : Prop extends Idle c where
  fileName : c.fileName = []
  headers : c.headers = ∅
  keepAlive : c.keepAlive = false
  timer : c.timer = none

namespace HttpRequest

variable {q : HttpRequest} {c r : RequestData} {env : CallEnv} {P b : Bytes}

/-- Behind the request line. -/
def lined (q : HttpRequest) (c : RequestData) (content : Bytes) : RequestData :=
  { c with
    content := content
    method := q.method
    fileName := targetName q.target []
    httpVersion := q.versionCode
    state := .parseHeaders }

/-- Behind the blank line. -/
def headed (q : HttpRequest) (c : RequestData) (content : Bytes) : RequestData :=
  { q.lined c content with
    hState := .hEndLF
    headers := headersOf q.fields ∅
    state := if q.method = .post then .recvBody else .analysis }

theorem verb_free (q : HttpRequest) : SP ∉ q.verb ∧ CR ∉ q.verb ∧ q.verb.length ≤ 4 ∧
    getMethod q.verb = q.method ∧ (q.method = .get ∨ q.method = .post) := by
  have hknown := q.known
  simp only [methodNames, List.mem_cons, Prod.mk.injEq, List.not_mem_nil, or_false] at hknown
  rcases hknown with ⟨hverb, hmethod⟩ | ⟨hverb, hmethod⟩ <;> rw [hverb, hmethod] <;> decide

theorem version_free (q : HttpRequest) :
    CR ∉ ascii "HTTP/" ++ q.version ∧ (ascii "HTTP/" ++ q.version).length = 8 := by
  have hknown := q.version_known
  simp only [versionNames, List.mem_cons, Prod.mk.injEq, List.not_mem_nil, or_false] at hknown
  rcases hknown with ⟨hversion, -⟩ | ⟨hversion, -⟩ <;> rw [hversion] <;> decide

theorem line_free (q : HttpRequest) : CR ∉ q.line ∧ q.line.length ≤ 18 := by
  obtain ⟨-, hverb, hlen, -⟩ := q.verb_free
  obtain ⟨hversion, hlen'⟩ := q.version_free
  have hshort := q.target_short
  have hsp : CR ≠ SP := by decide
  constructor
  · simp only [line, List.mem_append, List.mem_cons, not_or] at hversion ⊢
    exact ⟨hverb, hsp, q.target_free.2, hsp, hversion⟩
  · simp only [line, List.length_append, List.length_cons] at hlen' ⊢
    omega

theorem uriStage_line (hc : Fresh c) (rest : Bytes) :
    uriStage { c with content := q.line ++ CR :: rest } = .ok (q.lined c rest) := by
  obtain ⟨hcr, hlen⟩ := q.line_free
  obtain ⟨hsp, -, hverb, hmethod, hknown⟩ := q.verb_free
  have hshort := q.target_short
  obtain ⟨name, hurl⟩ := parseUrl_spec (ascii "HTTP/" ++ q.version) q.target_free.1
    (by omega) q.slash c.fileName
  have hname := parseUrl_name _ q.target_free.1 (by omega) hurl
  dsimp only at hname
  rw [hc.fileName] at hname
  have htaken : parseRequestLine { c with content := q.line ++ CR :: rest } =
      parseFields { c with content := rest } q.line := by
    refine parseRequestLine_taken (r := { c with content := q.line ++ CR :: rest }) ?_
    dsimp only
    rw [hc.nowReadPos]
    exact takeRequestLine_spec hcr (by omega)
  have hok : ¬((q.verb.length : Int) < 0 ∨ q.method = .invalid) := by
    rcases hknown with h | h <;> simp [h]
  have hversion := parseVersion_spec q.version_known (n := q.target.length) (by omega)
  rw [if_pos hshort] at hversion
  have hline : parseMethod q.line =
      .ok ((q.verb.length : Int), q.method, q.target ++ SP :: (ascii "HTTP/" ++ q.version)) := by
    rw [← hmethod]
    exact parseMethod_spec hsp (by omega)
  unfold uriStage
  rw [if_pos (by exact hc.state)]
  simp only [htaken, parseFields, bind, Except.bind, hline, if_neg hok, hurl, hversion]
  rw [hname]
  rfl

theorem uriStage_part (hc : Fresh c) (hP : CR ∉ P) (hlen : P.length < 2147483648) :
    uriStage { c with content := P } = .error (.brk false { c with content := P }) := by
  have hcut : takeRequestLine P 0 = .ok none := by
    rcases takeRequestLine_total hlen with ⟨-, h⟩ | ⟨line, str, rfl, -⟩
    · exact h
    · exact absurd (by simp) hP
  have hagain : parseRequestLine { c with content := P } = .ok (.again, { c with content := P }) := by
    unfold parseRequestLine
    dsimp only
    rw [hc.nowReadPos, hcut]
    rfl
  unfold uriStage
  rw [if_pos (by exact hc.state), hagain]

theorem headStage_blank (hc : Fresh c) (hb : HeaderText.Blank b) (hlen : b.length < 2147483648) :
    headStage (q.lined c b) = .error (.brk false (q.lined c b)) := by
  have hagain : parseRequestHead (q.lined c b) = .ok (.again, q.lined c b) :=
    parseRequestHead_blank hc.hState hlen hb
  unfold headStage
  rw [if_pos (by rfl), hagain]

/-- The lines of the section, its blank line, and what follows. -/
theorem headStage_section (hc : Fresh c) (b : Bytes) :
    headStage (q.lined c (LF :: (printHeaders q.fields ++ CRLF) ++ b)) = .ok (q.headed c (leftover b)) := by
  obtain ⟨hstored, hphase⟩ := HeaderText.run_lines (a := Scan.start ∅) (q.fields.map HeaderField.loose)
    (by rw [← printHeaders_loose]; exact fun c hc => Or.inr ⟨rfl, printHeaders_head c hc⟩)
  rw [← printHeaders_loose, ← headersOf_loose] at hstored
  rw [← printHeaders_loose] at hphase
  have hline := hphase (by simpa using q.fields_ne)
  have hblank : HeaderText.Blank [LF] := by decide
  have hrun : HeaderText.run (Scan.start c.headers) (LF :: printHeaders q.fields ++ [CR]) =
      { HeaderText.run (Scan.start ∅) (printHeaders q.fields) with phase := .endCr } := by
    rw [hc.headers, ← List.singleton_append, HeaderText.run_append, HeaderText.run_append,
      HeaderText.run_blank hblank]
    show Scan.next _ CR = _
    rw [Scan.next, hline]
    rfl
  have hshort := q.fields_short
  unfold MAX_BUFF at hshort
  have hsection : parseRequestHead (q.lined c (LF :: (printHeaders q.fields ++ CRLF) ++ b)) =
      .ok (.success, { q.lined c (leftover b) with hState := .hEndLF, headers := headersOf q.fields ∅ }) := by
    rw [parseRequestHead_completes (r := q.lined c _) hc.hState
      (u := LF :: printHeaders q.fields ++ [CR]) (c := LF) (v := b) (by simp [lined, CRLF])
      (Or.inl (by simp; omega))]
    · rw [show (q.lined c _).headers = c.headers from rfl, hrun]
      simp only [Scan.next, hstored]
      rfl
    · rw [show (q.lined c _).headers = c.headers from rfl, hrun]
      simp [Scan.Done]
    · rw [show (q.lined c _).headers = c.headers from rfl, hrun]
      rfl
  unfold headStage
  rw [if_pos (by rfl), hsection]
  unfold headed
  dsimp only
  by_cases hpost : q.method = .post
  · rw [if_pos (by exact hpost), if_pos hpost]
  · rw [if_neg (by exact hpost), if_neg hpost]

/-! ## What a call does with all the bytes so far -/

theorem onward_part (hc : Fresh c) (hP : CR ∉ P) (hlen : P.length < 2147483648) :
    onward env { c with content := P } = ⟨[], .rearm { c with content := P }⟩ := by
  have hstate : c.state ≠ .finish := by rw [hc.state]; simp
  simp only [onward, uriStage_part hc hP hlen, bind, Except.bind, leave, if_neg hstate]

theorem onward_lined (hc : Fresh c) (b : Bytes) :
    onward env { c with content := q.line ++ CR :: b } = onward env (q.lined c b) := by
  have hskip : uriStage (q.lined c b) = .ok (q.lined c b) := if_neg (by simp [lined])
  unfold onward
  rw [uriStage_line hc, hskip]

theorem onward_blank (hc : Fresh c) (hb : HeaderText.Blank b) (hlen : b.length < 2147483648) :
    onward env (q.lined c b) = ⟨[], .rearm (q.lined c b)⟩ := by
  have hskip : uriStage (q.lined c b) = .ok (q.lined c b) := if_neg (by simp [lined])
  have hstate : (q.lined c b).state ≠ .finish := by simp [lined]
  simp only [onward, hskip, bind, Except.bind, headStage_blank hc hb hlen, leave, if_neg hstate]

theorem onward_head (hc : Fresh c) (b : Bytes) :
    onward env { c with content := q.head ++ b } = bodyOnward env (q.headed c (leftover b)) := by
  have htext : q.head ++ b = q.line ++ CR :: (LF :: (printHeaders q.fields ++ CRLF) ++ b) := by
    simp [head]
  have hskip : ∀ b, uriStage (q.lined c b) = .ok (q.lined c b) := fun b => if_neg (by simp [lined])
  rw [htext, onward_lined hc]
  unfold onward
  rw [hskip]
  simp only [bind, Except.bind, headStage_section hc]

theorem onward_headed (b : Bytes) : onward env (q.headed c b) = bodyOnward env (q.headed c b) := by
  have huri : uriStage (q.headed c b) = .ok (q.headed c b) := by
    refine if_neg ?_
    unfold headed
    dsimp only
    split <;> simp
  have hhead : headStage (q.headed c b) = .ok (q.headed c b) := by
    refine if_neg ?_
    unfold headed
    dsimp only
    split <;> simp
  simp only [onward, huri, bind, Except.bind, hhead]

/-! ## Where the object stands between two reads -/

/-- What has come of `q` when `c` has become `r`: a part of the request line, the line and its CR LF
or a part of that, or the head and some of the body. -/
inductive Stands (q : HttpRequest) (c : RequestData) : Bytes → RequestData → Prop
  | line {P : Bytes} (hP : CR ∉ P) : Stands q c P { c with content := P }
  | lined {b : Bytes} (hb : HeaderText.Blank b) : Stands q c (q.line ++ CR :: b) (q.lined c b)
  | headed {b : Bytes} (hb : b ≠ []) : Stands q c (q.head ++ b) (q.headed c b)

/-- **The next call** decides as if all the bytes had come in one read. -/
theorem Stands.onward_append (h : q.Stands c P r) (hc : Fresh c) (env : CallEnv) (s : Bytes) :
    onward env { r with content := r.content ++ s } = onward env { c with content := P ++ s } := by
  cases h with
  | line => rfl
  | @lined b hb =>
    rw [List.append_assoc, List.cons_append, onward_lined hc]
    rfl
  | @headed b hb =>
    have hne : b ++ s ≠ [] := by simp [hb]
    rw [List.append_assoc, onward_head hc, leftover, if_neg hne]
    exact onward_headed (b ++ s)

/-- A read may end here. -/
def SafeCut (q : HttpRequest) (n : Nat) : Prop := n ≤ q.line.length + 2 ∨ q.head.length < n

instance (q : HttpRequest) (n : Nat) : Decidable (q.SafeCut n) := inferInstanceAs (Decidable (_ ∨ _))

/-- A beginning of the request that a read may end with. -/
theorem safeCut_cases {P R : Bytes} (htext : P ++ R = q.text) (hR : R ≠ []) (hsafe : q.SafeCut P.length) :
    CR ∉ P ∧ P.length ≤ 18 ∨ (∃ b, HeaderText.Blank b ∧ b.length ≤ 1 ∧ P = q.line ++ CR :: b) ∨
      ∃ b, b ≠ [] ∧ b.length < q.body.length ∧ P = q.head ++ b := by
  have hP : P = q.text.take P.length := by rw [← htext, List.take_left]
  have hshort : P.length < q.text.length := by
    have hpos := List.length_pos_iff.2 hR
    rw [← htext, List.length_append]
    omega
  rcases hsafe with hline | hhead
  · have hsplit : ∀ b, q.line ++ CR :: b <+: q.text → P.length = (q.line ++ CR :: b).length →
        P = q.line ++ CR :: b := by
      rintro b ⟨x, hx⟩ hlen
      rw [hP, hlen, ← hx, List.take_left]
    rcases Nat.lt_or_ge q.line.length P.length with hlt | hle
    · right
      left
      by_cases hone : P.length = q.line.length + 1
      · exact ⟨[], HeaderText.blank_nil, Nat.zero_le 1,
          hsplit [] (by simp [text, head]) (by simpa using hone)⟩
      · refine ⟨[LF], by decide, Nat.le_refl 1, hsplit [LF] (by simp [text, head]) ?_⟩
        simp
        omega
    · left
      obtain ⟨hcr, hlen⟩ := q.line_free
      have htake : P = q.line.take P.length := by
        rw [text, head, List.append_assoc, List.take_append_of_le_length hle] at hP
        exact hP
      refine ⟨fun hmem => hcr ?_, by omega⟩
      rw [htake] at hmem
      exact List.mem_of_mem_take hmem
  · right
    right
    refine ⟨q.body.take (P.length - q.head.length), ?_, ?_, ?_⟩
    · intro hnil
      have hzero := congrArg List.length hnil
      rw [text, List.length_append] at hshort
      rw [List.length_take, List.length_nil] at hzero
      omega
    · rw [text, List.length_append] at hshort
      rw [List.length_take]
      omega
    · rw [text, List.take_append, List.take_of_length_le (by omega)] at hP
      exact hP

/-- **A call in between** sends nothing. -/
theorem Stands.waits (h : q.Stands c P r) (hc : Fresh c) {p R : Bytes} (hd : env.Delivers p)
    (htext : P ++ p ++ R = q.text) (hR : R ≠ []) (hsafe : q.SafeCut (P ++ p).length) :
    ∃ r', serve env r = ⟨[], .rearm r'⟩ ∧ q.Stands c (P ++ p) r' := by
  rw [serve_delivers hd, h.onward_append hc]
  rcases safeCut_cases htext hR hsafe with ⟨hcr, hlen⟩ | ⟨b, hb, hlen, hP⟩ | ⟨b, hb, hlen, hP⟩
  · exact ⟨_, onward_part hc hcr (by omega), .line hcr⟩
  · rw [hP, onward_lined hc]
    exact ⟨_, onward_blank hc hb (by omega), .lined hb⟩
  · have hpost : q.method = .post := by
      rcases q.verb_free.2.2.2.2 with hget | hpost
      · rw [q.bodiless hget] at hlen
        exact absurd hlen (Nat.not_lt_zero _)
      · exact hpost
    obtain ⟨v, hv, hn⟩ := q.declared hpost
    have hs : (q.headed c b).state = .recvBody := if_pos hpost
    have hlookup : (q.headed c b).headers.lookup (ascii "Content-length") = some v :=
      (lookup_headersOf q.fields _).trans hv
    have hpart := bodyStage_part hs hlookup hn hlen
    have hstate : (q.headed c b).state ≠ .finish := by rw [hs]; simp
    rw [hP, onward_head hc, leftover, if_neg hb]
    refine ⟨q.headed c b, ?_, .headed hb⟩
    simp only [bodyOnward, hpart, leave, if_neg hstate]

/-- **The last call** answers. -/
theorem Stands.answers (h : q.Stands c P r) (hc : Fresh c) {p : Bytes} (hd : env.Delivers p)
    (htext : P ++ p = q.text) :
    ∃ r', q.ReadInto r' ∧ r'.state = .analysis ∧ SameHandles c r' ∧
      serve env r = ⟨(analysisStage env r').1, leave (analysisStage env r').2⟩ := by
  rw [serve_delivers hd, h.onward_append hc, htext, text, onward_head hc]
  have hread : ∀ state, q.ReadInto { q.headed c (leftover q.body) with state := state } := fun state =>
    ⟨rfl, rfl, hc.keepAlive, lookup_headersOf q.fields⟩
  have hbody : bodyStage (q.headed c (leftover q.body)) =
      .ok { q.headed c (leftover q.body) with state := .analysis } := by
    rcases q.verb_free.2.2.2.2 with hget | hpost
    · have hstate : (q.headed c (leftover q.body)).state = .analysis := if_neg (by rw [hget]; simp)
      unfold bodyStage
      rw [if_neg (by rw [hstate]; simp), ← hstate]
    · obtain ⟨v, hv, hn⟩ := q.declared hpost
      refine bodyStage_whole (if_pos hpost) ((lookup_headersOf q.fields _).trans hv) hn ?_
      show q.body.length ≤ (leftover q.body).length
      unfold leftover
      split
      · rename_i hnil
        simp [hnil]
      · exact Nat.le_refl _
  refine ⟨_, hread .analysis, rfl, ⟨rfl, rfl, rfl⟩, ?_⟩
  simp only [bodyOnward, hbody]

end HttpRequest

end HPServer
