import HighPerformanceServer.KeepAlive
/-!
# Bytes behind a request

A request that is answered leaves what was read behind it in `content`, and then `reset` clears
`content` (requestData.cpp:97): the next request starts from nothing. `parseStages_append` says what
the stages do with bytes behind a complete request, `pipelined_dropped` what becomes of them.
-/

namespace HPServer

open CppStd

/-- Between two requests. -/
structure Idle (r : RequestData) : Prop where
  state : r.state = .parseUri
  hState : r.hState = .hStart
  content : r.content = []
  nowReadPos : r.nowReadPos = 0

theorem idle_new (epollfd fd : Int) (path : Bytes) : Idle (.new epollfd fd path) :=
  ⟨rfl, rfl, rfl, rfl⟩

theorem idle_reset (r : RequestData) (timer : Option TimerId) : Idle { r.reset with timer := timer } :=
  ⟨rfl, rfl, rfl, rfl⟩

/-- The call reads the bytes `b`. -/
def CallEnv.Delivers (env : CallEnv) (b : Bytes) : Prop :=
  ∃ x, readn env.errno env.reads MAX_BUFF = .ok x ∧ 0 < x.ret ∧ x.buff = b

/-- What `parse_request_head` leaves of the bytes `v` behind a complete section. -/
def leftover (v : Bytes) : Bytes := if v = [] then [LF, CR, LF] else v

theorem leftover_append {v t : Bytes} (ht : 3 ≤ t.length) :
    (leftover v).length ≤ (leftover (v ++ t)).length := by
  unfold leftover
  cases v with
  | nil =>
    have hne : t ≠ [] := by rintro rfl; simp at ht
    simp only [List.nil_append, if_neg hne, if_true]
    exact ht
  | cons x v => simp

theorem readStage_delivers {env : CallEnv} {b : Bytes} (h : env.Delivers b) (r : RequestData) :
    b.length ≤ MAX_BUFF ∧ readStage env r = .ok { r with content := r.content ++ b } := by
  obtain ⟨x, hx, hpos, rfl⟩ := h
  refine ⟨(readn_ret hx).1, ?_⟩
  rw [readStage, hx]
  dsimp only
  rw [if_neg (by omega), if_neg (by omega)]

/-- A text that ends with a blank line. -/
def EndsBlank (p : Bytes) : Prop := ∃ p', p = p' ++ (CRLF ++ CRLF)

/-- A complete header section `p`, with bytes behind it or without. -/
theorem parseRequestHead_append {r r' : RequestData} (h0 : r.hState = .hStart)
    (hlen : r.content.length < 2147483648) (h : parseRequestHead r = .ok (.success, r')) :
    ∃ p v, r.content = p ++ v ∧ 8 ≤ p.length ∧ EndsBlank p ∧ r' = { r' with content := leftover v } ∧
      r'.method = r.method ∧
      ∀ t, (p ++ t).length < 2147483648 →
        parseRequestHead { r with content := p ++ t } =
          .ok (.success, { r' with content := leftover t }) := by
  have hverdict := parseRequestHead_verdict h0 hlen
  rw [h] at hverdict
  simp only [Except.map, Except.ok.injEq, Prod.mk.injEq] at hverdict
  have hphase : (HeaderText.run (Scan.start r.headers) r.content).phase = .complete := by
    have hv := hverdict.1
    unfold Scan.verdict at hv
    split at hv <;> first | assumption | cases hv
  have hstart : ¬ (Scan.start r.headers).Done := by simp [Scan.Done, Scan.start]
  obtain ⟨u, c, v, hw, hu, -, hrun⟩ := HeaderText.exists_deciding hstart (Or.inl hphase)
  have hnext : ((HeaderText.run (Scan.start r.headers) u).next c).phase = .complete :=
    (congrArg Scan.phase hrun).symm.trans hphase
  have hwhole := parseRequestHead_complete h0 hlen hw hu hnext
  rw [h] at hwhole
  simp only [Except.ok.injEq, Prod.mk.injEq, true_and] at hwhole
  subst hwhole
  refine ⟨u ++ [c], v, by simp [hw], ?_, HeaderText.ends_blankLine hu hnext, rfl, rfl, fun t ht => ?_⟩
  · have hneed := HeaderText.need_run (u ++ [c]) (Scan.start r.headers)
    rw [HeaderText.run_append] at hneed
    rw [show (HeaderText.run (HeaderText.run (Scan.start r.headers) u) [c]).phase = .complete from hnext]
      at hneed
    simpa [Scan.start, HeaderText.need] using hneed
  · exact parseRequestHead_complete (r := { r with content := (u ++ [c]) ++ t }) h0 ht (by simp) hu hnext

theorem headStage_append {r a : RequestData} (hs : r.state = .parseHeaders) (h0 : r.hState = .hStart)
    (hlen : r.content.length < 2147483648) (h : headStage r = .ok a) :
    ∃ p v, r.content = p ++ v ∧ 8 ≤ p.length ∧ EndsBlank p ∧ a = { a with content := leftover v } ∧
      (a.method = .post → a.state = .recvBody) ∧
      ∀ t, (p ++ t).length < 2147483648 →
        headStage { r with content := p ++ t } = .ok { a with content := leftover t } := by
  unfold headStage at h
  rw [if_pos hs] at h
  cases hp : parseRequestHead r with
  | error e => rw [hp] at h; cases h
  | ok x =>
    obtain ⟨verdict, r'⟩ := x
    rw [hp] at h
    cases verdict with
    | again => cases h
    | error => cases h
    | success =>
      obtain ⟨p, v, hcontent, h8, hblank, hv, hm, happend⟩ := parseRequestHead_append h0 hlen hp
      simp only [Except.ok.injEq] at h
      refine ⟨p, v, hcontent, h8, hblank, ?_, ?_, fun t ht => ?_⟩
      · rw [← h]; split <;> rw [hv]
      · rw [← h]
        split
        · exact fun _ => rfl
        · rename_i hpost; exact fun h => absurd h hpost
      · unfold headStage
        rw [if_pos (by exact hs), happend t ht]
        simp only [Except.ok.injEq]
        rw [← h]
        split <;> rfl

/-- A complete request line, with bytes behind it or without. -/
theorem uriStage_append {r a : RequestData} (hs : r.state = .parseUri) (h0 : r.nowReadPos = 0)
    (hlen : r.content.length < 2147483648) (h : uriStage r = .ok a) :
    a.state = .parseHeaders ∧ a.hState = r.hState ∧ ∃ q, r.content = q ++ a.content ∧
      ∀ t, uriStage { r with content := q ++ t } = .ok { a with content := t } := by
  unfold uriStage at h
  rw [if_pos hs] at h
  cases hp : parseRequestLine r with
  | error e => rw [hp] at h; cases h
  | ok x =>
    obtain ⟨verdict, r'⟩ := x
    rw [hp] at h
    rcases parseRequestLine_cases hp with ⟨rfl, -⟩ | ⟨line, str, pos, mc, rest, hcut, hmethod,
      ⟨rfl, -⟩ | ⟨rfl, hok, pos', rest', name, vc, hurl, hversion, rfl⟩⟩
    · cases h
    · cases h
    · cases h
      rw [h0] at hcut
      obtain ⟨hcr, hline, hcontent⟩ := takeRequestLine_some hlen hcut
      refine ⟨rfl, rfl, line ++ [CR], by simp [hcontent], fun t => ?_⟩
      have hcut' : takeRequestLine (line ++ [CR] ++ t) 0 = .ok (some (line, t)) := by
        rw [List.append_assoc, List.singleton_append]
        exact takeRequestLine_spec hcr hline
      unfold uriStage
      rw [if_pos (by exact hs)]
      simp only [parseRequestLine, h0, hcut', hmethod, if_neg hok, hurl, hversion, bind, Except.bind]

/-- The request line and the header section, read from `b`. -/
def readHead (r : RequestData) (b : Bytes) : Stage := uriStage { r with content := b } >>= headStage

/-- The head of a request: `p`, whatever stands behind it. -/
theorem readHead_append {r a : RequestData} (hr : Idle r) {b : Bytes} (hlen : b.length < 2147483648)
    (h : readHead r b = .ok a) :
    ∃ p v, b = p ++ v ∧ 8 ≤ p.length ∧ EndsBlank p ∧ a = { a with content := leftover v } ∧
      (a.method = .post → a.state = .recvBody) ∧
      ∀ t, (p ++ t).length < 2147483648 → readHead r (p ++ t) = .ok { a with content := leftover t } := by
  obtain ⟨r₁, hr₁, hrest⟩ : ∃ r₁, uriStage { r with content := b } = .ok r₁ ∧ headStage r₁ = .ok a := by
    unfold readHead at h
    cases hu : uriStage { r with content := b } with
    | error e => rw [hu] at h; cases h
    | ok r₁ => rw [hu] at h; exact ⟨r₁, rfl, h⟩
  obtain ⟨hs₁, hh₁, q, hq, huri⟩ := uriStage_append (r := { r with content := b }) hr.state
    hr.nowReadPos hlen hr₁
  dsimp only at hq
  have hlen₁ : r₁.content.length < 2147483648 := by
    rw [hq, List.length_append] at hlen; omega
  obtain ⟨p, v, hp, h8, ⟨p', hblank⟩, ha, hpost, hhead⟩ :=
    headStage_append hs₁ (hh₁.trans hr.hState) hlen₁ hrest
  refine ⟨q ++ p, v, by rw [hq, hp, List.append_assoc], ?_,
    ⟨q ++ p', by rw [hblank, List.append_assoc]⟩, ha, hpost, fun t ht => ?_⟩
  · rw [List.length_append]; omega
  · have hline : uriStage { r with content := q ++ p ++ t } = .ok { r₁ with content := p ++ t } := by
      rw [List.append_assoc]; exact huri (p ++ t)
    unfold readHead
    rw [hline]
    rw [List.append_assoc, List.length_append] at ht
    exact hhead t (by omega)

theorem parseStages_idle {r : RequestData} (hr : Idle r) {env : CallEnv} {b : Bytes} (hd : env.Delivers b) :
    b.length < 2147483648 ∧ parseStages env r = readHead r b := by
  obtain ⟨hb, hread⟩ := readStage_delivers hd r
  unfold MAX_BUFF at hb
  refine ⟨by omega, ?_⟩
  rw [hr.content, List.nil_append] at hread
  rw [parseStages, hread]
  rfl

/-- A complete request, with bytes behind it or without, up to the body stage. -/
theorem parseStages_append {r a : RequestData} (hr : Idle r) {env : CallEnv} {b : Bytes}
    (hd : env.Delivers b) (h : parseStages env r = .ok a) :
    8 ≤ b.length ∧ ∃ v, a = { a with content := leftover v } ∧
      ∀ (env' : CallEnv) (t : Bytes), env'.Delivers (b ++ t) →
        parseStages env' r = .ok { a with content := leftover (v ++ t) } := by
  obtain ⟨hb, hhead⟩ := parseStages_idle hr hd
  rw [hhead] at h
  obtain ⟨p, v, hp, h8, -, ha, -, happend⟩ := readHead_append hr hb h
  refine ⟨by rw [hp, List.length_append]; omega, v, ha, fun env' t hd' => ?_⟩
  obtain ⟨hb', hhead'⟩ := parseStages_idle hr hd'
  rw [hhead', hp, List.append_assoc]
  rw [hp, List.append_assoc] at hb'
  exact happend (v ++ t) hb'

/-- More content does not take an answer back. -/
theorem bodyStage_append {a r : RequestData} {content : Bytes}
    (hle : a.content.length ≤ content.length) (h : bodyStage a = .ok r) :
    ∃ content', bodyStage { a with content := content } = .ok { r with content := content' } := by
  unfold bodyStage at h ⊢
  by_cases hs : a.state = .recvBody
  · rw [if_pos hs] at h
    rw [if_pos (by exact hs)]
    dsimp only
    cases hv : a.headers.lookup (ascii "Content-length") with
    | none => rw [hv] at h; cases h
    | some v =>
      rw [hv] at h
      dsimp only at h ⊢
      cases hn : stoi v with
      | error e => rw [hn] at h; cases h
      | ok n =>
        rw [hn] at h
        dsimp only at h ⊢
        by_cases hlt : a.content.length < toSize n
        · rw [if_pos hlt] at h; cases h
        · rw [if_neg hlt] at h; cases h
          rw [if_neg (by omega)]
          exact ⟨content, rfl⟩
  · rw [if_neg hs] at h; cases h
    rw [if_neg (by exact hs)]
    exact ⟨content, rfl⟩

/-- The answer does not depend on `content`, and neither does what becomes of the object. -/
theorem answer_content (env : CallEnv) {r : RequestData} (hs : r.state = .analysis) (content : Bytes) :
    (analysisStage env { r with content := content }).1 = (analysisStage env r).1 ∧
      leave (analysisStage env { r with content := content }).2 = leave (analysisStage env r).2 := by
  have hreply : analysisRequest env.fs env.filetype env.writes { r with content := content } =
      analysisRequest env.fs env.filetype env.writes r := rfl
  unfold analysisStage
  rw [if_pos hs, if_pos (by exact hs), hreply]
  dsimp only
  cases (analysisRequest env.fs env.filetype env.writes r).flag with
  | error e => exact ⟨rfl, rfl⟩
  | ok flag =>
    cases flag with
    | success => exact ⟨rfl, by simp only [leave, if_true]; rfl⟩
    | error => exact ⟨rfl, rfl⟩

/-- A request that is answered has at least eight bytes. -/
theorem answered_length {r : RequestData} (hr : Idle r) {env : CallEnv} {b : Bytes}
    (hd : env.Delivers b) (h : (handleRequest env r).1 ≠ []) : 8 ≤ b.length := by
  rw [handleRequest_sent] at h
  obtain ⟨a, -, hp, -⟩ := serve_answered h
  exact (parseStages_append hr hd hp).1

/-- **Pipelined bytes are dropped.** Two complete requests that are answered when each arrives in a
read of its own: when both arrive in one read, and the system answers the call as before, with what
`filetype` points to among its answers, the call sends the answer to the first and leaves the object as
if the second had never been sent. -/
theorem pipelined_dropped {c c₁ : RequestData} {env₁ env₂ : CallEnv} {r₁ r₂ sent : Bytes}
    (hc : Idle c) (h₁ : env₁.Delivers r₁) (hans₁ : handleRequest env₁ c = (sent, .kept c₁))
    (hsent : sent ≠ []) (h₂ : env₂.Delivers r₂)
    (hans₂ : (handleRequest env₂ c₁.separateTimer).1 ≠ []) {errno : Option Errno}
    {reads : List ReadResult}
    (hboth : CallEnv.Delivers { env₁ with errno := errno, reads := reads } (r₁ ++ r₂)) :
    handleRequest { env₁ with errno := errno, reads := reads } c = (sent, .kept c₁) ∧
      c₁.content = [] := by
  obtain ⟨r₀, t, rfl⟩ := kept_answered hans₁ hsent
  have hlong : 8 ≤ r₂.length := answered_length (idle_reset r₀ none) h₂ hans₂
  refine ⟨?_, rfl⟩
  have hs₁ : (serve env₁ c).sent ≠ [] := by rw [← handleRequest_sent, hans₁]; exact hsent
  obtain ⟨a, r, hp, hb, hstate, hserve⟩ := serve_answered hs₁
  obtain ⟨-, v, ha, happend⟩ := parseStages_append hc h₁ hp
  have hp' := happend _ _ hboth
  have hle : a.content.length ≤ (leftover (v ++ r₂)).length := by
    rw [ha]; exact leftover_append (by omega)
  obtain ⟨content', hb'⟩ := bodyStage_append hle hb
  have hserve' : serve { env₁ with errno := errno, reads := reads } c = serve env₁ c := by
    have hanswer := answer_content env₁ hstate content'
    rw [hserve, ← hanswer.1, ← hanswer.2]
    simp only [serve, hp', bodyOnward, hb']
    rfl
  rw [← hans₁]
  simp only [handleRequest, hserve']
  rfl

/-- All the bytes that some calls on one object send. -/
def sentBy (r : RequestData) (envs : List CallEnv) : Bytes :=
  (observe r envs).flatMap Observation.sent

/-- A call that reads nothing sends nothing. -/
theorem serve_silent {env : CallEnv} (h : ∀ b, ¬ env.Delivers b) (r : RequestData) :
    (serve env r).sent = [] := by
  by_contra hsent
  obtain ⟨a, -, hp, -⟩ := serve_answered hsent
  rcases readStage_cases env r with ⟨e, he⟩ | he | he | ⟨-, he⟩ | ⟨x, hx, hpos, -⟩
  · rw [parseStages, he] at hp; cases hp
  · rw [parseStages, he] at hp; cases hp
  · rw [parseStages, he] at hp; cases hp
  · rw [parseStages, he] at hp; cases hp
  · exact h x.buff ⟨x, hx, hpos, rfl⟩

theorem sentBy_silent : ∀ (envs : List CallEnv) (r : RequestData),
    (∀ env ∈ envs, ∀ b, ¬ env.Delivers b) → sentBy r envs = []
  | [], _, _ => rfl
  | env :: envs, r, h => by
    have hsent := serve_silent (h env (by simp)) r.separateTimer
    rw [← handleRequest_sent] at hsent
    simp only [sentBy, observe, List.flatMap_cons, hsent, List.nil_append]
    cases (handleRequest env r.separateTimer).2 with
    | kept r' => exact sentBy_silent envs r' fun e he => h e (by simp [he])
    | halted e => rfl
    | deleted => rfl
    | rearmFailed => rfl

theorem delivers_reading {b : Bytes} (hne : b ≠ []) (hlen : b.length < MAX_BUFF) :
    (reading b).Delivers b := by
  have hpos := List.length_pos_iff.2 hne
  obtain ⟨n, hn⟩ : ∃ n, MAX_BUFF - b.length = n + 1 := ⟨MAX_BUFF - b.length - 1, by omega⟩
  have hread : readn none [.bytes b, .error .eagain] MAX_BUFF =
      .ok ⟨sizeToInt b.length, b, some .eagain, []⟩ := by
    unfold readn
    rw [show MAX_BUFF = 4095 + 1 from rfl, readnLoop, if_neg hne,
      if_neg (by unfold MAX_BUFF at hlen; omega), List.nil_append,
      show 4095 + 1 - b.length = n + 1 from hn, readnLoop]
  unfold MAX_BUFF at hlen
  have hret : 0 < sizeToInt b.length := by rw [sizeToInt_of_lt (by omega)]; omega
  refine ⟨_, hread, ?_, rfl⟩
  dsimp only
  exact hret

/-- The same request twice: answered twice in two reads, once in one. -/
theorem keptPost_again :
    (handleRequest (reading keptPost) keptConnection.separateTimer).1 = keptPostReply := by
  decide +kernel

set_option maxRecDepth 4000 in
theorem keptPost_twice : handleRequest (reading (keptPost ++ keptPost)) (.new 3 5 (ascii "/")) =
    (keptPostReply, .kept keptConnection) := by
  decide +kernel

set_option maxRecDepth 4000 in
/-- In one read, the second of two requests gets no answer, whatever calls without new bytes
follow. -/
theorem secondRequest_lost :
    ¬ ∀ (c c₁ : RequestData) (env₁ env₂ env : CallEnv) (r₁ r₂ sent : Bytes), Idle c →
      env₁.Delivers r₁ → handleRequest env₁ c = (sent, .kept c₁) → sent ≠ [] →
      env₂.Delivers r₂ → (handleRequest env₂ c₁.separateTimer).1 ≠ [] →
      env.Delivers (r₁ ++ r₂) → (∃ errno reads, env = { env₁ with errno := errno, reads := reads }) →
      ∃ later : List CallEnv, (∀ e ∈ later, ∀ b, ¬ e.Delivers b) ∧
        sentBy c (env :: later) = sent ++ (handleRequest env₂ c₁.separateTimer).1 := by
  intro h
  have hne : keptPost ≠ [] ∧ keptPost ++ keptPost ≠ [] ∧ keptPostReply ≠ [] := by decide
  obtain ⟨later, hsilent, hsent⟩ := h (.new 3 5 (ascii "/")) keptConnection (reading keptPost)
    (reading keptPost) (reading (keptPost ++ keptPost)) keptPost keptPost keptPostReply
    (idle_new 3 5 _) (delivers_reading hne.1 (by decide)) keptPost_answered hne.2.2
    (delivers_reading hne.1 (by decide)) (by rw [keptPost_again]; exact hne.2.2)
    (delivers_reading hne.2.1 (by decide)) ⟨none, [.bytes (keptPost ++ keptPost), .error .eagain], rfl⟩
  have hlater := sentBy_silent later keptConnection hsilent
  have hfirst : (RequestData.new 3 5 (ascii "/")).separateTimer = .new 3 5 (ascii "/") := rfl
  rw [sentBy, observe, hfirst, keptPost_twice, keptPost_again] at hsent
  rw [sentBy] at hlater
  simp only [List.flatMap_cons, hlater, List.append_nil] at hsent
  exact hne.2.2 (List.append_right_eq_self.1 hsent.symm)

set_option maxRecDepth 4000 in
theorem secondPost_dropped :
    handleRequest { reading keptPost with reads := [.bytes (keptPost ++ keptPost), .error .eagain] }
      (.new 3 5 (ascii "/")) = (keptPostReply, .kept keptConnection) ∧ keptConnection.content = [] :=
  pipelined_dropped (idle_new 3 5 _) (delivers_reading (b := keptPost) (by decide) (by decide))
    keptPost_answered (by decide) (delivers_reading (b := keptPost) (by decide) (by decide))
    (by rw [keptPost_again]; decide) (delivers_reading (b := keptPost ++ keptPost) (by decide) (by decide))

end HPServer
