import HighPerformanceServer.Connection
import HighPerformanceServer.Lts
/-!
# What holds of a connection between two calls

`ConnInv` is the state of a live object whenever `handleRequest` has returned: what the current
`state` says about the other fields. `Staged` is what is left of it inside a call, where `content`
has grown and `STATE_ANALYSIS` is possible. Each stage takes `Staged` to `Staged` when it goes on
and to `ConnInv` when it leaves the loop without an error.

`connection` is the system of calls on one object; the label is the environment of the call.
-/

namespace HPServer

open CppStd

/-- The fields that do not depend on `state`. -/
structure Steady (r : RequestData) : Prop where
  keepAlive : r.keepAlive = false
  readTimes : r.readTimes ≤ MAX_READ_TIMES + 1
  nowReadPos : r.nowReadPos = 0

/-- Between calls: what `state` says about the rest. -/
def AtRest (r : RequestData) : Prop :=
  match r.state with
  | .parseUri => r.hState = .hStart ∧ r.headers = ∅ ∧ r.fileName = [] ∧ CR ∉ r.content
  | .parseHeaders => (r.method = .get ∨ r.method = .post) ∧
      (r.httpVersion = .http10 ∨ r.httpVersion = .http11) ∧ r.hState ≠ .hEndLF
  | .recvBody => r.method = .post ∧ r.hState = .hEndLF ∧
      ∃ v n, r.headers.lookup (ascii "Content-length") = some v ∧ stoi v = .ok n ∧
        r.content.length < toSize n
  | .analysis | .finish => False

structure ConnInv (r : RequestData) : Prop extends Steady r where
  atRest : AtRest r

/-- Inside a call: nothing about `content`, and the request may be ready for its answer. -/
def Staged (r : RequestData) : Prop :=
  match r.state with
  | .parseUri => r.hState = .hStart ∧ r.headers = ∅ ∧ r.fileName = []
  | .parseHeaders => (r.method = .get ∨ r.method = .post) ∧
      (r.httpVersion = .http10 ∨ r.httpVersion = .http11) ∧ r.hState ≠ .hEndLF
  | .recvBody => r.method = .post ∧ r.hState = .hEndLF
  | .analysis => True
  | .finish => False

theorem connInv_new (epollfd fd : Int) (path : Bytes) : ConnInv (.new epollfd fd path) where
  keepAlive := rfl
  readTimes := Nat.zero_le _
  nowReadPos := rfl
  atRest := ⟨rfl, rfl, rfl, by simp [RequestData.new]⟩

/-- `reset` makes an object that is at rest, whatever it was before. -/
theorem connInv_reset (r : RequestData) : ConnInv r.reset where
  keepAlive := rfl
  readTimes := Nat.zero_le _
  nowReadPos := rfl
  atRest := ⟨rfl, rfl, rfl, by simp [RequestData.reset]⟩

/-- The timer is no part of the invariant. -/
theorem ConnInv.withTimer {r : RequestData} (h : ConnInv r) (t : Option TimerId) :
    ConnInv { r with timer := t } := ⟨⟨h.keepAlive, h.readTimes, h.nowReadPos⟩, h.atRest⟩

theorem ConnInv.staged {r : RequestData} (h : ConnInv r) (content : Bytes) :
    Steady { r with content := content } ∧ Staged { r with content := content } := by
  refine ⟨⟨h.keepAlive, h.readTimes, h.nowReadPos⟩, ?_⟩
  have hat := h.atRest
  simp only [AtRest, Staged] at hat ⊢
  cases hs : r.state <;> simp only [hs] at hat ⊢
  · exact ⟨hat.1, hat.2.1, hat.2.2.1⟩
  · exact hat
  · exact ⟨hat.1, hat.2.1⟩

/-- What a stage may do. -/
def StageKeeps : Stage → Prop
  | .ok r => Steady r ∧ Staged r
  | .error (.brk false r) => ConnInv r
  | .error (.brk true _) | .error (.halt _) => True

/-! ## The stages -/

theorem readStage_keeps {env : CallEnv} {r : RequestData} (h : ConnInv r) :
    StageKeeps (readStage env r) := by
  rcases readStage_cases env r with ⟨e, hr⟩ | hr | hr | ⟨htimes, hr⟩ | ⟨x, -, -, hr⟩ <;> rw [hr]
  · trivial
  · trivial
  · exact h
  · exact ⟨⟨h.keepAlive, Nat.succ_le_succ htimes, h.nowReadPos⟩, h.atRest⟩
  · exact h.staged _

/-- With less than two gigabytes, `PARSE_URI_AGAIN` means that there is no CR. -/
theorem takeRequestLine_none {content : Bytes} (hlen : content.length < 2147483648)
    (h : takeRequestLine content 0 = .ok none) : CR ∉ content := by
  cases hf : find content CR 0 with
  | none => exact find_zero_none hf
  | some P =>
    have hP := (find_zero_some hf).2.2
    have hpos : toInt (find content CR (toSize 0)) = P := by
      show toInt (find content CR 0) = P
      rw [hf, toInt, sizeToInt_of_lt (by omega)]
    simp only [takeRequestLine, hpos] at h
    rw [if_neg (by omega)] at h
    obtain ⟨line, -, h⟩ := bind_eq_ok.1 h
    obtain ⟨next, -, h⟩ := bind_eq_ok.1 h
    split at h
    · obtain ⟨str, -, h⟩ := bind_eq_ok.1 h; cases h
    · cases h

/-- The method code of an accepted line, and the version. -/
theorem parseRequestLine_codes {line : Bytes} {pos : Int} {mc : MethodCode} {rest : Bytes}
    (h : parseMethod line = .ok (pos, mc, rest)) (hok : ¬ (pos < 0 ∨ mc = .invalid)) :
    mc = .get ∨ mc = .post := by
  simp only [parseMethod] at h
  obtain ⟨temp, -, h⟩ := bind_eq_ok.1 h
  obtain ⟨next, -, h⟩ := bind_eq_ok.1 h
  obtain ⟨rest', -, h⟩ := bind_eq_ok.1 h
  cases h
  unfold getMethod at hok ⊢
  split
  · exact Or.inl rfl
  · split
    · exact Or.inr rfl
    · rename_i h1 h2; rw [if_neg h1, if_neg h2] at hok; exact absurd (Or.inr rfl) hok

theorem parseVersion_codes {pos : Int} {rest : Bytes} {vc : HttpVersion}
    (h : parseVersion pos rest = .ok (some vc)) : vc = .http10 ∨ vc = .http11 := by
  simp only [parseVersion] at h
  split at h
  · cases h
  · obtain ⟨next, -, h⟩ := bind_eq_ok.1 h
    obtain ⟨version, -, h⟩ := bind_eq_ok.1 h
    split at h
    · cases h; exact Or.inl rfl
    · split at h
      · cases h; exact Or.inr rfl
      · cases h

theorem uriStage_keeps {r : RequestData} (hlen : r.content.length < 2147483648) (hst : Steady r)
    (h : Staged r) :
    StageKeeps (uriStage r) ∧ ∀ r', uriStage r = .ok r' → r'.state ≠ .parseUri := by
  unfold uriStage
  by_cases hs : r.state = .parseUri
  · rw [if_pos hs]
    simp only [Staged, hs] at h
    cases hp : parseRequestLine r with
    | error e => exact ⟨trivial, by intro r' e; cases e⟩
    | ok x =>
      obtain ⟨v, r'⟩ := x
      rcases parseRequestLine_cases hp with ⟨rfl, rfl, hcut⟩ |
        ⟨line, str, pos, mc, rest, -, hm, ⟨rfl, -⟩ | ⟨rfl, hok, pos', rest', name, vc, -, hver, rfl⟩⟩
      · rw [hst.nowReadPos] at hcut
        refine ⟨⟨hst, ?_⟩, by intro r' e; cases e⟩
        simp only [AtRest, hs]
        exact ⟨h.1, h.2.1, h.2.2, takeRequestLine_none hlen hcut⟩
      · exact ⟨trivial, by intro r' e; cases e⟩
      · refine ⟨⟨⟨hst.keepAlive, hst.readTimes, hst.nowReadPos⟩, ?_⟩, by intro r' e; cases e; simp⟩
        refine ⟨parseRequestLine_codes hm hok, parseVersion_codes hver, ?_⟩
        rw [h.1]; simp
  · rw [if_neg hs]
    exact ⟨⟨hst, h⟩, by intro r' e; cases e; exact hs⟩

theorem headStage_keeps {r : RequestData} (hst : Steady r) (h : Staged r) (hs : r.state ≠ .parseUri) :
    StageKeeps (headStage r) ∧
      ∀ r', headStage r = .ok r' → r'.state = .recvBody ∨ r'.state = .analysis := by
  unfold headStage
  by_cases hhead : r.state = .parseHeaders
  · rw [if_pos hhead]
    simp only [Staged, hhead] at h
    cases hp : parseRequestHead r with
    | error e => exact ⟨trivial, by intro r' e; cases e⟩
    | ok x =>
      obtain ⟨v, r'⟩ := x
      rcases parseRequestHead_cases hp with ⟨rfl, hs, H, rfl⟩ | ⟨rfl, str, H, rfl⟩ |
        ⟨rfl, str, hs, H, hne, rfl⟩
      · exact ⟨trivial, by intro r' e; cases e⟩
      · dsimp only
        by_cases hpost : r.method = .post
        · rw [if_pos hpost]
          refine ⟨⟨⟨hst.keepAlive, hst.readTimes, hst.nowReadPos⟩, hpost, rfl⟩, ?_⟩
          intro r' e; cases e; exact Or.inl rfl
        · rw [if_neg hpost]
          refine ⟨⟨⟨hst.keepAlive, hst.readTimes, hst.nowReadPos⟩, trivial⟩, ?_⟩
          intro r' e; cases e; exact Or.inr rfl
      · refine ⟨⟨⟨hst.keepAlive, hst.readTimes, hst.nowReadPos⟩, ?_⟩, by intro r' e; cases e⟩
        simp only [AtRest, hhead]
        exact ⟨h.1, h.2.1, hne⟩
  · rw [if_neg hhead]
    refine ⟨⟨hst, h⟩, ?_⟩
    intro r' e; cases e
    cases hs' : r.state with
    | parseUri => exact absurd hs' hs
    | parseHeaders => exact absurd hs' hhead
    | recvBody => exact Or.inl rfl
    | analysis => exact Or.inr rfl
    | finish => simp only [Staged, hs'] at h

theorem bodyStage_keeps {r : RequestData} (hst : Steady r) (h : Staged r)
    (hstate : r.state = .recvBody ∨ r.state = .analysis) :
    StageKeeps (bodyStage r) ∧ ∀ r', bodyStage r = .ok r' → r'.state = .analysis := by
  unfold bodyStage
  by_cases hs : r.state = .recvBody
  · rw [if_pos hs]
    simp only [Staged, hs] at h
    cases hv : r.headers.lookup (ascii "Content-length") with
    | none => exact ⟨trivial, by intro r' e; cases e⟩
    | some v =>
      dsimp only
      cases hn : stoi v with
      | error e => exact ⟨trivial, by intro r' e; cases e⟩
      | ok n =>
        dsimp only
        split
        · rename_i hlt
          refine ⟨⟨hst, ?_⟩, by intro r' e; cases e⟩
          simp only [AtRest, hs]
          exact ⟨h.1, h.2, v, n, hv, hn, hlt⟩
        · exact ⟨⟨⟨hst.keepAlive, hst.readTimes, hst.nowReadPos⟩, trivial⟩,
            by intro r' e; cases e; rfl⟩
  · rw [if_neg hs]
    exact ⟨⟨hst, h⟩, by intro r' e; cases e; exact hstate.resolve_left hs⟩

/-! ## The whole call -/

/-- What was read fits an `int`. -/
def ReadFits (env : CallEnv) (r : RequestData) : Prop :=
  ∀ x, readn env.errno env.reads MAX_BUFF = .ok x → (r.content ++ x.buff).length < 2147483648

/-- One call reads at most `MAX_BUFF` bytes. -/
theorem readFits_of_lt {env : CallEnv} {r : RequestData}
    (h : r.content.length + MAX_BUFF < 2147483648) : ReadFits env r := by
  intro x hx
  have := (readn_ret hx).1
  rw [List.length_append]; omega

theorem parseStages_keeps {env : CallEnv} {r : RequestData} (h : ConnInv r) (hfits : ReadFits env r) :
    StageKeeps (parseStages env r) ∧
      ∀ r', parseStages env r = .ok r' → r'.state = .recvBody ∨ r'.state = .analysis := by
  have hread : StageKeeps (readStage env r) := readStage_keeps h
  unfold parseStages
  cases hr : readStage env r with
  | error e => rw [hr] at hread; exact ⟨hread, by intro r' e; cases e⟩
  | ok r₁ =>
    rw [hr] at hread
    have hlen : r₁.content.length < 2147483648 := by
      rcases readStage_cases env r with ⟨e, he⟩ | he | he | ⟨-, he⟩ | ⟨x, hx, -, he⟩ <;>
        rw [hr] at he <;> cases he
      exact hfits x hx
    obtain ⟨huri, hstate⟩ := uriStage_keeps hlen hread.1 hread.2
    simp only [bind, Except.bind]
    cases hu : uriStage r₁ with
    | error e => rw [hu] at huri; exact ⟨huri, by intro r' e; cases e⟩
    | ok r₂ =>
      rw [hu] at huri
      exact headStage_keeps huri.1 huri.2 (hstate r₂ hu)

/-- Everything before the answer. -/
theorem received_keeps {env : CallEnv} {r : RequestData} (h : ConnInv r) (hfits : ReadFits env r) :
    StageKeeps (parseStages env r >>= bodyStage) ∧
      ∀ r', parseStages env r >>= bodyStage = .ok r' → r'.state = .analysis := by
  obtain ⟨hkeeps, hstate⟩ := parseStages_keeps h hfits
  cases hp : parseStages env r with
  | error e => rw [hp] at hkeeps; exact ⟨hkeeps, by intro r' e; cases e⟩
  | ok r₁ =>
    rw [hp] at hkeeps
    exact bodyStage_keeps hkeeps.1 hkeeps.2 (hstate r₁ hp)

/-- After the loop: an object that goes on has been reset, or was at rest. -/
theorem leave_rearm {e : Exit} {r : RequestData} (h : leave e = .rearm r) :
    ∃ r₁, e = .brk false r₁ ∧
      ((r₁.state = .finish ∧ r₁.keepAlive = true ∧ r = r₁.reset) ∨ (r₁.state ≠ .finish ∧ r = r₁)) := by
  cases e with
  | halt e => simp [leave] at h
  | brk isError r₁ =>
    cases isError with
    | true => simp [leave] at h
    | false =>
      refine ⟨r₁, rfl, ?_⟩
      simp only [leave] at h
      by_cases hfin : r₁.state = .finish
      · rw [if_pos hfin] at h
        by_cases hka : r₁.keepAlive = true
        · rw [if_pos hka, Decision.rearm.injEq] at h
          exact Or.inl ⟨hfin, hka, h.symm⟩
        · rw [if_neg hka] at h; cases h
      · rw [if_neg hfin, Decision.rearm.injEq] at h
        exact Or.inr ⟨hfin, h.symm⟩

theorem leave_keeps {e : Exit} {r : RequestData} (hkeeps : StageKeeps (.error e))
    (h : leave e = .rearm r) : ConnInv r := by
  obtain ⟨r₁, rfl, ⟨-, -, rfl⟩ | ⟨-, rfl⟩⟩ := leave_rearm h
  · exact connInv_reset r₁
  · exact hkeeps

/-- From `STATE_ANALYSIS`, only a finished request goes on. -/
theorem analysisStage_finished {env : CallEnv} {r r' : RequestData} (hs : r.state = .analysis)
    (h : (analysisStage env r).2 = .brk false r') :
    (analysisRequest env.fs env.filetype env.writes r).flag = .ok .success ∧
      r' = { r with keepAlive := (analysisRequest env.fs env.filetype env.writes r).keepAlive, state := .finish } := by
  unfold analysisStage at h
  rw [if_pos hs] at h
  dsimp only at h
  cases hf : (analysisRequest env.fs env.filetype env.writes r).flag with
  | error e => rw [hf] at h; cases h
  | ok flag =>
    rw [hf] at h
    cases flag with
    | success => cases h; exact ⟨rfl, rfl⟩
    | error => cases h

/-- Behind the answer an object goes on by `reset` only. -/
theorem analysisStage_reset {env : CallEnv} {r r' : RequestData} (hs : r.state = .analysis)
    (h : leave (analysisStage env r).2 = .rearm r') : ∃ r₁ : RequestData, r' = r₁.reset := by
  obtain ⟨r₁, he, ⟨-, -, rfl⟩ | ⟨hne, -⟩⟩ := leave_rearm h
  · exact ⟨r₁, rfl⟩
  · rw [(analysisStage_finished hs he).2] at hne
    exact absurd rfl hne

theorem serve_keeps {env : CallEnv} {r r' : RequestData} (h : ConnInv r) (hfits : ReadFits env r)
    (hd : (serve env r).decision = .rearm r') : ConnInv r' := by
  obtain ⟨hkeeps, hstate⟩ := received_keeps h hfits
  rw [serve_eq] at hd
  cases hp : parseStages env r >>= bodyStage with
  | error e => rw [hp] at hd hkeeps; exact leave_keeps hkeeps hd
  | ok r₁ =>
    rw [hp] at hd
    obtain ⟨r₂, rfl⟩ := analysisStage_reset (hstate r₁ hp) hd
    exact connInv_reset r₂

/-- **One call** keeps the invariant, whenever it leaves the object alive. -/
theorem handleRequest_keeps {env : CallEnv} {r r' : RequestData} (h : ConnInv r)
    (hfits : ReadFits env r) (hk : (handleRequest env r).2 = .kept r') : ConnInv r' := by
  obtain ⟨r₁, hd, rfl⟩ := handleRequest_kept hk
  exact (serve_keeps h hfits hd).withTimer _

/-! ## Every run of calls -/

/-- One connection: the timer is separated before each call (main.cpp:124), and only calls that
leave the object alive lead anywhere. -/
def connection (epollfd fd : Int) (path : Bytes) : Lts RequestData CallEnv where
  init r := r = .new epollfd fd path
  step r env :=
    match (handleRequest env r.separateTimer).2 with
    | .kept r' => some r'
    | _ => none

/-- In every run in which `content` stays below two gigabytes, the invariant holds after every call
that returns and leaves the object alive. -/
theorem connInv_reachable {epollfd fd : Int} {path : Bytes} {r : RequestData}
    (h : (connection epollfd fd path).Reach (fun r env => ReadFits env r) r) : ConnInv r := by
  apply h.invariant
  · rintro s rfl; exact connInv_new epollfd fd path
  · intro s env s' hs hfits hstep
    simp only [connection] at hstep
    cases hf : (handleRequest env s.separateTimer).2 with
    | kept r' =>
      rw [hf] at hstep; cases hstep
      exact handleRequest_keeps (hs.withTimer none) hfits hf
    | halted e => rw [hf] at hstep; cases hstep
    | deleted => rw [hf] at hstep; cases hstep
    | rearmFailed => rw [hf] at hstep; cases hstep

/-- A request cut behind the first byte of a header name waits in `STATE_PARSE_HEADERS`. -/
theorem connInv_halfRequest :
    ConnInv { RequestData.new 3 5 (ascii "/") with
      content := ascii "H", fileName := ascii "index.html", method := .get, httpVersion := .http11
      state := .parseHeaders, hState := .hKey, timer := some 7 } :=
  connInv_reachable (show (connection 3 5 (ascii "/")).Reach _ _ from
    .step (a := { CallEnv.idle with
        reads := [.bytes (ascii "GET / HTTP/1.1\r\nH"), .error .eagain], mtimer := 7 })
      (.init rfl) (readFits_of_lt (by decide)) (by decide))

end HPServer
