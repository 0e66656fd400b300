import HighPerformanceServer.HeaderLockstep
import HighPerformanceServer.HeaderPrint
import HighPerformanceServer.KeepAlive
import HighPerformanceServer.RequestLineSound
/-!
# Header names in another letter case

`Twin` relates two objects that have received the same parts of two requests that differ in the
letter case of header names. Every stage of `handleRequest` takes such objects to such objects, up to
the answer; it looks at the headers through the lookups of `Content-length` and `Connection` alone
(`observe_respelled`).
-/

namespace HPServer

open CppStd

/-! ## Two objects -/

/-- Two objects that have received parts of two texts alike; `f` and `f'` are still to come. -/
def Twin (K : Bytes → Bytes → Prop) (f f' : Bytes) (r r' : RequestData) : Prop :=
  ∃ content' H', r' = { r with content := content', headers := H' } ∧
    r.content.length = content'.length ∧ SameSettings r.headers H' ∧
    match r.state with
    | .parseUri => r.nowReadPos = 0 ∧ Respelled K .line (r.content ++ f) (content' ++ f')
    | .parseHeaders => ∃ P : Place, P.AtStart ∧ Respelled K P (r.content ++ f) (content' ++ f')
    | .recvBody | .analysis => True
    | .finish => False

/-- Two calls of a parser: they end alike, and what is not given up stays alike. -/
inductive ParseTwin {V : Type} (error : V) (R : V → RequestData → RequestData → Prop) :
    Exec (V × RequestData) → Exec (V × RequestData) → Prop where
  | halt (e : Halt) : ParseTwin error R (.error e) (.error e)
  | failed (r r' : RequestData) : ParseTwin error R (.ok (error, r)) (.ok (error, r'))
  | decided {v : V} {r r' : RequestData} (h : R v r r') : ParseTwin error R (.ok (v, r)) (.ok (v, r'))

/-- Behind the headers only the number of bytes counts. -/
def HeadTwin (K : Bytes → Bytes → Prop) (f f' : Bytes) (v : HeadVerdict) (r r' : RequestData) : Prop :=
  match v with
  | .success => ∀ state, state = .recvBody ∨ state = .analysis →
    Twin K f f' { r with state := state } { r' with state := state }
  | .again | .error => Twin K f f' r r'

section Objects

variable {K : Bytes → Bytes → Prop} {f f' : Bytes} {r r' : RequestData}

theorem parseRequestHead_twin (hK : ∀ m n, K m n → SameKey m n) (h : Twin K f f' r r')
    (hs : r.state = .parseHeaders) :
    ParseTwin .error (HeadTwin K f f') (parseRequestHead r) (parseRequestHead r') := by
  obtain ⟨content', H', rfl, hlen, hset, hrel⟩ := h
  rw [hs] at hrel
  obtain ⟨P, hP, hw⟩ := hrel
  have hstart : Lockstep K ([] ++ r.content ++ f) ([] ++ content' ++ f') [] [] P
      (.init r.hState r.headers) (.init r.hState H') := by
    refine ⟨rfl, hset, rfl, ?_, fun _ => ⟨P, hP, hw⟩⟩
    cases r.hState with
    | hStart | hLF => exact hP
    | hEndCR | hEndLF => trivial
    | hKey | hColon | hSpacesAfterColon | hValue | hCR =>
      exact fun h0 => absurd h0 (show ¬ (0 : Int) ≤ -1 by decide)
  have hloop := headLoop_lockstep hK f f' hlen hw hstart
  simp only [List.nil_append, List.length_nil] at hloop
  unfold parseRequestHead
  dsimp only
  generalize headLoop r.content 0 r.content (.init r.hState r.headers) = y at hloop ⊢
  generalize headLoop content' 0 content' (.init r.hState H') = y' at hloop ⊢
  cases hloop with
  | error e => exact .halt e
  | fail t t' => exact .failed _ _
  | @next t t' hend =>
    obtain ⟨q, q', Q, hsame, hset', -, -, hline⟩ := hend
    generalize t'.headers = H₁ at hsame hset'
    subst hsame
    simp only [bind, Except.bind]
    by_cases hle : t.nowReadLineBegin ≤ r.content.length
    · have hle' : t.nowReadLineBegin ≤ content'.length := hlen ▸ hle
      rw [substr_npos hle, substr_npos hle']
      dsimp only
      have hrest : (r.content.drop t.nowReadLineBegin).length =
          (content'.drop t.nowReadLineBegin).length := by
        rw [List.length_drop, List.length_drop, hlen]
      by_cases hdone : t.hState = .hEndLF
      · rw [if_pos hdone]
        refine .decided fun state hstate => ⟨_, _, rfl, hrest, hset', ?_⟩
        rcases hstate with rfl | rfl <;> trivial
      · rw [if_neg hdone]
        refine .decided ⟨_, _, rfl, hrest, hset', ?_⟩
        dsimp only
        rw [hs]
        obtain ⟨P', hP', hw'⟩ := hline hdone
        rw [List.drop_append_of_le_length hle, List.drop_append_of_le_length hle'] at hw'
        exact ⟨P', hP', hw'⟩
    · have hgt : ¬ t.nowReadLineBegin ≤ content'.length := hlen ▸ hle
      have hout : substr r.content t.nowReadLineBegin npos = .error .outOfRange := if_neg hle
      have hout' : substr content' t.nowReadLineBegin npos = .error .outOfRange := if_neg hgt
      rw [hout, hout']
      exact .halt _

/-- Up to its CR the request line is the same in both contents. -/
theorem Respelled.contents {x x' : Bytes} (h : Respelled K .line (x ++ f) (x' ++ f'))
    (hlen : x.length = x'.length) : (CR ∉ x ∧ x' = x) ∨
    ∃ l t t', CR ∉ l ∧ x = l ++ CR :: t ∧ x' = l ++ CR :: t' ∧ t.length = t'.length := by
  by_cases hcr : CR ∈ x
  · obtain ⟨l, t, rfl, hl⟩ := List.eq_append_cons_of_mem hcr
    obtain ⟨l', y, rfl, hl'⟩ : ∃ l' y, x' = l' ++ y ∧ l.length = l'.length :=
      ⟨x'.take l.length, x'.drop l.length, (List.take_append_drop ..).symm,
        by rw [List.length_take]; simp at hlen; omega⟩
    rw [List.append_assoc, List.append_assoc] at h
    obtain ⟨rfl, hrest⟩ := h.line_append hl' hl
    have hy : y.length = t.length + 1 := by simpa using hlen.symm
    obtain ⟨d, t', rfl⟩ := List.exists_cons_of_length_pos (by rw [hy]; exact Nat.succ_pos _)
    cases hrest with
    | cons hstep _ =>
      cases hstep with
      | line hc => exact absurd rfl hc
      | lineEnd => exact Or.inr ⟨l, t, t', hl, rfl, rfl, (Nat.succ.inj hy).symm⟩
  · exact Or.inl ⟨hcr, (h.line_append hlen hcr).1.symm⟩

theorem parseRequestLine_cut {content line str : Bytes} {v : UriVerdict} {a : RequestData} (H : Headers)
    (hcut : takeRequestLine content r.nowReadPos = .ok (some (line, str)))
    (h : parseFields r line = .ok (v, a)) :
    parseRequestLine { r with content := content, headers := H } =
      .ok (v, { a with content := str, headers := H }) := by
  have hfields := parseFields_rest r line str fun _ => H
  rw [h] at hfields
  rw [parseRequestLine_taken (r := { r with content := content, headers := H }) hcut]
  exact hfields

/-- Behind the request line the headers begin; no line, no change. -/
def LineTwin (K : Bytes → Bytes → Prop) (f f' : Bytes) (_ : UriVerdict) (r r' : RequestData) : Prop :=
  Twin K f f' r r'

theorem parseRequestLine_twin (h : Twin K f f' r r') (hs : r.state = .parseUri) :
    ParseTwin .error (LineTwin K f f') (parseRequestLine r) (parseRequestLine r') := by
  have htwin := h
  obtain ⟨content', H', rfl, hlen, hset, hrel⟩ := h
  rw [hs] at hrel
  obtain ⟨h0, hw⟩ := hrel
  rcases hw.contents hlen with ⟨hcr, rfl⟩ | ⟨l, t, t', hl, hx, hx', htt⟩
  · have hnone : takeRequestLine r.content r.nowReadPos = .ok none := by
      have hfind : find r.content CR (toSize 0) = none := find_of_notMem hcr
      rw [h0, takeRequestLine, hfind]
      rfl
    simp only [parseRequestLine, hnone]
    exact .decided htwin
  · have hfind : find r.content CR 0 = some l.length := by rw [hx, find_append hl]
    have hfind' : find content' CR 0 = some l.length := by rw [hx', find_append hl]
    have both : ∀ {y : Bytes → Exec (Option (Bytes × Bytes))},
        (∀ content, find content CR 0 = some l.length → takeRequestLine content 0 = y content) →
        takeRequestLine r.content r.nowReadPos = y r.content ∧
          takeRequestLine content' r.nowReadPos = y content' := fun h => by
      rw [h0]
      exact ⟨h _ hfind, h _ hfind'⟩
    rcases takeRequestLine_at l.length with hnone | hover | ⟨k, hk, hklt, hcut⟩
    · obtain ⟨e, e'⟩ := both (y := fun _ => .ok none) hnone
      simp only [parseRequestLine, e, e']
      exact .decided htwin
    · obtain ⟨e, e'⟩ := both (y := fun _ => .error .undefined) hover
      simp only [parseRequestLine, e, e']
      exact .halt _
    · obtain ⟨e, e'⟩ := both (y := fun x => .ok (some (x.take k, x.drop (k + 1)))) hcut
      have hline : content'.take k = r.content.take k := by
        rw [hx, hx', List.take_append_of_le_length hk, List.take_append_of_le_length hk]
      have hshort : (r.content.take k).length < 2147483647 := by
        rw [List.length_take]
        omega
      obtain ⟨v, a, hfields, hread⟩ := parseFields_cases r hshort
      have hleft := parseRequestLine_cut r.headers e hfields
      have hright := parseRequestLine_cut H' e' (hline.symm ▸ hfields)
      rw [hleft, hright]
      cases v with
      | again => exact absurd rfl hread.decided
      | error => exact .failed _ _
      | success =>
        obtain ⟨-, -, -, -, hstate⟩ := hread.accepted rfl
        have hlens : (r.content.drop (k + 1)).length = (content'.drop (k + 1)).length := by
          rw [List.length_drop, List.length_drop, hlen]
        refine .decided ⟨content'.drop (k + 1), H', rfl, hlens, hset, ?_⟩
        dsimp only
        rw [hstate]
        rw [hx, hx', List.append_assoc, List.append_assoc, List.cons_append, List.cons_append] at hw
        obtain ⟨P, hP, hrest⟩ := hw.line_drop hl hk
        have hsplit : ∀ t f : Bytes,
            (l ++ CR :: (t ++ f)).drop (k + 1) = (l ++ CR :: t).drop (k + 1) ++ f := fun t f => by
          have hle : k + 1 ≤ (l ++ CR :: t).length := by simp; omega
          rw [← List.drop_append_of_le_length hle, List.append_assoc, List.cons_append]
        rw [hsplit, hsplit] at hrest
        rw [hx, hx']
        exact ⟨P, hP, hrest⟩

end Objects

/-! ## What the two connections receive -/

/-- One answer of `read` each: as many bytes, or the same error. -/
inductive ReadTwin : ReadResult → ReadResult → Prop where
  | bytes {bs bs' : Bytes} (h : bs.length = bs'.length) : ReadTwin (.bytes bs) (.bytes bs')
  | error (e : Errno) : ReadTwin (.error e) (.error e)

/-- Two calls that differ in the bytes read only. -/
def SameDelivery (env env' : CallEnv) : Prop :=
  ∃ reads', env' = { env with reads := reads' } ∧ List.Forall₂ ReadTwin env.reads reads'

/-- The bytes a call appends to `content`. -/
def CallEnv.received (env : CallEnv) : Bytes :=
  match readn env.errno env.reads MAX_BUFF with
  | .error _ => []
  | .ok x => if 0 < x.ret then x.buff else []

inductive ReadnTwin : Exec ReadnResult → Exec ReadnResult → Prop where
  | halt (e : Halt) : ReadnTwin (.error e) (.error e)
  | read {x x' : ReadnResult} (hret : x'.ret = x.ret) (herrno : x'.errno = x.errno)
      (hlen : x.buff.length = x'.buff.length) : ReadnTwin (.ok x) (.ok x')

theorem readnLoop_twin {script script' : List ReadResult} (h : List.Forall₂ ReadTwin script script') :
    ∀ {errno : Option Errno} {nleft : Nat} {buff buff' : Bytes}, buff.length = buff'.length →
    ReadnTwin (readnLoop errno script nleft buff) (readnLoop errno script' nleft buff') := by
  induction h with
  | nil =>
    intro errno nleft buff buff' hlen
    cases nleft with
    | zero => rw [readnLoop, readnLoop]; exact .read (by rw [hlen]) rfl hlen
    | succ n => rw [readnLoop, readnLoop]; exact .halt _
  | @cons a a' script script' hread _ ih =>
    intro errno nleft buff buff' hlen
    cases nleft with
    | zero => rw [readnLoop, readnLoop]; exact .read (by rw [hlen]) rfl hlen
    | succ n =>
      cases hread with
      | @bytes bs bs' hbs =>
        have hnil : bs = [] ↔ bs' = [] := by rw [← List.length_eq_zero_iff, hbs, List.length_eq_zero_iff]
        have hall : (buff ++ bs).length = (buff' ++ bs').length := by simp [hlen, hbs]
        have hpart : (buff ++ bs.take (n + 1)).length = (buff' ++ bs'.take (n + 1)).length := by
          simp [hlen, hbs]
        rw [readnLoop, readnLoop, ← hbs]
        by_cases hend : bs = []
        · rw [if_pos hend, if_pos (hnil.1 hend)]
          exact .read (by rw [hlen]) rfl hlen
        · rw [if_neg hend, if_neg (hnil.not.1 hend)]
          by_cases hmore : n + 1 < bs.length
          · rw [if_pos hmore, if_pos hmore]
            exact .read (by rw [hpart]) rfl hpart
          · rw [if_neg hmore, if_neg hmore]
            exact ih hall
      | error e =>
        cases e with
        | eintr => rw [readnLoop, readnLoop]; exact ih hlen
        | eagain => rw [readnLoop, readnLoop]; exact .read (by rw [hlen]) rfl hlen
        | other code => rw [readnLoop, readnLoop]; exact .read rfl rfl hlen

/-! ## The stages on two objects -/

/-- The loop goes on, or is left, alike; nothing is asked of objects that are given up. -/
inductive StageTwin (K : Bytes → Bytes → Prop) (f f' : Bytes) : Stage → Stage → Prop where
  | halt (h : Halt) : StageTwin K f f' (.error (.halt h)) (.error (.halt h))
  | given (r r' : RequestData) : StageTwin K f f' (.error (.brk true r)) (.error (.brk true r'))
  | wait {r r' : RequestData} (h : Twin K f f' r r') :
      StageTwin K f f' (.error (.brk false r)) (.error (.brk false r'))
  | ok {r r' : RequestData} (h : Twin K f f' r r') : StageTwin K f f' (.ok r) (.ok r')

section Stages

variable {K : Bytes → Bytes → Prop} {f f' : Bytes} {r r' : RequestData}

theorem StageTwin.bind {x y : Stage} {g g' : RequestData → Stage} (h : StageTwin K f f' x y)
    (hg : ∀ r r', Twin K f f' r r' → StageTwin K f f' (g r) (g' r')) :
    StageTwin K f f' (x >>= g) (y >>= g') := by
  cases h with
  | halt h => exact .halt h
  | given r r' => exact .given r r'
  | wait h => exact .wait h
  | ok h => exact hg _ _ h

theorem Twin.state (h : Twin K f f' r r') : r'.state = r.state := by
  obtain ⟨c, H, rfl, -⟩ := h; rfl

theorem Twin.timer (h : Twin K f f' r r') (timer : Option TimerId) :
    Twin K f f' { r with timer := timer } { r' with timer := timer } := by
  obtain ⟨c, H, rfl, hlen, hset, hrel⟩ := h
  exact ⟨c, H, rfl, hlen, hset, hrel⟩

theorem Twin.readTimes (h : Twin K f f' r r') (n : Nat) :
    Twin K f f' { r with readTimes := n } { r' with readTimes := n } := by
  obtain ⟨c, H, rfl, hlen, hset, hrel⟩ := h
  exact ⟨c, H, rfl, hlen, hset, hrel⟩

/-- Bytes that were to come have come. -/
theorem Twin.feed {x x' : Bytes} (h : Twin K (x ++ f) (x' ++ f') r r') (hx : x.length = x'.length) :
    Twin K f f' { r with content := r.content ++ x } { r' with content := r'.content ++ x' } := by
  obtain ⟨c, H, rfl, hlen, hset, hrel⟩ := h
  refine ⟨c ++ x', H, rfl, by simp [hlen, hx], hset, ?_⟩
  dsimp only
  cases hs : r.state with
  | parseUri => rw [hs] at hrel; simpa only [List.append_assoc] using hrel
  | parseHeaders => rw [hs] at hrel; simpa only [List.append_assoc] using hrel
  | recvBody | analysis => trivial
  | finish => rw [hs] at hrel; exact hrel

theorem readStage_twin {env env' : CallEnv} (henv : SameDelivery env env')
    (h : Twin K (env.received ++ f) (env'.received ++ f') r r') :
    StageTwin K f f' (readStage env r) (readStage env' r') := by
  obtain ⟨reads', rfl, hreads⟩ := henv
  have hsame : ReadnTwin (readnLoop env.errno env.reads MAX_BUFF [])
      (readnLoop env.errno reads' MAX_BUFF []) :=
    readnLoop_twin hreads rfl
  unfold CallEnv.received at h
  unfold readStage
  dsimp only at h ⊢
  unfold readn at h ⊢
  generalize readnLoop env.errno env.reads MAX_BUFF [] = x at h hsame ⊢
  generalize readnLoop env.errno reads' MAX_BUFF [] = x' at h hsame ⊢
  cases hsame with
  | halt e => exact .halt e
  | @read x x' hret herrno hlen =>
    dsimp only at h ⊢
    rw [hret] at h ⊢
    rw [herrno]
    by_cases hneg : x.ret < 0
    · rw [if_pos hneg, if_pos hneg]
      exact .given _ _
    rw [if_neg hneg, if_neg hneg]
    by_cases hzero : x.ret = 0
    · rw [if_pos hzero, if_pos hzero]
      rw [if_neg (by omega), if_neg (by omega), List.nil_append, List.nil_append] at h
      by_cases hagain : x.errno = some .eagain
      · have hread : r'.readTimes = r.readTimes := by obtain ⟨c, H, rfl, -⟩ := h; rfl
        rw [if_pos hagain, if_pos hagain, hread]
        by_cases htimes : r.readTimes > MAX_READ_TIMES
        · rw [if_pos htimes, if_pos htimes]
          exact .given _ _
        · rw [if_neg htimes, if_neg htimes]
          exact .wait (h.readTimes _)
      · rw [if_neg hagain, if_neg hagain]
        by_cases herr : x.errno ≠ none
        · rw [if_pos herr, if_pos herr]
          exact .given _ _
        · rw [if_neg herr, if_neg herr]
          exact .wait h
    · rw [if_neg hzero, if_neg hzero]
      rw [if_pos (by omega), if_pos (by omega)] at h
      exact .ok (h.feed hlen)

theorem uriStage_twin (h : Twin K f f' r r') : StageTwin K f f' (uriStage r) (uriStage r') := by
  unfold uriStage
  rw [h.state]
  by_cases hs : r.state = .parseUri
  · rw [if_pos hs, if_pos hs]
    have hp := parseRequestLine_twin h hs
    generalize parseRequestLine r = x at hp ⊢
    generalize parseRequestLine r' = x' at hp ⊢
    cases hp with
    | halt e => exact .halt e
    | failed a a' => exact .given a a'
    | @decided v a a' ha =>
      cases v with
      | success => exact .ok ha
      | again => exact .wait ha
      | error => exact .given a a'
  · rw [if_neg hs, if_neg hs]
    exact .ok h

theorem headStage_twin (hK : ∀ m n, K m n → SameKey m n) (h : Twin K f f' r r') :
    StageTwin K f f' (headStage r) (headStage r') := by
  unfold headStage
  rw [h.state]
  by_cases hs : r.state = .parseHeaders
  · rw [if_pos hs, if_pos hs]
    have hp := parseRequestHead_twin hK h hs
    generalize parseRequestHead r = x at hp ⊢
    generalize parseRequestHead r' = x' at hp ⊢
    cases hp with
    | halt e => exact .halt e
    | failed a a' => exact .given a a'
    | @decided v a a' ha =>
      cases v with
      | again => exact .wait ha
      | error => exact .given a a'
      | success =>
        have hmethod : a'.method = a.method := by
          obtain ⟨c, H, ha', -⟩ := ha .analysis (Or.inr rfl)
          have hsame := congrArg RequestData.method ha'
          exact hsame
        dsimp only
        by_cases hpost : a.method = .post
        · rw [if_pos hpost, if_pos (hmethod.trans hpost)]
          exact .ok (ha .recvBody (Or.inl rfl))
        · rw [if_neg hpost, if_neg fun h => hpost (hmethod.symm.trans h)]
          exact .ok (ha .analysis (Or.inr rfl))
  · rw [if_neg hs, if_neg hs]
    exact .ok h

theorem bodyStage_twin (h : Twin K f f' r r') : StageTwin K f f' (bodyStage r) (bodyStage r') := by
  have htwin := h
  obtain ⟨c, H, rfl, hlen, hset, hrel⟩ := h
  unfold bodyStage
  dsimp only
  by_cases hs : r.state = .recvBody
  · rw [if_pos hs, if_pos hs]
    have hlook := hset.length
    cases hv : r.headers.lookup (ascii "Content-length") with
    | none =>
      rw [hv] at hlook
      rw [Option.map_eq_none_iff.1 hlook.symm]
      exact .given _ _
    | some v =>
      rw [hv] at hlook
      obtain ⟨v', hv', hstoi⟩ := Option.map_eq_some_iff.1 hlook.symm
      rw [hv']
      dsimp only
      rw [hstoi]
      cases stoi v with
      | error e => exact .halt e
      | ok n =>
        dsimp only
        rw [← hlen]
        by_cases hlt : r.content.length < toSize n
        · rw [if_pos hlt, if_pos hlt]
          exact .wait htwin
        · rw [if_neg hlt, if_neg hlt]
          exact .ok ⟨c, H, rfl, hlen, hset, trivial⟩
  · rw [if_neg hs, if_neg hs]
    exact .ok htwin

/-- The answer looks at `Connection` alone, and not at the content. -/
theorem analysisRequest_settings {content : Bytes} {H : Headers} (hset : SameSettings r.headers H)
    (fs : FileSystem) (filetype : Option TypeText) (writes : List WriteResult) :
    analysisRequest fs filetype writes { r with content := content, headers := H } =
      analysisRequest fs filetype writes r := by
  have hstart : startHeader { r with content := content, headers := H } = startHeader r := by
    unfold startHeader
    dsimp only
    by_cases h : r.headers.lookup (ascii "Connection") = some (ascii "keep-alive")
    · rw [if_pos h, if_pos (hset.connection.1 h)]
    · rw [if_neg h, if_neg (hset.connection.not.1 h)]
  simp only [analysisRequest, analysisPost, analysisGet, postHeader, getHeader, hstart]

/-- Two calls send the same bytes and decide alike; nothing is asked behind an answer. -/
inductive ServedTwin (K : Bytes → Bytes → Prop) (f f' : Bytes) : Served → Served → Prop where
  | halted (sent : Bytes) (h : Halt) : ServedTwin K f f' ⟨sent, .halted h⟩ ⟨sent, .halted h⟩
  | deleted (sent : Bytes) : ServedTwin K f f' ⟨sent, .delete⟩ ⟨sent, .delete⟩
  | waits {r r' : RequestData} (h : Twin K f f' r r') : ServedTwin K f f' ⟨[], .rearm r⟩ ⟨[], .rearm r'⟩
  | answered {sent : Bytes} (h : sent ≠ []) (r r' : RequestData) :
      ServedTwin K f f' ⟨sent, .rearm r⟩ ⟨sent, .rearm r'⟩

theorem Twin.unfinished (h : Twin K f f' r r') : r.state ≠ .finish := by
  obtain ⟨c, H, -, -, -, hrel⟩ := h
  intro hs
  rw [hs] at hrel
  exact hrel

theorem Twin.leave (h : Twin K f f' r r') :
    ServedTwin K f f' ⟨[], leave (.brk false r)⟩ ⟨[], leave (.brk false r')⟩ := by
  have hs := h.unfinished
  simp only [HPServer.leave, h.state, if_neg hs]
  exact .waits h

theorem analysisStage_twin {env env' : CallEnv} (henv : SameDelivery env env') (h : Twin K f f' r r') :
    ServedTwin K f f' ⟨(analysisStage env r).1, leave (analysisStage env r).2⟩
      ⟨(analysisStage env' r').1, leave (analysisStage env' r').2⟩ := by
  obtain ⟨reads', rfl, -⟩ := henv
  have htwin := h
  obtain ⟨content', H', rfl, hlen, hset, hrel⟩ := h
  unfold analysisStage
  dsimp only
  by_cases hs : r.state = .analysis
  · rw [if_pos hs, if_pos hs, analysisRequest_settings hset]
    cases hflag : (analysisRequest env.fs env.filetype env.writes r).flag with
    | error e => exact .halted _ e
    | ok flag =>
      cases flag with
      | error => exact .deleted _
      | success =>
        have hsent := analysisRequest_success hflag
        simp only [leave, if_true]
        by_cases hkeep : (analysisRequest env.fs env.filetype env.writes r).keepAlive = true
        · rw [if_pos hkeep, if_pos hkeep]
          exact .answered hsent _ _
        · rw [if_neg hkeep, if_neg hkeep]
          exact .deleted _
  · rw [if_neg hs, if_neg hs]
    exact htwin.leave

/-- **One call.** -/
theorem serve_twin (hK : ∀ m n, K m n → SameKey m n) {env env' : CallEnv} (henv : SameDelivery env env')
    (h : Twin K (env.received ++ f) (env'.received ++ f') r r') :
    ServedTwin K f f' (serve env r) (serve env' r') := by
  have hstages : StageTwin K f f' (parseStages env r >>= bodyStage) (parseStages env' r' >>= bodyStage) :=
    ((readStage_twin henv h).bind fun _ _ h => (uriStage_twin h).bind fun _ _ h =>
      headStage_twin hK h).bind fun _ _ h => bodyStage_twin h
  rw [serve_eq, serve_eq]
  generalize parseStages env r >>= bodyStage = x at hstages ⊢
  generalize parseStages env' r' >>= bodyStage = x' at hstages ⊢
  cases hstages with
  | halt e => exact .halted _ e
  | given a a' => exact .deleted _
  | wait h => exact h.leave
  | ok h => exact analysisStage_twin henv h

end Stages

/-! ## Up to the answer -/

/-- The calls on one request: up to the one that sends anything. -/
def untilAnswered : List Observation → List Observation
  | [] => []
  | o :: os => o :: if o.sent = [] then untilAnswered os else []

theorem observe_twin {K : Bytes → Bytes → Prop} (hK : ∀ m n, K m n → SameKey m n)
    {envs envs' : List CallEnv} (h : List.Forall₂ SameDelivery envs envs') : ∀ {r r' : RequestData},
    Twin K (envs.flatMap CallEnv.received) (envs'.flatMap CallEnv.received) r r' →
    untilAnswered (observe r envs) = untilAnswered (observe r' envs') := by
  induction h with
  | nil => intro r r' _; rfl
  | @cons env env' envs envs' henv _ ih =>
    intro r r' htwin
    have hids : r'.epollfd = r.epollfd ∧ r'.fd = r.fd := by
      obtain ⟨c, H, rfl, -⟩ := htwin; exact ⟨rfl, rfl⟩
    have hrearm : env'.epollMod = env.epollMod ∧ env'.mtimer = env.mtimer := by
      obtain ⟨reads', rfl, -⟩ := henv; exact ⟨rfl, rfl⟩
    rw [List.flatMap_cons, List.flatMap_cons] at htwin
    have hserve : ServedTwin K _ _ (serve env r.separateTimer) (serve env' r'.separateTimer) :=
      serve_twin hK henv (htwin.timer none)
    simp only [observe, handleRequest, hids.1, hids.2]
    generalize serve env r.separateTimer = x at hserve ⊢
    generalize serve env' r'.separateTimer = x' at hserve ⊢
    cases hserve with
    | halted sent e => rfl
    | deleted sent => rfl
    | @waits a a' ha =>
      simp only [rearm, hrearm.1, hrearm.2]
      by_cases hmod : env.epollMod = true
      · rw [if_pos hmod, if_pos hmod]
        simp only [untilAnswered, if_true]
        exact congrArg _ (ih (ha.timer (some env.mtimer)))
      · rw [if_neg hmod, if_neg hmod]
    | answered hsent a a' =>
      simp only [rearm, hrearm.1, untilAnswered, if_neg hsent]
      by_cases hmod : env.epollMod = true
      · rw [if_pos hmod, if_pos hmod]
        rfl
      · rw [if_neg hmod, if_neg hmod]

/-- **Header names are matched by their bytes.** Two requests that arrive alike and differ in the letter
case of header names only are answered alike, if no name is `Content-length` or `Connection` in just one
of them: where the system answers alike, and `filetype` points to the same text, the same bytes are sent,
and the connection waits, is kept or is given up at the same call. -/
theorem observe_respelled {envs envs' : List CallEnv} (h : List.Forall₂ SameDelivery envs envs')
    (htext : Respelled SameKey .line (envs.flatMap CallEnv.received) (envs'.flatMap CallEnv.received))
    (epollfd fd : Int) (path : Bytes) :
    untilAnswered (observe (.new epollfd fd path) envs) =
      untilAnswered (observe (.new epollfd fd path) envs') :=
  observe_twin (fun _ _ h => h) h ⟨[], ∅, rfl, rfl, .refl ∅, rfl, htext⟩

/-! ## Two requests as they are written -/

/-- Two headers with one value, whose names agree up to case. -/
def Recased (K : Bytes → Bytes → Prop) (l l' : HeaderField) : Prop :=
  l.name.map lower = l'.name.map lower ∧ K l.name l'.name ∧ l.value = l'.value

theorem printHeaders_respelled {K : Bytes → Bytes → Prop} {lines lines' : List HeaderField} {w w' : Bytes}
    (h : List.Forall₂ (Recased K) lines lines') (hw : Respelled K (.name [] []) w w') :
    Respelled K (.name [] []) (printHeaders lines ++ w) (printHeaders lines' ++ w') := by
  induction h with
  | nil => exact hw
  | @cons l l' lines lines' hl _ ih =>
    obtain ⟨hname, hK, hvalue⟩ := hl
    have hfree : ∀ c ∈ l.name, c ≠ COLON ∧ c ≠ LF ∧ c ≠ CR := fun c hc =>
      ⟨(l.name_free c hc).1, (l.name_free c hc).2.2, (l.name_free c hc).2.1⟩
    have hv : ∀ c ∈ SP :: l.value, c ≠ LF ∧ c ≠ CR := by
      intro c hc
      rcases List.mem_cons.1 hc with rfl | hc
      · decide
      · exact (l.value_free c hc).symm
    have hrest := Respelled.value_cr hv ih.name_lf
    have hline := Respelled.name_colon hname hfree hrest (a := []) (b := []) hK
    simpa [printHeaders, HeaderField.print, CRLF, hvalue] using hline

/-- `body` stands for the rest of both texts. -/
def requestText (line : Bytes) (lines : List HeaderField) (body : Bytes) : Bytes :=
  line ++ CRLF ++ printHeaders lines ++ CRLF ++ body

theorem requestText_respelled {K : Bytes → Bytes → Prop} (hK : ∀ m, K m m) {line : Bytes}
    (hline : CR ∉ line) {lines lines' : List HeaderField} (h : List.Forall₂ (Recased K) lines lines')
    (body : Bytes) :
    Respelled K .line (requestText line lines body) (requestText line lines' body) := by
  have hbody : Respelled K (.name [] []) (CRLF ++ body) (CRLF ++ body) :=
    .refl hK _ (by rintro m n ⟨⟩; rfl)
  have hlines := Respelled.line_cr hline (printHeaders_respelled h hbody).name_lf
  simpa [requestText, CRLF] using hlines

/-! ## One name, spelled in two ways -/

def lengthField : HeaderField :=
  ⟨ascii "Content-length", ascii "0", by decide, by simp [ascii, COLON, CR, LF], by decide, by decide,
    by simp [ascii, CR, LF]⟩

/-- `Content-Length: 0`. -/
def lengthRecased : HeaderField :=
  ⟨ascii "Content-Length", ascii "0", by decide, by simp [ascii, COLON, CR, LF], by decide, by decide,
    by simp [ascii, CR, LF]⟩

def hostField : HeaderField :=
  ⟨ascii "Host", ascii "a", by decide, by simp [ascii, COLON, CR, LF], by decide, by decide,
    by simp [ascii, CR, LF]⟩

/-- `HOST: a`. -/
def hostRecased : HeaderField :=
  ⟨ascii "HOST", ascii "a", by decide, by simp [ascii, COLON, CR, LF], by decide, by decide,
    by simp [ascii, CR, LF]⟩

/-- `POST` with these headers and no body, read in one piece. -/
def postText (lines : List HeaderField) : Bytes := requestText (ascii "POST / HTTP/1.1") lines []

def postOf (lines : List HeaderField) : CallEnv := reading (postText lines)

theorem reading_received {b : Bytes} (hne : b ≠ []) (hlen : b.length < MAX_BUFF) :
    (reading b).received = b := by
  have hpos : 0 < b.length := List.length_pos_iff.2 hne
  unfold MAX_BUFF at hlen
  have hleft : 4096 - b.length = 4095 - b.length + 1 := by omega
  have hread : readn none [.bytes b, .error .eagain] MAX_BUFF =
      .ok ⟨sizeToInt b.length, b, some .eagain, []⟩ := by
    rw [readn, show MAX_BUFF = 4095 + 1 from rfl, readnLoop, if_neg hne, if_neg (by omega), hleft,
      readnLoop, List.nil_append]
  have hret : sizeToInt b.length = b.length := sizeToInt_of_lt (by omega)
  rw [CallEnv.received]
  simp only [reading, CallEnv.idle, hread, hret]
  exact if_pos (by omega)

theorem postOf_received {lines : List HeaderField} (hne : postText lines ≠ [])
    (hlen : (postText lines).length < MAX_BUFF) :
    [postOf lines].flatMap CallEnv.received = postText lines := by
  rw [List.flatMap_cons, List.flatMap_nil, List.append_nil, postOf, reading_received hne hlen]

theorem postOf_recased {K : Bytes → Bytes → Prop} (hK : ∀ m, K m m) {lines lines' : List HeaderField}
    (h : List.Forall₂ (Recased K) lines lines') : Respelled K .line (postText lines) (postText lines') :=
  requestText_respelled hK (by decide) h []

theorem postOf_delivery {lines lines' : List HeaderField}
    (h : (postText lines).length = (postText lines').length) :
    List.Forall₂ SameDelivery [postOf lines] [postOf lines'] :=
  .cons ⟨_, rfl, .cons (.bytes h) (.cons (.error .eagain) .nil)⟩ .nil

/-- A `POST` whose length is spelled `Content-Length` is dropped without an answer. -/
theorem lengthRecased_dropped :
    ¬ ∀ envs envs' : List CallEnv, List.Forall₂ SameDelivery envs envs' →
      Respelled (fun _ _ => True) .line (envs.flatMap CallEnv.received) (envs'.flatMap CallEnv.received) →
      ∀ (epollfd fd : Int) (path : Bytes), untilAnswered (observe (.new epollfd fd path) envs) =
        untilAnswered (observe (.new epollfd fd path) envs') := by
  intro h
  have hlines : List.Forall₂ (Recased fun _ _ => True) [lengthField] [lengthRecased] :=
    .cons ⟨by decide, trivial, rfl⟩ .nil
  have hsame := h [postOf [lengthField]] [postOf [lengthRecased]] (postOf_delivery (by decide)) (by
    rw [postOf_received (by decide) (by decide), postOf_received (by decide) (by decide)]
    exact postOf_recased (fun _ => trivial) hlines) 3 5 (ascii "/")
  exact absurd hsame (by decide)

/-- A `POST` whose host is spelled `HOST` is answered as if it were not. -/
theorem hostRecased_answered :
    untilAnswered (observe (.new 3 5 (ascii "/")) [postOf [hostField, lengthField]]) =
      untilAnswered (observe (.new 3 5 (ascii "/")) [postOf [hostRecased, lengthField]]) := by
  have hlines : List.Forall₂ (Recased SameKey) [hostField, lengthField] [hostRecased, lengthField] :=
    .cons ⟨by decide, by decide, rfl⟩ (.cons ⟨rfl, by decide, rfl⟩ .nil)
  exact observe_respelled (postOf_delivery (by decide)) (by
    rw [postOf_received (by decide) (by decide), postOf_received (by decide) (by decide)]
    exact postOf_recased (fun _ => ⟨Iff.rfl, Iff.rfl⟩) hlines) 3 5 (ascii "/")

end HPServer
