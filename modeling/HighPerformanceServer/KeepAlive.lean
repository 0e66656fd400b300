import HighPerformanceServer.ConnectionInv
import HighPerformanceServer.FileSize
/-!
# Requests that follow each other on one connection

`Agree` relates two objects that differ only in fields `reset` forgets: `path`, `HTTPversion`, the
timer, and `method` as long as the next request line has not been read. Every stage takes agreeing
objects to agreeing objects, so a connection that has been kept alive behaves like a fresh one, but for
one thing: the type of a file is printed from memory that has been given back (requestData.cpp:411-422),
and what is there may depend on the requests before (`keptAlive_fresh`).
-/

namespace HPServer

open CppStd

/-! ## Two runs -/

def Agree (r s : RequestData) : Prop :=
  ∃ path method version timer,
    s = { r with path := path, method := method, httpVersion := version, timer := timer } ∧
      (r.state ≠ .parseUri → method = r.method)

/-- The loop is left in the same way. -/
def ExitAgree (e f : Exit) : Prop :=
  (∃ h, e = .halt h ∧ f = .halt h) ∨ ∃ b r s, e = .brk b r ∧ f = .brk b s ∧ Agree r s

def StageAgree (x y : Stage) : Prop :=
  (∃ e f, x = .error e ∧ y = .error f ∧ ExitAgree e f) ∨ ∃ r s, x = .ok r ∧ y = .ok s ∧ Agree r s

/-- Two parser calls: they halt alike, or return one verdict and agreeing objects. -/
def ParseAgree {V : Type} (x y : Exec (V × RequestData)) : Prop :=
  (∃ e, x = .error e ∧ y = .error e) ∨ ∃ v r s, x = .ok (v, r) ∧ y = .ok (v, s) ∧ Agree r s

def DecisionAgree (d e : Decision) : Prop :=
  (∃ h, d = .halted h ∧ e = .halted h) ∨ (d = .delete ∧ e = .delete) ∨
    ∃ r s, d = .rearm r ∧ e = .rearm s ∧ Agree r s

theorem StageAgree.halt {h : Halt} : StageAgree (.error (.halt h)) (.error (.halt h)) :=
  Or.inl ⟨_, _, rfl, rfl, Or.inl ⟨h, rfl, rfl⟩⟩

theorem StageAgree.brk {b : Bool} {r s : RequestData} (h : Agree r s) :
    StageAgree (.error (.brk b r)) (.error (.brk b s)) :=
  Or.inl ⟨_, _, rfl, rfl, Or.inr ⟨b, r, s, rfl, rfl, h⟩⟩

theorem StageAgree.ok {r s : RequestData} (h : Agree r s) : StageAgree (.ok r) (.ok s) :=
  Or.inr ⟨r, s, rfl, rfl, h⟩

theorem StageAgree.bind {x y : Stage} {f g : RequestData → Stage} (h : StageAgree x y)
    (hfg : ∀ r s, Agree r s → StageAgree (f r) (g s)) : StageAgree (x >>= f) (y >>= g) := by
  rcases h with ⟨e, e', rfl, rfl, h⟩ | ⟨r, s, rfl, rfl, h⟩
  · exact Or.inl ⟨e, e', rfl, rfl, h⟩
  · exact hfg r s h

theorem Agree.state {r s : RequestData} (h : Agree r s) : s.state = r.state := by
  obtain ⟨p, m, v, t, rfl, -⟩ := h; rfl

theorem Agree.method {r s : RequestData} (h : Agree r s) (hs : r.state ≠ .parseUri) :
    ∃ path version timer,
      s = { r with path := path, httpVersion := version, timer := timer } := by
  obtain ⟨p, m, v, t, rfl, hm⟩ := h
  obtain rfl := hm hs
  exact ⟨p, v, t, rfl⟩

theorem Agree.separateTimer {r s : RequestData} (h : Agree r s) :
    Agree r.separateTimer s.separateTimer := by
  obtain ⟨p, m, v, t, rfl, hm⟩ := h
  exact ⟨p, m, v, none, rfl, hm⟩

/-- What `reset` leaves is as good as new. -/
theorem agree_reset_new (r : RequestData) (path : Bytes) (timer : Option TimerId) :
    Agree { r.reset with timer := timer } (.new r.epollfd r.fd path) :=
  ⟨path, .notDefined, .unset, none, rfl, fun h => absurd rfl h⟩

/-! ## The stages on agreeing objects -/

theorem readStage_agree (env : CallEnv) {r s : RequestData} (h : Agree r s) :
    StageAgree (readStage env r) (readStage env s) := by
  obtain ⟨p, m, v, t, rfl, hm⟩ := h
  unfold readStage
  cases readn env.errno env.reads MAX_BUFF with
  | error e => exact .halt
  | ok x =>
    dsimp only
    split
    · exact .brk ⟨p, m, v, t, rfl, hm⟩
    split
    · split
      · split
        · exact .brk ⟨p, m, v, t, rfl, hm⟩
        · exact .brk ⟨p, m, v, t, rfl, hm⟩
      · split
        · exact .brk ⟨p, m, v, t, rfl, hm⟩
        · exact .brk ⟨p, m, v, t, rfl, hm⟩
    · exact .ok ⟨p, m, v, t, rfl, hm⟩

theorem parseRequestLine_agree {r s : RequestData} (h : Agree r s) (hs : r.state = .parseUri) :
    ParseAgree (parseRequestLine r) (parseRequestLine s) := by
  obtain ⟨p, m, v, t, rfl, -⟩ := h
  simp only [parseRequestLine, bind, Except.bind]
  cases takeRequestLine r.content r.nowReadPos with
  | error e => exact Or.inl ⟨e, rfl, rfl⟩
  | ok cut =>
    cases cut with
    | none => exact Or.inr ⟨_, _, _, rfl, rfl, p, m, v, t, rfl, fun hn => absurd hs hn⟩
    | some cut =>
      dsimp only
      cases parseMethod cut.1 with
      | error e => exact Or.inl ⟨e, rfl, rfl⟩
      | ok x =>
        obtain ⟨pos, mc, rest⟩ := x
        dsimp only
        by_cases hbad : pos < 0 ∨ mc = .invalid
        · simp only [if_pos hbad]
          exact Or.inr ⟨_, _, _, rfl, rfl, p, mc, v, t, rfl, fun _ => rfl⟩
        simp only [if_neg hbad]
        cases parseUrl rest r.fileName with
        | error e => exact Or.inl ⟨e, rfl, rfl⟩
        | ok url =>
          cases url with
          | none => exact Or.inr ⟨_, _, _, rfl, rfl, p, mc, v, t, rfl, fun _ => rfl⟩
          | some url =>
            dsimp only
            cases parseVersion url.1 url.2.1 with
            | error e => exact Or.inl ⟨e, rfl, rfl⟩
            | ok version =>
              cases version with
              | none => exact Or.inr ⟨_, _, _, rfl, rfl, p, mc, v, t, rfl, fun _ => rfl⟩
              | some vc => exact Or.inr ⟨_, _, _, rfl, rfl, p, mc, vc, t, rfl, fun _ => rfl⟩

theorem parseRequestHead_agree {r s : RequestData} (h : Agree r s) :
    ParseAgree (parseRequestHead r) (parseRequestHead s) := by
  obtain ⟨p, m, v, t, rfl, hm⟩ := h
  simp only [parseRequestHead, bind, Except.bind]
  cases headLoop r.content 0 r.content (.init r.hState r.headers) with
  | error e => exact Or.inl ⟨e, rfl, rfl⟩
  | ok it =>
    cases it with
    | fail s => exact Or.inr ⟨_, _, _, rfl, rfl, p, m, v, t, rfl, hm⟩
    | next s =>
      dsimp only
      cases substr r.content s.nowReadLineBegin npos with
      | error e => exact Or.inl ⟨e, rfl, rfl⟩
      | ok str => exact Or.inr ⟨_, _, _, rfl, rfl, p, m, v, t, rfl, hm⟩

theorem uriStage_agree {r s : RequestData} (h : Agree r s) :
    StageAgree (uriStage r) (uriStage s) := by
  unfold uriStage
  rw [h.state]
  by_cases hs : r.state = .parseUri
  · rw [if_pos hs, if_pos hs]
    rcases parseRequestLine_agree h hs with ⟨e, hr, hr'⟩ | ⟨v, r', s', hr, hr', hagree⟩ <;>
      rw [hr, hr']
    · exact .halt
    · cases v with
      | success => exact .ok hagree
      | again => exact .brk hagree
      | error => exact .brk hagree
  · rw [if_neg hs, if_neg hs]
    exact .ok h

theorem headStage_agree {r s : RequestData} (h : Agree r s) :
    StageAgree (headStage r) (headStage s) := by
  unfold headStage
  rw [h.state]
  by_cases hs : r.state = .parseHeaders
  · rw [if_pos hs, if_pos hs]
    rcases parseRequestHead_agree h with ⟨e, hr, hr'⟩ | ⟨v, r', s', hr, hr', hagree⟩ <;>
      rw [hr, hr']
    · exact .halt
    · cases v with
      | again => exact .brk hagree
      | error => exact .brk hagree
      | success =>
        have hstate : r'.state ≠ .parseUri := by
          rcases parseRequestHead_cases hr with ⟨-, _, _, rfl⟩ | ⟨-, _, _, rfl⟩ | ⟨-, _, _, _, -, rfl⟩ <;>
            simp [hs]
        obtain ⟨p, v', t, rfl⟩ := hagree.method hstate
        dsimp only
        by_cases hpost : r'.method = .post
        · rw [if_pos hpost, if_pos hpost]
          exact .ok ⟨p, r'.method, v', t, rfl, fun _ => rfl⟩
        · rw [if_neg hpost, if_neg hpost]
          exact .ok ⟨p, r'.method, v', t, rfl, fun _ => rfl⟩
  · rw [if_neg hs, if_neg hs]
    exact .ok h

theorem bodyStage_agree {r s : RequestData} (h : Agree r s) :
    StageAgree (bodyStage r) (bodyStage s) := by
  unfold bodyStage
  rw [h.state]
  by_cases hs : r.state = .recvBody
  · obtain ⟨p, v, t, rfl⟩ := h.method (by rw [hs]; simp)
    simp only [if_pos hs]
    cases r.headers.lookup (ascii "Content-length") with
    | none => exact .brk h
    | some len =>
      dsimp only
      cases stoi len with
      | error e => exact .halt
      | ok n =>
        dsimp only
        by_cases hlt : r.content.length < toSize n
        · simp only [if_pos hlt]
          exact .brk h
        · simp only [if_neg hlt]
          exact .ok ⟨p, r.method, v, t, rfl, fun _ => rfl⟩
  · rw [if_neg hs, if_neg hs]
    exact .ok h

/-- The answers of the system in a second run: the same ones, but for what `filetype` points to. -/
def CallEnv.finding (env : CallEnv) (filetype : Option TypeText) : CallEnv :=
  { env with filetype := filetype }

/-- The call comes to print `filetype` (:422): it has read a `GET` of a file that exists. -/
def CallEnv.Prints (env : CallEnv) (r : RequestData) : Prop :=
  ∃ a, parseStages env r >>= bodyStage = .ok a ∧ a.state = .analysis ∧ PrintsType env.fs a

instance (env : CallEnv) (r : RequestData) : Decidable (env.Prints r) :=
  match h : parseStages env r >>= bodyStage with
  | .ok a => decidable_of_iff (a.state = .analysis ∧ PrintsType env.fs a)
      ⟨fun ha => ⟨a, h, ha⟩, fun ⟨_, hb, ha⟩ => Except.ok.inj (h.symm.trans hb) ▸ ha⟩
  | .error _ => .isFalse fun ⟨_, hb, _⟩ => by cases h.symm.trans hb

/-- An answer depends on the method, the headers and the file name only, and on `filetype` where it is
printed. -/
theorem analysisStage_agree (env : CallEnv) {filetype : Option TypeText} {r s : RequestData} (h : Agree r s)
    (htype : r.state = .analysis → PrintsType env.fs r → filetype = env.filetype) :
    (analysisStage env r).1 = (analysisStage (env.finding filetype) s).1 ∧
      ExitAgree (analysisStage env r).2 (analysisStage (env.finding filetype) s).2 := by
  unfold analysisStage
  rw [h.state]
  by_cases hs : r.state = .analysis
  · obtain ⟨p, v, t, rfl⟩ := h.method (by rw [hs]; simp)
    have hreply : analysisRequest env.fs filetype env.writes
        { r with path := p, httpVersion := v, timer := t } =
          analysisRequest env.fs env.filetype env.writes r := by
      by_cases hprints : PrintsType env.fs r
      · rw [htype hs hprints]
        rfl
      · exact (analysisRequest_filetype (r := { r with path := p, httpVersion := v, timer := t }) hprints ..)
    rw [if_pos hs, if_pos hs]
    dsimp only [CallEnv.finding]
    rw [hreply]
    cases (analysisRequest env.fs env.filetype env.writes r).flag with
    | error e => exact ⟨rfl, Or.inl ⟨e, rfl, rfl⟩⟩
    | ok flag =>
      cases flag with
      | success => exact ⟨rfl, Or.inr ⟨_, _, _, rfl, rfl, p, r.method, v, t, rfl, fun _ => rfl⟩⟩
      | error => exact ⟨rfl, Or.inr ⟨_, _, _, rfl, rfl, p, r.method, v, t, rfl, fun _ => rfl⟩⟩
  · rw [if_neg hs, if_neg hs]
    exact ⟨rfl, Or.inr ⟨_, _, _, rfl, rfl, h⟩⟩

theorem leave_agree {e f : Exit} (h : ExitAgree e f) : DecisionAgree (leave e) (leave f) := by
  rcases h with ⟨k, rfl, rfl⟩ | ⟨b, r, s, rfl, rfl, p, m, v, t, rfl, hm⟩
  · exact Or.inl ⟨k, rfl, rfl⟩
  · cases b with
    | true => exact Or.inr (Or.inl ⟨rfl, rfl⟩)
    | false =>
      simp only [leave]
      by_cases hfin : r.state = .finish
      · simp only [if_pos hfin]
        by_cases hka : r.keepAlive = true
        · simp only [if_pos hka]
          exact Or.inr (Or.inr ⟨_, _, rfl, rfl, [], m, v, t, rfl, fun hn => absurd rfl hn⟩)
        · simp only [if_neg hka]
          exact Or.inr (Or.inl ⟨rfl, rfl⟩)
      · simp only [if_neg hfin]
        exact Or.inr (Or.inr ⟨_, _, rfl, rfl, p, m, v, t, rfl, hm⟩)

theorem received_agree (env : CallEnv) {r s : RequestData} (h : Agree r s) :
    StageAgree (parseStages env r >>= bodyStage) (parseStages env s >>= bodyStage) :=
  ((readStage_agree env h).bind fun _ _ h => (uriStage_agree h).bind fun _ _ h =>
    headStage_agree h).bind fun _ _ h => bodyStage_agree h

theorem serve_agree {env : CallEnv} {filetype : Option TypeText} {r s : RequestData} (h : Agree r s)
    (htype : env.Prints r → filetype = env.filetype) :
    (serve env r).sent = (serve (env.finding filetype) s).sent ∧
      DecisionAgree (serve env r).decision (serve (env.finding filetype) s).decision := by
  rw [serve_eq, serve_eq, show parseStages (env.finding filetype) s = parseStages env s from rfl]
  rcases received_agree env h with ⟨e, f, hr, hs, he⟩ | ⟨r₁, s₁, hr, hs, h₁⟩ <;> rw [hr, hs]
  · exact ⟨rfl, leave_agree he⟩
  · have hanswer := analysisStage_agree env h₁ fun hstate hprints => htype ⟨r₁, hr, hstate, hprints⟩
    exact ⟨hanswer.1, leave_agree hanswer.2⟩

/-! ## What a client and the kernel see -/

inductive Outcome where
  | halted (h : Halt) | deleted | rearmFailed | rearmed
deriving DecidableEq

def Fate.outcome : Fate → Outcome
  | .halted h => .halted h
  | .deleted => .deleted
  | .rearmFailed => .rearmFailed
  | .kept _ => .rearmed

/-- One call, seen from outside: the bytes sent on `fd`, and what it does to the object registered
with `epollfd`. -/
structure Observation where
  epollfd : Int
  fd : Int
  sent : Bytes
  outcome : Outcome
deriving DecidableEq

/-- The calls on one object, up to the one that ends it. -/
def observe : RequestData → List CallEnv → List Observation
  | _, [] => []
  | r, env :: envs =>
    let (sent, fate) := handleRequest env r.separateTimer
    ⟨r.epollfd, r.fd, sent, fate.outcome⟩ ::
      match fate with
      | .kept r' => observe r' envs
      | .halted _ | .deleted | .rearmFailed => []

/-- A call ends both objects in the same way, or leaves both alive. -/
inductive FateAgree : Fate → Fate → Prop
  | halted (h : Halt) : FateAgree (.halted h) (.halted h)
  | deleted : FateAgree .deleted .deleted
  | rearmFailed : FateAgree .rearmFailed .rearmFailed
  | kept {r s : RequestData} (h : Agree r s) : FateAgree (.kept r) (.kept s)

theorem FateAgree.outcome {f g : Fate} (h : FateAgree f g) : f.outcome = g.outcome := by
  cases h <;> rfl

theorem handleRequest_agree {env : CallEnv} {filetype : Option TypeText} {r s : RequestData} (h : Agree r s)
    (htype : env.Prints r → filetype = env.filetype) :
    (handleRequest env r).1 = (handleRequest (env.finding filetype) s).1 ∧
      FateAgree (handleRequest env r).2 (handleRequest (env.finding filetype) s).2 := by
  have hmod : (env.finding filetype).epollMod = env.epollMod := rfl
  obtain ⟨hsent, hdec⟩ := serve_agree h htype
  unfold handleRequest
  dsimp only
  rw [← hsent]
  rcases hdec with ⟨k, hr, hs⟩ | ⟨hr, hs⟩ | ⟨r', s', hr, hs, p, m, v, t, rfl, hm⟩ <;> rw [hr, hs]
  · exact ⟨rfl, .halted k⟩
  · exact ⟨rfl, .deleted⟩
  · refine ⟨rfl, ?_⟩
    simp only [rearm, hmod]
    by_cases hdone : env.epollMod = true
    · rw [if_pos hdone, if_pos hdone]
      exact .kept ⟨p, m, v, some env.mtimer, rfl, hm⟩
    · rw [if_neg hdone, if_neg hdone]
      exact .rearmFailed

/-- What is seen of a call on `r`. -/
def observed (env : CallEnv) (r : RequestData) : Observation :=
  ⟨r.epollfd, r.fd, (handleRequest env r.separateTimer).1, (handleRequest env r.separateTimer).2.outcome⟩

theorem observe_kept {env : CallEnv} {r r' : RequestData}
    (h : (handleRequest env r.separateTimer).2 = .kept r') (envs : List CallEnv) :
    observe r (env :: envs) = observed env r :: observe r' envs := by
  simp only [observe, observed, h]

theorem observe_ended {env : CallEnv} {r : RequestData}
    (h : ∀ r', (handleRequest env r.separateTimer).2 ≠ .kept r') (envs : List CallEnv) :
    observe r (env :: envs) = [observed env r] := by
  simp only [observe, observed]
  cases hf : (handleRequest env r.separateTimer).2 with
  | kept r' => exact absurd hf (h r')
  | halted | deleted | rearmFailed => rfl

theorem observed_agree {env : CallEnv} {filetype : Option TypeText} {r s : RequestData} (h : Agree r s)
    (htype : env.Prints r.separateTimer → filetype = env.filetype) :
    observed env r = observed (env.finding filetype) s := by
  have hids : s.epollfd = r.epollfd ∧ s.fd = r.fd := by
    obtain ⟨p, m, v, t, rfl, -⟩ := h; exact ⟨rfl, rfl⟩
  obtain ⟨hsent, hfate⟩ := handleRequest_agree h.separateTimer htype
  simp only [observed, hids.1, hids.2, hsent, hfate.outcome]

/-- The calls of a run, each with what `filetype` points to in a second run. -/
abbrev TwoRuns := List (CallEnv × Option TypeText)

namespace TwoRuns

def first (calls : TwoRuns) : List CallEnv := calls.map Prod.fst

def second (calls : TwoRuns) : List CallEnv := calls.map fun c => c.1.finding c.2

end TwoRuns

/-- Whenever a call on `r` comes to print `filetype`, it finds the same there in both runs. -/
def SameTexts : RequestData → TwoRuns → Prop
  | _, [] => True
  | r, (env, filetype) :: calls =>
    (env.Prints r.separateTimer → filetype = env.filetype) ∧
    ∀ r', (handleRequest env r.separateTimer).2 = .kept r' → SameTexts r' calls

theorem observe_sameTexts : ∀ (calls : TwoRuns) {r s : RequestData}, Agree r s → SameTexts r calls →
    observe r calls.first = observe s calls.second
  | [], _, _, _, _ => rfl
  | (env, filetype) :: calls, r, s, h, hsame => by
    have hcall := observed_agree h hsame.1
    obtain ⟨-, hfate⟩ := handleRequest_agree h.separateTimer hsame.1
    show observe r (env :: TwoRuns.first calls) = observe s (env.finding filetype :: TwoRuns.second calls)
    generalize hr : (handleRequest env r.separateTimer).2 = f at hfate
    generalize hs : (handleRequest (env.finding filetype) s.separateTimer).2 = g at hfate
    cases hfate with
    | halted | deleted | rearmFailed =>
      rw [observe_ended (fun _ h => by cases hr.symm.trans h),
        observe_ended (fun _ h => by cases hs.symm.trans h), hcall]
    | kept hagree =>
      rw [observe_kept hr, observe_kept hs, hcall, observe_sameTexts calls hagree (hsame.2 _ hr)]

theorem sameTexts_refl : ∀ (envs : List CallEnv) (r : RequestData),
    SameTexts r (envs.map fun env => (env, env.filetype))
  | [], _ => trivial
  | _ :: envs, _ => ⟨fun _ => rfl, fun r' _ => sameTexts_refl envs r'⟩

/-- The same calls. -/
theorem observe_agree (envs : List CallEnv) {r s : RequestData} (h : Agree r s) :
    observe r envs = observe s envs := by
  have hfirst : TwoRuns.first (envs.map fun env => (env, env.filetype)) = envs := by
    simp [TwoRuns.first, Function.comp_def]
  have hsecond : TwoRuns.second (envs.map fun env => (env, env.filetype)) = envs := by
    simp [TwoRuns.second, CallEnv.finding, Function.comp_def]
  have hboth := observe_sameTexts _ h (sameTexts_refl envs r)
  rwa [hfirst, hsecond] at hboth

/-- A call that sends anything has come to `STATE_ANALYSIS`. -/
theorem serve_answered {env : CallEnv} {r : RequestData} (h : (serve env r).sent ≠ []) :
    ∃ r₁ r₂, parseStages env r = .ok r₁ ∧ bodyStage r₁ = .ok r₂ ∧ r₂.state = .analysis ∧
      serve env r = ⟨(analysisStage env r₂).1, leave (analysisStage env r₂).2⟩ := by
  unfold serve at h ⊢
  cases hp : parseStages env r with
  | error e => rw [hp] at h; exact absurd rfl h
  | ok r₁ =>
    rw [hp] at h
    simp only [bodyOnward] at h ⊢
    cases hb : bodyStage r₁ with
    | error e => rw [hb] at h; exact absurd rfl h
    | ok r₂ =>
      rw [hb] at h
      refine ⟨r₁, r₂, rfl, hb, ?_, rfl⟩
      by_contra hs
      simp only [analysisStage, if_neg hs] at h
      exact h rfl

/-- A call that answers and leaves the object alive has run `reset`. -/
theorem kept_answered {env : CallEnv} {r r' : RequestData} {sent : Bytes}
    (h : handleRequest env r = (sent, .kept r')) (hsent : sent ≠ []) :
    ∃ (r₀ : RequestData) (t : Option TimerId), r' = { r₀.reset with timer := t } := by
  have hne : (serve env r).sent ≠ [] := by
    rw [← handleRequest_sent, h]
    exact hsent
  obtain ⟨r₁, hd, rfl⟩ := handleRequest_kept (congrArg Prod.snd h)
  obtain ⟨-, r₂, -, -, hstate, hserve⟩ := serve_answered hne
  rw [hserve] at hd
  obtain ⟨r₃, rfl⟩ := analysisStage_reset hstate hd
  exact ⟨r₃, some env.mtimer, rfl⟩

/-! ## Where the texts differ -/

/-- A socket that takes one write: the header goes out, with the type in it. -/
theorem analysisRequest_header {fs : FileSystem} {r : RequestData} (h : PrintsType fs r) :
    ∃ size, ∀ filetype, (analysisRequest fs filetype [.accepted MAX_BUFF] r).sent =
      (filetype.map fun type => getHeader r type.text size).getD [] := by
  obtain ⟨hm, hfile⟩ := h
  obtain ⟨size, hstat⟩ := Option.isSome_iff_exists.1 hfile
  refine ⟨size, fun filetype => ?_⟩
  unfold analysisRequest
  rw [hm]
  dsimp only
  rcases analysisGet_cases fs filetype [.accepted MAX_BUFF] r with
    ⟨hnone, -⟩ | ⟨size', hstat', ⟨rfl, hreply⟩ | ⟨type, reply, rfl, htwo, hreply⟩⟩
  · cases hnone.symm.trans hstat
  · rw [hreply]
    rfl
  · obtain rfl : size' = size := Option.some.inj (hstat'.symm.trans hstat)
    have hfits := getHeader_fits r type (fs.stat_lt _ _ hstat)
    have hne : getHeader r type.text size' ≠ [] := by simpa using getHeader_ne_nil r type.text size' []
    have hlt : (getHeader r type.text size').length < 2147483648 := by
      unfold MAX_BUFF at hfits
      omega
    have hbody : (sendOr [] (fs.mapped (cStr r.fileName) size') size' fun _ => ([], .ok .success)).1 = [] := by
      have hzero : toSize (sizeToInt 0) = 0 := by decide
      cases size' <;> simp [sendOr, writen, writenLoop, hzero]
    rw [hreply, htwo]
    simp only [sendOr, writen_atOnce (List.length_pos_iff.2 hne) (Nat.le_of_lt hfits) (Nat.le_refl _),
      List.take_length]
    rw [if_neg (not_not.2 ((toSize_sizeToInt_iff (by omega)).2 hlt))]
    simp only [sendOr] at hbody
    rw [hbody]
    simp

def CallEnv.oneWrite (env : CallEnv) : CallEnv := { env with writes := [.accepted MAX_BUFF] }

theorem serve_analysis {env : CallEnv} {r a : RequestData} (ha : parseStages env r >>= bodyStage = .ok a)
    (hstate : a.state = .analysis) :
    (serve env r).sent = (analysisRequest env.fs env.filetype env.writes a).sent := by
  rw [serve_eq, ha]
  dsimp only
  rw [analysisStage, if_pos hstate]
  dsimp only
  split <;> rfl

/-- Two runs that find different texts, on a socket that takes one write. -/
theorem observed_differs {env : CallEnv} {filetype : Option TypeText} {r s : RequestData} (h : Agree r s)
    (hprints : env.Prints r.separateTimer) (hne : filetype ≠ env.filetype) :
    observed env.oneWrite r ≠ observed (env.oneWrite.finding filetype) s := by
  obtain ⟨a, ha, hstate, hprints⟩ := hprints
  obtain ⟨e, f, he, -, -⟩ | ⟨a', b, ha', hb, hagree⟩ := received_agree env h.separateTimer
  · cases he.symm.trans ha
  obtain rfl := Except.ok.inj (ha'.symm.trans ha)
  obtain ⟨p, v, t, rfl⟩ := hagree.method (by rw [hstate]; simp)
  obtain ⟨size, hheader⟩ := analysisRequest_header hprints
  have hfirst : (serve env.oneWrite r.separateTimer).sent =
      (analysisRequest env.fs env.filetype [.accepted MAX_BUFF] a').sent := serve_analysis ha' hstate
  have hparsed : parseStages (env.oneWrite.finding filetype) s.separateTimer >>= bodyStage = .ok _ := hb
  have hsecond : (serve (env.oneWrite.finding filetype) s.separateTimer).sent =
      (analysisRequest env.fs filetype [.accepted MAX_BUFF] a').sent := (serve_analysis hparsed hstate).trans rfl
  rw [hheader] at hfirst hsecond
  have hnil : ∀ type : TypeText, getHeader a' type.text size ≠ [] := fun type => by
    simpa using getHeader_ne_nil a' type.text size []
  intro hsame
  have hsame := congrArg Observation.sent hsame
  simp only [observed, handleRequest_sent] at hsame
  rw [hfirst, hsecond] at hsame
  generalize env.filetype = filetype' at hne hsame
  rcases filetype' with _ | type <;> rcases filetype with _ | type'
  · exact hne rfl
  · exact hnil type' hsame.symm
  · exact hnil type hsame
  · exact hne (congrArg some (getHeader_inj hsame).symm)

/-- The same calls, to a socket that may answer otherwise. -/
def SameButWrites (c c' : CallEnv × Option TypeText) : Prop :=
  ∃ writes, c' = ({ c.1 with writes := writes }, c.2)

theorem sameButWrites_trans : ∀ {calls calls' calls'' : TwoRuns}, List.Forall₂ SameButWrites calls calls' →
    List.Forall₂ SameButWrites calls' calls'' → List.Forall₂ SameButWrites calls calls''
  | _, _, _, .nil, .nil => .nil
  | _, _, _, .cons ⟨_, rfl⟩ h, .cons ⟨writes, rfl⟩ h' => .cons ⟨writes, rfl⟩ (sameButWrites_trans h h')

theorem observe_differs : ∀ (calls : TwoRuns) {r s : RequestData}, Agree r s → ¬SameTexts r calls →
    ∃ calls' : TwoRuns, List.Forall₂ SameButWrites calls calls' ∧
      observe r calls'.first ≠ observe s calls'.second
  | [], _, _, _, hnot => absurd trivial hnot
  | (env, filetype) :: calls, r, s, h, hnot => by
    have hhead : ∀ (env : CallEnv) (r : RequestData) (envs : List CallEnv),
        (observe r (env :: envs)).head? = some (observed env r) := fun _ _ _ => rfl
    by_cases htype : env.Prints r.separateTimer → filetype = env.filetype
    · -- the first call is seen alike, and leaves both objects alive
      have hcall := observed_agree h htype
      obtain ⟨-, hfate⟩ := handleRequest_agree h.separateTimer htype
      obtain ⟨r', hr, hnot'⟩ : ∃ r', (handleRequest env r.separateTimer).2 = .kept r' ∧ ¬SameTexts r' calls := by
        by_contra hnone
        refine hnot ⟨htype, fun r' hr => ?_⟩
        by_contra hnot'
        exact hnone ⟨r', hr, hnot'⟩
      rw [hr] at hfate
      generalize hs : (handleRequest (env.finding filetype) s.separateTimer).2 = g at hfate
      cases hfate with
      | kept hagree =>
        obtain ⟨calls', hsame, hdiffer⟩ := observe_differs calls hagree hnot'
        refine ⟨(env, filetype) :: calls', .cons ⟨env.writes, rfl⟩ hsame, ?_⟩
        show observe r (env :: TwoRuns.first calls') ≠ observe s (env.finding filetype :: TwoRuns.second calls')
        rw [observe_kept hr, observe_kept hs, hcall]
        exact fun hsame => hdiffer (List.cons.inj hsame).2
    · obtain ⟨hprints, hne⟩ := Classical.not_imp.1 htype
      refine ⟨(env.oneWrite, filetype) :: calls, .cons ⟨_, rfl⟩ ?_, fun hsame => ?_⟩
      · exact List.forall₂_same.2 fun c _ => ⟨c.1.writes, rfl⟩
      · have hfirst := congrArg List.head? hsame
        exact observed_differs h hprints hne (Option.some.inj ((hhead ..).symm.trans (hfirst.trans (hhead ..))))

/-- **Bug** (`requestData.cpp:411-415`, `:422`): the type of a file is printed through a pointer into a
string that has been destroyed. A connection that has been kept alive is a fresh one, seen by the bytes
it sends, the calls that delete it and the calls that re-arm it, as long as the calls that print a type
find the same text there as on the fresh one. On every socket the two look alike exactly when on every
socket these texts are the same. -/
theorem keptAlive_fresh {env : CallEnv} {r r' : RequestData} {sent : Bytes}
    (h : handleRequest env r = (sent, .kept r')) (hsent : sent ≠ []) (path : Bytes) (calls : TwoRuns) :
    (SameTexts r' calls → observe r' calls.first = observe (.new r'.epollfd r'.fd path) calls.second) ∧
    ((∀ calls' : TwoRuns, List.Forall₂ SameButWrites calls calls' →
        observe r' calls'.first = observe (.new r'.epollfd r'.fd path) calls'.second) ↔
      ∀ calls' : TwoRuns, List.Forall₂ SameButWrites calls calls' → SameTexts r' calls') := by
  obtain ⟨r₀, t, rfl⟩ := kept_answered h hsent
  have hagree := agree_reset_new r₀ path t
  refine ⟨observe_sameTexts calls hagree, fun hsame calls' hcalls => ?_, fun htexts calls' hcalls =>
    observe_sameTexts calls' hagree (htexts calls' hcalls)⟩
  by_contra hnot
  obtain ⟨calls'', hcalls', hdiffer⟩ := observe_differs calls' hagree hnot
  exact hdiffer (hsame calls'' (sameButWrites_trans hcalls hcalls'))

/-- `POST /` with an empty body on a connection to be kept. -/
def keptPost : Bytes :=
  ascii "POST / HTTP/1.1\r\nConnection: keep-alive\r\nContent-length: 0\r\n\r\n"

def reading (b : Bytes) : CallEnv :=
  { CallEnv.idle with
    reads := [.bytes b, .error .eagain], writes := [.accepted 4096, .accepted 4096], mtimer := 7 }

/-- What the server sends back. -/
def keptPostReply : Bytes := ascii ("HTTP/1.1 200 OK\r\nConnection: keep-alive\r\n" ++
  "Keep-Alive: timeout=500\r\nContent-length: 21\r\n\r\nI have received this.")

/-- The object behind it. -/
def keptConnection : RequestData :=
  { RequestData.new 3 5 [] with method := .post, httpVersion := .http11, timer := some 7 }

theorem keptPost_answered :
    handleRequest (reading keptPost) (.new 3 5 (ascii "/")) = (keptPostReply, .kept keptConnection) := by
  decide +kernel

/-- `GET /`, where there is an `index.html`. -/
def getIndex : CallEnv :=
  { reading (ascii "GET / HTTP/1.1\r\nHost: a\r\n\r\n") with
    fs := oneFile (ascii "index.html") (ascii "hi") (by decide) }

/-- Behind a `POST`, a connection sees the next calls as a fresh one does: another `POST`, which prints no
type, and a `GET` that finds the same text in both runs. -/
theorem keptConnection_fresh : observe keptConnection [reading keptPost, getIndex] =
    observe (.new 3 5 (ascii "/")) [(reading keptPost).finding none, getIndex] :=
  (keptAlive_fresh keptPost_answered (by decide) (ascii "/")
      [(reading keptPost, none), (getIndex, getIndex.filetype)]).1
    ⟨fun hprints => absurd hprints (by decide +kernel), fun _ _ => ⟨fun _ => rfl, fun _ _ => trivial⟩⟩

/-- `text/html` on the kept connection, and nothing on the fresh one. -/
theorem keptGet_differs :
    ¬ ∀ (env : CallEnv) (r r' : RequestData) (sent : Bytes), handleRequest env r = (sent, .kept r') →
      sent ≠ [] → ∀ (path : Bytes) (calls : TwoRuns),
      observe r' calls.first = observe (.new r'.epollfd r'.fd path) calls.second := by
  intro h
  have hsame := h _ _ _ _ keptPost_answered (by decide) (ascii "/") [(getIndex, some ⟨[], by decide, by decide⟩)]
  revert hsame
  decide +kernel

end HPServer
