import HighPerformanceServer.Headers
import HighPerformanceServer.RequestLine
import HighPerformanceServer.Response
/-!
# `requestData::handleRequest` (requestData.cpp:108-215)

The body of the `do { .. } while (false)` is cut at its stages. A stage goes on with the object, or
leaves the loop: by `break` or `continue`, with `is_error`, or because a call did not return.

| here | there |
| --- | --- |
| `readStage`     | :112-132 |
| `uriStage`      | :134-143 |
| `headStage`     | :144-158 |
| `bodyStage`     | :159-169 |
| `analysisStage` | :170-182 |
| `leave`         | :185-197 |
| `serve`         | :109-197, everything before the object is shared again |
| `handleRequest` | :185-215, with the timer push and the re-arm |

`CallEnv` is what the rest of the system answers during one call.
-/

namespace HPServer

open CppStd

/-- `errno` at the start of the call, the answers of `read`, of the file system and of `write`, what
`filetype` points to when it is printed, the address of the new `timer_stamp`, and whether `epoll_mod`
succeeds. -/
structure CallEnv where
  errno : Option Errno
  reads : List ReadResult
  fs : FileSystem
  filetype : Option TypeText
  writes : List WriteResult
  mtimer : TimerId
  epollMod : Bool

/-- How the loop is left. -/
inductive Exit where
  | brk (isError : Bool) (r : RequestData)
  | halt (h : Halt)

abbrev Stage := Except Exit RequestData

def readStage (env : CallEnv) (r : RequestData) : Stage :=
  match readn env.errno env.reads MAX_BUFF with
  | .error h => .error (.halt h)
  | .ok x =>
    if x.ret < 0 then .error (.brk true r)
    else if x.ret = 0 then
      if x.errno = some .eagain then
        if r.readTimes > MAX_READ_TIMES then .error (.brk true r)
        else .error (.brk false { r with readTimes := r.readTimes + 1 })
      else if x.errno ≠ none then .error (.brk true r)
      else .error (.brk false r)
    else .ok { r with content := r.content ++ x.buff }

def uriStage (r : RequestData) : Stage :=
  if r.state = .parseUri then
    match parseRequestLine r with
    | .error h => .error (.halt h)
    | .ok (.again, r) => .error (.brk false r)
    | .ok (.error, r) => .error (.brk true r)
    | .ok (.success, r) => .ok r
  else .ok r

def headStage (r : RequestData) : Stage :=
  if r.state = .parseHeaders then
    match parseRequestHead r with
    | .error h => .error (.halt h)
    | .ok (.again, r) => .error (.brk false r)
    | .ok (.error, r) => .error (.brk true r)
    | .ok (.success, r) =>
      .ok (if r.method = .post then { r with state := .recvBody } else { r with state := .analysis })
  else .ok r

/-- `content.size() < content_length` compares as `size_t`; `continue` leaves the loop. -/
def bodyStage (r : RequestData) : Stage :=
  if r.state = .recvBody then
    match r.headers.lookup (ascii "Content-length") with
    | none => .error (.brk true r)
    | some v =>
      match stoi v with
      | .error h => .error (.halt h)
      | .ok contentLength =>
        if r.content.length < toSize contentLength then .error (.brk false r)
        else .ok { r with state := .analysis }
  else .ok r

def analysisStage (env : CallEnv) (r : RequestData) : Bytes × Exit :=
  if r.state = .analysis then
    let reply := analysisRequest env.fs env.filetype env.writes r
    let r := { r with keepAlive := reply.keepAlive }
    match reply.flag with
    | .error h => (reply.sent, .halt h)
    | .ok .success => (reply.sent, .brk false { r with state := .finish })
    | .ok .error => (reply.sent, .brk true r)
  else ([], .brk false r)

/-- What becomes of the object: the call halts, `delete this`, or it goes on to the timer push. -/
inductive Decision where
  | halted (h : Halt)
  | delete
  | rearm (r : RequestData)
deriving DecidableEq

def leave : Exit → Decision
  | .halt h => .halted h
  | .brk true _ => .delete
  | .brk false r =>
    if r.state = .finish then if r.keepAlive then .rearm r.reset else .delete
    else .rearm r

/-- The bytes sent, and the decision. -/
structure Served where
  sent : Bytes
  decision : Decision
deriving DecidableEq

/-- The loop body from the body stage on. -/
def bodyOnward (env : CallEnv) (r : RequestData) : Served :=
  match bodyStage r with
  | .error e => ⟨[], leave e⟩
  | .ok r =>
    let (sent, e) := analysisStage env r
    ⟨sent, leave e⟩

/-- The loop body up to the header stage. -/
def parseStages (env : CallEnv) (r : RequestData) : Stage := do
  let r ← readStage env r
  let r ← uriStage r
  headStage r

def serve (env : CallEnv) (r : RequestData) : Served :=
  match parseStages env r with
  | .error e => ⟨[], leave e⟩
  | .ok r => bodyOnward env r

/-- How a call ends: it halts, it deletes the object before or after the timer push, or it leaves
the object armed. -/
inductive Fate where
  | halted (h : Halt)
  | deleted
  | rearmFailed
  | kept (r : RequestData)
deriving DecidableEq

def rearm (env : CallEnv) (r : RequestData) : Fate :=
  if env.epollMod then .kept { r with timer := some env.mtimer } else .rearmFailed

def handleRequest (env : CallEnv) (r : RequestData) : Bytes × Fate :=
  let s := serve env r
  match s.decision with
  | .halted h => (s.sent, .halted h)
  | .delete => (s.sent, .deleted)
  | .rearm r => (s.sent, rearm env r)

theorem handleRequest_sent (env : CallEnv) (r : RequestData) :
    (handleRequest env r).1 = (serve env r).sent := by
  unfold handleRequest
  dsimp only
  cases (serve env r).decision <;> rfl

/-- An object that is left alive has a new timer, and is what `serve` has left otherwise. -/
theorem handleRequest_kept {env : CallEnv} {r r' : RequestData} (h : (handleRequest env r).2 = .kept r') :
    ∃ r₁, (serve env r).decision = .rearm r₁ ∧ r' = { r₁ with timer := some env.mtimer } := by
  simp only [handleRequest] at h
  cases hd : (serve env r).decision with
  | halted e => rw [hd] at h; cases h
  | delete => rw [hd] at h; cases h
  | rearm r₁ =>
    rw [hd] at h
    simp only [rearm] at h
    split at h
    · cases h; exact ⟨r₁, rfl, rfl⟩
    · cases h

/-! ## What the stages do -/

/-- Nothing is read: `readTimes` may count the attempt. Otherwise the bytes are appended. -/
theorem readStage_cases (env : CallEnv) (r : RequestData) :
    (∃ h, readStage env r = .error (.halt h)) ∨ readStage env r = .error (.brk true r) ∨
    readStage env r = .error (.brk false r) ∨
    (r.readTimes ≤ MAX_READ_TIMES ∧
      readStage env r = .error (.brk false { r with readTimes := r.readTimes + 1 })) ∨
    ∃ x, readn env.errno env.reads MAX_BUFF = .ok x ∧ 0 < x.ret ∧
      readStage env r = .ok { r with content := r.content ++ x.buff } := by
  unfold readStage
  cases readn env.errno env.reads MAX_BUFF with
  | error h => exact Or.inl ⟨h, rfl⟩
  | ok x =>
    dsimp only
    by_cases hneg : x.ret < 0
    · rw [if_pos hneg]; exact Or.inr (Or.inl rfl)
    rw [if_neg hneg]
    by_cases hzero : x.ret = 0
    · rw [if_pos hzero]
      by_cases hagain : x.errno = some .eagain
      · rw [if_pos hagain]
        by_cases htimes : r.readTimes > MAX_READ_TIMES
        · rw [if_pos htimes]; exact Or.inr (Or.inl rfl)
        · rw [if_neg htimes]; exact Or.inr (Or.inr (Or.inr (Or.inl ⟨by omega, rfl⟩)))
      · rw [if_neg hagain]
        by_cases herr : x.errno ≠ none
        · rw [if_pos herr]; exact Or.inr (Or.inl rfl)
        · rw [if_neg herr]; exact Or.inr (Or.inr (Or.inl rfl))
    · rw [if_neg hzero]
      exact Or.inr (Or.inr (Or.inr (Or.inr ⟨x, rfl, by omega, rfl⟩)))

theorem leave_halted {e : Exit} {h : Halt} : leave e = .halted h ↔ e = .halt h := by
  cases e with
  | halt h' => simp [leave]
  | brk isError r =>
    cases isError
    · simp only [leave]; split
      · split <;> simp
      · simp
    · simp [leave]

theorem analysisStage_halt {env : CallEnv} {r : RequestData} {h : Halt}
    (e : (analysisStage env r).2 = .halt h) : h = .blocked ∨
      (h = .undefined ∧ env.filetype = none ∧ r.state = .analysis ∧ PrintsType env.fs r) := by
  unfold analysisStage at e
  split at e
  · rename_i hs
    dsimp only at e
    cases hf : (analysisRequest env.fs env.filetype env.writes r).flag with
    | ok flag => rw [hf] at e; cases flag <;> cases e
    | error h' =>
      rw [hf] at e
      cases e
      exact (analysisRequest_halt hf).imp_right fun ⟨h, hnone, hprints⟩ => ⟨h, hnone, hs, hprints⟩
  · cases e

/-! ## What a call leaves alone -/

/-- The descriptors and the timer. -/
def SameHandles (r r' : RequestData) : Prop :=
  r'.fd = r.fd ∧ r'.epollfd = r.epollfd ∧ r'.timer = r.timer

def StageSame (r : RequestData) : Stage → Prop
  | .ok r' | .error (.brk _ r') => SameHandles r r'
  | .error (.halt _) => True

/-- Up to the answer, `keep_alive` as well. -/
def Untouched (r r' : RequestData) : Prop := SameHandles r r' ∧ r'.keepAlive = r.keepAlive

def StageUntouched (r : RequestData) : Stage → Prop
  | .ok r' | .error (.brk _ r') => Untouched r r'
  | .error (.halt _) => True

theorem SameHandles.refl (r : RequestData) : SameHandles r r := ⟨rfl, rfl, rfl⟩

theorem SameHandles.trans {r r' r'' : RequestData} (h : SameHandles r r') (h' : SameHandles r' r'') :
    SameHandles r r'' :=
  ⟨h'.1.trans h.1, h'.2.1.trans h.2.1, h'.2.2.trans h.2.2⟩

theorem Untouched.refl (r : RequestData) : Untouched r r := ⟨.refl r, rfl⟩

theorem Untouched.trans {r r' r'' : RequestData} (h : Untouched r r') (h' : Untouched r' r'') :
    Untouched r r'' := ⟨h.1.trans h'.1, h'.2.trans h.2⟩

theorem StageUntouched.same {r : RequestData} {x : Stage} (h : StageUntouched r x) : StageSame r x := by
  rcases x with (⟨b, r'⟩ | e) | r'
  · exact h.1
  · trivial
  · exact h.1

theorem StageUntouched.bind {r : RequestData} {x : Stage} {f : RequestData → Stage}
    (h : StageUntouched r x) (hf : ∀ r', StageUntouched r' (f r')) : StageUntouched r (x >>= f) := by
  rcases x with e | r'
  · exact h
  · have hr' := hf r'
    show StageUntouched r (f r')
    rcases hfr : f r' with (⟨b, r''⟩ | _) | r'' <;> rw [hfr] at hr'
    · exact h.trans hr'
    · trivial
    · exact h.trans hr'

theorem readStage_untouched (env : CallEnv) (r : RequestData) : StageUntouched r (readStage env r) := by
  rcases readStage_cases env r with ⟨h, hr⟩ | hr | hr | ⟨-, hr⟩ | ⟨x, -, -, hr⟩ <;> rw [hr]
  · trivial
  all_goals exact .refl _

theorem uriStage_untouched (r : RequestData) : StageUntouched r (uriStage r) := by
  unfold uriStage
  split
  · cases hp : parseRequestLine r with
    | error h => trivial
    | ok x =>
      obtain ⟨v, r'⟩ := x
      rcases parseRequestLine_cases hp with ⟨rfl, rfl, -⟩ |
        ⟨line, str, pos, mc, rest, -, -, ⟨rfl, name, rfl⟩ | ⟨rfl, -, pos', rest', name, vc, -, -, rfl⟩⟩
      all_goals exact ⟨⟨rfl, rfl, rfl⟩, rfl⟩
  · exact .refl r

theorem headStage_untouched (r : RequestData) : StageUntouched r (headStage r) := by
  unfold headStage
  split
  · cases hp : parseRequestHead r with
    | error h => trivial
    | ok x =>
      obtain ⟨v, r'⟩ := x
      rcases parseRequestHead_cases hp with ⟨rfl, hs, H, rfl⟩ | ⟨rfl, str, H, rfl⟩ |
        ⟨rfl, str, hs, H, -, rfl⟩
      · exact ⟨⟨rfl, rfl, rfl⟩, rfl⟩
      · dsimp only
        split
        · exact ⟨⟨rfl, rfl, rfl⟩, rfl⟩
        · exact ⟨⟨rfl, rfl, rfl⟩, rfl⟩
      · exact ⟨⟨rfl, rfl, rfl⟩, rfl⟩
  · exact .refl r

theorem bodyStage_untouched (r : RequestData) : StageUntouched r (bodyStage r) := by
  unfold bodyStage
  split
  · cases r.headers.lookup (ascii "Content-length") with
    | none => exact .refl r
    | some v =>
      dsimp only
      cases stoi v with
      | error h => trivial
      | ok n =>
        dsimp only
        split
        · exact .refl r
        · exact ⟨⟨rfl, rfl, rfl⟩, rfl⟩
  · exact .refl r

/-- Everything before the answer. -/
theorem received_untouched (env : CallEnv) (r : RequestData) :
    StageUntouched r (parseStages env r >>= bodyStage) :=
  ((readStage_untouched env r).bind fun r => (uriStage_untouched r).bind headStage_untouched).bind
    bodyStage_untouched

theorem analysisStage_same (env : CallEnv) (r : RequestData) :
    StageSame r (.error (analysisStage env r).2) := by
  unfold analysisStage
  split
  · dsimp only
    cases (analysisRequest env.fs env.filetype env.writes r).flag with
    | error h => trivial
    | ok flag => cases flag <;> exact ⟨rfl, rfl, rfl⟩
  · exact .refl r

theorem leave_same {e : Exit} {r r' : RequestData} (h : StageSame r (.error e))
    (hd : leave e = .rearm r') : SameHandles r r' := by
  rcases e with ⟨_ | _, r₁⟩ | _
  · simp only [leave] at hd
    split at hd
    · split at hd <;> cases hd
      exact h
    · cases hd; exact h
  · cases hd
  · cases hd

/-- A call ends with the exit of a stage before the answer, or with that of the answer. -/
theorem serve_eq (env : CallEnv) (r : RequestData) : serve env r =
    match parseStages env r >>= bodyStage with
    | .error e => ⟨[], leave e⟩
    | .ok r => ⟨(analysisStage env r).1, leave (analysisStage env r).2⟩ := by
  unfold serve bodyOnward
  cases parseStages env r with
  | error e => rfl
  | ok r₁ =>
    simp only [bind, Except.bind]
    cases bodyStage r₁ <;> rfl

/-- An object that goes on keeps its descriptors and its timer. -/
theorem serve_same {env : CallEnv} {r r' : RequestData}
    (hd : (serve env r).decision = .rearm r') : SameHandles r r' := by
  have hall := received_untouched env r
  rw [serve_eq] at hd
  cases hp : parseStages env r >>= bodyStage with
  | error e =>
    rw [hp] at hd hall
    exact leave_same hall.same hd
  | ok r₁ =>
    rw [hp] at hd hall
    exact hall.1.trans (leave_same (analysisStage_same env r₁) hd)

/-! ## The body stage and `Content-length` -/

section Body

variable {env : CallEnv} {r : RequestData} {v : Bytes}
  (hs : r.state = .recvBody) (hv : r.headers.lookup (ascii "Content-length") = some v)

include hs hv

/-- A value `stoi` throws on ends the call, and with it the process: nothing catches. -/
theorem bodyOnward_throws {h : Halt} (hn : stoi v = .error h) :
    (bodyOnward env r).decision = .halted h := by
  simp only [bodyOnward, bodyStage, hs, if_true, hv, hn, leave]

theorem bodyOnward_waits {n : Int} (hn : stoi v = .ok n) (hlt : r.content.length < toSize n) :
    (bodyOnward env r).decision = .rearm r := by
  simp [bodyOnward, bodyStage, hs, hv, hn, hlt, leave]

theorem bodyOnward_answers {n : Int} (hn : stoi v = .ok n) (hle : ¬ r.content.length < toSize n) :
    bodyOnward env r = ⟨(analysisStage env { r with state := .analysis }).1,
      leave (analysisStage env { r with state := .analysis }).2⟩ := by
  simp [bodyOnward, bodyStage, hs, hv, hn, hle]

/-- **Bug** (`requestData.cpp:162`, `:167`): `stoi` throws through the worker thread, and a negative
length becomes a huge `size_t` that no content reaches. The body step keeps its promise exactly on
the lengths `stoi` reads as a number that is not negative. -/
theorem body_step_safe_iff (hmax : r.content.length < 2 ^ 63) :
    ((∀ h, (bodyOnward env r).decision = .halted h → h.isException = false) ∧
      ((¬ ∃ n, 0 ≤ n ∧ n ≤ 2147483647 ∧ stoi v = .ok n) →
        (bodyOnward env r).decision = .delete)) ↔
    ∃ n, 0 ≤ n ∧ stoi v = .ok n := by
  constructor
  · rintro ⟨hquiet, hcloses⟩
    cases hn : stoi v with
    | error h =>
      have := hquiet h (bodyOnward_throws hs hv hn)
      rw [stoi_error hn] at this; cases this
    | ok n =>
      by_cases hpos : 0 ≤ n
      · exact ⟨n, hpos, rfl⟩
      · have hclose := hcloses (by rintro ⟨m, hm, -, e⟩; rw [hn] at e; cases e; exact hpos hm)
        have hbig := toSize_of_neg (by omega) (stoi_range hn).1
        rw [bodyOnward_waits hs hv hn (by omega)] at hclose
        cases hclose
  · rintro ⟨n, hpos, hn⟩
    refine ⟨fun h e => ?_, fun hno => absurd ⟨n, hpos, (stoi_range hn).2, hn⟩ hno⟩
    by_cases hlt : r.content.length < toSize n
    · rw [bodyOnward_waits hs hv hn hlt] at e; cases e
    · rw [bodyOnward_answers hs hv hn hlt] at e
      rcases analysisStage_halt (leave_halted.1 e) with rfl | ⟨rfl, -⟩ <;> rfl

end Body

/-- A `POST` whose headers have been parsed, with `v` under `Content-length`. -/
def awaitingBody (v content : Bytes) : RequestData :=
  { RequestData.new 3 5 (ascii "/") with
    state := .recvBody
    hState := .hEndLF
    method := .post
    headers := Finmap.singleton (ascii "Content-length") v
    content := content }

/-- An environment in which nothing happens. -/
def CallEnv.idle : CallEnv := ⟨none, [], oneFile [] [] (by decide), some htmlText, [], 0, true⟩

/-- `Content-length: abc` throws `std::invalid_argument` out of the worker. -/
theorem lengthAbc_throws :
    ¬ ∀ (env : CallEnv) (r : RequestData) (v : Bytes), r.state = .recvBody → r.method = .post →
      r.headers.lookup (ascii "Content-length") = some v → r.content.length < 2 ^ 63 →
      (∀ h, (bodyOnward env r).decision = .halted h → h.isException = false) ∧
        ((¬ ∃ n, 0 ≤ n ∧ n ≤ 2147483647 ∧ stoi v = .ok n) →
          (bodyOnward env r).decision = .delete) := by
  intro h
  have hquiet := (h .idle (awaitingBody (ascii "abc") []) (ascii "abc") rfl rfl (by decide)
    (by decide)).1 .invalidArgument (bodyOnward_throws (v := ascii "abc") rfl (by decide) (by decide))
  cases hquiet

/-- `Content-length: -5` waits for more body whatever the client sends. -/
example (env : CallEnv) :
    (bodyOnward env (awaitingBody (ascii "-5") (ascii "hello"))).decision =
      .rearm (awaitingBody (ascii "-5") (ascii "hello")) :=
  bodyOnward_waits (v := ascii "-5") (n := -5) rfl (by decide) (by decide) (by decide)

theorem lengthFive_safe :
    (∀ h, (bodyOnward .idle (awaitingBody (ascii "5") [])).decision = .halted h →
      h.isException = false) ∧
    ((¬ ∃ n, 0 ≤ n ∧ n ≤ 2147483647 ∧ stoi (ascii "5") = .ok n) →
      (bodyOnward .idle (awaitingBody (ascii "5") [])).decision = .delete) :=
  (body_step_safe_iff (r := awaitingBody (ascii "5") []) rfl (by decide) (by decide)).2
    ⟨5, by decide, by decide⟩

end HPServer
