import HighPerformanceServer.FileSize
import HighPerformanceServer.HeaderPrint
import HighPerformanceServer.PostBody
import HighPerformanceServer.RequestTarget
/-!
# Requests and their answers

What a connection is for: an `HttpRequest` comes in, its `answer` goes out, and the connection is kept
or closed. Nothing here parses; `ReadInto.sends` says that `analysisRequest` sends the answer, on
any socket.

| here | there |
| --- | --- |
| `HttpRequest`, `text` | a request that is accepted as it is meant, and its bytes |
| `answer`              | what `analysisRequest` makes of it (requestData.cpp:373-447) |
| `Answers`             | what becomes of an answer on its way out |
-/

namespace HPServer

open CppStd

/-- A request line, at least one header, and a body as long as a `POST` declares it. -/
structure HttpRequest where
  verb : Bytes
  method : MethodCode
  known : (verb, method) ∈ methodNames
  target : Bytes
  slash : SLASH ∈ target
  target_free : SP ∉ target ∧ CR ∉ target
  /-- No longer target is accepted. -/
  target_short : target.length ≤ 4
  version : Bytes
  versionCode : HttpVersion
  version_known : (version, versionCode) ∈ versionNames
  fields : List HeaderField
  fields_ne : fields ≠ []
  /-- The lines come in one read. -/
  fields_short : (printHeaders fields).length ≤ MAX_BUFF
  body : Bytes
  bodiless : method = .get → body = []
  declared : method = .post →
    ∃ v, lastValue fields (ascii "Content-length") = some v ∧ stoi v = .ok body.length

/-- The bytes that answer a request, and whether the connection is kept behind them. -/
structure Answer where
  text : Bytes
  kept : Bool

namespace HttpRequest

def line (q : HttpRequest) : Bytes := q.verb ++ SP :: (q.target ++ SP :: (ascii "HTTP/" ++ q.version))

/-- Up to the blank line. -/
def head (q : HttpRequest) : Bytes := q.line ++ CR :: LF :: (printHeaders q.fields ++ CRLF)

def text (q : HttpRequest) : Bytes := q.head ++ q.body

def asksToKeep (q : HttpRequest) : Bool :=
  lastValue q.fields (ascii "Connection") = some (ascii "keep-alive")

/-- The file that a fresh connection takes the target for. -/
def path (q : HttpRequest) : Bytes := cStr (targetName q.target [])

end HttpRequest

/-- The status line, and the answer to `Connection`. -/
def okLines (keep : Bool) : List Bytes :=
  statusOk :: if keep then
    [ascii "Connection: keep-alive", ascii "Keep-Alive: timeout=" ++ decimal EPOLL_WAIT_TIME] else []

namespace HttpRequest

/-- `POST` is thanked for its body. `GET` gets the file, with the type that is found in memory, or the
header of an error; the connection is kept behind a file that could be sent whole. Where no type is
found there is no answer. -/
def answer (fs : FileSystem) (filetype : Option TypeText) (q : HttpRequest) : Answer :=
  match q.method with
  | .post => ⟨Lines.message CR [LF] (okLines q.asksToKeep ++ [contentLengthLine sendContent.length])
      sendContent, q.asksToKeep⟩
  | .get =>
    match fs.stat q.path with
    | none => ⟨errorHeader 404 (ascii "Not Found!"), false⟩
    | some size =>
      match filetype with
      | none => ⟨[], false⟩
      | some type =>
        ⟨Lines.message CR [LF] (okLines q.asksToKeep ++
            [ascii "Content-type: " ++ type.text, contentLengthLine size])
          ((fs.mapped q.path size).take size),
          q.asksToKeep && decide (size ≤ (fs.mapped q.path size).length ∧ size < 2147483648)⟩
  | .notDefined | .invalid => ⟨[], false⟩

end HttpRequest

/-- What has been sent of an answer when the call ends, and how it ends. An answer is broken off only
by a socket that fails. -/
inductive Answers (env : CallEnv) (a : Answer) : Bytes → Outcome → Prop
  | kept (hkept : a.kept = true) (hmod : env.epollMod = true) : Answers env a a.text .rearmed
  | unarmed (hkept : a.kept = true) (hmod : env.epollMod = false) : Answers env a a.text .rearmFailed
  | closed (hkept : a.kept = false) : Answers env a a.text .deleted
  | broken {sent : Bytes} (hsent : sent <+: a.text) (hfails : ¬Accepting env.writes) :
      Answers env a sent .deleted
  /-- The socket takes no more, and the call waits. -/
  | waiting {sent : Bytes} (hsent : sent <+: a.text) : Answers env a sent (.halted .blocked)
  /-- There is no type to be printed. -/
  | undefined (hnone : env.filetype = none) (htext : a.text = []) : Answers env a [] (.halted .undefined)

/-- How a call ends that does not get through with its answer. -/
inductive BreaksOff : Exec AnalysisFlag → Outcome → Prop
  | error : BreaksOff (.ok .error) .deleted
  | halt (h : Halt) : BreaksOff (.error h) (.halted h)

/-! ## What goes out -/

theorem writenLoop_prefix {script : List WriteResult} : ∀ {nleft : Nat} {mem sent : Bytes},
    (writenLoop script nleft mem sent).sent <+: sent ++ mem.take nleft := by
  induction script with
  | nil =>
    intro nleft mem sent
    cases nleft <;> exact List.prefix_append sent _
  | cons w script ih =>
    intro nleft mem sent
    cases nleft with
    | zero => exact List.prefix_append sent _
    | succ n =>
      rcases w with k | (_ | _ | e)
      · rw [writenLoop]
        split
        · exact List.prefix_append sent _
        · dsimp only
          generalize hm : min k (min (n + 1) mem.length) = m
          have hle : m ≤ n + 1 := by omega
          refine ih.trans ?_
          rw [List.append_assoc, ← List.take_add, Nat.add_sub_cancel' hle]
      · rw [writenLoop]
        exact ih
      · rw [writenLoop]
        exact ih
      · exact List.prefix_append sent _

theorem writen_prefix (script : List WriteResult) (mem : Bytes) (n : Nat) :
    (writen script mem n).sent <+: mem.take n := by
  have h : (writenLoop script n mem []).sent <+: [] ++ mem.take n := writenLoop_prefix
  simpa [writen] using h

/-- A piece of a response: the call waits in it, or ends with it, or goes on behind it. -/
inductive SentPiece (writes : List WriteResult) (mem : Bytes) (n : Nat)
    (k : List WriteResult → Bytes × Exec AnalysisFlag) : Bytes × Exec AnalysisFlag → Prop
  | waits {sent : Bytes} (hsent : sent <+: mem.take n) : SentPiece writes mem n k (sent, .error .blocked)
  | ends {sent : Bytes} (hsent : sent <+: mem.take n)
      (hacc : Accepting writes → sent = mem.take n ∧ ¬(n ≤ mem.length ∧ n < 2147483648)) :
      SentPiece writes mem n k (sent, .ok .error)
  | goes {rest : List WriteResult} (hle : n ≤ mem.length) (hlt : n < 2147483648)
      (hacc : Accepting writes → Accepting rest) :
      SentPiece writes mem n k (mem.take n ++ (k rest).1, (k rest).2)

theorem sendOr_piece (writes : List WriteResult) (mem : Bytes) {n : Nat} (hn : n < 2 ^ 63)
    (k : List WriteResult → Bytes × Exec AnalysisFlag) :
    SentPiece writes mem n k (sendOr writes mem n k) := by
  unfold sendOr
  dsimp only
  have hprefix := writen_prefix writes mem n
  cases hret : (writen writes mem n).ret with
  | error e =>
    obtain rfl := writenLoop_blocked hret
    exact .waits hprefix
  | ok ret =>
    dsimp only
    have hneg : toSize (-1) ≠ n := by
      rw [(npos_cut []).1]
      unfold npos
      omega
    rcases writen_returns hret with ⟨hsent, hle, hval⟩ | ⟨hval, -, -⟩ <;> rw [hval]
    · by_cases hlt : n < 2147483648
      · rw [if_neg (not_not.2 ((toSize_sizeToInt_iff hn).2 hlt)), hsent]
        exact .goes hle hlt fun hacc => writenLoop_rest hacc
      · rw [if_pos fun h => hlt ((toSize_sizeToInt_iff hn).1 h)]
        exact .ends hprefix fun _ => ⟨hsent, fun h => hlt h.2⟩
    · rw [if_pos hneg]
      refine .ends hprefix fun hacc => ?_
      obtain ⟨hsent, hwhole⟩ := writen_accepting hacc hret
      refine ⟨hsent, fun h => hneg ?_⟩
      rw [← hval, hwhole, if_pos h.1]
      exact (toSize_sizeToInt_iff hn).2 h.2

/-- A response: a short header, and its body. -/
theorem sendTwo_answers (env : CallEnv) (keep : Bool) {header : Bytes} (mem : Bytes) {n : Nat}
    (hheader : header.length < 2147483648) (hn : n < 2 ^ 63) {reply : Bytes × Exec AnalysisFlag}
    (hreply : reply = sendOr env.writes header header.length fun writes =>
      sendOr writes mem n fun _ => ([], .ok .success)) :
    let a : Answer := ⟨header ++ mem.take n, keep && decide (n ≤ mem.length ∧ n < 2147483648)⟩
    (reply.2 = .ok .success ∧ reply.1 = a.text ∧ a.kept = keep) ∨
      ∃ outcome, BreaksOff reply.2 outcome ∧ Answers env a reply.1 outcome := by
  intro a
  have hfirst := sendOr_piece env.writes header (n := header.length) (by omega) fun writes =>
    sendOr writes mem n fun _ => ([], .ok .success)
  rw [← hreply] at hfirst
  cases hfirst with
  | waits hsent =>
    rw [List.take_length] at hsent
    exact Or.inr ⟨_, .halt .blocked, .waiting (hsent.trans (List.prefix_append ..))⟩
  | ends hsent hacc =>
    rw [List.take_length] at hsent
    refine Or.inr ⟨_, .error, .broken (hsent.trans (List.prefix_append ..)) fun h => ?_⟩
    exact (hacc h).2 ⟨Nat.le_refl _, hheader⟩
  | @goes rest hle hlt hacc =>
    rw [List.take_length]
    have hsecond := sendOr_piece rest mem hn fun _ => ([], .ok .success)
    generalize sendOr rest mem n (fun _ => ([], .ok .success)) = second at hsecond ⊢
    cases hsecond with
    | waits hsent =>
      exact Or.inr ⟨_, .halt .blocked, .waiting ((List.prefix_append_right_inj _).2 hsent)⟩
    | ends hsent hshort =>
      by_cases hacc' : Accepting env.writes
      · obtain ⟨rfl, hnot⟩ := hshort (hacc hacc')
        refine Or.inr ⟨_, .error, .closed ?_⟩
        simp [a, hnot]
      · exact Or.inr ⟨_, .error, .broken ((List.prefix_append_right_inj _).2 hsent) hacc'⟩
    | goes hmem hsmall _ =>
      exact Or.inl ⟨rfl, by simp [a], by simp [a, hmem, hsmall]⟩

theorem handleError_answers (env : CallEnv) (errNum : Nat) (shortMsg : Bytes) :
    ∃ outcome, BreaksOff ((handleError env.writes errNum shortMsg).ret.map fun _ => .error) outcome ∧
      Answers env ⟨errorHeader errNum shortMsg, false⟩ (handleError env.writes errNum shortMsg).sent
        outcome := by
  unfold handleError
  have hsent := writen_prefix env.writes (errorHeader errNum shortMsg) (errorHeader errNum shortMsg).length
  rw [List.take_length] at hsent
  cases hret : (writen env.writes (errorHeader errNum shortMsg) (errorHeader errNum shortMsg).length).ret with
  | error e =>
    obtain rfl := writenLoop_blocked hret
    exact ⟨_, .halt .blocked, .waiting hsent⟩
  | ok ret =>
    refine ⟨_, .error, ?_⟩
    by_cases hacc : Accepting env.writes
    · rw [(writen_accepting hacc hret).1, List.take_length]
      exact .closed rfl
    · exact .broken hsent hacc

namespace HttpRequest

variable {q : HttpRequest} {r : RequestData} {env : CallEnv}

/-- The parsers have read `q` into `r`. -/
structure ReadInto (q : HttpRequest) (r : RequestData) : Prop where
  method : r.method = q.method
  fileName : r.fileName = targetName q.target []
  keepAlive : r.keepAlive = false
  headers : ∀ name, r.headers.lookup name = lastValue q.fields name

theorem ReadInto.startHeader_eq (h : q.ReadInto r) :
    startHeader r = (q.asksToKeep, Lines.text CR [LF] (okLines q.asksToKeep)) := by
  refine Prod.ext ?_ ?_
  · unfold HPServer.startHeader asksToKeep
    rw [h.headers, h.keepAlive]
    split
    · rename_i hkeep
      simp [hkeep]
    · rename_i hkeep
      simp [hkeep]
  · rw [startHeader_text]
    unfold connectionLines okLines asksToKeep
    rw [h.headers]
    by_cases hkeep : lastValue q.fields (ascii "Connection") = some (ascii "keep-alive") <;> simp [hkeep]

/-- A header without the status line. -/
theorem ReadInto.getHeader_eq (h : q.ReadInto r) (type : Bytes) (size : Nat) :
    getHeader r type size = Lines.message CR [LF]
      (okLines q.asksToKeep ++ [ascii "Content-type: " ++ type, contentLengthLine size]) [] := by
  have hstart := congrArg Prod.snd h.startHeader_eq
  unfold HPServer.getHeader
  rw [hstart]
  simp [Lines.message, Lines.text, contentLengthLine, CRLF]

theorem ReadInto.postHeader_eq (h : q.ReadInto r) :
    postHeader r = Lines.message CR [LF]
      (okLines q.asksToKeep ++ [contentLengthLine sendContent.length]) [] := by
  have hstart := congrArg Prod.snd h.startHeader_eq
  unfold HPServer.postHeader
  rw [hstart]
  simp [Lines.message, Lines.text, contentLengthLine, CRLF]

/-- The answer is on its way: the connection is kept behind it, or the call ends with it. -/
inductive Sends (env : CallEnv) (a : Answer) (r : RequestData) : Bytes → Decision → Prop
  | kept {r₁ : RequestData} (hkept : a.kept = true) (hsame : SameHandles r r₁) :
      Sends env a r a.text (.rearm r₁.reset)
  | closes {sent : Bytes} (h : Answers env a sent .deleted) : Sends env a r sent .delete
  | halts {sent : Bytes} {e : Halt} (h : Answers env a sent (.halted e)) : Sends env a r sent (.halted e)

theorem sends_of_reply {a : Answer} {reply : Reply} (hstate : r.state = .analysis)
    (hreply : analysisRequest env.fs env.filetype env.writes r = reply)
    (hdone : (reply.flag = .ok .success ∧ reply.sent = a.text ∧ a.kept = reply.keepAlive) ∨
      ∃ outcome, BreaksOff reply.flag outcome ∧ Answers env a reply.sent outcome) :
    Sends env a r (analysisStage env r).1 (leave (analysisStage env r).2) := by
  unfold analysisStage
  rw [if_pos hstate, hreply]
  dsimp only
  rcases hdone with ⟨hflag, hsent, hkept⟩ | ⟨outcome, hbreaks, hanswers⟩
  · rw [hflag]
    dsimp only [leave]
    rw [if_pos rfl, hsent]
    cases hkeep : reply.keepAlive with
    | true =>
      rw [if_pos rfl]
      exact .kept (hkept.trans hkeep) ⟨rfl, rfl, rfl⟩
    | false =>
      rw [if_neg (by simp)]
      exact .closes (.closed (hkept.trans hkeep))
  · generalize reply.flag = flag at hbreaks ⊢
    cases hbreaks with
    | error => exact .closes hanswers
    | halt e => exact .halts hanswers

theorem ReadInto.post (h : q.ReadInto r) (hm : q.method = .post) :
    (⟨postHeader r ++ sendContent.take sendContent.length,
      q.asksToKeep && decide (sendContent.length ≤ sendContent.length ∧ sendContent.length < 2147483648)⟩ :
        Answer) = q.answer env.fs env.filetype := by
  have hfits : sendContent.length < 2147483648 := by decide
  simp only [answer, hm, h.postHeader_eq, List.take_length, Lines.message_append, List.nil_append, Nat.le_refl,
    hfits, and_self, decide_true, Bool.and_true]

theorem ReadInto.get (h : q.ReadInto r) (hm : q.method = .get) {size : Nat} {type : TypeText}
    (hstat : env.fs.stat q.path = some size) (htype : env.filetype = some type) :
    (⟨getHeader r type.text size ++ (env.fs.mapped q.path size).take size,
      q.asksToKeep && decide (size ≤ (env.fs.mapped q.path size).length ∧ size < 2147483648)⟩ :
        Answer) = q.answer env.fs env.filetype := by
  simp only [answer, hm, hstat, htype, h.getHeader_eq, Lines.message_append, List.nil_append]

/-- **The answer goes out**, and the connection is kept or closed as it says, on any socket. -/
theorem ReadInto.sends (env : CallEnv) (h : q.ReadInto r) (hstate : r.state = .analysis) :
    Sends env (q.answer env.fs env.filetype) r (analysisStage env r).1 (leave (analysisStage env r).2) := by
  refine sends_of_reply hstate rfl ?_
  unfold analysisRequest
  rw [h.method]
  cases hm : q.method with
  | post =>
    have hheader := postHeader_fits r
    unfold MAX_BUFF at hheader
    have htwo := sendTwo_answers env q.asksToKeep sendContent
      (show (postHeader r).length < 2147483648 by omega) (show sendContent.length < 2 ^ 63 by decide) rfl
    rw [h.post hm] at htwo
    dsimp only [analysisPost]
    rw [h.startHeader_eq]
    exact htwo
  | get =>
    have hpath : cStr r.fileName = q.path := by rw [h.fileName, path]
    have hkeep : (startHeader r).1 = q.asksToKeep := congrArg Prod.fst h.startHeader_eq
    dsimp only
    rcases analysisGet_cases env.fs env.filetype env.writes r with
      ⟨hstat, hreply⟩ | ⟨size, hstat, ⟨hnone, hreply⟩ | ⟨type, reply, htype, htwo, hreply⟩⟩ <;>
      rw [hpath] at hstat <;> rw [hreply]
    · rw [show q.answer env.fs env.filetype = ⟨errorHeader 404 (ascii "Not Found!"), false⟩ by
        simp only [answer, hm, hstat]]
      dsimp only
      exact Or.inr (handleError_answers env 404 (ascii "Not Found!"))
    · exact Or.inr ⟨_, .halt .undefined, .undefined hnone (by simp only [answer, hm, hstat, hnone])⟩
    · have hheader := getHeader_fits r type (env.fs.stat_lt _ _ hstat)
      unfold MAX_BUFF at hheader
      rw [hpath] at htwo
      have hanswers := sendTwo_answers env q.asksToKeep (env.fs.mapped q.path size)
        (show (getHeader r type.text size).length < 2147483648 by omega) (env.fs.stat_lt _ _ hstat) htwo
      rw [h.get hm hstat htype] at hanswers
      rw [hkeep]
      exact hanswers
  | notDefined | invalid =>
    have hknown := q.known
    rw [hm] at hknown
    simp [methodNames] at hknown

end HttpRequest

end HPServer
