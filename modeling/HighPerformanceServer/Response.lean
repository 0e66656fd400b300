import HighPerformanceServer.Io
import HighPerformanceServer.Lines
import HighPerformanceServer.RequestData
/-!
# `analysisRequest` and `handleError` (requestData.cpp:373-465)

| here | there |
| --- | --- |
| `FileSystem`       | what `stat`, `open` and `mmap` answer for a path |
| `TypeText`         | what is read through `filetype` (:422) |
| `Reply`            | the bytes that left the socket, `keep_alive`, and the result of the call |
| `sendOr`           | `send_len = (size_t) writen(..)` and the check behind it (:387-391, :393-397, :427-431, :438-442) |
| `startHeader`      | the status line and the answer to `Connection` (:376-383, :402-409) |
| `analysisPost`, `analysisGet` | the two branches |

`sprintf(header, "%s..", header)` is taken to append. No header has a NUL in it, so `strlen(header)` is
its length; every header fits its buffer (`postHeader_fits`, `getHeader_fits`).

`filetype` points into the string that `getMime` has returned, and that string is destroyed at the end
of its statement (:411-415). What `sprintf` finds there is for the rest of the system to answer: a line,
or nothing that can be printed as one, and then the call is undefined. Whether the text is still that of
`getMime` is nowhere assumed.
-/

namespace HPServer

open CppStd

/-- `ANALYSIS_SUCCESS`, `ANALYSIS_ERROR` (`requestData.h:28-29`). -/
inductive AnalysisFlag where
  | success | error
deriving DecidableEq, Repr

/-- `stat` answers `st_size`, an `off_t`; `mmap` answers the bytes that can be read at the address
it returns, `none` for `MAP_FAILED`. -/
structure FileSystem where
  stat : Bytes → Option Nat
  stat_lt : ∀ path size, stat path = some size → size < 2 ^ 63
  canOpen : Bytes → Bool
  mmap : Bytes → Nat → Option Bytes

/-- The memory behind `src_addr` (:432-435); a failed `open` leaves `mmap` no descriptor. -/
def FileSystem.mapped (fs : FileSystem) (path : Bytes) (size : Nat) : Bytes :=
  if fs.canOpen path then (fs.mmap path size).getD [] else []

/-- A C string of one line that fits `header`. -/
@[ext] structure TypeText where
  text : Bytes
  line : CR ∉ text ∧ LF ∉ text ∧ NUL ∉ text
  short : text.length ≤ 1024
deriving DecidableEq

structure Reply where
  sent : Bytes
  keepAlive : Bool
  flag : Exec AnalysisFlag
deriving DecidableEq

/-- Send `n` bytes from `mem`, then go on with `k`, or return `ANALYSIS_ERROR`. -/
def sendOr (writes : List WriteResult) (mem : Bytes) (n : Nat)
    (k : List WriteResult → Bytes × Exec AnalysisFlag) : Bytes × Exec AnalysisFlag :=
  let w := writen writes mem n
  match w.ret with
  | .error e => (w.sent, .error e)
  | .ok ret =>
    if toSize ret ≠ n then (w.sent, .ok .error)
    else
      let (sent, flag) := k w.rest
      (w.sent ++ sent, flag)

/-- `keep_alive` and `header` behind the status line. -/
def startHeader (r : RequestData) : Bool × Bytes :=
  let header := ascii "HTTP/1.1 " ++ decimal 200 ++ ascii " OK" ++ CRLF
  if r.headers.lookup (ascii "Connection") = some (ascii "keep-alive") then
    (true, header ++ (ascii "Connection: keep-alive" ++ CRLF) ++
      (ascii "Keep-Alive: timeout=" ++ decimal EPOLL_WAIT_TIME ++ CRLF))
  else (r.keepAlive, header)

def sendContent : Bytes := ascii "I have received this."

def postHeader (r : RequestData) : Bytes :=
  (startHeader r).2 ++ (ascii "Content-length: " ++ decimal sendContent.length ++ CRLF) ++ CRLF

def analysisPost (writes : List WriteResult) (r : RequestData) : Reply :=
  let header := postHeader r
  let (sent, flag) := sendOr writes header header.length fun writes =>
    sendOr writes sendContent sendContent.length fun _ => ([], .ok .success)
  ⟨sent, (startHeader r).1, flag⟩

/-- What `getMime` returns (:410-415), before the string is destroyed. -/
def fileType (fileName : Bytes) : Exec Bytes := do
  let dotPos := toInt (find fileName DOT 0)
  if dotPos < 0 then .ok (getMime (ascii "default"))
  else
    let suffix ← substr fileName (toSize dotPos) npos
    .ok (getMime suffix)

/-- The text that `getMime` returned, as long as it is still there. -/
def mimeText (suffix : Bytes) : TypeText where
  text := getMime suffix
  line := (getMime_line suffix).1
  short := (getMime_line suffix).2.trans (by decide)

def getHeader (r : RequestData) (type : Bytes) (size : Nat) : Bytes :=
  (startHeader r).2 ++ (ascii "Content-type: " ++ type ++ CRLF) ++
    (ascii "Content-length: " ++ decimal size ++ CRLF) ++ CRLF

/-- `body_buff` and `header_buff` of `handleError` (:450-462). -/
def errorBody (errNum : Nat) (shortMsg : Bytes) : Bytes :=
  ascii "<html><title>TKeed Error</title>" ++ ascii "<body bgcolor=\"ffffff\">" ++
    (decimal errNum ++ (SP :: shortMsg)) ++ ascii "<hr><em> zhilong's Web Server</em>\n</body></html>"

def errorHeader (errNum : Nat) (shortMsg : Bytes) : Bytes :=
  (ascii "HTTP/1.1 " ++ decimal errNum ++ (SP :: shortMsg) ++ CRLF) ++
    (ascii "Content-type: text/html" ++ CRLF) ++ (ascii "Connection: close" ++ CRLF) ++
    (ascii "Content-length: " ++ decimal (errorBody errNum shortMsg).length ++ CRLF) ++ CRLF

/-- The header is sent, `body_buff` is not. -/
def handleError (writes : List WriteResult) (errNum : Nat) (shortMsg : Bytes) : WritenResult :=
  writen writes (errorHeader errNum shortMsg) (errorHeader errNum shortMsg).length

def analysisGet (fs : FileSystem) (filetype : Option TypeText) (writes : List WriteResult)
    (r : RequestData) : Reply :=
  let keepAlive := (startHeader r).1
  match fileType r.fileName with
  | .error e => ⟨[], keepAlive, .error e⟩
  | .ok _ =>
    let path := cStr r.fileName
    match fs.stat path with
    | none =>
      let w := handleError writes 404 (ascii "Not Found!")
      ⟨w.sent, keepAlive, w.ret.map fun _ => .error⟩
    | some size =>
      -- the text of `getMime` is gone
      match filetype with
      | none => ⟨[], keepAlive, .error .undefined⟩
      | some type =>
        let header := getHeader r type.text size
        let (sent, flag) := sendOr writes header header.length fun writes =>
          sendOr writes (fs.mapped path size) size fun _ => ([], .ok .success)
        ⟨sent, keepAlive, flag⟩

def analysisRequest (fs : FileSystem) (filetype : Option TypeText) (writes : List WriteResult)
    (r : RequestData) : Reply :=
  match r.method with
  | .post => analysisPost writes r
  | .get => analysisGet fs filetype writes r
  | .notDefined | .invalid => ⟨[], r.keepAlive, .ok .error⟩

/-! ## How a response can fail to return -/

theorem sendOr_blocked {writes : List WriteResult} {mem : Bytes} {n : Nat}
    {k : List WriteResult → Bytes × Exec AnalysisFlag} {h : Halt}
    (hk : ∀ rest h, (k rest).2 = .error h → h = .blocked) (e : (sendOr writes mem n k).2 = .error h) :
    h = .blocked := by
  simp only [sendOr] at e
  cases hr : (writen writes mem n).ret with
  | error h' => rw [hr] at e; cases e; exact writenLoop_blocked hr
  | ok ret =>
    rw [hr] at e
    dsimp only at e
    split at e
    · cases e
    · exact hk _ _ e

/-- Two pieces, as every response is sent. -/
theorem sendTwo_blocked {writes : List WriteResult} {mem mem' : Bytes} {n n' : Nat} {h : Halt}
    (e : (sendOr writes mem n fun writes => sendOr writes mem' n' fun _ => ([], .ok .success)).2 =
      .error h) : h = .blocked :=
  sendOr_blocked (fun _ _ e => sendOr_blocked (fun _ _ e => by cases e) e) e

/-- The suffix lookup always finds a type. -/
theorem fileType_ok (fileName : Bytes) : ∃ suffix, fileType fileName = .ok (getMime suffix) := by
  unfold fileType
  dsimp only
  cases hf : find fileName DOT 0 with
  | none => exact ⟨ascii "default", rfl⟩
  | some n =>
    have hn := (find_zero_some hf).2.2
    by_cases hneg : toInt (some n) < 0
    · exact ⟨_, if_pos hneg⟩
    · have hle : toSize (toInt (some n)) ≤ fileName.length := by
        rcases sizeToInt_cases n with h | h | ⟨k, h, hlt, hkn⟩
        · exact absurd h hneg
        · rw [toInt, h]; unfold toSize; omega
        · rw [toInt, h, toSize_natCast (by omega)]; omega
      exact ⟨_, by rw [if_neg hneg, substr_npos hle]; rfl⟩

/-- No file, no readable type, or a header and the file behind it. -/
theorem analysisGet_cases (fs : FileSystem) (filetype : Option TypeText) (writes : List WriteResult)
    (r : RequestData) :
    (fs.stat (cStr r.fileName) = none ∧ analysisGet fs filetype writes r =
      ⟨(handleError writes 404 (ascii "Not Found!")).sent, (startHeader r).1,
        (handleError writes 404 (ascii "Not Found!")).ret.map fun _ => .error⟩) ∨
    ∃ size, fs.stat (cStr r.fileName) = some size ∧
      ((filetype = none ∧ analysisGet fs filetype writes r = ⟨[], (startHeader r).1, .error .undefined⟩) ∨
      ∃ type reply, filetype = some type ∧
        reply = sendOr writes (getHeader r type.text size) (getHeader r type.text size).length (fun writes =>
          sendOr writes (fs.mapped (cStr r.fileName) size) size fun _ => ([], .ok .success)) ∧
        analysisGet fs filetype writes r = ⟨reply.1, (startHeader r).1, reply.2⟩) := by
  obtain ⟨suffix, htype⟩ := fileType_ok r.fileName
  cases hstat : fs.stat (cStr r.fileName) with
  | none =>
    refine Or.inl ⟨rfl, ?_⟩
    simp only [analysisGet, htype, hstat]
  | some size =>
    refine Or.inr ⟨size, rfl, ?_⟩
    cases filetype with
    | none =>
      refine Or.inl ⟨rfl, ?_⟩
      simp only [analysisGet, htype, hstat]
    | some type =>
      refine Or.inr ⟨type, _, rfl, rfl, ?_⟩
      simp only [analysisGet, htype, hstat]

/-- A `GET` of a file that exists: `filetype` is printed (:422). -/
def PrintsType (fs : FileSystem) (r : RequestData) : Prop :=
  r.method = .get ∧ (fs.stat (cStr r.fileName)).isSome = true

instance (fs : FileSystem) (r : RequestData) : Decidable (PrintsType fs r) :=
  inferInstanceAs (Decidable (_ ∧ _))

/-- Where it is not printed, it does not matter. -/
theorem analysisRequest_filetype {fs : FileSystem} {r : RequestData} (h : ¬PrintsType fs r)
    (filetype filetype' : Option TypeText) (writes : List WriteResult) :
    analysisRequest fs filetype writes r = analysisRequest fs filetype' writes r := by
  unfold analysisRequest
  cases hm : r.method with
  | notDefined | invalid | post => rfl
  | get =>
    obtain ⟨suffix, htype⟩ := fileType_ok r.fileName
    cases hstat : fs.stat (cStr r.fileName) with
    | none => simp only [analysisGet, htype, hstat]
    | some size => exact absurd ⟨hm, by rw [hstat]; rfl⟩ h

/-- `analysisRequest` does not return from a `write` that is still waiting, or is undefined where it
prints `filetype`. -/
theorem analysisRequest_halt {fs : FileSystem} {filetype : Option TypeText} {writes : List WriteResult}
    {r : RequestData} {h : Halt} (e : (analysisRequest fs filetype writes r).flag = .error h) :
    h = .blocked ∨ (h = .undefined ∧ filetype = none ∧ PrintsType fs r) := by
  unfold analysisRequest at e
  cases hm : r.method with
  | notDefined => rw [hm] at e; cases e
  | invalid => rw [hm] at e; cases e
  | post =>
    rw [hm] at e
    simp only [analysisPost] at e
    exact Or.inl (sendTwo_blocked e)
  | get =>
    rw [hm] at e
    dsimp only at e
    rcases analysisGet_cases fs filetype writes r with
      ⟨hstat, hreply⟩ | ⟨size, hstat, ⟨hnone, hreply⟩ | ⟨type, reply, -, htwo, hreply⟩⟩ <;> rw [hreply] at e
    · dsimp only at e
      cases hret : (handleError writes 404 (ascii "Not Found!")).ret with
      | error h' => rw [hret] at e; cases e; exact Or.inl (writenLoop_blocked hret)
      | ok ret => rw [hret] at e; cases e
    · cases e
      exact Or.inr ⟨rfl, hnone, hm, by rw [hstat]; rfl⟩
    · rw [htwo] at e
      exact Or.inl (sendTwo_blocked e)

/-! ## What an accepting socket gets -/

theorem sendOr_returns {writes : List WriteResult} {mem : Bytes} {n : Nat}
    {k : List WriteResult → Bytes × Exec AnalysisFlag} {flag : AnalysisFlag}
    (h : (sendOr writes mem n k).2 = .ok flag) : ∃ ret, (writen writes mem n).ret = .ok ret ∧
      if toSize ret ≠ n then flag = .error ∧ (sendOr writes mem n k).1 = (writen writes mem n).sent
      else (k (writen writes mem n).rest).2 = .ok flag ∧
        (sendOr writes mem n k).1 = (writen writes mem n).sent ++ (k (writen writes mem n).rest).1 := by
  simp only [sendOr] at h ⊢
  cases hr : (writen writes mem n).ret with
  | error e => rw [hr] at h; cases h
  | ok ret =>
    rw [hr] at h
    refine ⟨ret, rfl, ?_⟩
    dsimp only at h ⊢
    split
    · rename_i hpart
      rw [if_pos hpart] at h
      cases h
      exact ⟨rfl, rfl⟩
    · rename_i hall
      rw [if_neg hall] at h
      exact ⟨h, rfl⟩

/-- Any socket: a short piece is sent whole, or a part of it is and the call returns
`ANALYSIS_ERROR`. -/
theorem sendOr_short {writes : List WriteResult} {mem : Bytes} {n : Nat} (hn : n < 2147483648)
    {k : List WriteResult → Bytes × Exec AnalysisFlag} {flag : AnalysisFlag}
    (h : (sendOr writes mem n k).2 = .ok flag) :
    (n ≤ mem.length ∧ ∃ rest, (k rest).2 = .ok flag ∧ (sendOr writes mem n k).1 = mem.take n ++ (k rest).1) ∨
    (flag = .error ∧ (sendOr writes mem n k).1.length < n ∧
      ∃ rest, (sendOr writes mem n k).1 ++ rest = mem.take n) := by
  obtain ⟨ret, hr, hcase⟩ := sendOr_returns h
  rcases writen_returns hr with ⟨hsent, hle, hret⟩ | ⟨hret, hlt, rest, hpart⟩
  · rw [hret, sizeToInt_of_lt hn, toSize_natCast (by omega), if_neg (by simp), hsent] at hcase
    exact Or.inl ⟨hle, _, hcase⟩
  · have hbig := toSize_of_neg (x := ret) (by omega) (by omega)
    rw [if_pos (by omega)] at hcase
    obtain ⟨hflag, hsent⟩ := hcase
    exact Or.inr ⟨hflag, by rw [hsent]; exact hlt, rest, by rw [hsent]; exact hpart⟩

/-- Two pieces, as every response is sent: both are sent, or the response breaks off. -/
theorem sendTwo_returns {writes : List WriteResult} {mem mem' : Bytes} {n : Nat}
    (hmem : mem.length < 2147483648) (hn : n < 2147483648) {flag : AnalysisFlag}
    {reply : Bytes × Exec AnalysisFlag} (hreply : reply = sendOr writes mem mem.length fun writes =>
      sendOr writes mem' n fun _ => ([], .ok .success)) (h : reply.2 = .ok flag) :
    (flag = .success ∧ n ≤ mem'.length ∧ reply.1 = mem ++ mem'.take n) ∨
    (flag = .error ∧ reply.1.length < mem.length + n ∧ ∃ rest, reply.1 ++ rest = mem ++ mem'.take n) := by
  rw [hreply] at h
  rcases sendOr_short hmem h with ⟨-, rest, hrest, hsent⟩ | ⟨hflag, hlt, rest, hpart⟩
  · rw [← hreply, List.take_length] at hsent
    rw [hsent]
    rcases sendOr_short hn hrest with ⟨hle, rest', hlast, hsent'⟩ | ⟨hflag, hlt, rest', hpart⟩
    · cases hlast
      exact Or.inl ⟨rfl, hle, by rw [hsent', List.append_nil]⟩
    · refine Or.inr ⟨hflag, by rw [List.length_append]; omega, rest', ?_⟩
      rw [List.append_assoc, hpart]
  · rw [← hreply] at hlt hpart
    rw [List.take_length] at hpart
    exact Or.inr ⟨hflag, by omega, rest ++ mem'.take n, by rw [← List.append_assoc, hpart]⟩

/-- A short piece of readable memory is sent whole, and the call goes on. -/
theorem sendOr_readable {writes : List WriteResult} {mem : Bytes} (hlen : mem.length < 2147483648)
    {k : List WriteResult → Bytes × Exec AnalysisFlag} {flag : AnalysisFlag}
    (hacc : Accepting writes) (h : (sendOr writes mem mem.length k).2 = .ok flag) :
    ∃ rest, Accepting rest ∧ (k rest).2 = .ok flag ∧
      (sendOr writes mem mem.length k).1 = mem ++ (k rest).1 := by
  obtain ⟨ret, hr, hcase⟩ := sendOr_returns h
  obtain ⟨hsent, hret⟩ := writen_accepting hacc hr
  rw [if_pos (Nat.le_refl _), sizeToInt_of_lt hlen] at hret
  rw [if_neg (by rw [hret, toSize_natCast (by omega)]; simp), hsent, List.take_length] at hcase
  exact ⟨_, writenLoop_rest hacc, hcase⟩

/-- The last piece: what can be read of it is sent, whatever the check behind it says. -/
theorem sendOr_last {writes : List WriteResult} {mem : Bytes} {n : Nat} {last : Exec AnalysisFlag}
    {flag : AnalysisFlag} (hacc : Accepting writes)
    (h : (sendOr writes mem n fun _ => ([], last)).2 = .ok flag) :
    (sendOr writes mem n fun _ => ([], last)).1 = mem.take n := by
  obtain ⟨ret, hr, hcase⟩ := sendOr_returns h
  obtain ⟨hsent, -⟩ := writen_accepting hacc hr
  rw [hsent] at hcase
  split at hcase
  · exact hcase.2
  · simpa using hcase.2

/-! ## The headers as lines -/

def HeaderLine (l : Bytes) : Prop := Lines.IsLine CR l ∧ LF ∉ l

instance (l : Bytes) : Decidable (HeaderLine l) := inferInstanceAs (Decidable (_ ∧ _))

theorem HeaderLine.append {a b : Bytes} (ha : HeaderLine a) (h1 : CR ∉ b) (h2 : LF ∉ b) :
    HeaderLine (a ++ b) := by
  obtain ⟨⟨hne, hcr⟩, hlf⟩ := ha
  exact ⟨⟨by simp [hne], by simp [hcr, h1]⟩, by simp [hlf, h2]⟩

theorem headerLine_decimal {name : Bytes} (h : HeaderLine name) (n : Nat) :
    HeaderLine (name ++ decimal n) := by
  have hdigit : isDigit CR = false ∧ isDigit LF = false := by decide
  exact h.append (fun hm => by simpa [hdigit] using decimal_digits CR hm)
    (fun hm => by simpa [hdigit] using decimal_digits LF hm)

def statusOk : Bytes := ascii "HTTP/1.1 " ++ decimal 200 ++ ascii " OK"

def connectionLines (r : RequestData) : List Bytes :=
  if r.headers.lookup (ascii "Connection") = some (ascii "keep-alive") then
    [ascii "Connection: keep-alive", ascii "Keep-Alive: timeout=" ++ decimal EPOLL_WAIT_TIME]
  else []

def contentLengthLine (n : Nat) : Bytes := ascii "Content-length: " ++ decimal n

theorem connectionLines_cases (r : RequestData) : connectionLines r = [] ∨ connectionLines r =
    [ascii "Connection: keep-alive", ascii "Keep-Alive: timeout=" ++ decimal EPOLL_WAIT_TIME] := by
  unfold connectionLines; split
  · exact Or.inr rfl
  · exact Or.inl rfl

theorem startHeader_text (r : RequestData) :
    (startHeader r).2 = Lines.text CR [LF] (statusOk :: connectionLines r) := by
  unfold startHeader connectionLines
  split <;> simp [Lines.text, statusOk, CRLF]

theorem postHeader_message (r : RequestData) : postHeader r = Lines.message CR [LF]
    (statusOk :: (connectionLines r ++ [contentLengthLine sendContent.length])) [] := by
  simp only [postHeader, startHeader_text]
  simp [Lines.message, Lines.text, contentLengthLine, CRLF]

theorem getHeader_message (r : RequestData) (type : Bytes) (size : Nat) :
    getHeader r type size = Lines.message CR [LF] (statusOk :: (connectionLines r ++
      [ascii "Content-type: " ++ type, contentLengthLine size])) [] := by
  simp only [getHeader, startHeader_text]
  simp [Lines.message, Lines.text, contentLengthLine, CRLF]

theorem errorHeader_message (errNum : Nat) (shortMsg : Bytes) :
    errorHeader errNum shortMsg = Lines.message CR [LF]
      [ascii "HTTP/1.1 " ++ decimal errNum ++ (SP :: shortMsg), ascii "Content-type: text/html",
        ascii "Connection: close", contentLengthLine (errorBody errNum shortMsg).length] [] := by
  simp [errorHeader, Lines.message, Lines.text, contentLengthLine, CRLF]

/-! ## Framing -/

/-- A status line, header lines, an empty line, and a body as long as the one `Content-length`
header declares. -/
def Framed (out : Bytes) : Prop :=
  ∃ status headers body, out = Lines.message CR [LF] (status :: headers) body ∧
    (∀ l ∈ status :: headers, HeaderLine l) ∧ (ascii "HTTP/1.1 ").isPrefixOf status = true ∧
    headers.filter (ascii "Content-length: ").isPrefixOf = [contentLengthLine body.length]

/-- Header lines that declare a body of `n` bytes. -/
structure Declares (status : Bytes) (headers : List Bytes) (n : Nat) : Prop where
  lines : ∀ l ∈ status :: headers, HeaderLine l
  status : (ascii "HTTP/1.1 ").isPrefixOf status = true
  length : headers.filter (ascii "Content-length: ").isPrefixOf = [contentLengthLine n]

theorem framed_message {status : Bytes} {headers : List Bytes} {body : Bytes} {n : Nat}
    (h : Declares status headers n) :
    Framed (Lines.message CR [LF] (status :: headers) body) ↔ body.length = n := by
  constructor
  · rintro ⟨status', headers', body', e, hl', -, hn'⟩
    obtain ⟨hls, rfl⟩ := Lines.message_inj (fun l hl => (h.lines l hl).1) (fun l hl => (hl' l hl).1) e
    obtain ⟨-, rfl⟩ := List.cons.inj hls
    rw [h.length, List.cons.injEq] at hn'
    exact (decimal_inj (List.append_cancel_left hn'.1)).symm
  · rintro rfl
    exact ⟨status, headers, body, rfl, h.lines, h.status, h.length⟩

/-- The answer to `Connection` is made of header lines that declare no length. -/
theorem connectionLines_plain (r : RequestData) :
    (∀ l ∈ connectionLines r, HeaderLine l) ∧
    (connectionLines r).filter (ascii "Content-length: ").isPrefixOf = [] ∧
    (Lines.text CR [LF] (statusOk :: connectionLines r)).length ≤ 100 := by
  rcases connectionLines_cases r with h | h <;> rw [h] <;> decide

theorem statusOk_line : HeaderLine statusOk ∧ (ascii "HTTP/1.1 ").isPrefixOf statusOk = true := by
  decide

theorem contentLengthLine_line (n : Nat) : HeaderLine (contentLengthLine n) ∧
    (ascii "Content-length: ").isPrefixOf (contentLengthLine n) = true :=
  ⟨headerLine_decimal (by decide) n, by simp [contentLengthLine]⟩

/-- `POST`: the declared length is that of the text sent behind the header. -/
theorem declares_post (r : RequestData) : Declares statusOk
    (connectionLines r ++ [contentLengthLine sendContent.length]) sendContent.length := by
  obtain ⟨hlines, hplain, -⟩ := connectionLines_plain r
  obtain ⟨hcl, hpre⟩ := contentLengthLine_line sendContent.length
  refine ⟨?_, statusOk_line.2, ?_⟩
  · simp only [List.mem_cons, List.mem_append, List.not_mem_nil, or_false]
    rintro l (rfl | hl | rfl)
    · exact statusOk_line.1
    · exact hlines l hl
    · exact hcl
  · rw [List.filter_append, hplain, List.filter_cons_of_pos hpre]; rfl

/-- `GET`: the declared length is `st_size`. -/
theorem declares_get (r : RequestData) (type : TypeText) (size : Nat) : Declares statusOk
    (connectionLines r ++ [ascii "Content-type: " ++ type.text, contentLengthLine size]) size := by
  obtain ⟨hlines, hplain, -⟩ := connectionLines_plain r
  obtain ⟨hcl, hpre⟩ := contentLengthLine_line size
  obtain ⟨hcr, hlf, -⟩ := type.line
  refine ⟨?_, statusOk_line.2, ?_⟩
  · simp only [List.mem_cons, List.mem_append, List.not_mem_nil, or_false]
    rintro l (rfl | hl | rfl | rfl)
    · exact statusOk_line.1
    · exact hlines l hl
    · exact HeaderLine.append (by decide) hcr hlf
    · exact hcl
  · have htype : (ascii "Content-length: ").isPrefixOf
        (ascii "Content-type: " ++ type.text) = false := rfl
    rw [List.filter_append, hplain, List.filter_cons_of_neg (by rw [htype]; simp),
      List.filter_cons_of_pos hpre]
    rfl

/-- The header tells which type was printed. -/
theorem getHeader_inj {r : RequestData} {type type' : TypeText} {size : Nat}
    (h : getHeader r type.text size = getHeader r type'.text size) : type = type' := by
  rw [getHeader_message, getHeader_message] at h
  obtain ⟨hlines, -⟩ := Lines.message_inj (fun l hl => ((declares_get r type size).lines l hl).1)
    (fun l hl => ((declares_get r type' size).lines l hl).1) h
  have htail := List.append_cancel_left (List.cons.inj hlines).2
  exact TypeText.ext (List.append_cancel_left (List.cons.inj htail).1)

/-- The declared length of an error is that of a body that is not empty. -/
theorem declares_error (errNum : Nat) {shortMsg : Bytes} (hcr : CR ∉ shortMsg) (hlf : LF ∉ shortMsg) :
    Declares (ascii "HTTP/1.1 " ++ decimal errNum ++ (SP :: shortMsg)) [ascii "Content-type: text/html",
      ascii "Connection: close", contentLengthLine (errorBody errNum shortMsg).length]
      (errorBody errNum shortMsg).length := by
  obtain ⟨hcl, hpre⟩ := contentLengthLine_line (errorBody errNum shortMsg).length
  have hsp : CR ≠ SP ∧ LF ≠ SP := by decide
  refine ⟨?_, by simp, ?_⟩
  · simp only [List.mem_cons, List.not_mem_nil, or_false]
    rintro l (rfl | rfl | rfl | rfl)
    · exact (headerLine_decimal (by decide) errNum).append (by simp [hcr, hsp.1])
        (by simp [hlf, hsp.2])
    · decide
    · decide
    · exact hcl
  · have hothers : (ascii "Content-length: ").isPrefixOf (ascii "Content-type: text/html") = false ∧
        (ascii "Content-length: ").isPrefixOf (ascii "Connection: close") = false := by decide
    rw [List.filter_cons_of_neg (by simp [hothers.1]), List.filter_cons_of_neg (by simp [hothers.2]),
      List.filter_cons_of_pos hpre]
    rfl

theorem framed_post (r : RequestData) (body : Bytes) :
    Framed (postHeader r ++ body) ↔ body.length = sendContent.length := by
  rw [postHeader_message, Lines.message_append, List.nil_append]
  exact framed_message (declares_post r)

theorem framed_get (r : RequestData) (type : TypeText) (size : Nat) (body : Bytes) :
    Framed (getHeader r type.text size ++ body) ↔ body.length = size := by
  rw [getHeader_message, Lines.message_append, List.nil_append]
  exact framed_message (declares_get r type size)

theorem framed_error (errNum : Nat) {shortMsg : Bytes} (hcr : CR ∉ shortMsg) (hlf : LF ∉ shortMsg)
    (body : Bytes) : Framed (errorHeader errNum shortMsg ++ body) ↔
      body.length = (errorBody errNum shortMsg).length := by
  rw [errorHeader_message, Lines.message_append, List.nil_append]
  exact framed_message (declares_error errNum hcr hlf)

/-! ## Every response -/

theorem startHeader_length (r : RequestData) : (startHeader r).2.length ≤ 100 := by
  rw [startHeader_text]; exact (connectionLines_plain r).2.2

theorem postHeader_fits (r : RequestData) : (postHeader r).length < MAX_BUFF := by
  have h := startHeader_length r
  have hrest : (ascii "Content-length: " ++ decimal sendContent.length ++ CRLF).length = 20 ∧
      CRLF.length = 2 := by decide
  rw [postHeader, List.length_append, List.length_append, hrest.1, hrest.2, MAX_BUFF]
  omega

theorem getHeader_fits (r : RequestData) (type : TypeText) {size : Nat} (hsize : size < 2 ^ 63) :
    (getHeader r type.text size).length < MAX_BUFF := by
  have h := startHeader_length r
  have htype := type.short
  have hdec : (decimal size).length ≤ 19 := decimal_length (by omega)
  have hnames : (ascii "Content-type: ").length = 14 ∧ (ascii "Content-length: ").length = 16 ∧
      CRLF.length = 2 := by decide
  simp only [getHeader, List.length_append, hnames, MAX_BUFF]
  omega

theorem errorBody_ne_nil (errNum : Nat) (shortMsg : Bytes) : errorBody errNum shortMsg ≠ [] := by
  simp [errorBody]

theorem getHeader_ne_nil (r : RequestData) (type : Bytes) (size : Nat) (body : Bytes) :
    getHeader r type size ++ body ≠ [] := by
  rw [getHeader_message, Lines.message_append]
  exact Lines.message_ne_nil _ _

theorem postHeader_ne_nil (r : RequestData) : postHeader r ≠ [] := by
  rw [postHeader_message]
  exact Lines.message_ne_nil _ _

/-- A short header is sent before anything succeeds. -/
theorem sendOr_success {writes : List WriteResult} {header : Bytes} (hlen : header.length < 2147483648)
    (hne : header ≠ []) {k : List WriteResult → Bytes × Exec AnalysisFlag}
    (h : (sendOr writes header header.length k).2 = .ok .success) :
    (sendOr writes header header.length k).1 ≠ [] := by
  rcases sendOr_short hlen h with ⟨-, rest, -, hsent⟩ | ⟨hflag, -⟩
  · rw [hsent, List.take_length]
    exact List.append_ne_nil_of_left_ne_nil hne _
  · cases hflag

/-- Whoever is answered with success has been sent something. -/
theorem analysisRequest_success {fs : FileSystem} {filetype : Option TypeText} {writes : List WriteResult}
    {r : RequestData} (h : (analysisRequest fs filetype writes r).flag = .ok .success) :
    (analysisRequest fs filetype writes r).sent ≠ [] := by
  unfold analysisRequest at h ⊢
  cases hm : r.method with
  | notDefined => rw [hm] at h; cases h
  | invalid => rw [hm] at h; cases h
  | post =>
    rw [hm] at h
    simp only [analysisPost] at h ⊢
    have hfits := postHeader_fits r
    rw [MAX_BUFF] at hfits
    exact sendOr_success (by omega) (postHeader_ne_nil r) h
  | get =>
    rw [hm] at h
    dsimp only at h ⊢
    rcases analysisGet_cases fs filetype writes r with
      ⟨-, hreply⟩ | ⟨size, hstat, ⟨-, hreply⟩ | ⟨type, reply, -, htwo, hreply⟩⟩ <;> rw [hreply] at h ⊢
    · dsimp only at h
      cases hret : (handleError writes 404 (ascii "Not Found!")).ret with
      | error e => rw [hret] at h; cases h
      | ok ret => rw [hret] at h; cases h
    · cases h
    · rw [htwo] at h ⊢
      have hfits := getHeader_fits r type (fs.stat_lt _ _ hstat)
      rw [MAX_BUFF] at hfits
      exact sendOr_success (by omega) (by simpa using getHeader_ne_nil r type.text size []) h

/-- What the client of an accepting socket gets from `POST`. -/
theorem analysisPost_sent {writes : List WriteResult} {r : RequestData} {flag : AnalysisFlag}
    (hacc : Accepting writes) (h : (analysisPost writes r).flag = .ok flag) :
    (analysisPost writes r).sent = postHeader r ++ sendContent := by
  simp only [analysisPost] at h ⊢
  have hfits := postHeader_fits r
  obtain ⟨rest, hrest, hflag, hsent⟩ := sendOr_readable (by unfold MAX_BUFF at hfits; omega) hacc h
  have hlast := sendOr_last hrest hflag
  rw [List.take_length] at hlast
  exact hsent.trans (by rw [hlast])

/-- What it gets from `GET`: the file's readable bytes, up to `st_size`. -/
theorem analysisGet_sent {fs : FileSystem} {filetype : Option TypeText} {writes : List WriteResult}
    {r : RequestData} {flag : AnalysisFlag} (hacc : Accepting writes)
    (h : (analysisGet fs filetype writes r).flag = .ok flag) :
    (fs.stat (cStr r.fileName) = none ∧
      (analysisGet fs filetype writes r).sent = errorHeader 404 (ascii "Not Found!")) ∨
    ∃ size type, fs.stat (cStr r.fileName) = some size ∧ filetype = some type ∧
      (analysisGet fs filetype writes r).sent =
        getHeader r type.text size ++ (fs.mapped (cStr r.fileName) size).take size := by
  rcases analysisGet_cases fs filetype writes r with
    ⟨hstat, hreply⟩ | ⟨size, hstat, ⟨-, hreply⟩ | ⟨type, reply, htype, htwo, hreply⟩⟩ <;> rw [hreply] at h ⊢
  · refine Or.inl ⟨hstat, ?_⟩
    dsimp only at h ⊢
    cases hret : (handleError writes 404 (ascii "Not Found!")).ret with
    | error e => rw [hret] at h; cases h
    | ok ret =>
      have := (writen_accepting hacc hret).1
      rwa [List.take_length] at this
  · cases h
  · refine Or.inr ⟨size, type, hstat, htype, ?_⟩
    rw [htwo] at h ⊢
    have hfits := getHeader_fits r type (fs.stat_lt _ _ hstat)
    obtain ⟨rest, hrest, hflag, hsent⟩ :=
      sendOr_readable (by unfold MAX_BUFF at hfits; omega) hacc h
    have hlast := sendOr_last hrest hflag
    exact hsent.trans (by rw [hlast])

/-- **Bug** (`requestData.cpp:464`, `:427`): `handleError` declares the length of a body it does
not send, and `GET` sends its header before it knows whether the file can be read. Whatever type is
printed, a response is framed by its `Content-length` exactly when it is not the answer to a `GET` whose
file cannot be read to the size `stat` gave. -/
theorem response_framed_iff {fs : FileSystem} {filetype : Option TypeText} {writes : List WriteResult}
    {r : RequestData} {flag : AnalysisFlag} (hacc : Accepting writes)
    (h : (analysisRequest fs filetype writes r).flag = .ok flag) :
    ((analysisRequest fs filetype writes r).sent ≠ [] → Framed (analysisRequest fs filetype writes r).sent) ↔
      (r.method = .get → ∃ size, fs.stat (cStr r.fileName) = some size ∧
        size ≤ (fs.mapped (cStr r.fileName) size).length) := by
  unfold analysisRequest at h ⊢
  cases hm : r.method with
  | post =>
    rw [hm] at h
    dsimp only at h ⊢
    have hframed := (framed_post r sendContent).2 rfl
    rw [analysisPost_sent hacc h]
    simp [hframed]
  | get =>
    rw [hm] at h
    dsimp only at h ⊢
    rcases analysisGet_sent hacc h with ⟨hstat, hsent⟩ | ⟨size, type, hstat, -, hsent⟩
    · rw [hsent, hstat]
      have hnot : ¬ Framed (errorHeader 404 (ascii "Not Found!")) := by
        rw [← List.append_nil (errorHeader 404 (ascii "Not Found!")),
          framed_error 404 (by decide) (by decide)]
        exact fun e => errorBody_ne_nil _ _ (List.length_eq_zero_iff.1 e.symm)
      have hne : errorHeader 404 (ascii "Not Found!") ≠ [] := by
        rw [errorHeader_message]; exact Lines.message_ne_nil _ _
      simp [hnot, hne]
    · have hne := getHeader_ne_nil r type.text size
        ((fs.mapped (cStr r.fileName) size).take size)
      rw [hsent, hstat, framed_get, List.length_take]
      simp only [ne_eq, hne, not_false_eq_true, true_imp_iff, Option.some.injEq, exists_eq_left']
      omega
  | notDefined => simp
  | invalid => simp

/-- `text/html`. -/
def htmlText : TypeText := mimeText (ascii "default")

/-- A file system with one readable file. -/
def oneFile (name text : Bytes) (h : text.length < 2 ^ 63) : FileSystem where
  stat path := if path = name then some text.length else none
  stat_lt path size := by split <;> simp; rintro rfl; exact h
  canOpen path := path = name
  mmap path size := if path = name then some (text.take size) else none

set_option maxRecDepth 4000 in
/-- A missing file: the client is promised 118 bytes and gets none. -/
theorem missingFile_unframed :
    ¬ ∀ (fs : FileSystem) (filetype : Option TypeText) (writes : List WriteResult) (r : RequestData)
      (flag : AnalysisFlag), (∃ type, filetype = some type ∧ fileType r.fileName = .ok type.text) →
      Accepting writes → (analysisRequest fs filetype writes r).flag = .ok flag →
      (analysisRequest fs filetype writes r).sent ≠ [] →
      Framed (analysisRequest fs filetype writes r).sent := by
  intro h
  have hframed := h (oneFile (ascii "a") (ascii "hi") (by decide)) (some htmlText) [.accepted 4096]
    { RequestData.new 3 5 (ascii "/") with method := .get, fileName := ascii "b" } .error
    ⟨htmlText, rfl, by decide⟩ (by simp [Accepting]) (by decide) (by decide)
  have hsent : (analysisRequest (oneFile (ascii "a") (ascii "hi") (by decide)) (some htmlText) [.accepted 4096]
      { RequestData.new 3 5 (ascii "/") with method := .get, fileName := ascii "b" }).sent =
        errorHeader 404 (ascii "Not Found!") ++ [] := by decide
  rw [hsent, framed_error 404 (by decide) (by decide)] at hframed
  exact errorBody_ne_nil _ _ (List.length_eq_zero_iff.1 hframed.symm)

theorem presentFile_framed :
    Framed (analysisRequest (oneFile (ascii "a") (ascii "hi") (by decide)) (some htmlText)
      [.accepted 4096, .accepted 4096]
      { RequestData.new 3 5 (ascii "/") with method := .get, fileName := ascii "a" }).sent :=
  (response_framed_iff (by simp [Accepting]) (show _ = Except.ok AnalysisFlag.success by decide)).2
    (fun _ => ⟨2, by decide, by decide⟩) (by decide)

end HPServer
