import Mathlib.Data.Finmap
import HighPerformanceServer.CppStd
/-!
# The connection object: `struct requestData`

| here | there |
| --- | --- |
| `State`            | `STATE_PARSE_URI` … `STATE_FINISH` (`requestData.h:8-12`) |
| `HeadersState`     | `enum HeadersState` (`requestData.cpp:22-26`) |
| `MethodCode`       | `NOT_DEFINED`, `METHOD_POST`, `METHOD_GET` and the `-1` of `Method::getMethod` (`requestData.h:31-32`, `requestData.cpp:27-30`) |
| `HttpVersion`      | `HTTP_10`, `HTTP_11`, and the `0` of `HTTPversion{}` (`requestData.h:33-34`) |
| `RequestData`      | `struct requestData` (`requestData.h:82-130`); `is_finish`, which nothing reads, is left out |
| `RequestData.new`  | the two constructors (`requestData.cpp:63-72`) |
| `RequestData.reset`| `requestData::reset` (`requestData.cpp:95-105`) |

`headers` is the finite map an `unordered_map` denotes; no code depends on its order. The
`timer` pointer is the name of a `timer_stamp` object, `none` for `nullptr`.
-/

namespace HPServer

open CppStd

inductive State where
  | parseUri | parseHeaders | recvBody | analysis | finish
deriving DecidableEq, Repr

inductive HeadersState where
  | hStart | hKey | hColon | hSpacesAfterColon | hValue | hCR | hLF | hEndCR | hEndLF
deriving DecidableEq, Repr

inductive MethodCode where
  | notDefined | post | get | invalid
deriving DecidableEq, Repr

inductive HttpVersion where
  | unset | http10 | http11
deriving DecidableEq, Repr

/-- `MAX_BUFF`, `MAX_READ_TIMES`, `EPOLL_WAIT_TIME` (`requestData.h:14,19,36`). -/
def MAX_BUFF : Nat := 4096
def MAX_READ_TIMES : Nat := 200
def EPOLL_WAIT_TIME : Nat := 500

/-- `std::unordered_map<std::string, std::string>`. -/
abbrev Headers := Finmap fun _ : Bytes => Bytes

/-- The address of a `timer_stamp`. -/
abbrev TimerId := Nat

structure RequestData where
  readTimes : Nat
  fd : Int
  epollfd : Int
  path : Bytes
  content : Bytes
  fileName : Bytes
  method : MethodCode
  httpVersion : HttpVersion
  nowReadPos : Int
  state : State
  hState : HeadersState
  keepAlive : Bool
  headers : Headers
  timer : Option TimerId
deriving DecidableEq

/-- `requestData(int _epollfd, int _fd, std::string _path)`. -/
def RequestData.new (epollfd fd : Int) (path : Bytes) : RequestData where
  readTimes := 0
  fd := fd
  epollfd := epollfd
  path := path
  content := []
  fileName := []
  method := .notDefined
  httpVersion := .unset
  nowReadPos := 0
  state := .parseUri
  hState := .hStart
  keepAlive := false
  headers := ∅
  timer := none

/-- `reset` leaves `method`, `HTTPversion`, the descriptors and `timer` as they are. -/
def RequestData.reset (r : RequestData) : RequestData :=
  { r with
    readTimes := 0
    content := []
    fileName := []
    path := []
    nowReadPos := 0
    state := .parseUri
    hState := .hStart
    headers := ∅
    keepAlive := false }

/-- The object side of `separateTimer` (`requestData.cpp:366-371`). -/
def RequestData.separateTimer (r : RequestData) : RequestData := { r with timer := none }

/-- `Method::getMethod` and `Method::init` (`requestData.cpp:519-531`). -/
def getMethod (s : Bytes) : MethodCode :=
  if s = ascii "GET" then .get else if s = ascii "POST" then .post else .invalid

/-- `MimeType::init` (`requestData.cpp:37-52`). -/
def mime : List (Bytes × Bytes) :=
  [(ascii ".html", ascii "text/html"), (ascii ".avi", ascii "video/x-msvideo"),
   (ascii ".bmp", ascii "image/bmp"), (ascii ".c", ascii "text/plain"),
   (ascii ".doc", ascii "application/msword"), (ascii ".gif", ascii "image/gif"),
   (ascii ".gz", ascii "application/x-gzip"), (ascii ".htm", ascii "text/html"),
   (ascii ".ico", ascii "application/x-ico"), (ascii ".jpg", ascii "image/jpeg"),
   (ascii ".png", ascii "image/png"), (ascii ".txt", ascii "text/plain"),
   (ascii ".mp3", ascii "audio/mp3"), (ascii "default", ascii "text/html")]

/-- `MimeType::getMime` (`requestData.cpp:54-60`). -/
def getMime (suffix : Bytes) : Bytes :=
  ((mime.lookup suffix).or (mime.lookup (ascii "default"))).getD []

/-- Every type the table can answer is a short piece of one line. -/
theorem getMime_line (suffix : Bytes) :
    (CR ∉ getMime suffix ∧ LF ∉ getMime suffix ∧ NUL ∉ getMime suffix) ∧ (getMime suffix).length ≤ 18 := by
  have table : ∀ e ∈ mime, (CR ∉ e.2 ∧ LF ∉ e.2 ∧ NUL ∉ e.2) ∧ e.2.length ≤ 18 := by decide
  have found : ∀ (l : List (Bytes × Bytes)) (k v : Bytes), l.lookup k = some v → ∃ e ∈ l, e.2 = v := by
    intro l k v
    induction l with
    | nil => intro h; cases h
    | cons e es ih =>
      obtain ⟨a, b⟩ := e
      intro h
      by_cases hk : k = a
      · subst hk; simp at h; exact ⟨(k, b), by simp, h⟩
      · have hb : (k == a) = false := by simpa using hk
        rw [List.lookup_cons, hb] at h
        obtain ⟨e, he, hv⟩ := ih h
        exact ⟨e, by simp [he], hv⟩
  unfold getMime
  cases h : mime.lookup suffix with
  | some v =>
    obtain ⟨e, he, rfl⟩ := found _ _ _ h
    simpa using table e he
  | none => simp only [Option.none_or]; decide

end HPServer
