import HighPerformanceServer.Conversation
import HighPerformanceServer.Framing
/-!
# What a client reads off a connection

A client that is sent many answers on one connection has only the answers themselves to tell it where
one ends and the next begins. `httpClient` takes header lines, and behind the blank line as many bytes
as `Content-length` declares. Whatever is in the files, and wherever the stream has got to, it reads the
replies to the first requests, each with its own header and body, and of the next one a part
(`Converses.understood`, `program_understood`).
-/

namespace HPServer

open CppStd HttpRequest

/-- The lines behind the status line. -/
def declaredLength (ls : List Bytes) : Option Nat :=
  match ls.tail.filter (ascii "Content-length: ").isPrefixOf with
  | [l] => some (natOf (l.drop 16))
  | _ => none

def httpClient : Reader (List Bytes × Bytes) Byte := Lines.reader CR [LF] declaredLength

theorem Declares.declaredLength {status : Bytes} {headers : List Bytes} {n : Nat} (h : Declares status headers n) :
    declaredLength (status :: headers) = some n := by
  have hdrop : (contentLengthLine n).drop 16 = decimal n := by
    unfold contentLengthLine
    rw [List.drop_append_of_le_length (by decide), List.drop_eq_nil_of_le (by decide), List.nil_append]
  simp only [HPServer.declaredLength, List.tail_cons, h.length, hdrop, natOf_decimal]

section Messages

variable {status body : Bytes} {headers : List Bytes} {n : Nat}

theorem Declares.spells (h : Declares status headers n) (hbody : body.length = n) :
    httpClient.Spells (Lines.message CR [LF] (status :: headers) body) (status :: headers, body) :=
  Lines.reader_spells (fun l hl => (h.lines l hl).1) (hbody ▸ h.declaredLength)

theorem Declares.read_none (h : Declares status headers n) (hbody : body.length < n) :
    httpClient.read (Lines.message CR [LF] (status :: headers) body) = none :=
  Lines.reader_none (fun l hl => (h.lines l hl).1) h.declaredLength hbody

end Messages

/-! ## One answer -/

namespace HttpRequest

/-- The header lines and the body that the client should get. -/
def reply (fs : FileSystem) (filetype : Option TypeText) (q : HttpRequest) : List Bytes × Bytes :=
  match q.method with
  | .get =>
    match fs.stat q.path, filetype with
    | some size, some type =>
      (okLines q.asksToKeep ++ [ascii "Content-type: " ++ type.text, contentLengthLine size],
        (fs.mapped q.path size).take size)
    | _, _ => ([], [])
  | _ => (okLines q.asksToKeep ++ [contentLengthLine sendContent.length], sendContent)

theorem okLines_eq (keep : Bool) : ∃ r, okLines keep = statusOk :: connectionLines r := by
  cases keep with
  | false => exact ⟨{ RequestData.new 0 0 [] with headers := ∅ }, by simp [okLines, connectionLines]⟩
  | true => exact ⟨{ RequestData.new 0 0 [] with
      headers := .singleton (ascii "Connection") (ascii "keep-alive") }, by simp [okLines, connectionLines]⟩

/-- An answer is a message, or one that says too much or nothing. -/
theorem answer_read (fs : FileSystem) (filetype : Option TypeText) (q : HttpRequest) :
    httpClient.Spells (q.answer fs filetype).text (q.reply fs filetype) ∨
    ((q.answer fs filetype).kept = false ∧ httpClient.read (q.answer fs filetype).text = none) := by
  obtain ⟨r, hr⟩ := okLines_eq q.asksToKeep
  cases hm : q.method with
  | notDefined | invalid =>
    have hknown := q.known
    rw [hm] at hknown
    exact absurd hknown (by simp [methodNames])
  | post =>
    simp only [answer, reply, hm, hr, List.cons_append]
    exact Or.inl ((declares_post r).spells rfl)
  | get =>
    cases hstat : fs.stat q.path with
    | none =>
      simp only [answer, hm, hstat, errorHeader_message]
      exact Or.inr ⟨trivial, (declares_error 404 (by decide) (by decide)).read_none
        (List.length_pos_iff.2 (errorBody_ne_nil _ _))⟩
    | some size =>
      cases filetype with
      | none =>
        simp only [answer, hm, hstat]
        exact Or.inr ⟨trivial, rfl⟩
      | some type =>
        have hdeclares := declares_get r type size
        simp only [answer, reply, hm, hstat, hr, List.cons_append]
        by_cases hmapped : size ≤ (fs.mapped q.path size).length
        · exact Or.inl (hdeclares.spells (List.length_take_of_le hmapped))
        · refine Or.inr ⟨by simp [hmapped], hdeclares.read_none ?_⟩
          rw [List.length_take]
          omega

end HttpRequest

/-! ## The stream -/

def Exchange.reply (x : Exchange) : List Bytes × Bytes := x.request.reply x.last.fs x.last.filetype

/-- Off the bytes `B` the client has read the first `k` replies. What is left is of the next one; if that
one keeps the connection, not all of it is there. -/
structure Understood (xs : List Exchange) (B : Bytes) (k : Nat) : Prop where
  count : k ≤ xs.length
  replies : (httpClient.received B).1 = (xs.take k).map Exchange.reply
  next : ∀ x, xs[k]? = some x → (httpClient.received B).2 <+: x.answer.text ∧
    (x.answer.kept = true → (httpClient.received B).2 ≠ x.answer.text)
  nothing : k = xs.length → (httpClient.received B).2 = []

section Stream

variable {x : Exchange} {xs : List Exchange} {B : Bytes}

theorem answer_spells (hkept : x.answer.kept = true) : httpClient.Spells x.answer.text x.reply := by
  rcases answer_read x.last.fs x.last.filetype x.request with hspells | ⟨hclosed, -⟩
  · exact hspells
  · exact absurd (hkept.symm.trans hclosed) nofun

/-- A part of the first answer. -/
theorem Understood.part (hB : B <+: x.answer.text) (hnone : httpClient.read B = none) :
    Understood (x :: xs) B 0 where
  count := Nat.zero_le _
  replies := by rw [Reader.received_of_none hnone]; rfl
  next y hy := by
    obtain rfl : x = y := Option.some.inj hy
    rw [Reader.received_of_none hnone]
    refine ⟨hB, ?_⟩
    rintro hkept rfl
    exact absurd ((answer_spells hkept).symm.trans hnone) nofun
  nothing h := absurd h (by simp)

/-- The first answer, and what is behind it. -/
theorem Understood.cons {k : Nat} (hspells : httpClient.Spells x.answer.text x.reply) (h : Understood xs B k) :
    Understood (x :: xs) (x.answer.text ++ B) (k + 1) where
  count := Nat.succ_le_succ h.count
  replies := by rw [hspells.received_append, h.replies]; rfl
  next y hy := by
    rw [hspells.received_append]
    exact h.next y hy
  nothing hk := by
    rw [hspells.received_append]
    exact h.nothing (Nat.succ.inj hk)

theorem Understood.nil (xs : List Exchange) : Understood xs [] 0 where
  count := Nat.zero_le _
  replies := rfl
  next _ _ := ⟨List.nil_prefix, fun hkept e => (answer_spells hkept).ne_nil e.symm⟩
  nothing _ := rfl

/-- The last answer, as far as it got. -/
theorem understood_last (hB : B <+: x.answer.text) : ∃ k, Understood (x :: xs) B k := by
  cases hread : httpClient.read B with
  | none => exact ⟨0, .part hB hread⟩
  | some r =>
    rcases answer_read x.last.fs x.last.filetype x.request with hspells | ⟨-, hnone⟩
    · by_cases hwhole : B = x.answer.text
      · subst hwhole
        have h := Understood.cons hspells (.nil xs)
        rw [List.append_nil] at h
        exact ⟨1, h⟩
      · exact absurd (hread.symm.trans (hspells.read_of_prefix hB hwhole)) nofun
    · exact absurd (hread.symm.trans (Reader.read_none_of_prefix hnone hB)) nofun

theorem sent_silences (epollFd fd : Int) (x : Exchange) :
    ((x.silences epollFd fd).map Observation.sent).flatten = [] := by
  simp [Exchange.silences]

/-- **The client understands.** However much of a conversation it has received, it reads the first
replies, and is left with a part of the next one. -/
theorem Converses.understood {epollFd fd : Int} {seen : List Observation} (h : Converses epollFd fd xs seen) :
    ∀ {B : Bytes}, B <+: (seen.map Observation.sent).flatten → ∃ k, Understood xs B k := by
  induction h with
  | nil =>
    intro B hB
    obtain rfl := List.prefix_nil.1 hB
    exact ⟨0, .nil []⟩
  | @kept x xs seen hkept hmod hrest ih =>
    intro B hB
    rw [List.map_append, List.flatten_append, sent_silences] at hB
    have hB : B <+: x.answer.text ++ (seen.map Observation.sent).flatten := hB
    rcases Nat.lt_or_ge B.length x.answer.text.length with hlen | hlen
    · exact understood_last (List.prefix_of_prefix_length_le hB (List.prefix_append ..) (Nat.le_of_lt hlen))
    · obtain ⟨more, rfl⟩ := List.prefix_of_prefix_length_le (List.prefix_append ..) hB hlen
      obtain ⟨k, hk⟩ := ih ((List.prefix_append_right_inj _).1 hB)
      exact ⟨k + 1, .cons (answer_spells hkept) hk⟩
  | @ended x xs sent outcome hanswers hended =>
    intro B hB
    rw [List.map_append, List.flatten_append, sent_silences] at hB
    have hB : B <+: sent := by simpa using hB
    refine understood_last (hB.trans ?_)
    cases hanswers with
    | kept | unarmed | closed => exact List.prefix_rfl
    | broken hsent | waiting hsent => exact hsent
    | undefined => exact List.nil_prefix

end Stream

/-- **In a run of the whole program** in which the wait of `main` for a slot ends only behind a notify
and no sweep finds a connection due that a worker is re-arming: when the calls that have returned on a
connection have read the beginning of some requests, the client reads off the bytes that have come the
replies to the first of them. -/
theorem program_understood {epollFd : Int} {clock : Nat} {as : List ProgramStep} {y : Except Fault Program}
    (h : (program epollFd).Run (Allowed SweepSafe) (.ok (.start clock)) as y) {R : ReqId} {fd : Int}
    (hfd : acceptedAs R (programLog epollFd clock as) = [fd]) {xs : List Exchange}
    (hcalls : rearmed (callsOn R (programLog epollFd clock as)) <+: xs.flatMap Exchange.calls)
    (hcome : ∀ x ∈ xs, Comes x.request [] x.early x.last) {B : Bytes}
    (hB : B <+: ((callsOn R (programLog epollFd clock as)).map fun c => c.2.2).flatten) :
    ∃ k, Understood xs B k := by
  obtain ⟨seen, hseen, hwrote, -⟩ := program_converses h hfd hcalls hcome
  have hsent : (callsOn R (programLog epollFd clock as)).map (fun c => c.2.2) <+: seen.map Observation.sent := by
    have hsnd := hwrote.map Prod.snd
    rwa [List.map_map, List.map_map] at hsnd
  exact hseen.understood (hB.trans hsent.flatten)

/-- The steps of the first bytes, with a whole request that asks to be kept. -/
def keptProgram : List ProgramStep :=
  firstBytesProgram.take 15 ++ [.sys (.serve 0 (reading keptThree.text)), .sys (.rearmPush 0 1 0),
    .sys (.epollMod 0 true)]

def wholeKept : Exchange where
  request := keptThree
  early := []
  last := reading keptThree.text

set_option maxRecDepth 4000 in
theorem keptProgram_run : ∃ P, (program 3).Run (Allowed SweepSafe) (.ok (.start 0)) keptProgram (.ok P) := by
  obtain ⟨P, hP, hswept⟩ := firstBytesProgram_swept
  obtain rfl : _ = P := Except.ok.inj (Option.some.inj hP)
  have hplain : ∀ a ∈ keptProgram.drop 4, ∀ y, Allowed SweepSafe y a := fun a ha =>
    allowed_of_plain ((by decide : ∀ a ∈ keptProgram.drop 4, a.isPlain = true) a ha)
  exact ⟨_, hswept.replay hplain rfl⟩

set_option maxRecDepth 4000 in
/-- The header has come whole, and half of the body. -/
theorem keptProgram_understood : ∃ k, Understood [wholeKept] (keptPostReply.take 100) k := by
  obtain ⟨P, hrun⟩ := keptProgram_run
  refine program_understood hrun (R := 0) rfl ⟨[], rfl⟩ ?_ ⟨keptPostReply.drop 100, rfl⟩
  intro x hx
  obtain rfl := List.mem_singleton.1 hx
  exact .last (delivers_reading (by decide) (by decide)) (by decide)

end HPServer
