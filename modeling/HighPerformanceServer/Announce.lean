import HighPerformanceServer.CallEnds
/-!
# What a response announces about its connection

`analysisRequest` writes the header, `handleRequest` decides what becomes of the object, and only
`keep_alive` connects the two. `startHeader` turns the flag on with the line it writes and never
off, so the flag tells what this response says only if it was off before (`Unanswered`).

| here | there |
| --- | --- |
| `keepAliveLine` | `"Connection: keep-alive"` (requestData.cpp:381, :407) |
| `Complete`      | the responses that `analysisRequest` can send whole (:385-398, :418-443, :449-465) |
-/

namespace HPServer

open Function CppStd

/-! ## Whole responses -/

def keepAliveLine : Bytes := ascii "Connection: keep-alive"

/-- Header and declared body, or the header that `handleError` sends. -/
def Complete (sent : Bytes) : Prop := Framed sent ∨ sent = errorHeader 404 (ascii "Not Found!")

/-- `Connection: keep-alive` is a line of the header. -/
def Announces (sent : Bytes) : Prop :=
  ∃ lines body, sent = Lines.message CR [LF] lines body ∧ (∀ l ∈ lines, HeaderLine l) ∧
    keepAliveLine ∈ lines

theorem announces_message {lines : List Bytes} {body : Bytes} (hl : ∀ l ∈ lines, HeaderLine l) :
    Announces (Lines.message CR [LF] lines body) ↔ keepAliveLine ∈ lines := by
  constructor
  · rintro ⟨lines', body', e, hl', hmem⟩
    obtain ⟨rfl, -⟩ := Lines.message_inj (fun l h => (hl l h).1) (fun l h => (hl' l h).1) e
    exact hmem
  · exact fun hmem => ⟨lines, body, rfl, hl, hmem⟩

theorem complete_ne_nil {sent : Bytes} (h : Complete sent) : sent ≠ [] := by
  rcases h with ⟨status, headers, body, rfl, -⟩ | rfl
  · exact Lines.message_ne_nil _ _
  · rw [errorHeader_message]
    exact Lines.message_ne_nil _ _

theorem declares_notFound : Declares (ascii "HTTP/1.1 " ++ decimal 404 ++ (SP :: ascii "Not Found!"))
    [ascii "Content-type: text/html", ascii "Connection: close",
      contentLengthLine (errorBody 404 (ascii "Not Found!")).length]
    (errorBody 404 (ascii "Not Found!")).length :=
  declares_error 404 (by decide) (by decide)

/-- A complete response that begins like a message has its header. -/
theorem Complete.of_prefix {sent rest status body : Bytes} {headers : List Bytes} {n : Nat}
    (h : Complete sent) (hd : Declares status headers n)
    (hp : sent ++ rest = Lines.message CR [LF] (status :: headers) body) :
    ∃ body', sent = Lines.message CR [LF] (status :: headers) body' ∧
      (body'.length = n ∨ sent = errorHeader 404 (ascii "Not Found!")) := by
  have hlines : ∀ l ∈ status :: headers, Lines.IsLine CR l := fun l hl => (hd.lines l hl).1
  rcases h with ⟨status', headers', body', rfl, hl', -, hn'⟩ | rfl
  · rw [Lines.message_append] at hp
    obtain ⟨hls, -⟩ := Lines.message_inj (fun l hl => (hl' l hl).1) hlines hp
    obtain ⟨rfl, rfl⟩ := List.cons.inj hls
    rw [hd.length, List.cons.injEq] at hn'
    exact ⟨body', rfl, Or.inl (decimal_inj (List.append_cancel_left hn'.1)).symm⟩
  · rw [errorHeader_message, Lines.message_append] at hp
    obtain ⟨hls, -⟩ := Lines.message_inj (fun l hl => (declares_notFound.lines l hl).1) hlines hp
    exact ⟨[], by rw [errorHeader_message, hls], Or.inr rfl⟩

/-- A `200` that is complete has the whole body it declares. -/
theorem Complete.length_ok {sent rest body : Bytes} {headers : List Bytes} {n : Nat}
    (h : Complete sent) (hd : Declares statusOk headers n)
    (hp : sent ++ rest = Lines.message CR [LF] (statusOk :: headers) [] ++ body) :
    sent.length = (Lines.message CR [LF] (statusOk :: headers) []).length + n := by
  rw [Lines.message_append, List.nil_append] at hp
  obtain ⟨body', hsent, hlen | herror⟩ := h.of_prefix hd hp
  · rw [hsent, ← hlen, ← List.length_append, Lines.message_append, List.nil_append]
  · rw [hsent, errorHeader_message] at herror
    obtain ⟨hls, -⟩ := Lines.message_inj (fun l hl => (hd.lines l hl).1)
      (fun l hl => (declares_notFound.lines l hl).1) herror
    exact absurd (List.cons.inj hls).1 (by decide)

theorem contentLengthLine_ne (n : Nat) : keepAliveLine ≠ contentLengthLine n := by
  intro e
  have hpre := (contentLengthLine_line n).2
  rw [← e] at hpre
  exact absurd hpre (by decide)

/-- The `404` announces nothing. -/
theorem notFound_plain {writes : List WriteResult} {ret : Int}
    (hret : (handleError writes 404 (ascii "Not Found!")).ret = .ok ret)
    (hc : Complete (handleError writes 404 (ascii "Not Found!")).sent) :
    ¬ Announces (handleError writes 404 (ascii "Not Found!")).sent := by
  obtain ⟨rest, hpart⟩ : ∃ rest, (handleError writes 404 (ascii "Not Found!")).sent ++ rest =
      errorHeader 404 (ascii "Not Found!") := by
    rcases writen_returns hret with ⟨hsent, -⟩ | ⟨-, -, rest, hpart⟩
    · exact ⟨[], by rw [List.append_nil, handleError, hsent, List.take_length]⟩
    · exact ⟨rest, by rw [handleError, hpart, List.take_length]⟩
  rw [errorHeader_message] at hpart
  obtain ⟨body', hsent, -⟩ := hc.of_prefix declares_notFound hpart
  rw [hsent, announces_message declares_notFound.lines]
  intro hmem
  rw [List.mem_cons, List.mem_cons, List.mem_cons, List.mem_singleton] at hmem
  rcases hmem with h | h | h | h
  · exact absurd h (by decide)
  · exact absurd h (by decide)
  · exact absurd h (by decide)
  · exact contentLengthLine_ne _ h

/-! ## The flag and the line -/

section Flag

variable {r : RequestData} (hka : r.keepAlive = false)

include hka

/-- The flag was off: it is on behind the header exactly when the line is there. -/
theorem mem_connectionLines : keepAliveLine ∈ connectionLines r ↔ (startHeader r).1 = true := by
  unfold connectionLines startHeader
  split
  · simp [keepAliveLine]
  · simp [hka]

/-- A `200` in two pieces. -/
theorem twoPieces_announces {tail : List Bytes} {n : Nat}
    (hd : Declares statusOk (connectionLines r ++ tail) n) (htail : keepAliveLine ∉ tail)
    {header mem : Bytes} (hheader : header = Lines.message CR [LF] (statusOk :: (connectionLines r ++ tail)) [])
    (hfits : header.length < 2147483648) (hn : n < 2147483648) {writes : List WriteResult}
    {reply : Bytes × Exec AnalysisFlag} (hreply : reply = sendOr writes header header.length fun writes =>
      sendOr writes mem n fun _ => ([], .ok .success))
    {flag : AnalysisFlag} (h : reply.2 = .ok flag) (hc : Complete reply.1) :
    Announces reply.1 ↔ flag = .success ∧ (startHeader r).1 = true := by
  have hnot : keepAliveLine ≠ statusOk := by decide
  rcases sendTwo_returns hfits hn hreply h with ⟨rfl, -, hsent⟩ | ⟨rfl, hlt, rest, hpart⟩
  · rw [hsent, hheader, Lines.message_append, announces_message hd.lines, ← mem_connectionLines hka]
    simp [hnot, htail]
  · rw [hheader] at hlt hpart
    have := hc.length_ok hd hpart
    omega

/-- **The answer** to a request announces that the connection stays exactly when the call succeeds
with `keep_alive` on. -/
theorem analysisRequest_announces {fs : FileSystem} {filetype : Option TypeText} {writes : List WriteResult}
    (hfile : r.method = .get → ∀ size, fs.stat (cStr r.fileName) = some size → size < 2147483648)
    {flag : AnalysisFlag} (h : (analysisRequest fs filetype writes r).flag = .ok flag)
    (hc : Complete (analysisRequest fs filetype writes r).sent) :
    Announces (analysisRequest fs filetype writes r).sent ↔
      flag = .success ∧ (analysisRequest fs filetype writes r).keepAlive = true := by
  unfold analysisRequest at h hc ⊢
  cases hm : r.method with
  | notDefined => rw [hm] at hc; exact absurd rfl (complete_ne_nil hc)
  | invalid => rw [hm] at hc; exact absurd rfl (complete_ne_nil hc)
  | post =>
    rw [hm] at h hc
    have hfits := postHeader_fits r
    unfold MAX_BUFF at hfits
    exact twoPieces_announces hka (declares_post r) (by simp [contentLengthLine_ne]) (postHeader_message r) (by omega)
      (by decide) rfl h hc
  | get =>
    rw [hm] at h hc
    dsimp only at h hc ⊢
    rcases analysisGet_cases fs filetype writes r with
      ⟨-, hreply⟩ | ⟨size, hstat, ⟨-, hreply⟩ | ⟨type, reply, -, htwo, hreply⟩⟩ <;> rw [hreply] at h hc ⊢
    · dsimp only at h hc ⊢
      cases hret : (handleError writes 404 (ascii "Not Found!")).ret with
      | error e => rw [hret] at h; cases h
      | ok ret =>
        rw [hret] at h
        cases h
        simp [notFound_plain hret hc]
    · cases h
    · have hfits := getHeader_fits r type (fs.stat_lt _ _ hstat)
      unfold MAX_BUFF at hfits
      have htypeLine : keepAliveLine ≠ ascii "Content-type: " ++ type.text := by
        intro e
        have hpre : (ascii "Content-type: ").isPrefixOf (ascii "Content-type: " ++ type.text) = true := by
          simp
        rw [← e] at hpre
        exact absurd hpre (by decide)
      exact twoPieces_announces hka (declares_get r type size) (by simp [contentLengthLine_ne, htypeLine])
        (getHeader_message r _ size) (by omega) (hfile hm size hstat) htwo h hc

end Flag

/-! ## The call -/

/-- What the request asks for is no file of two gigabytes or more. -/
def SmallFile (env : CallEnv) (r : RequestData) : Prop :=
  ∀ a, parseStages env r >>= bodyStage = .ok a → a.method = .get →
    ∀ size, env.fs.stat (cStr a.fileName) = some size → size < 2147483648

theorem handleRequest_announces {env : CallEnv} {r : RequestData} (hka : r.keepAlive = false)
    (hfile : SmallFile env r) (hmod : env.epollMod = true) (hc : Complete (handleRequest env r).1)
    (hreturns : ∀ e, (handleRequest env r).2 ≠ .halted e) :
    (Announces (handleRequest env r).1 → ∃ r', SameHandles r r' ∧
      (handleRequest env r).2 = .kept { r'.reset with timer := some env.mtimer }) ∧
    (¬ Announces (handleRequest env r).1 → (handleRequest env r).2 = .deleted) := by
  have hsent := complete_ne_nil hc
  rw [handleRequest_sent] at hsent hc ⊢
  obtain ⟨r₁, a, hparse, hbody, hs, hserve⟩ := serve_answered hsent
  have hreceived : parseStages env r >>= bodyStage = .ok a := by rw [hparse]; exact hbody
  have huntouched : Untouched r a := by
    have hall := received_untouched env r
    rw [hreceived] at hall
    exact hall
  have hoff : a.keepAlive = false := huntouched.2.trans hka
  have hanswer : (serve env r).sent = (analysisRequest env.fs env.filetype env.writes a).sent := by
    rw [hserve, analysisStage, if_pos hs]
    dsimp only
    split <;> rfl
  have hdecision : (serve env r).decision = leave (analysisStage env a).2 := by rw [hserve]
  rw [hanswer] at hc ⊢
  simp only [handleRequest, hdecision, analysisStage, if_pos hs] at hreturns ⊢
  cases hf : (analysisRequest env.fs env.filetype env.writes a).flag with
  | error e =>
    simp only [hf, leave] at hreturns
    exact absurd rfl (hreturns e)
  | ok flag =>
    have hiff := analysisRequest_announces hoff (hfile a hreceived) hf hc
    cases flag with
    | error =>
      refine ⟨fun hann => ?_, fun _ => rfl⟩
      cases (hiff.1 hann).1
    | success =>
      cases hon : (analysisRequest env.fs env.filetype env.writes a).keepAlive with
      | true =>
        refine ⟨fun _ => ⟨_, huntouched.1, ?_⟩, fun hann => absurd (hiff.2 ⟨rfl, hon⟩) hann⟩
        simp only [leave, if_true, rearm, hmod]
        rfl
      | false =>
        refine ⟨fun hann => ?_, fun _ => rfl⟩
        rw [hon] at hiff
        cases (hiff.1 hann).2

/-- No connection is both. -/
theorem Server.Awaits.not_drops {s s' : Server} {R : ReqId} {T : TimerId} (h : s.Awaits R T s') :
    ¬ s.Drops R s' := by
  intro hdrops
  have hqueue := h.myTimerQueue
  rw [hdrops.myTimerQueue] at hqueue
  exact List.cons_ne_self _ _ hqueue.symm

/-- **What the server announces is what it does.** A call that sends a whole response, from any state
between calls: the connection waits for its next request, with a new timer, exactly when the
response says so, and is dropped otherwise. -/
theorem announced_kept {epollFd : Int} {s : Server} (h : (calls epollFd).Reachable (.ok s)) {R : ReqId}
    {pool : List ReqId} (hp : s.pool = R :: pool) {r : RequestData} (hr : s.request R = .live r)
    {env : CallEnv} {now : Nat} {x : Except Fault Server}
    (hrun : callStep epollFd s (.handleRequest env now) = some x) (hmod : env.epollMod = true)
    (hfile : SmallFile env r) (hsent : Complete (handleRequest env r).1) :
    ∃ s', x = .ok s' ∧ (s.Awaits R env.mtimer s' ↔ Announces (handleRequest env r).1) ∧
      (¬ Announces (handleRequest env r).1 → s.Drops R s') := by
  obtain ⟨hrest, s', hx, hleft, hborn⟩ := served_reachable h hp hr hrun
  obtain ⟨hkept, hdeleted⟩ := handleRequest_announces hrest.keepAlive hfile hmod hsent (by
    intro e he
    rw [he] at hleft
    cases hleft)
  have hdrops : ¬ Announces (handleRequest env r).1 → s.Drops R s' := fun hann =>
    (Server.left_drops s hleft rfl).2 (hdeleted hann)
  refine ⟨s', hx, ⟨fun hawaits => ?_, fun hann => ?_⟩, hdrops⟩
  · by_contra hann
    exact hawaits.not_drops (hdrops hann)
  · obtain ⟨r', hsame, hfate⟩ := hkept hann
    rw [hfate] at hleft
    cases hleft
    refine ⟨⟨r, r', hr, hsame, update_self R _ _⟩, rfl, ⟨?_, _, update_self _ _ _, rfl, rfl⟩,
      update_self R _ _⟩
    exact hborn.resolve_left (List.cons_ne_self _ _)

/-- `POST` on a connection to be kept, and the connection waits. -/
theorem keptPost_awaits : ∃ s, (calls 3).Reachable (.ok s) ∧ ∃ s',
    callStep 3 s (.handleRequest (reading keptPost) 2) = some (.ok s') ∧ s.Awaits 0 7 s' := by
  have hreach : (calls 3).Reachable _ := Lts.reach_of_replay
    [.acceptConnection 0 0 5 true 0, .handleEvent 0 false] (.init ⟨0, rfl⟩) rfl
  have hreply : (handleRequest (reading keptPost) (.new 3 5 PATH)).1 = keptPostReply :=
    congrArg Prod.fst keptPost_answered
  have hlines : keptPostReply = postHeader { RequestData.new 3 5 PATH with
      headers := Finmap.singleton (ascii "Connection") (ascii "keep-alive") } ++ sendContent := by decide
  have hwhole : Complete (handleRequest (reading keptPost) (.new 3 5 PATH)).1 := by
    rw [hreply, hlines]
    exact Or.inl ((framed_post _ sendContent).2 rfl)
  have hfile : SmallFile (reading keptPost) (.new 3 5 PATH) := by
    intro a _ _ size hsize
    simp only [reading, CallEnv.idle, oneFile] at hsize
    split at hsize
    · cases hsize; decide
    · cases hsize
  have hann : Announces (handleRequest (reading keptPost) (.new 3 5 PATH)).1 := by
    rw [hreply, hlines, postHeader_message, Lines.message_append, announces_message (declares_post _).lines]
    decide
  obtain ⟨s', hx, hiff, -⟩ := announced_kept hreach rfl rfl
    (show callStep 3 _ (.handleRequest _ 2) = _ from rfl) rfl hfile hwhole
  exact ⟨_, hreach, s', congrArg some hx, hiff.2 hann⟩

end HPServer
