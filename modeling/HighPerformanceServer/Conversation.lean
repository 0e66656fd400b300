import HighPerformanceServer.Delivery
import HighPerformanceServer.HeaderCase
import HighPerformanceServer.Serialized
/-!
# A connection answers its requests, one after the other

`Converses` is what a client sees of a connection that is kept: each request gets its answer when its
last bytes have come, and nothing before; then the next request counts, or nothing any more. The
calls of `handleRequest` on one object keep to it, in whatever pieces the requests come
(`requests_answered`), and so do the calls that the workers of the whole program make on a connection
(`program_answers`).
-/

namespace HPServer

open CppStd HttpRequest

/-- The bytes of `q` behind `P` are read by the calls `early`, which stop at safe cuts and re-arm, and
by the call `last`. -/
inductive Comes (q : HttpRequest) : Bytes → List CallEnv → CallEnv → Prop
  | last {P p : Bytes} {env : CallEnv} (hd : env.Delivers p) (htext : P ++ p = q.text) : Comes q P [] env
  | more {P p : Bytes} {env last : CallEnv} {early : List CallEnv} (hd : env.Delivers p)
      (hsafe : q.SafeCut (P ++ p).length) (hmod : env.epollMod = true)
      (hrest : Comes q (P ++ p) early last) : Comes q P (env :: early) last

/-- A request, and the calls that read it. -/
structure Exchange where
  request : HttpRequest
  early : List CallEnv
  last : CallEnv

namespace Exchange

def calls (x : Exchange) : List CallEnv := x.early ++ [x.last]

def answer (x : Exchange) : Answer := x.request.answer x.last.fs x.last.filetype

/-- The calls that are still without the whole request. -/
def silences (epollFd fd : Int) (x : Exchange) : List Observation :=
  x.early.map fun _ => ⟨epollFd, fd, [], .rearmed⟩

end Exchange

inductive Converses (epollFd fd : Int) : List Exchange → List Observation → Prop
  | nil : Converses epollFd fd [] []
  | kept {x : Exchange} {xs : List Exchange} {seen : List Observation} (hkept : x.answer.kept = true)
      (hmod : x.last.epollMod = true) (hrest : Converses epollFd fd xs seen) :
      Converses epollFd fd (x :: xs)
        (x.silences epollFd fd ++ ⟨epollFd, fd, x.answer.text, .rearmed⟩ :: seen)
  | ended {x : Exchange} {xs : List Exchange} {sent : Bytes} {outcome : Outcome}
      (hanswers : Answers x.last x.answer sent outcome) (hended : outcome ≠ .rearmed) :
      Converses epollFd fd (x :: xs) (x.silences epollFd fd ++ [⟨epollFd, fd, sent, outcome⟩])

section Calls

variable {q : HttpRequest} {c r r' : RequestData} {env last : CallEnv} {early : List CallEnv} {P : Bytes}

theorem Comes.rest (h : Comes q P early last) : ∃ R, R ≠ [] ∧ P ++ R = q.text := by
  induction h with
  | last hd htext => exact ⟨_, delivers_ne_nil hd, htext⟩
  | more hd _ _ _ ih =>
    obtain ⟨R, -, htext⟩ := ih
    refine ⟨_ ++ R, fun hnil => ?_, by rw [← List.append_assoc]; exact htext⟩
    exact delivers_ne_nil hd (List.append_eq_nil_iff.1 hnil).1

theorem Fresh.stands (hc : Fresh c) : q.Stands c [] c := by
  have hsame : { c with content := [] } = c := by rw [← hc.content]
  have hline : q.Stands c [] { c with content := [] } := .line (by simp)
  rwa [hsame] at hline

theorem HttpRequest.Stands.handles (h : q.Stands c P r) : SameHandles c r := by
  cases h <;> exact ⟨rfl, rfl, rfl⟩

/-- What `reset` leaves is fresh. -/
theorem fresh_reset (r : RequestData) : Fresh { r.reset with timer := none } :=
  { idle_reset r none with fileName := rfl, headers := rfl, keepAlive := rfl, timer := rfl }

/-- A call that re-arms, and the calls behind it. -/
theorem observe_rearm {sent : Bytes} (hserve : serve env r.separateTimer = ⟨sent, .rearm r'⟩)
    (hmod : env.epollMod = true) (envs : List CallEnv) : observe r (env :: envs) =
      ⟨r.epollfd, r.fd, sent, .rearmed⟩ :: observe { r' with timer := some env.mtimer } envs := by
  simp only [observe, handleRequest, hserve, rearm, hmod, if_true, Fate.outcome]

/-- One request. -/
theorem Comes.observe (h : Comes q P early last) (hs : q.Stands c P r.separateTimer) (hc : Fresh c)
    (envs : List CallEnv) : let x : Exchange := ⟨q, early, last⟩
    (∃ r', HPServer.observe r (x.calls ++ envs) = x.silences c.epollfd c.fd ++
        ⟨c.epollfd, c.fd, x.answer.text, .rearmed⟩ :: HPServer.observe r' envs ∧
      Fresh r'.separateTimer ∧ r'.fd = c.fd ∧ r'.epollfd = c.epollfd ∧ x.answer.kept = true ∧
      x.last.epollMod = true) ∨
    ∃ sent outcome, HPServer.observe r (x.calls ++ envs) =
        x.silences c.epollfd c.fd ++ [⟨c.epollfd, c.fd, sent, outcome⟩] ∧
      Answers x.last x.answer sent outcome ∧ outcome ≠ .rearmed := by
  induction h generalizing r with
  | @last P p env hd htext =>
    obtain ⟨r₁, hread, hstate, hsame, hserve⟩ := hs.answers hc hd htext
    have hsends := hread.sends env hstate
    generalize (analysisStage env r₁).1 = sent at hserve hsends
    generalize leave (analysisStage env r₁).2 = decision at hserve hsends
    have hfd : r.epollfd = c.epollfd ∧ r.fd = c.fd := ⟨hs.handles.2.1, hs.handles.1⟩
    cases hsends with
    | @kept r₂ hkept hsame₂ =>
      cases hmod : env.epollMod with
      | true =>
        refine Or.inl ⟨{ r₂.reset with timer := some env.mtimer },
          (observe_rearm hserve hmod envs).trans (by rw [hfd.1, hfd.2]; rfl), fresh_reset r₂,
          hsame₂.1.trans hsame.1, hsame₂.2.1.trans hsame.2.1, hkept, hmod⟩
      | false =>
        refine Or.inr ⟨_, .rearmFailed, ?_, .unarmed hkept hmod, by simp⟩
        simp only [Exchange.calls, List.nil_append, List.singleton_append, HPServer.observe, handleRequest,
          hserve, rearm, hmod, Bool.false_eq_true, if_false, Fate.outcome, hfd]
        rfl
    | closes hanswers =>
      refine Or.inr ⟨_, .deleted, ?_, hanswers, by simp⟩
      simp only [Exchange.calls, List.nil_append, List.singleton_append, HPServer.observe, handleRequest,
        hserve, Fate.outcome, hfd]
      rfl
    | @halts _ e hanswers =>
      refine Or.inr ⟨_, .halted e, ?_, hanswers, by simp⟩
      simp only [Exchange.calls, List.nil_append, List.singleton_append, HPServer.observe, handleRequest,
        hserve, Fate.outcome, hfd]
      rfl
  | @more P p env last early hd hsafe hmod hrest ih =>
    obtain ⟨R, hR, htext⟩ := hrest.rest
    obtain ⟨r₁, hserve, hstands⟩ := hs.waits hc hd htext hR hsafe
    have hnext : q.Stands c (P ++ p) { r₁ with timer := some env.mtimer }.separateTimer := by
      have htimer : r₁.timer = none := hstands.handles.2.2.trans hc.timer
      have hsame : { r₁ with timer := some env.mtimer }.separateTimer = r₁ := by
        show { r₁ with timer := none } = r₁
        rw [← htimer]
      rwa [hsame]
    have hcall := observe_rearm hserve hmod (early ++ [last] ++ envs)
    rw [show r.epollfd = c.epollfd from hs.handles.2.1, show r.fd = c.fd from hs.handles.1] at hcall
    rcases ih hnext with ⟨r', hobserve, hfresh⟩ | ⟨sent, outcome, hobserve, hanswers⟩
    · exact Or.inl ⟨r', hcall.trans (congrArg _ hobserve), hfresh⟩
    · exact Or.inr ⟨sent, outcome, hcall.trans (congrArg _ hobserve), hanswers⟩

end Calls

theorem fresh_new (epollFd fd : Int) (path : Bytes) : Fresh (RequestData.new epollFd fd path).separateTimer :=
  { idle_new epollFd fd path with fileName := rfl, headers := rfl, keepAlive := rfl, timer := rfl }

theorem converses_of_fresh : ∀ {xs : List Exchange} {r : RequestData}, Fresh r.separateTimer →
    (∀ x ∈ xs, Comes x.request [] x.early x.last) →
    Converses r.epollfd r.fd xs (observe r (xs.flatMap Exchange.calls))
  | [], _, _, _ => .nil
  | x :: xs, r, hr, hcome => by
    have hx := hcome x List.mem_cons_self
    rw [List.flatMap_cons]
    rcases hx.observe hr.stands hr (xs.flatMap Exchange.calls) with
      ⟨r', hobserve, hfresh, hfd, hepollfd, hkept, hmod⟩ | ⟨sent, outcome, hobserve, hanswers, hended⟩ <;>
      refine hobserve ▸ ?_
    · have hrest := converses_of_fresh hfresh fun x hx => hcome x (List.mem_cons_of_mem _ hx)
      rw [hfd, hepollfd] at hrest
      exact .kept hkept hmod hrest
    · exact .ended hanswers hended

/-- **A conversation.** On a connection just accepted, requests that come one after the other, each in
one read or cut where no header is, are answered one after the other, each when its last bytes are
there, up to the first answer that does not keep the connection or does not get through. -/
theorem requests_answered (epollFd fd : Int) (path : Bytes) {xs : List Exchange}
    (hcome : ∀ x ∈ xs, Comes x.request [] x.early x.last) :
    Converses epollFd fd xs (observe (.new epollFd fd path) (xs.flatMap Exchange.calls)) :=
  converses_of_fresh (fresh_new epollFd fd path) hcome

/-- `POST / HTTP/1.1` with a body of three bytes, on a connection to be kept. -/
def keptThree : HttpRequest where
  verb := ascii "POST"
  method := .post
  known := by decide
  target := ascii "/"
  slash := by decide
  target_free := by decide
  target_short := by decide
  version := ascii "1.1"
  versionCode := .http11
  version_known := by decide
  fields := [
    ⟨ascii "Connection", ascii "keep-alive", by decide, by simp [ascii, COLON, CR, LF], by decide, by decide,
      by simp [ascii, CR, LF]⟩,
    { lengthField with
      value := ascii "3", value_ne := by decide, value_short := by decide,
      value_free := by simp [ascii, CR, LF] }]
  fields_ne := List.cons_ne_nil _ _
  fields_short := by decide
  body := ascii "abc"
  bodiless := nofun
  declared _ := ⟨ascii "3", by decide, by decide⟩

/-- Cut in the request line, and behind the first byte of the body. -/
def threePieces : Exchange where
  request := keptThree
  early := [reading (ascii "POS"), reading (keptThree.text.take (keptThree.head.length + 1) |>.drop 3)]
  last := reading (ascii "bc")

theorem threePieces_come : Comes threePieces.request [] threePieces.early threePieces.last :=
  .more (delivers_reading (by decide) (by decide)) (by decide) rfl
    (.more (delivers_reading (by decide) (by decide)) (by decide) rfl
      (.last (delivers_reading (by decide) (by decide)) (by decide)))

theorem threePieces_answered : threePieces.answer.kept = true ∧
    Converses 3 5 [threePieces] (observe (.new 3 5 PATH) ([threePieces].flatMap Exchange.calls)) :=
  ⟨by decide, requests_answered 3 5 PATH (by
    intro x hx
    obtain rfl := List.mem_singleton.1 hx
    exact threePieces_come)⟩

/-! ## In the whole program -/

/-- Calls that come later do not change what the earlier ones have done. -/
theorem observe_mono : ∀ {envs more : List CallEnv} (r : RequestData), envs <+: more →
    observe r envs <+: observe r more
  | [], _, _, _ => List.nil_prefix
  | env :: envs, more, r, h => by
    obtain ⟨rest, rfl⟩ := h
    simp only [observe, List.cons_append]
    refine List.cons_prefix_cons.2 ⟨rfl, ?_⟩
    cases (handleRequest env r.separateTimer).2 with
    | kept r' => exact observe_mono r' (List.prefix_append envs rest)
    | halted | deleted | rearmFailed => exact List.nil_prefix

/-- A descriptor that a connection has been accepted on carries the beginning of a conversation, and all of
it when its calls have returned. -/
theorem program_converses {epollFd : Int} {clock : Nat} {as : List ProgramStep} {y : Except Fault Program}
    (h : (program epollFd).Run (Allowed SweepSafe) (.ok (.start clock)) as y) {R : ReqId} {fd : Int}
    (hfd : acceptedAs R (programLog epollFd clock as) = [fd]) {xs : List Exchange}
    (hcalls : rearmed (callsOn R (programLog epollFd clock as)) <+: xs.flatMap Exchange.calls)
    (hcome : ∀ x ∈ xs, Comes x.request [] x.early x.last) :
    ∃ seen, Converses epollFd fd xs seen ∧
      (callsOn R (programLog epollFd clock as)).map Prod.snd <+: seen.map Observation.wrote ∧
      (rearmed (callsOn R (programLog epollFd clock as)) = xs.flatMap Exchange.calls →
        (callsOn R (programLog epollFd clock as)).map Prod.snd = seen.map Observation.wrote) := by
  rcases program_told h R with ⟨hnone, -⟩ | ⟨fd', hfd', htold⟩
  · rw [hnone] at hfd
    cases hfd
  · obtain rfl : fd' = fd := List.singleton_inj.1 (hfd'.symm.trans hfd)
    have hfresh : Fresh (RequestData.new epollFd fd' PATH).separateTimer := fresh_new epollFd fd' PATH
    refine ⟨_, converses_of_fresh hfresh hcome, ?_, fun hall => ?_⟩
    · rw [← htold]
      exact (observe_mono _ hcalls).map _
    · rw [← htold, hall]

end HPServer
