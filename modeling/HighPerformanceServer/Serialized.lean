import HighPerformanceServer.CallEnds
import HighPerformanceServer.Placement
/-!
# Every connection is served as if it were alone

Workers serve the connections side by side, `main` accepts, separates and sweeps between their
steps. Seen from one connection nothing of this shows: what is sent on its descriptor is what
`observe` says of the same calls on an object that nobody else touches.

| here | there |
| --- | --- |
| `Kept`             | what any other step may do to a connection: change its timer, or delete it |
| `Seen`, `Sys.seen` | what is seen of a step: an accepted descriptor, and a call with the bytes it sends |
| `Follows`, `Told`  | the calls on a connection so far, beside the same calls alone |
-/

namespace HPServer

open Function CppStd

/-! ## What a step does to a connection that it does not serve -/

inductive Kept : Cell RequestData → Cell RequestData → Prop
  | same (c : Cell RequestData) : Kept c c
  | retimed (r : RequestData) (timer : Option TimerId) : Kept (.live r) (.live { r with timer := timer })
  | deleted (r : RequestData) : Kept (.live r) .freed

theorem Kept.trans {c c' c'' : Cell RequestData} (h : Kept c c') (h' : Kept c' c'') : Kept c c'' := by
  cases h with
  | same => exact h'
  | retimed r timer =>
    cases h' with
    | same => exact .retimed r timer
    | retimed _ timer' => exact .retimed r timer'
    | deleted => exact .deleted r
  | deleted r =>
    cases h'
    exact .deleted r

namespace Server

def Keeps (s s' : Server) : Prop := ∀ R, Kept (s.request R) (s'.request R)

variable {s s' : Server} {R : ReqId} {T : TimerId} {r : RequestData}

theorem Keeps.trans {s₁ s₂ s₃ : Server} (h : s₁.Keeps s₂) (h' : s₂.Keeps s₃) : s₁.Keeps s₃ :=
  fun R => (h R).trans (h' R)

theorem keeps_of_eq (h : s'.request = s.request) : s.Keeps s' := fun R => by
  rw [h]
  exact .same _

theorem keeps_of_update {c : Cell RequestData} (hc : Kept (s.request R) c)
    (h : s'.request = update s.request R c) : s.Keeps s' := by
  intro R'
  rw [h]
  by_cases he : R' = R
  · subst he
    rwa [update_self]
  · rw [update_of_ne he]
    exact .same _

theorem request_of_getRequest (h : s.getRequest R = .ok r) : s.request R = .live r := by
  unfold getRequest at h
  split at h
  · rename_i hr
    cases h
    exact hr
  · cases h
  · cases h

theorem separateTimer_keeps (h : s.separateTimer R = .ok s') : s.Keeps s' := by
  obtain ⟨r, hr, h⟩ := bind_eq_ok.1 h
  obtain ⟨s₁, hc, h⟩ := bind_eq_ok.1 h
  cases h
  refine keeps_of_update (c := .live r.separateTimer) ?_ (by rw [← clearReq_request hc]; rfl)
  rw [request_of_getRequest hr]
  exact .retimed r none

/-- The object is gone, and the others are as they were. -/
theorem deleteRequest_freed (h : s.deleteRequest R = .ok s') : s'.request R = .freed ∧ s.Keeps s' := by
  unfold deleteRequest at h
  split at h
  · rename_i r hr
    obtain ⟨s₁, hc, h⟩ := bind_eq_ok.1 h
    cases h
    have hsame : s₁.request = s.request := clearReq_request (s := s.setArmed R false) hc
    refine ⟨update_self .., keeps_of_update (c := .freed) ?_ (congrArg (update · R .freed) hsame)⟩
    rw [hr]
    exact .deleted r
  · cases h
  · cases h

theorem popDelete_keeps (h : s.popDelete T = .ok s') : s.Keeps s' := by
  unfold popDelete deleteTimer at h
  split at h
  · rename_i t ht
    cases hR : t.requestData with
    | none =>
      rw [hR] at h
      cases h
      exact keeps_of_eq rfl
    | some R =>
      rw [hR] at h
      obtain ⟨s₁, hd, h⟩ := bind_eq_ok.1 (show deleteRequest _ R >>= _ = .ok s' from h)
      cases h
      exact (deleteRequest_freed hd).2
  · cases h
  · cases h

/-- What a sweep does is made of clock readings, of flags that it sets and of the timers that it
deletes. -/
theorem handleExpiredEvent_rel {P : Server → Server → Prop}
    (htrans : ∀ s₁ s₂ s₃, P s₁ s₂ → P s₂ s₃ → P s₁ s₃) (hrefl : ∀ s, P s s)
    (hclock : ∀ s now, s.clock ≤ now → P s { s with clock := now })
    (hflag : ∀ s T t, s.getTimer T = .ok t → P s (s.setTimer T t.setDeleted))
    (hpop : ∀ s T s', s.popDelete T = .ok s' → P s s') :
    ∀ (script : List (TimerId × Nat)) {s s' : Server},
      s.handleExpiredEvent script = some (.ok s') → P s s'
  | [], s, s', h => by
    rw [handleExpiredEvent] at h
    split at h
    · cases h
      exact hrefl s
    · cases h
  | (T, now) :: script, s, s', h => by
    rw [handleExpiredEvent] at h
    split at h
    case isFalse => cases h
    rename_i hok
    have hread := hclock s now hok.2
    have hrest : ∀ s₁ : Server, s₁.handleExpiredEvent script = some (.ok s') → P s₁ s' := fun _ =>
      handleExpiredEvent_rel htrans hrefl hclock hflag hpop script
    dsimp only at h
    cases ht : { s with clock := now }.getTimer T with
    | error f => rw [ht] at h; cases h
    | ok t =>
      rw [ht] at h
      dsimp only at h
      split at h
      · split at h
        · cases h
        · rename_i s₁ hd
          exact htrans _ _ _ hread (htrans _ _ _ (hpop _ _ _ hd) (hrest s₁ h))
      · unfold TimerStamp.isvalid at h
        split at h
        · rename_i hvalid
          split at h
          · cases h
            exact hread
          · cases h
        · rename_i t' hvalid
          split at hvalid <;> cases hvalid
          split at h
          · cases h
          · rename_i s₁ hd
            exact htrans _ _ _ (htrans _ _ _ hread (hflag _ _ _ ht))
              (htrans _ _ _ (hpop _ _ _ hd) (hrest s₁ h))

theorem handleExpiredEvent_keeps (script : List (TimerId × Nat))
    (h : s.handleExpiredEvent script = some (.ok s')) : s.Keeps s' :=
  handleExpiredEvent_rel (P := Keeps) (fun _ _ _ h h' => h.trans h') (fun _ => keeps_of_eq rfl)
    (fun _ _ _ => keeps_of_eq rfl) (fun _ _ _ _ => keeps_of_eq rfl) (fun _ _ _ h => popDelete_keeps h) script h

theorem rearmPush_keeps {now : Nat} (h : s.rearmPush R T now = .ok s') : s.Keeps s' := by
  obtain ⟨r, hr, h⟩ := bind_eq_ok.1 h
  cases h
  have hlive : s.request R = .live r := request_of_getRequest hr
  refine keeps_of_update (c := .live { r with timer := some T }) ?_ rfl
  rw [hlive]
  exact .retimed r (some T)

theorem acceptPush_keeps {now : Nat} (h : s.acceptPush R T now = .ok s') : s.Keeps s' := by
  obtain ⟨r, hr, h⟩ := bind_eq_ok.1 h
  cases h
  have hlive : s.request R = .live r := request_of_getRequest hr
  refine keeps_of_update (c := .live (r.addTimer T)) ?_ rfl
  rw [hlive]
  unfold RequestData.addTimer
  split
  · exact .retimed r (some T)
  · exact .same _

end Server

/-! ## The steps of the threads -/

/-- Neither a new connection nor a call. -/
def Label.isQuiet : Label → Bool
  | .accept _ _ _ | .serve _ _ => false
  | _ => true

namespace Sys

variable {x y : Sys} {a : Label} {epollFd : Int} {w : Nat} {R : ReqId}

theorem goMain_ok {pc : MainPc} {s : Except Fault Server} (h : x.goMain pc s = some (.ok y)) :
    ∃ s', s = .ok s' ∧ y = { x with server := s', main := pc } := by
  cases s with
  | error f => cases h
  | ok s => cases h; exact ⟨s, rfl, rfl⟩

theorem goWorker_ok {pc : WorkerPc} {s : Except Fault Server} (h : x.goWorker w pc s = some (.ok y)) :
    ∃ s', s = .ok s' ∧ y = { x with server := s', worker := update x.worker w pc } := by
  cases s with
  | error f => cases h
  | ok s => cases h; exact ⟨s, rfl, rfl⟩

theorem mainStep_keeps {pc : MainPc} (hquiet : a.isQuiet = true)
    (hs : x.mainStep epollFd pc a = some (.ok y)) : x.server.Keeps y.server ∧ y.worker = x.worker := by
  unfold mainStep at hs
  split at hs
  · split at hs
    · obtain ⟨s', hok, rfl⟩ := goMain_ok hs
      cases hok
      exact ⟨Server.keeps_of_eq rfl, rfl⟩
    · cases hs
  · obtain ⟨s', hok, rfl⟩ := goMain_ok hs
    cases hok
    exact ⟨Server.keeps_of_eq rfl, rfl⟩
  · cases hquiet
  · split at hs
    · obtain ⟨s', hok, rfl⟩ := goMain_ok hs
      exact ⟨Server.acceptPush_keeps hok, rfl⟩
    · cases hs
  · obtain ⟨s', hok, rfl⟩ := goMain_ok hs
    obtain ⟨r, -, hok⟩ := bind_eq_ok.1 hok
    exact ⟨(Server.deleteRequest_freed hok).2, rfl⟩
  · obtain ⟨s', hok, rfl⟩ := goMain_ok hs
    obtain ⟨r, -, hok⟩ := bind_eq_ok.1 hok
    exact ⟨Server.separateTimer_keeps hok, rfl⟩
  · split at hs
    · obtain ⟨s', hok, rfl⟩ := goMain_ok hs
      cases hok
      exact ⟨Server.keeps_of_eq rfl, rfl⟩
    · cases hs
  · obtain ⟨z, hz, hs⟩ := Option.bind_eq_some_iff.1 hs
    obtain ⟨s', rfl, rfl⟩ := goMain_ok hs
    exact ⟨Server.handleExpiredEvent_keeps _ hz, rfl⟩
  · cases hs

/-- What `worker w` gives up by deleting it is gone. -/
theorem workerStep_keeps (hquiet : a.isQuiet = true) (hs : x.workerStep a = some (.ok y)) :
    x.server.Keeps y.server ∧ ∀ w R, x.worker w = .deleting R →
      y.worker w = .deleting R ∨ y.server.request R = .freed := by
  have hother : ∀ {v : Nat} {pc : WorkerPc}, y.worker = update x.worker v pc →
      (∀ R, x.worker v ≠ .deleting R) → ∀ w R, x.worker w = .deleting R →
        y.worker w = .deleting R ∨ y.server.request R = .freed := by
    intro v pc hy hv w R hw
    have hne : w ≠ v := by
      rintro rfl
      exact hv R hw
    rw [hy, update_of_ne hne]
    exact Or.inl hw
  unfold workerStep at hs
  split at hs
  · split at hs
    · rename_i hw _
      obtain ⟨s', hok, rfl⟩ := goWorker_ok hs
      cases hok
      exact ⟨Server.keeps_of_eq rfl, hother rfl (by rw [hw]; simp)⟩
    · cases hs
  · cases hquiet
  · split at hs
    · rename_i v _ R hv
      obtain ⟨s', hok, rfl⟩ := goWorker_ok hs
      obtain ⟨hgone, hkeeps⟩ := Server.deleteRequest_freed hok
      refine ⟨hkeeps, fun w R' hw => ?_⟩
      by_cases he : w = v
      · subst he
        obtain rfl : R = R' := WorkerPc.deleting.inj (hv.symm.trans hw)
        exact Or.inr hgone
      · exact Or.inl ((update_of_ne he ..).trans hw)
    · rename_i hv
      obtain ⟨s', hok, rfl⟩ := goWorker_ok hs
      exact ⟨(Server.deleteRequest_freed hok).2, hother rfl (by rw [hv]; simp)⟩
    · cases hs
  · split at hs
    · rename_i hv
      split at hs
      · obtain ⟨s', hok, rfl⟩ := goWorker_ok hs
        exact ⟨Server.rearmPush_keeps hok, hother rfl (by rw [hv]; simp)⟩
      · cases hs
    · cases hs
  · split at hs
    · rename_i hv
      obtain ⟨s', hok, rfl⟩ := goWorker_ok hs
      obtain ⟨r, -, hok⟩ := bind_eq_ok.1 hok
      refine ⟨Server.keeps_of_eq ?_, hother rfl (by rw [hv]; simp)⟩
      split at hok <;> cases hok <;> rfl
    · cases hs
  · cases hs

theorem step_keeps (hquiet : a.isQuiet = true) (hs : x.step epollFd a = some (.ok y)) :
    x.server.Keeps y.server ∧ ∀ w R, x.worker w = .deleting R →
      y.worker w = .deleting R ∨ y.server.request R = .freed := by
  unfold step at hs
  split at hs
  case h_6 =>
    obtain ⟨hkeeps, hy⟩ := mainStep_keeps hquiet hs
    exact ⟨hkeeps, fun w R hw => Or.inl (by rw [hy]; exact hw)⟩
  all_goals exact workerStep_keeps hquiet hs

/-- A new connection. -/
theorem accept_ok {fd : Int} {added : Bool} (hs : x.step epollFd (.accept R fd added) = some (.ok y)) :
    x.server.request R = .unborn ∧ 0 < fd ∧ y.server = x.server.acceptAdd epollFd fd R added ∧
      y.worker = x.worker := by
  obtain ⟨s, m, wk⟩ := x
  replace hs : mainStep epollFd ⟨s, m, wk⟩ m (.accept R fd added) = some (.ok y) := hs
  cases m with
  | wait | stamping | adding => cases hs
  | handling es =>
    rcases es with _ | ⟨_ | ⟨_, _ | _⟩, es⟩
    · cases hs
    · obtain ⟨⟨hnew, hpos⟩, hs⟩ := Option.ite_none_right_eq_some.1 hs
      obtain ⟨s', hok, rfl⟩ := goMain_ok hs
      cases hok
      exact ⟨Cell.isUnborn_iff.1 hnew, hpos, rfl, rfl⟩
    · cases hs
    · cases hs

/-- A call, up to what it decides. -/
theorem serve_ok {env : CallEnv} (hs : x.step epollFd (.serve w env) = some (.ok y)) :
    ∃ R r, x.worker w = .serving R ∧ x.server.request R = .live r ∧
      (((HPServer.serve env r).decision = .delete ∧
          y = { x with worker := update x.worker w (.deleting R) }) ∨
        ∃ r', (HPServer.serve env r).decision = .rearm r' ∧
          y = { x with server := x.server.setRequest R r', worker := update x.worker w (.pushing R) }) := by
  replace hs : x.workerStep (.serve w env) = some (.ok y) := hs
  simp only [workerStep] at hs
  cases hw : x.worker w with
  | idle | deleting | pushing | rearming | failing => rw [hw] at hs; cases hs
  | serving R =>
    rw [hw] at hs
    dsimp only [serveStep] at hs
    cases hr : x.server.getRequest R with
    | error f => rw [hr] at hs; cases hs
    | ok r =>
      rw [hr] at hs
      dsimp only at hs
      refine ⟨R, r, rfl, Server.request_of_getRequest hr, ?_⟩
      cases hd : (HPServer.serve env r).decision with
      | halted e => rw [hd] at hs; cases hs
      | delete => rw [hd] at hs; cases hs; exact Or.inl ⟨rfl, rfl⟩
      | rearm r' => rw [hd] at hs; cases hs; exact Or.inr ⟨r', rfl, rfl⟩

end Sys

/-! ## What is seen of a run -/

inductive Seen where
  | accepted (R : ReqId) (fd : Int)
  | called (R : ReqId) (env : CallEnv) (fd : Int) (sent : Bytes)

/-- The connections are accepted by `main`, and a call is seen by what it writes to its descriptor. -/
def Sys.seen (x : Sys) : Label → List Seen
  | .accept R fd _ => [.accepted R fd]
  | .serve w env =>
    match x.worker w with
    | .serving R =>
      match x.server.request R with
      | .live r => [.called R env r.fd (serve env r).sent]
      | .unborn | .freed => []
    | _ => []
  | _ => []

/-- Nothing is seen of a run behind a fault. -/
def seen : Except Fault Sys → Label → List Seen
  | .ok x, a => x.seen a
  | .error _, _ => []

/-- The descriptors that the connection `R` has been accepted with. -/
def acceptedAs (R : ReqId) (log : List Seen) : List Int :=
  log.filterMap fun
    | .accepted R' fd => if R' = R then some fd else none
    | .called _ _ _ _ => none

/-- The calls on `R`: what the system answered, and what was written where. -/
def callsOn (R : ReqId) (log : List Seen) : List (CallEnv × Int × Bytes) :=
  log.filterMap fun
    | .accepted _ _ => none
    | .called R' env fd sent => if R' = R then some (env, fd, sent) else none

section Log

variable {R R' : ReqId} {log more : List Seen} {fd : Int} {env : CallEnv} {sent : Bytes} {a : Label} {x : Sys}

@[simp] theorem acceptedAs_append : acceptedAs R (log ++ more) = acceptedAs R log ++ acceptedAs R more :=
  List.filterMap_append

@[simp] theorem callsOn_append : callsOn R (log ++ more) = callsOn R log ++ callsOn R more :=
  List.filterMap_append

@[simp] theorem acceptedAs_accepted : acceptedAs R [.accepted R' fd] = if R' = R then [fd] else [] := by
  unfold acceptedAs
  split <;> simp_all

@[simp] theorem acceptedAs_called : acceptedAs R [.called R' env fd sent] = [] := rfl

@[simp] theorem callsOn_accepted : callsOn R [.accepted R' fd] = [] := rfl

@[simp] theorem callsOn_called :
    callsOn R [.called R' env fd sent] = if R' = R then [(env, fd, sent)] else [] := by
  unfold callsOn
  split <;> simp_all

theorem Sys.seen_quiet (hquiet : a.isQuiet = true) : x.seen a = [] := by
  cases a <;> first | rfl | cases hquiet

end Log

/-! ## The calls of a run and the same calls alone -/

def Observation.wrote (o : Observation) : Int × Bytes := (o.fd, o.sent)

/-- The calls, each of which re-arms unless it deletes: whether a failing `epoll_mod` ends the last of
them does not show in what it writes. -/
def rearmed (calls : List (CallEnv × Int × Bytes)) : List CallEnv :=
  calls.map fun c => { c.1 with epollMod := true }

section Alone

variable {epollFd fd : Int} {calls : List (CallEnv × Int × Bytes)} {r r' : RequestData} {env : CallEnv}

/-- The calls so far have written what they write on an object of their own. -/
def Told (epollFd fd : Int) (calls : List (CallEnv × Int × Bytes)) : Prop :=
  (observe (.new epollFd fd PATH) (rearmed calls)).map Observation.wrote = calls.map Prod.snd

/-- Besides, `r` is as good as that object. -/
def Follows (epollFd fd : Int) (calls : List (CallEnv × Int × Bytes)) (r : RequestData) : Prop :=
  ∀ envs, (observe (.new epollFd fd PATH) (rearmed calls ++ envs)).map Observation.wrote =
    calls.map Prod.snd ++ (observe r envs).map Observation.wrote

theorem agree_retimed (r : RequestData) (timer : Option TimerId) : Agree r { r with timer := timer } :=
  ⟨r.path, r.method, r.httpVersion, timer, rfl, fun _ => rfl⟩

/-- One call, whatever the timer of the object. -/
theorem observe_serve (env : CallEnv) (r : RequestData) (envs : List CallEnv) :
    (observe r ({ env with epollMod := true } :: envs)).map Observation.wrote =
      (r.fd, (serve env r).sent) :: match (serve env r).decision with
        | .rearm r' => (observe r' envs).map Observation.wrote
        | .delete | .halted _ => [] := by
  obtain ⟨hsent, hdecision⟩ := serve_agree (agree_retimed r none) fun _ : env.Prints r => rfl
  have hsame : serve { env with epollMod := true } r.separateTimer =
      serve (env.finding env.filetype) { r with timer := none } := rfl
  simp only [observe, handleRequest, hsame, List.map_cons, Observation.wrote, ← hsent]
  rcases hdecision with ⟨h, hr, hs⟩ | ⟨hr, hs⟩ | ⟨r₁, s₁, hr, hs, hagree⟩ <;> rw [hr, hs]
  · rfl
  · rfl
  · refine congrArg _ ?_
    show (observe { s₁ with timer := some env.mtimer } envs).map _ = (observe r₁ envs).map _
    rw [observe_agree envs hagree, observe_agree envs (agree_retimed s₁ (some env.mtimer))]

theorem Follows.told (h : Follows epollFd fd calls r) : Told epollFd fd calls := by
  have hnone := h []
  rw [List.append_nil] at hnone
  simpa [Told, observe] using hnone

theorem Follows.nil : Follows epollFd fd [] (.new epollFd fd PATH) := fun _ => rfl

theorem Follows.retimed (h : Follows epollFd fd calls r) (timer : Option TimerId) :
    Follows epollFd fd calls { r with timer := timer } := fun envs => by
  rw [h envs, observe_agree envs (agree_retimed r timer)]

theorem Follows.call (h : Follows epollFd fd calls r) (env : CallEnv) :
    Told epollFd fd (calls ++ [(env, r.fd, (serve env r).sent)]) ∧
    ∀ r', (serve env r).decision = .rearm r' →
      Follows epollFd fd (calls ++ [(env, r.fd, (serve env r).sent)]) r' := by
  have hnext : ∀ envs, (observe (.new epollFd fd PATH)
      (rearmed (calls ++ [(env, r.fd, (serve env r).sent)]) ++ envs)).map Observation.wrote =
      (calls ++ [(env, r.fd, (serve env r).sent)]).map Prod.snd ++
        match (serve env r).decision with
        | .rearm r' => (observe r' envs).map Observation.wrote
        | .delete | .halted _ => [] := by
    intro envs
    have hcall := h ({ env with epollMod := true } :: envs)
    rw [observe_serve] at hcall
    simpa [rearmed] using hcall
  constructor
  · have hlast := hnext []
    unfold Told
    cases hd : (serve env r).decision with
    | rearm r' => simpa [hd, observe] using hlast
    | delete | halted => simpa [hd] using hlast
  · intro r' hd envs
    have hrest := hnext envs
    rw [hd] at hrest
    exact hrest

/-- How the calls on a connection stand to the same calls alone, by what has become of it; it is
`doomed` when a worker is about to delete it. -/
inductive Alone (epollFd : Int) (doomed : Prop) (calls : List (CallEnv × Int × Bytes)) :
    Cell RequestData → List Int → Prop
  | unborn (h : calls = []) : Alone epollFd doomed calls .unborn []
  | live {fd : Int} {r : RequestData} (htold : Told epollFd fd calls)
      (hfollows : ¬doomed → Follows epollFd fd calls r) : Alone epollFd doomed calls (.live r) [fd]
  | freed {fd : Int} (htold : Told epollFd fd calls) : Alone epollFd doomed calls .freed [fd]

theorem Alone.of_unborn {doomed : Prop} {fds : List Int} (h : Alone epollFd doomed calls .unborn fds) :
    calls = [] ∧ fds = [] := by
  cases h with
  | unborn h => exact ⟨h, rfl⟩

theorem Alone.of_live {doomed : Prop} {fds : List Int} (h : Alone epollFd doomed calls (.live r) fds)
    (hsafe : ¬doomed) : ∃ fd, fds = [fd] ∧ Follows epollFd fd calls r := by
  cases h with
  | live htold hfollows => exact ⟨_, rfl, hfollows hsafe⟩

theorem Alone.told {doomed : Prop} {c : Cell RequestData} {fds : List Int}
    (h : Alone epollFd doomed calls c fds) :
    (fds = [] ∧ calls = []) ∨ ∃ fd, fds = [fd] ∧ Told epollFd fd calls := by
  cases h with
  | unborn h => exact Or.inl ⟨rfl, h⟩
  | live htold | freed htold => exact Or.inr ⟨_, rfl, htold⟩

theorem Alone.kept {doomed doomed' : Prop} {c c' : Cell RequestData} {fds : List Int}
    (h : Alone epollFd doomed calls c fds) (hkept : Kept c c') (hdoomed : doomed → doomed' ∨ c' = .freed) :
    Alone epollFd doomed' calls c' fds := by
  cases h with
  | unborn h =>
    cases hkept
    exact .unborn h
  | freed htold =>
    cases hkept
    exact .freed htold
  | live htold hfollows =>
    cases hkept with
    | deleted => exact .freed htold
    | same => exact .live htold fun hd => hfollows fun hdoom => (hdoomed hdoom).elim hd (by simp)
    | retimed _ timer =>
      exact .live htold fun hd => (hfollows fun hdoom => (hdoomed hdoom).elim hd (by simp)).retimed timer

end Alone

/-- How the calls on `R` stand, in the state `x` of the threads. -/
def Sys.Serves (epollFd : Int) (x : Sys) (log : List Seen) (R : ReqId) : Prop :=
  Alone epollFd (∃ w, x.worker w = .deleting R) (callsOn R log) (x.server.request R) (acceptedAs R log)

namespace Inv

variable {own : ReqId → Owner} {x y : Sys} {epollFd : Int} {log : List Seen} {a : Label}

theorem serves_quiet (hquiet : a.isQuiet = true) (hs : x.step epollFd a = some (.ok y)) {R : ReqId}
    (hserves : x.Serves epollFd log R) : y.Serves epollFd (log ++ x.seen a) R := by
  obtain ⟨hkeeps, hdeleting⟩ := Sys.step_keeps hquiet hs
  rw [Sys.seen_quiet hquiet, List.append_nil]
  refine hserves.kept (hkeeps R) ?_
  rintro ⟨w, hw⟩
  exact (hdeleting w R hw).imp_left fun hw => ⟨w, hw⟩

theorem serves_accept {R₀ : ReqId} {fd : Int} {added : Bool}
    (hs : x.step epollFd (.accept R₀ fd added) = some (.ok y)) {R : ReqId}
    (hserves : x.Serves epollFd log R) : y.Serves epollFd (log ++ x.seen (.accept R₀ fd added)) R := by
  obtain ⟨hcell, -, hserver, hworker⟩ := Sys.accept_ok hs
  unfold Sys.Serves at hserves ⊢
  rw [hserver, hworker]
  by_cases he : R₀ = R
  · subst he
    rw [hcell] at hserves
    obtain ⟨hcalls, hfds⟩ := hserves.of_unborn
    have hnow : (x.server.acceptAdd epollFd fd R₀ added).request R₀ = .live (.new epollFd fd PATH) :=
      update_self ..
    rw [hnow]
    simp only [Sys.seen, callsOn_append, callsOn_accepted, acceptedAs_append, acceptedAs_accepted, if_true,
      hcalls, hfds, List.append_nil, List.nil_append]
    exact .live Follows.nil.told fun _ => .nil
  · have hnow : (x.server.acceptAdd epollFd fd R₀ added).request R = x.server.request R :=
      update_of_ne (Ne.symm he) ..
    rw [hnow]
    simpa [Sys.seen, he] using hserves

/-- A worker calls `handleRequest` on what nobody else deals with. -/
theorem serves_serve (h : Inv own x) {w : Nat} {env : CallEnv}
    (hs : x.step epollFd (.serve w env) = some (.ok y)) {R : ReqId}
    (hserves : x.Serves epollFd log R) : y.Serves epollFd (log ++ x.seen (.serve w env)) R := by
  obtain ⟨R₀, r, hw, hr, hy⟩ := Sys.serve_ok hs
  have hseen : x.seen (.serve w env) = [.called R₀ env r.fd (HPServer.serve env r).sent] := by
    simp only [Sys.seen, hw, hr]
  have hsafe : ¬∃ v, x.worker v = .deleting R₀ := by
    rintro ⟨v, hv⟩
    have hsame := (h.serving (Or.inl hw)).symm.trans (h.serving (Or.inr (Or.inl hv)))
    cases hsame
    cases hw.symm.trans hv
  unfold Sys.Serves at hserves ⊢
  rw [hseen, callsOn_append, acceptedAs_append, callsOn_called, acceptedAs_called, List.append_nil]
  by_cases he : R₀ = R
  · subst he
    rw [hr] at hserves
    obtain ⟨fd, hfds, hfollows⟩ := hserves.of_live hsafe
    obtain ⟨htold, hnext⟩ := hfollows.call env
    rw [if_pos rfl, hfds]
    rcases hy with ⟨-, rfl⟩ | ⟨r', hd, rfl⟩
    · rw [show Server.request _ R₀ = _ from hr]
      exact .live htold fun hno => absurd ⟨w, update_self ..⟩ hno
    · rw [show (x.server.setRequest R₀ r').request R₀ = .live r' from update_self ..]
      exact .live htold fun _ => hnext r' hd
  · -- the call does not concern `R`
    have hdeleting : ∀ pc : WorkerPc, (∃ v, x.worker v = .deleting R) →
        ∃ v, update x.worker w pc v = .deleting R := by
      rintro pc ⟨v, hv⟩
      refine ⟨v, (update_of_ne ?_ ..).trans hv⟩
      rintro rfl
      cases hw.symm.trans hv
    rw [if_neg he, List.append_nil]
    rcases hy with ⟨-, rfl⟩ | ⟨r', -, rfl⟩
    · exact hserves.kept (.same _) fun hv => Or.inl (hdeleting _ hv)
    · rw [show (x.server.setRequest R₀ r').request R = x.server.request R from update_of_ne (Ne.symm he) ..]
      exact hserves.kept (.same _) fun hv => Or.inl (hdeleting _ hv)

theorem serves_step (h : Inv own x) (hs : x.step epollFd a = some (.ok y)) {R : ReqId}
    (hserves : x.Serves epollFd log R) : y.Serves epollFd (log ++ x.seen a) R := by
  cases hquiet : a.isQuiet with
  | true => exact serves_quiet hquiet hs hserves
  | false =>
    cases a with
    | accept R₀ fd added => exact serves_accept hs hserves
    | serve w env => exact h.serves_serve hs hserves
    | epollWait | acceptFails | push | errorEvent | separate | poolAdd | sweep | take | delete | rearmPush
      | epollMod => cases hquiet

end Inv

/-- What is seen of a run of the program. -/
def programLog (epollFd : Int) (clock : Nat) (as : List ProgramStep) : List Seen :=
  (threads epollFd).transcript seen (.ok (.start clock)) (as.filterMap ProgramStep.visible)

theorem program_told {epollFd : Int} {clock : Nat} {as : List ProgramStep} {y : Except Fault Program}
    (h : (program epollFd).Run (Allowed SweepSafe) (.ok (.start clock)) as y) (R : ReqId) :
    (acceptedAs R (programLog epollFd clock as) = [] ∧ callsOn R (programLog epollFd clock as) = []) ∨
    ∃ fd, acceptedAs R (programLog epollFd clock as) = [fd] ∧
      Told epollFd fd (callsOn R (programLog epollFd clock as)) := by
  obtain ⟨x, hrun, -⟩ := (program_simulation epollFd SweepSafe).run_filterMap (refines_start clock) h
  have hinit : (threads epollFd).Reach SweepSafe (.ok (.start clock)) := .init ⟨clock, rfl⟩
  have hserves : ∀ x', x = .ok x' → x'.Serves epollFd
      (programLog epollFd clock as) R := by
    refine hrun.transcript (P := fun x log => ∀ x', x = .ok x' → x'.Serves epollFd log R) hinit ?_ ?_
    · rintro _ ⟨rfl⟩
      exact .unborn rfl
    · rintro z a _ log hreach - hs ih x' rfl
      obtain ⟨x, own, rfl, hinv⟩ := sound_sweepSafe hreach
      exact hinv.serves_step hs (ih x rfl)
  obtain ⟨x, own, rfl, -⟩ := sound_sweepSafe (hrun.reach hinit)
  exact (hserves x rfl).told

/-- **Each connection is served as if it were alone**: in a run of the whole program in which the wait
of `main` for a slot ends only behind a notify and no sweep finds a connection due that a worker is
re-arming, whatever the workers do on other connections in between, the calls on a connection that
return write to its descriptor what the same calls, with the same answers of the system, write on an
object that is just constructed and that nobody else touches. -/
theorem program_servesAlone {epollFd : Int} {clock : Nat} {as : List ProgramStep} {y : Except Fault Program}
    (h : (program epollFd).Run (Allowed SweepSafe) (.ok (.start clock)) as y) (R : ReqId) :
    let log := programLog epollFd clock as
    (acceptedAs R log = [] ∧ callsOn R log = []) ∨
    ∃ fd, acceptedAs R log = [fd] ∧
      (observe (.new epollFd fd PATH) (rearmed (callsOn R log))).map Observation.wrote =
        (callsOn R log).map Prod.snd :=
  program_told h R

/-- Two clients at once: worker 2 serves the one and worker 3 the other, a step of each in turn. -/
def twoProgram : List ProgramStep :=
  [.sys (.epollWait [.listen, .listen]), .sys (.accept 0 5 true), .sys (.push 0 0), .sys (.accept 1 6 true),
    .sys (.push 1 0), .sys (.sweep [(1, 0)]),
    .sys (.epollWait [.request 0 false, .request 1 false]), .sys .separate, .pool (.call 0 (some 0)),
    .pool (.add 0), .pool (.add 0), .pool (.add 0), .pool (.store 0 none), .sys .separate,
    .pool (.call 0 (some 1)), .pool (.doThread 2), .pool (.doThread 2), .pool (.doThread 2),
    .pool (.dequeue 2 none), .pool (.add 0), .pool (.add 0), .pool (.add 0), .pool (.store 0 none),
    .pool (.doThread 3), .pool (.doThread 3), .pool (.doThread 3), .pool (.dequeue 3 none),
    .sys (.serve 3 getIndex), .sys (.serve 2 (reading keptPost)), .sys (.delete 3), .sys (.rearmPush 2 2 1),
    .sys (.epollMod 2 true)]

set_option maxRecDepth 4000 in
theorem twoProgram_run : ∃ P, (program 3).Run (Allowed SweepSafe) (.ok (.start 0)) twoProgram (.ok P) := by
  have hplain : ∀ a ∈ twoProgram.take 5 ++ twoProgram.drop 6, ∀ y, Allowed SweepSafe y a := fun a ha =>
    allowed_of_plain ((by decide : ∀ a ∈ twoProgram.take 5 ++ twoProgram.drop 6, a.isPlain = true) a ha)
  have haccepted : (program 3).Run (Allowed SweepSafe) (.ok (.start 0)) (twoProgram.take 5) _ :=
    Lts.run_of_replay (fun a ha => hplain a (List.mem_append_left _ ha)) rfl
  have hswept := haccepted.snoc (a := .sys (.sweep [(1, 0)])) ⟨(by rintro p e; cases e), by
    rintro _ ⟨rfl⟩ w R (e | e) <;> cases e⟩ rfl
  exact ⟨_, hswept.replay (fun a ha => hplain a (List.mem_append_right _ ha)) rfl⟩

/-- What a client gets that asks for `index.html`. -/
def getIndexReply : Bytes := ascii
  "HTTP/1.1 200 OK\r\nContent-type: text/html\r\nContent-length: 2\r\n\r\nhi"

set_option maxRecDepth 4000 in
theorem twoProgram_servesAlone :
    (observe (.new 3 5 PATH) [reading keptPost]).map Observation.wrote = [(5, keptPostReply)] ∧
    (observe (.new 3 6 PATH) [getIndex]).map Observation.wrote = [(6, getIndexReply)] := by
  obtain ⟨P, hserved⟩ := twoProgram_run
  constructor
  · rcases program_servesAlone hserved 0 with ⟨haccepted, -⟩ | ⟨fd, haccepted, halone⟩
    · cases haccepted
    · cases haccepted
      exact halone
  · rcases program_servesAlone hserved 1 with ⟨haccepted, -⟩ | ⟨fd, haccepted, halone⟩
    · cases haccepted
    · cases haccepted
      exact halone

end HPServer
