import HighPerformanceServer.Serialized
/-!
# Descriptors

A connection has the descriptor that `accept` has returned for it until its destructor closes it
(requestData.cpp:74-85), and writes its answers there. As long as `accept` returns no descriptor that
is open, no two connections have the same one: an answer never goes to another client, and
`close` never hits another connection.
-/

namespace HPServer

open Function

/-- `accept` returns a descriptor that no connection has. -/
def FreshDescriptor : Except Fault Sys → Label → Prop
  | .ok x, .accept _ fd _ => ∀ R r, x.server.request R = .live r → r.fd ≠ fd
  | _, _ => True

/-- What has become of a connection, beside the descriptors that it has been accepted with. -/
inductive Descriptor (epollFd : Int) : Cell RequestData → List Int → Prop
  | unborn : Descriptor epollFd .unborn []
  | live {r : RequestData} (hepollfd : r.epollfd = epollFd) (hpos : 0 < r.fd) :
      Descriptor epollFd (.live r) [r.fd]
  | freed (fd : Int) : Descriptor epollFd .freed [fd]

theorem Descriptor.kept {epollFd : Int} {c c' : Cell RequestData} {fds : List Int}
    (h : Descriptor epollFd c fds) (hkept : Kept c c') : Descriptor epollFd c' fds := by
  cases hkept with
  | same => exact h
  | retimed r timer =>
    cases h with
    | live hepollfd hpos => exact .live (r := { r with timer := timer }) hepollfd hpos
  | deleted r =>
    cases h
    exact .freed _

theorem Descriptor.of_live {epollFd : Int} {r : RequestData} {fds : List Int}
    (h : Descriptor epollFd (.live r) fds) : fds = [r.fd] ∧ r.epollfd = epollFd ∧ 0 < r.fd := by
  cases h with
  | live hepollfd hpos => exact ⟨rfl, hepollfd, hpos⟩

namespace Sys

variable {x y : Sys} {a : Label} {epollFd : Int} {log : List Seen}

/-- Two connections do not have the same descriptor. -/
def Apart (x : Sys) : Prop :=
  ∀ R R' r r', x.server.request R = .live r → x.server.request R' = .live r' → r.fd = r'.fd → R = R'

structure Descriptors (epollFd : Int) (x : Sys) (log : List Seen) : Prop where
  holds : ∀ R, Descriptor epollFd (x.server.request R) (acceptedAs R log)
  apart : x.Apart

theorem Descriptors.quiet (h : x.Descriptors epollFd log) (hquiet : a.isQuiet = true)
    (hs : x.step epollFd a = some (.ok y)) : y.Descriptors epollFd (log ++ x.seen a) := by
  obtain ⟨hkeeps, -⟩ := step_keeps hquiet hs
  have hbefore : ∀ R r, y.server.request R = .live r →
      ∃ r₀, x.server.request R = .live r₀ ∧ r₀.fd = r.fd := by
    intro R r hr
    have hkept := hkeeps R
    rw [hr] at hkept
    generalize x.server.request R = c at hkept
    cases hkept with
    | same => exact ⟨r, rfl, rfl⟩
    | retimed r₀ => exact ⟨r₀, rfl, rfl⟩
  rw [seen_quiet hquiet, List.append_nil]
  refine ⟨fun R => (h.holds R).kept (hkeeps R), fun R R' r r' hr hr' hfd => ?_⟩
  obtain ⟨r₀, hr₀, hfd₀⟩ := hbefore R r hr
  obtain ⟨r₀', hr₀', hfd₀'⟩ := hbefore R' r' hr'
  exact h.apart R R' r₀ r₀' hr₀ hr₀' (hfd₀.trans (hfd.trans hfd₀'.symm))

theorem Descriptors.accept (h : x.Descriptors epollFd log) {R₀ : ReqId} {fd : Int} {added : Bool}
    (hfresh : FreshDescriptor (.ok x) (.accept R₀ fd added))
    (hs : x.step epollFd (.accept R₀ fd added) = some (.ok y)) :
    y.Descriptors epollFd (log ++ x.seen (.accept R₀ fd added)) := by
  obtain ⟨hcell, hpos, hserver, -⟩ := accept_ok hs
  have hnew : y.server.request R₀ = .live (.new epollFd fd PATH) := by
    rw [hserver]
    exact update_self ..
  have hold : ∀ R, R ≠ R₀ → y.server.request R = x.server.request R := fun R he => by
    rw [hserver]
    exact update_of_ne he ..
  constructor
  · intro R
    have hR := h.holds R
    rw [acceptedAs_append, show x.seen (.accept R₀ fd added) = [.accepted R₀ fd] from rfl,
      acceptedAs_accepted]
    by_cases he : R = R₀
    · subst he
      rw [hcell] at hR
      generalize acceptedAs R log = fds at hR
      cases hR
      rw [hnew, if_pos rfl]
      exact .live rfl hpos
    · rw [hold R he, if_neg (Ne.symm he), List.append_nil]
      exact hR
  · intro R R' r r' hr hr' hfd
    by_cases he : R = R₀ <;> by_cases he' : R' = R₀
    · exact he.trans he'.symm
    · subst he
      cases hnew.symm.trans hr
      exact absurd hfd.symm (hfresh R' r' ((hold R' he').symm.trans hr'))
    · subst he'
      cases hnew.symm.trans hr'
      exact absurd hfd (hfresh R r ((hold R he).symm.trans hr))
    · exact h.apart R R' r r' ((hold R he).symm.trans hr) ((hold R' he').symm.trans hr') hfd

/-- A call does not change where it writes. -/
theorem Descriptors.serve (h : x.Descriptors epollFd log) {w : Nat} {env : CallEnv}
    (hs : x.step epollFd (.serve w env) = some (.ok y)) :
    y.Descriptors epollFd (log ++ x.seen (.serve w env)) := by
  obtain ⟨R₀, r₀, hw, hr₀, hy⟩ := serve_ok hs
  have hseen : ∀ R, acceptedAs R (x.seen (.serve w env)) = [] := fun R => by
    simp only [seen, hw, hr₀, acceptedAs_called]
  rcases hy with ⟨-, rfl⟩ | ⟨r₁, hd, rfl⟩
  · exact ⟨fun R => by rw [acceptedAs_append, hseen, List.append_nil]; exact h.holds R, h.apart⟩
  · obtain ⟨hfd₁, hepollfd₁, -⟩ := serve_same hd
    have hback : ∀ R r, (x.server.setRequest R₀ r₁).request R = .live r →
        ∃ r', x.server.request R = .live r' ∧ r'.fd = r.fd := by
      intro R r hr
      by_cases he : R = R₀
      · subst he
        rw [show Server.request _ R = .live r₁ from update_self ..] at hr
        cases hr
        exact ⟨r₀, hr₀, hfd₁.symm⟩
      · rw [show Server.request _ R = x.server.request R from update_of_ne he ..] at hr
        exact ⟨r, hr, rfl⟩
    constructor
    · intro R
      have hR := h.holds R
      rw [acceptedAs_append, hseen, List.append_nil]
      by_cases he : R = R₀
      · subst he
        rw [hr₀] at hR
        obtain ⟨haccepted, hepollfd, hpos⟩ := hR.of_live
        rw [show Server.request _ R = .live r₁ from update_self .., haccepted, ← hfd₁]
        exact .live (hepollfd₁.trans hepollfd) (hfd₁ ▸ hpos)
      · rwa [show Server.request _ R = x.server.request R from update_of_ne he ..]
    · intro R R' r r' hr hr' hfd
      obtain ⟨q, hq, hqfd⟩ := hback R r hr
      obtain ⟨q', hq', hqfd'⟩ := hback R' r' hr'
      exact h.apart R R' q q' hq hq' (hqfd.trans (hfd.trans hqfd'.symm))

theorem Descriptors.step (h : x.Descriptors epollFd log) (hfresh : FreshDescriptor (.ok x) a)
    (hs : x.step epollFd a = some (.ok y)) : y.Descriptors epollFd (log ++ x.seen a) := by
  cases hquiet : a.isQuiet with
  | true => exact h.quiet hquiet hs
  | false =>
    cases a with
    | accept R₀ fd added => exact h.accept hfresh hs
    | serve w env => exact h.serve hs
    | epollWait | acceptFails | push | errorEvent | separate | poolAdd | sweep | take | delete | rearmPush
      | epollMod => cases hquiet

end Sys

/-- **Every connection keeps a descriptor of its own.** In every run of the whole program in which the
wait of `main` for a slot ends only behind a notify and `accept` returns no descriptor that is open, as
long as nothing is touched that is gone, a live connection has the descriptor that it was accepted
with, once, and shares it with no other. -/
theorem program_descriptors {epollFd : Int} {clock : Nat} {as : List ProgramStep} {P : Program}
    (h : (program epollFd).Run (Allowed FreshDescriptor) (.ok (.start clock)) as (.ok P)) {R : ReqId}
    {r : RequestData} (hr : P.sys.server.request R = .live r) :
    acceptedAs R (programLog epollFd clock as) = [r.fd] ∧ r.epollfd = epollFd ∧ 0 < r.fd ∧
      ∀ R' r', P.sys.server.request R' = .live r' → r'.fd = r.fd → R' = R := by
  obtain ⟨x, hrun, hx, -⟩ := (program_simulation epollFd FreshDescriptor).run_filterMap (refines_start clock) h
  obtain rfl : x = .ok P.abstract := hx
  have hinit : (threads epollFd).Reach FreshDescriptor (.ok (.start clock)) := .init ⟨clock, rfl⟩
  have hdescriptors : P.abstract.Descriptors epollFd (programLog epollFd clock as) := by
    refine hrun.transcript (P := fun x log => ∀ x', x = .ok x' → x'.Descriptors epollFd log) hinit
      ?_ ?_ P.abstract rfl
    · rintro _ ⟨rfl⟩
      exact ⟨fun R => .unborn, fun R R' r r' hr => by cases hr⟩
    · rintro (f | x) a _ log - hfresh hs ih x' rfl
      · cases hs
      · exact (ih x rfl).step hfresh hs
  have hR := hdescriptors.holds R
  rw [show P.abstract.server.request R = .live r from hr] at hR
  obtain ⟨haccepted, hepollfd, hpos⟩ := hR.of_live
  exact ⟨haccepted, hepollfd, hpos, fun R' r' hr' hfd => hdescriptors.apart R' R r' r hr' hr hfd⟩

/-- Two clients connect at once. -/
def twoAccepted : List ProgramStep :=
  [.sys (.epollWait [.listen, .listen]), .sys (.accept 0 5 true), .sys (.push 0 0), .sys (.accept 1 6 true)]

theorem twoAccepted_descriptors : acceptedAs 1 (programLog 3 0 twoAccepted) = [6] := by
  have hplain : ∀ {y : Except Fault Program} {a : Label}, (∀ x, FreshDescriptor x a) →
      Allowed FreshDescriptor y (.sys a) := fun h =>
    ⟨(by rintro p e; cases e), by rintro _ ⟨rfl⟩; exact h _⟩
  have hfirst : (program 3).Run (Allowed FreshDescriptor) (.ok (.start 0)) (twoAccepted.take 1) _ :=
    .snoc .nil (hplain (by rintro (_ | _) <;> trivial)) rfl
  have hsecond := (hfirst.snoc (a := .sys (.accept 0 5 true)) ⟨(by rintro p e; cases e), by
    rintro _ ⟨rfl⟩ R r hr
    cases hr⟩ rfl).snoc (a := .sys (.push 0 0)) (hplain (by rintro (_ | _) <;> trivial)) rfl
  have hthird := hsecond.snoc (a := .sys (.accept 1 6 true)) ⟨(by rintro p e; cases e), by
    rintro _ ⟨rfl⟩ (_ | R) r hr <;> cases hr
    decide⟩ rfl
  exact (program_descriptors hthird (R := 1) rfl).1

end HPServer
