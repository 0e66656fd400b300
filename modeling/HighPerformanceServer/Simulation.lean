import HighPerformanceServer.Lts
import Mathlib.Algebra.GroupWithZero.Nat
import Mathlib.Data.List.Induction
/-!
# Runs with their labels, and forward simulation

`M.Run ok s as s'`: from `s`, the steps `as`, all of which meet `ok`, lead to `s'`. A measure bounds
how many steps of a kind a run can have (`Run.countP_le`). `transcript` is what the steps of a run
let be seen, and an invariant may speak about it (`Run.transcript`). In a `Simulation`
each step of `M` is one step of `N`, under the name that `visible` gives it, or none where `visible`
gives no name; so a run of `M` is a run of `N` on the visible steps (`Simulation.run`,
`Simulation.run_filterMap`), and what holds of the reachable states of `N` holds of the states they
are related to (`Simulation.reach`).
-/

namespace Lts

variable {σ τ α β : Type} {M : Lts σ α} {N : Lts τ β} {ok : σ → α → Prop}
  {ok' : τ → β → Prop} {visible : σ → α → Option β} {R : σ → τ → Prop}

inductive Run (M : Lts σ α) (ok : σ → α → Prop) (s : σ) : List α → σ → Prop
  | nil : Run M ok s [] s
  | snoc {as : List α} {s₁ s₂ : σ} {a : α} : Run M ok s as s₁ → ok s₁ a → M.step s₁ a = some s₂ →
      Run M ok s (as ++ [a]) s₂

theorem Run.reach {s s' : σ} {as : List α} (hs : M.Reach ok s) (h : M.Run ok s as s') :
    M.Reach ok s' := by
  induction h with
  | nil => exact hs
  | snoc _ hok hstep ih => exact .step ih hok hstep

theorem Reach.run {s : σ} (h : M.Reach ok s) : ∃ s₀ as, M.init s₀ ∧ M.Run ok s₀ as s := by
  induction h with
  | init h => exact ⟨_, [], h, .nil⟩
  | step _ hok hstep ih =>
    obtain ⟨s₀, as, hinit, hrun⟩ := ih
    exact ⟨s₀, _, hinit, .snoc hrun hok hstep⟩

theorem Reach.mono {ok₁ : σ → α → Prop} (hle : ∀ s a, ok s a → ok₁ s a) {s : σ}
    (h : M.Reach ok s) : M.Reach ok₁ s := by
  induction h with
  | init h => exact .init h
  | step _ hok hstep ih => exact .step ih (hle _ _ hok) hstep

theorem Run.mono_mem {ok₁ : σ → α → Prop} {s s' : σ} {as : List α}
    (hle : ∀ a ∈ as, ∀ s, ok s a → ok₁ s a) (h : M.Run ok s as s') : M.Run ok₁ s as s' := by
  induction h with
  | nil => exact .nil
  | snoc _ hok hstep ih =>
    refine .snoc (ih fun a ha => hle a (List.mem_append_left _ ha)) (hle _ ?_ _ hok) hstep
    exact List.mem_append_right _ (List.mem_singleton_self _)

theorem Run.mono {ok₁ : σ → α → Prop} (hle : ∀ s a, ok s a → ok₁ s a) {s s' : σ} {as : List α}
    (h : M.Run ok s as s') : M.Run ok₁ s as s' := h.mono_mem fun a _ s => hle s a

/-- Each step that `counts` uses up some of the `measure`, and no step adds more to it than its
`budget`. -/
theorem Run.countP_le {P : σ → Prop} (measure : σ → Nat) (counts : α → Bool) (budget : α → Nat)
    (hstep : ∀ s a s', P s → ok s a → M.step s a = some s' →
      P s' ∧ (counts a).toNat + measure s' ≤ measure s + budget a)
    {s s' : σ} {as : List α} (hP : P s) (h : M.Run ok s as s') :
    P s' ∧ as.countP counts + measure s' ≤ measure s + (as.map budget).sum := by
  induction h with
  | nil => exact ⟨hP, by simp⟩
  | @snoc as s₁ s₂ a _ hok hs ih =>
    obtain ⟨hP₁, hle₁⟩ := ih
    obtain ⟨hP₂, hle₂⟩ := hstep _ _ _ hP₁ hok hs
    refine ⟨hP₂, ?_⟩
    have hcount : (as ++ [a]).countP counts = as.countP counts + (counts a).toNat := by
      rw [List.countP_append, List.countP_singleton]
      cases counts a <;> rfl
    have hsum : ((as ++ [a]).map budget).sum = (as.map budget).sum + budget a := by simp
    omega

/-- A run goes on with steps that are computed. -/
theorem Run.replay {s s₁ s' : σ} {as bs : List α} (h : M.Run ok s as s₁)
    (hok : ∀ b ∈ bs, ∀ s, ok s b) (hs : M.replay s₁ bs = some s') : M.Run ok s (as ++ bs) s' := by
  induction bs using List.reverseRecOn generalizing s' with
  | nil =>
    cases hs
    rwa [List.append_nil]
  | append_singleton bs b ih =>
    simp only [Lts.replay, List.foldlM_append] at hs
    obtain ⟨s₂, hfirst, hs⟩ := Option.bind_eq_some_iff.1 hs
    simp only [List.foldlM_cons, List.foldlM_nil] at hs
    obtain ⟨s₃, hstep, hs⟩ := Option.bind_eq_some_iff.1 hs
    cases hs
    rw [← List.append_assoc]
    exact .snoc (ih (fun c hc => hok c (by simp [hc])) hfirst) (hok b (by simp) s₂) hstep

theorem run_of_replay {s s' : σ} {as : List α} (hok : ∀ a ∈ as, ∀ s, ok s a)
    (h : M.replay s as = some s') : M.Run ok s as s' := Run.nil.replay hok h

section Transcript

variable {ε : Type} {emit : σ → α → List ε}

/-- What is seen of the steps `as`, one after the other. -/
def transcript (M : Lts σ α) (emit : σ → α → List ε) : σ → List α → List ε
  | _, [] => []
  | s, a :: as => emit s a ++ match M.step s a with
    | some s' => transcript M emit s' as
    | none => []

theorem Run.transcript_append {s s' : σ} {as : List α} (h : M.Run ok s as s') (bs : List α) :
    M.transcript emit s (as ++ bs) = M.transcript emit s as ++ M.transcript emit s' bs := by
  induction h generalizing bs with
  | nil => rfl
  | @snoc as s₁ s₂ a _ _ hstep ih =>
    have hlast : M.transcript emit s (as ++ [a]) = M.transcript emit s as ++ emit s₁ a := by
      rw [ih [a]]
      simp [Lts.transcript, hstep]
    rw [hlast, List.append_assoc, List.singleton_append, ih (a :: bs), List.append_assoc]
    simp [Lts.transcript, hstep]

theorem Run.transcript_snoc {s s₁ s₂ : σ} {as : List α} {a : α} (h : M.Run ok s as s₁)
    (hstep : M.step s₁ a = some s₂) :
    M.transcript emit s (as ++ [a]) = M.transcript emit s as ++ emit s₁ a := by
  rw [h.transcript_append]
  simp [Lts.transcript, hstep]

theorem Run.transcript {P : σ → List ε → Prop} {s s' : σ} {as : List α} (hs : M.Reach ok s)
    (h : M.Run ok s as s') (hstart : P s [])
    (hstep : ∀ s₁ a s₂ log, M.Reach ok s₁ → ok s₁ a → M.step s₁ a = some s₂ → P s₁ log →
      P s₂ (log ++ emit s₁ a)) : P s' (M.transcript emit s as) := by
  induction h with
  | nil => exact hstart
  | @snoc as s₁ s₂ a hrun hok hs₁ ih =>
    rw [hrun.transcript_snoc hs₁]
    exact hstep _ _ _ _ (hrun.reach hs) hok hs₁ ih

/-- What is seen does not depend on the state. -/
theorem Run.transcript_filterMap (f : α → Option ε) {s s' : σ} {as : List α} (h : M.Run ok s as s') :
    M.transcript (fun _ a => (f a).toList) s as = as.filterMap f := by
  induction h with
  | nil => rfl
  | @snoc as s₁ s₂ a hrun _ hs₁ ih =>
    rw [hrun.transcript_snoc hs₁, ih, List.filterMap_append]
    cases hf : f a with
    | none => simp [hf]
    | some e => simp [hf]

end Transcript

/-- `R` relates where the two systems are. -/
structure Simulation (M : Lts σ α) (N : Lts τ β) (ok : σ → α → Prop) (ok' : τ → β → Prop)
    (visible : σ → α → Option β) (R : σ → τ → Prop) : Prop where
  init : ∀ s, M.init s → ∃ t, N.init t ∧ R s t
  step : ∀ s a s' t, R s t → ok s a → M.step s a = some s' →
    (visible s a = none ∧ R s' t) ∨
    ∃ b t', visible s a = some b ∧ ok' t b ∧ N.step t b = some t' ∧ R s' t'

namespace Simulation

theorem run (h : Simulation M N ok ok' visible R) {s s' : σ} {t : τ} {as : List α} (hR : R s t)
    (hrun : M.Run ok s as s') :
    ∃ t', N.Run ok' t (M.transcript (fun s a => (visible s a).toList) s as) t' ∧ R s' t' := by
  induction hrun with
  | nil => exact ⟨t, .nil, hR⟩
  | snoc hrun hok hstep ih =>
    obtain ⟨t₁, hrun₁, hR₁⟩ := ih
    rw [hrun.transcript_snoc hstep]
    rcases h.step _ _ _ _ hR₁ hok hstep with ⟨hnone, hR₂⟩ | ⟨b, t₂, hsome, hok', hstep', hR₂⟩
    · rw [hnone, Option.toList_none, List.append_nil]
      exact ⟨t₁, hrun₁, hR₂⟩
    · rw [hsome]
      exact ⟨t₂, .snoc hrun₁ hok' hstep', hR₂⟩

/-- The names do not depend on the state. -/
theorem run_filterMap {visible : α → Option β} (h : Simulation M N ok ok' (fun _ => visible) R) {s s' : σ}
    {t : τ} {as : List α} (hR : R s t) (hrun : M.Run ok s as s') :
    ∃ t', N.Run ok' t (as.filterMap visible) t' ∧ R s' t' := by
  rw [← hrun.transcript_filterMap visible]
  exact h.run hR hrun

theorem reach (h : Simulation M N ok ok' visible R) {s : σ} (hs : M.Reach ok s) :
    ∃ t, N.Reach ok' t ∧ R s t := by
  obtain ⟨s₀, as, hinit, hrun⟩ := hs.run
  obtain ⟨t₀, hinit', hR⟩ := h.init s₀ hinit
  obtain ⟨t, hrun', hR⟩ := h.run hR hrun
  exact ⟨t, hrun'.reach (.init hinit'), hR⟩

end Simulation

end Lts
