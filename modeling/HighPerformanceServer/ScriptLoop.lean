import Mathlib.Data.List.Basic
/-!
# Loops that ask

A loop `while (!done) { .. }` whose body makes one call to the outside and acts on the answer. The
answers come from a script, one entry a call. `run` keeps each call with the state it was made in;
`run_cases` says how a run can end, and `Path.invariant` carries a property of the calls made so
far through the passes of a run.
-/

structure ScriptLoop (σ α ρ : Type) where
  /-- The result, where the condition of the loop is false. -/
  done : σ → Option ρ
  /-- The body: the next state, or a result returned from inside the loop. -/
  pass : σ → α → σ ⊕ ρ

namespace ScriptLoop

variable {σ α ρ : Type}

/-- `result` is `none` while the last call is still waiting for its answer. -/
structure Run (σ α ρ : Type) where
  calls : List (σ × α)
  final : σ
  result : Option ρ
  rest : List α
deriving DecidableEq

variable (L : ScriptLoop σ α ρ)

def run : σ → List α → Run σ α ρ
  | s, [] => ⟨[], s, L.done s, []⟩
  | s, a :: script =>
    match L.done s with
    | some r => ⟨[], s, some r, a :: script⟩
    | none =>
      match L.pass s a with
      | .inl s' => let x := run s' script; ⟨(s, a) :: x.calls, x.final, x.result, x.rest⟩
      | .inr r => ⟨[(s, a)], s, some r, script⟩

/-- The passes that go on, from one state to another. -/
def Path : σ → List (σ × α) → σ → Prop
  | s, [], s' => s = s'
  | s, (t, a) :: calls, s' => t = s ∧ L.done s = none ∧ ∃ s₁, L.pass s a = .inl s₁ ∧ Path s₁ calls s'

variable {L}

theorem run_again {s s' : σ} {a : α} (hd : L.done s = none) (hp : L.pass s a = .inl s')
    (script : List α) : L.run s (a :: script) = ⟨(s, a) :: (L.run s' script).calls,
      (L.run s' script).final, (L.run s' script).result, (L.run s' script).rest⟩ := by
  rw [run, hd, hp]

theorem run_left {s : σ} {a : α} {r : ρ} (hd : L.done s = none) (hp : L.pass s a = .inr r)
    (script : List α) : L.run s (a :: script) = ⟨[(s, a)], s, some r, script⟩ := by
  rw [run, hd, hp]

/-- The first call of a run that makes one. -/
theorem mem_run {s : σ} (hd : L.done s = none) (a : α) (script : List α) :
    (s, a) ∈ (L.run s (a :: script)).calls := by
  cases hp : L.pass s a with
  | inl s' => rw [run_again hd hp]; exact List.mem_cons_self
  | inr r => rw [run_left hd hp]; exact List.mem_cons_self

/-- A run is a path, and ends where the condition is false, in the body, or waiting. -/
theorem run_cases (script : List α) : ∀ s : σ, ∃ path, L.Path s path (L.run s script).final ∧
    script = (L.run s script).calls.map Prod.snd ++ (L.run s script).rest ∧
    (((L.run s script).calls = path ∧ (L.run s script).result = L.done (L.run s script).final ∧
        ((L.run s script).result = none → (L.run s script).rest = [])) ∨
      ∃ a r, (L.run s script).calls = path ++ [((L.run s script).final, a)] ∧
        L.done (L.run s script).final = none ∧ L.pass (L.run s script).final a = .inr r ∧
        (L.run s script).result = some r) := by
  induction script with
  | nil => intro s; exact ⟨[], rfl, rfl, Or.inl ⟨rfl, rfl, fun _ => rfl⟩⟩
  | cons a script ih =>
    intro s
    rw [run]
    cases hd : L.done s with
    | some r => exact ⟨[], rfl, rfl, Or.inl ⟨rfl, hd.symm, by simp⟩⟩
    | none =>
      dsimp only
      cases hp : L.pass s a with
      | inr r => exact ⟨[], rfl, rfl, Or.inr ⟨a, r, rfl, hd, hp, rfl⟩⟩
      | inl s' =>
        dsimp only
        obtain ⟨path, hpath, hscript, hend⟩ := ih s'
        refine ⟨(s, a) :: path, ⟨rfl, hd, s', hp, hpath⟩,
          by rw [List.map_cons, List.cons_append, ← hscript], ?_⟩
        rcases hend with ⟨hcalls, hres⟩ | ⟨b, r, hcalls, hlast⟩
        · exact Or.inl ⟨by rw [hcalls], hres⟩
        · exact Or.inr ⟨b, r, by rw [hcalls]; rfl, hlast⟩

/-- Each call of a path is made where the condition holds, by a path of its own, and goes on. -/
theorem Path.split {pre post : List (σ × α)} {t : σ} {a : α} : ∀ {s s' : σ},
    L.Path s (pre ++ (t, a) :: post) s' →
    L.Path s pre t ∧ L.done t = none ∧ ∃ t', L.pass t a = .inl t' ∧ L.Path t' post s' := by
  induction pre with
  | nil =>
    rintro s s' ⟨rfl, hd, t', hp, hpath⟩
    exact ⟨rfl, hd, t', hp, hpath⟩
  | cons c pre ih =>
    rintro s s' ⟨hs, hd, s₁, hp, hpath⟩
    obtain ⟨hpre, hrest⟩ := ih hpath
    exact ⟨⟨hs, hd, s₁, hp, hpre⟩, hrest⟩

/-- **The invariant rule.** `I` holds of no calls and the first state, and each pass on an answer
that `G` admits keeps it. -/
theorem Path.invariant {I : List (σ × α) → σ → Prop} {G : σ → α → Prop}
    (hstep : ∀ calls s a s', I calls s → L.done s = none → G s a → L.pass s a = .inl s' →
      I (calls ++ [(s, a)]) s') {calls : List (σ × α)} : ∀ {before : List (σ × α)} {s s' : σ},
    I before s → (∀ c ∈ calls, G c.1 c.2) → L.Path s calls s' → I (before ++ calls) s' := by
  induction calls with
  | nil =>
    rintro before s s' h0 - rfl
    rwa [List.append_nil]
  | cons c calls ih =>
    rintro before s s' h0 hG ⟨rfl, hd, s₁, hp, hpath⟩
    have h1 := hstep before c.1 c.2 s₁ h0 hd (hG c List.mem_cons_self) hp
    have h2 := ih h1 (fun d hd => hG d (List.mem_cons_of_mem c hd)) hpath
    rwa [List.append_assoc] at h2

/-- What holds whenever a call is made. -/
theorem run_call {I : List (σ × α) → σ → Prop} {G : σ → α → Prop} {s : σ} {script : List α}
    (h0 : I [] s) (hstep : ∀ calls s a s', I calls s → L.done s = none → G s a →
      L.pass s a = .inl s' → I (calls ++ [(s, a)]) s')
    (hG : ∀ c ∈ (L.run s script).calls, G c.1 c.2) {pre post : List (σ × α)} {t : σ} {a : α}
    (hcalls : (L.run s script).calls = pre ++ (t, a) :: post) :
    I pre t ∧ L.done t = none ∧ (post ≠ [] → ∃ t', L.pass t a = .inl t') := by
  have hGpre : ∀ c ∈ pre, G c.1 c.2 := fun c hc => hG c (by rw [hcalls]; simp [hc])
  obtain ⟨path, hpath, -, ⟨hpre, -⟩ | ⟨b, r, hlast, hd, -⟩⟩ := run_cases (L := L) script s
  · rw [← hpre, hcalls] at hpath
    obtain ⟨hpre, hd, t', hp, -⟩ := hpath.split
    exact ⟨by simpa using hpre.invariant hstep h0 hGpre, hd, fun _ => ⟨t', hp⟩⟩
  · rw [hcalls] at hlast
    rcases List.eq_nil_or_concat post with rfl | ⟨post', c, rfl⟩
    · -- the last call
      obtain ⟨rfl, hc⟩ := List.append_inj' hlast rfl
      obtain ⟨rfl, -⟩ := Prod.mk.inj (List.cons.inj hc).1
      exact ⟨by simpa using hpath.invariant hstep h0 hGpre, hd, fun h => absurd rfl h⟩
    · have hcut : pre ++ (t, a) :: post' = path := by
        rw [List.concat_eq_append, ← List.cons_append, ← List.append_assoc] at hlast
        exact (List.append_inj' hlast rfl).1
      rw [← hcut] at hpath
      obtain ⟨hpre, hd, t', hp, -⟩ := hpath.split
      exact ⟨by simpa using hpre.invariant hstep h0 hGpre, hd, fun _ => ⟨t', hp⟩⟩

/-- What holds at the end of a run that has a result. -/
theorem run_result {I : List (σ × α) → σ → Prop} {G : σ → α → Prop} {s : σ} {script : List α} {r : ρ}
    (h0 : I [] s) (hstep : ∀ calls s a s', I calls s → L.done s = none → G s a →
      L.pass s a = .inl s' → I (calls ++ [(s, a)]) s')
    (hG : ∀ c ∈ (L.run s script).calls, G c.1 c.2) (hr : (L.run s script).result = some r) :
    (I (L.run s script).calls (L.run s script).final ∧ L.done (L.run s script).final = some r) ∨
    ∃ pre a, (L.run s script).calls = pre ++ [((L.run s script).final, a)] ∧
      I pre (L.run s script).final ∧ L.done (L.run s script).final = none ∧
      L.pass (L.run s script).final a = .inr r := by
  obtain ⟨path, hpath, -, ⟨hpre, hres, -⟩ | ⟨b, r', hlast, hd, hp, hres⟩⟩ := run_cases (L := L) script s
  · rw [← hpre] at hpath
    exact Or.inl ⟨by simpa using hpath.invariant hstep h0 hG, hres.symm.trans hr⟩
  · have hGpath : ∀ c ∈ path, G c.1 c.2 := fun c hc => hG c (by rw [hlast]; simp [hc])
    refine Or.inr ⟨path, b, hlast, by simpa using hpath.invariant hstep h0 hGpath, hd, ?_⟩
    rw [hp]
    exact congrArg _ (Option.some.inj (hres.symm.trans hr))

end ScriptLoop
