import HighPerformanceServer.Headers
import HighPerformanceServer.Respelled
/-!
# The header loop on two spellings

`parse_request_head` stores a name as it is spelled (`requestData.cpp:325-327`), and `handleRequest`
and `analysisRequest` look for `Content-length` and `Connection` in one spelling only. Two requests
that differ in the letter case of header names are read in lockstep (`headLoop_lockstep`): the loop
ends alike, with its indices at the same places, and what it stores gives the same answers to the two
lookups unless one of these two names is spelled differently.
-/

namespace HPServer

open CppStd

/-- Neither spelling is that of a name the server looks for, or both are the same one. -/
def SameKey (m n : Bytes) : Prop :=
  (m = ascii "Content-length" ↔ n = ascii "Content-length") ∧
    (m = ascii "Connection" ↔ n = ascii "Connection")

instance (m n : Bytes) : Decidable (SameKey m n) := inferInstanceAs (Decidable (_ ∧ _))

/-- What `:162` and `:379` ask of a value. -/
def SameValue (v v' : Bytes) : Prop :=
  stoi v = stoi v' ∧ (v = ascii "keep-alive" ↔ v' = ascii "keep-alive")

/-- The two lookups give the same answers. -/
structure SameSettings (H H' : Headers) : Prop where
  length : (H.lookup (ascii "Content-length")).map stoi = (H'.lookup (ascii "Content-length")).map stoi
  connection : H.lookup (ascii "Connection") = some (ascii "keep-alive") ↔
    H'.lookup (ascii "Connection") = some (ascii "keep-alive")

theorem SameSettings.refl (H : Headers) : SameSettings H H := ⟨rfl, Iff.rfl⟩

theorem SameSettings.insert {H H' : Headers} {key key' v v' : Bytes} (h : SameSettings H H')
    (hkey : SameKey key key') (hv : SameValue v v') :
    SameSettings (H.insert key v) (H'.insert key' v') where
  length := by
    by_cases hk : key = ascii "Content-length"
    · rw [hkey.1.1 hk, hk, Finmap.lookup_insert, Finmap.lookup_insert, Option.map_some, Option.map_some,
        hv.1]
    · rw [Finmap.lookup_insert_of_ne _ (Ne.symm hk),
        Finmap.lookup_insert_of_ne _ (Ne.symm (hkey.1.not.1 hk)), h.length]
  connection := by
    by_cases hk : key = ascii "Connection"
    · rw [hkey.2.1 hk, hk, Finmap.lookup_insert, Finmap.lookup_insert, Option.some_inj, Option.some_inj]
      exact hv.2
    · rw [Finmap.lookup_insert_of_ne _ (Ne.symm hk),
        Finmap.lookup_insert_of_ne _ (Ne.symm (hkey.2.not.1 hk))]
      exact h.connection

/-! ## Names and values while they are read -/

/-- `p` has the piece `x` from index `a` to its end. -/
def Opens (p : Bytes) (a : Int) (x : Bytes) : Prop := ∃ q, p = q ++ x ∧ a = q.length

/-- `p` has the piece `x` from index `a` to index `b`. -/
def Holds (p : Bytes) (a b : Int) (x : Bytes) : Prop :=
  ∃ q t, p = q ++ x ++ t ∧ a = q.length ∧ b = (q ++ x).length

section Pieces

variable {p p' x x' : Bytes} {a b : Int}

theorem Opens.single (p : Bytes) (c : Byte) : Opens (p ++ [c]) p.length [c] := ⟨p, rfl, rfl⟩

theorem Opens.snoc (h : Opens p a x) (c : Byte) : Opens (p ++ [c]) a (x ++ [c]) := by
  obtain ⟨q, rfl, ha⟩ := h
  exact ⟨q, List.append_assoc .., ha⟩

theorem Opens.holds (h : Opens p a x) : Holds p a p.length x := by
  obtain ⟨q, rfl, ha⟩ := h
  exact ⟨q, [], (List.append_nil _).symm, ha, rfl⟩

theorem Holds.snoc (h : Holds p a b x) (c : Byte) : Holds (p ++ [c]) a b x := by
  obtain ⟨q, t, rfl, ha, hb⟩ := h
  exact ⟨q, t ++ [c], List.append_assoc .., ha, hb⟩

theorem Holds.slice (h : Holds p a b x) (u : Bytes) : slice (p ++ u) a b = .ok x := by
  obtain ⟨q, t, rfl, rfl, rfl⟩ := h
  rw [slice_ok (by simp) (by simp)]
  simp

/-- Pieces of two texts that agree up to case. -/
theorem Opens.lower (h : Opens p a x) (h' : Opens p' a x') (hp : p.map lower = p'.map lower) :
    x.map lower = x'.map lower := by
  obtain ⟨q, rfl, rfl⟩ := h
  obtain ⟨q', rfl, ha⟩ := h'
  have hlen : (q.map HPServer.lower).length = (q'.map HPServer.lower).length := by
    rw [List.length_map, List.length_map]
    exact_mod_cast ha
  rw [List.map_append, List.map_append] at hp
  exact (List.append_inj hp hlen).2

end Pieces

def HasBreak (v : Bytes) : Prop := ∃ c ∈ v, c = LF ∨ c = CR

/-- A name whose end has not come: spelled in two ways, the same so far, or behind a stray LF. -/
def KeyOpen (P : Place) (key key' : Bytes) : Prop :=
  P = .name key key' ∨ (P.Equal ∧ key = key') ∨ (key.head? = some LF ∧ key'.head? = some LF)

/-- A value is the same, or has a line end in it. -/
def ValueOpen (P : Place) (v v' : Bytes) : Prop := (P.Equal ∧ v = v') ∨ HasBreak v

theorem sameKey_lf {key key' : Bytes} (h : key.head? = some LF) (h' : key'.head? = some LF) :
    SameKey key key' := by
  have hne : ∀ {k name : Bytes}, k.head? = some LF → name.head? ≠ some LF → k ≠ name := by
    rintro k name hk hname rfl
    exact hname hk
  exact ⟨iff_of_false (hne h (by decide)) (hne h' (by decide)),
    iff_of_false (hne h (by decide)) (hne h' (by decide))⟩

theorem ValueOpen.same {P : Place} {v v' : Bytes} (h : ValueOpen P v v')
    (hv : v.map lower = v'.map lower) : SameValue v v' := by
  refine ⟨stoi_respelled hv, ?_⟩
  rcases h with ⟨-, rfl⟩ | hbreak
  · exact Iff.rfl
  · have hne : ∀ {v : Bytes}, HasBreak v → v ≠ ascii "keep-alive" := by
      rintro v ⟨c, hc, hlf⟩ rfl
      have hfree : ∀ c ∈ ascii "keep-alive", ¬ (c = LF ∨ c = CR) := by simp [ascii, LF, CR]
      exact hfree c hc hlf
    have hbreak' : HasBreak v' := by
      obtain ⟨c, hc, hend⟩ := hbreak
      have hmem : lower c ∈ v'.map lower := by
        rw [← hv]
        exact List.mem_map_of_mem hc
      obtain ⟨d, hd, hcd⟩ := List.mem_map.1 hmem
      exact ⟨d, hd, hend.imp (same_at hcd (by decide)).2 (same_at hcd (by decide)).2⟩
    exact iff_of_false (hne hbreak) (hne hbreak')

/-! ## The header loop on two texts -/

def KeyRead (p p' : Bytes) (s : HeadLoop) : Prop :=
  ∃ key key', Holds p s.keyStart s.keyEnd key ∧ Holds p' s.keyStart s.keyEnd key' ∧ SameKey key key'

def ValueRead (p p' : Bytes) (s : HeadLoop) : Prop :=
  ∃ v v', Holds p s.valueStart s.valueEnd v ∧ Holds p' s.valueStart s.valueEnd v' ∧ SameValue v v'

/-- What is known of the current line of two texts read up to `p` and `p'`. Nothing is, of a line
that an earlier call has begun: its name has no start, and cutting it is undefined. -/
def Track (p p' : Bytes) (P : Place) (s : HeadLoop) : Prop :=
  match s.hState with
  | .hStart | .hLF => P.AtStart
  | .hKey => 0 ≤ s.keyStart →
    ∃ key key', Opens p s.keyStart key ∧ Opens p' s.keyStart key' ∧ KeyOpen P key key'
  | .hColon | .hSpacesAfterColon => 0 ≤ s.keyStart → P.Equal ∧ KeyRead p p' s
  | .hValue => 0 ≤ s.keyStart → KeyRead p p' s ∧
    ∃ v v', Opens p s.valueStart v ∧ Opens p' s.valueStart v' ∧ ValueOpen P v v'
  | .hCR => 0 ≤ s.keyStart → KeyRead p p' s ∧ ValueRead p p' s
  | .hEndCR | .hEndLF => True

/-- From index `n` on, the texts are those of two requests from the start of a line. -/
def LineBegin (K : Bytes → Bytes → Prop) (W W' : Bytes) (n : Nat) : Prop :=
  ∃ P : Place, P.AtStart ∧ Respelled K P (W.drop n) (W'.drop n)

/-- Two loops over the texts `W` and `W'`, read up to `p` and `p'`. -/
structure Lockstep (K : Bytes → Bytes → Prop) (W W' p p' : Bytes) (P : Place) (s s' : HeadLoop) :
    Prop where
  same : s' = { s with headers := s'.headers }
  settings : SameSettings s.headers s'.headers
  spelled : p.map lower = p'.map lower
  track : Track p p' P s
  line : s.hState ≠ .hEndLF → LineBegin K W W' s.nowReadLineBegin

/-- Two outcomes of a pass, or of the loop. -/
inductive IterSame (R : HeadLoop → HeadLoop → Prop) : Exec Iter → Exec Iter → Prop where
  | error (e : Halt) : IterSame R (.error e) (.error e)
  | fail (s s' : HeadLoop) : IterSame R (.ok (.fail s)) (.ok (.fail s'))
  | next {s s' : HeadLoop} (h : R s s') : IterSame R (.ok (.next s)) (.ok (.next s'))

section Lockstep

variable {K : Bytes → Bytes → Prop} {p p' u u' x x' : Bytes} {P P' : Place} {c d : Byte} {s s' : HeadLoop}

theorem KeyRead.snoc (h : KeyRead p p' s) (c d : Byte) : KeyRead (p ++ [c]) (p' ++ [d]) s := by
  obtain ⟨key, key', hk, hk', hsame⟩ := h
  exact ⟨key, key', hk.snoc c, hk'.snoc d, hsame⟩

/-- The first byte of a name. -/
theorem KeyOpen.first (hP : P.AtStart) (hstep : P.Step K c d P') (hc : c ≠ CR) : KeyOpen P' [c] [d] := by
  rcases hP with rfl | rfl
  · cases hstep with
    | line _ => exact Or.inr (Or.inl ⟨Or.inl rfl, rfl⟩)
    | lineEnd => exact absurd rfl hc
  · cases hstep with
    | nameEnd h =>
      obtain rfl : c = LF := h.resolve_right hc
      exact Or.inr (Or.inr ⟨rfl, rfl⟩)
    | letter _ _ => exact Or.inl rfl
    | colon _ => exact Or.inr (Or.inl ⟨Or.inr rfl, rfl⟩)

theorem KeyOpen.snoc {key key' : Bytes} (h : KeyOpen P key key') (hstep : P.Step K c d P')
    (hc : ¬ (c = LF ∨ c = CR)) (hcolon : c ≠ COLON) : KeyOpen P' (key ++ [c]) (key' ++ [d]) := by
  rcases h with rfl | ⟨hP, rfl⟩ | ⟨h, h'⟩
  · cases hstep with
    | nameEnd hend => exact absurd hend hc
    | letter _ _ => exact Or.inl rfl
    | colon _ => exact absurd rfl hcolon
  · obtain ⟨rfl, hP'⟩ := hstep.equal hP
    exact Or.inr (Or.inl ⟨hP'.resolve_right hc, rfl⟩)
  · refine Or.inr (Or.inr ⟨?_, ?_⟩)
    · rw [List.head?_append, h]; rfl
    · rw [List.head?_append, h']; rfl

/-- The `':'` behind a name. -/
theorem KeyOpen.close {key key' : Bytes} (hK : ∀ m n, K m n → SameKey m n) (h : KeyOpen P key key')
    (hstep : P.Step K COLON d P') : SameKey key key' := by
  rcases h with rfl | ⟨-, rfl⟩ | ⟨h, h'⟩
  · cases hstep with
    | nameEnd hend => exact absurd hend (by decide)
    | letter hc _ => exact absurd rfl hc.1
    | colon h => exact hK _ _ h
  · exact ⟨Iff.rfl, Iff.rfl⟩
  · exact sameKey_lf h h'

theorem ValueOpen.first (hP : P.Equal) (hstep : P.Step K c d P') : ValueOpen P' [c] [d] := by
  obtain ⟨rfl, hP' | hend⟩ := hstep.equal hP
  · exact Or.inl ⟨hP', rfl⟩
  · exact Or.inr ⟨c, by simp, hend⟩

theorem ValueOpen.snoc {v v' : Bytes} (h : ValueOpen P v v') (hstep : P.Step K c d P') :
    ValueOpen P' (v ++ [c]) (v' ++ [d]) := by
  rcases h with ⟨hP, rfl⟩ | ⟨x, hx, hend⟩
  · obtain ⟨rfl, hP' | hend⟩ := hstep.equal hP
    · exact Or.inl ⟨hP', rfl⟩
    · exact Or.inr ⟨c, by simp, hend⟩
  · exact Or.inr ⟨x, List.mem_append_left _ hx, hend⟩

theorem spelled_length (h : p.map lower = p'.map lower) : p.length = p'.length := by
  simpa using congrArg List.length h

theorem spelled_snoc (h : p.map lower = p'.map lower) (hstep : P.Step K c d P') :
    (p ++ [c]).map lower = (p' ++ [d]).map lower := by
  simp [h, hstep.lower]

/-- Pieces of the second text that begin or end where the first one's do. -/
theorem Opens.single_of (h : p.map HPServer.lower = p'.map HPServer.lower) (d : Byte) :
    Opens (p' ++ [d]) p.length [d] := by
  rw [spelled_length h]
  exact Opens.single p' d

theorem Opens.holds_of {a : Int} {y : Bytes} (hy : Opens p' a y)
    (h : p.map HPServer.lower = p'.map HPServer.lower) : Holds p' a p.length y := by
  rw [spelled_length h]
  exact hy.holds

/-! ### One state after the other -/

abbrev HeadLoop.inState (t : HeadLoop) (state : HeadersState) (H : Headers) : HeadLoop :=
  { t with hState := state, headers := H }

section States

variable {W W' : Bytes} {t : HeadLoop} {H H' : Headers}

theorem headStep_start (hstep : P.Step K c d P')
    (hline : Respelled K P (W.drop p.length) (W'.drop p.length))
    (h : Lockstep K W W' p p' P (t.inState .hStart H) (t.inState .hStart H')) :
    IterSame (Lockstep K W W' (p ++ [c]) (p' ++ [d]) P')
      (headStep u p.length c (t.inState .hStart H)) (headStep u' p.length d (t.inState .hStart H')) := by
  have hend : c = LF ∨ c = CR ↔ d = LF ∨ d = CR :=
    or_congr (same_at hstep.lower (by decide)) (same_at hstep.lower (by decide))
  have track : P.AtStart := h.track
  have hspelled := spelled_snoc h.spelled hstep
  unfold headStep
  dsimp only [HeadLoop.inState]
  by_cases hc : c = LF ∨ c = CR
  · rw [if_pos hc, if_pos (hend.1 hc)]
    exact .next ⟨rfl, h.settings, hspelled, hstep.blank track hc, h.line⟩
  · rw [if_neg hc, if_neg (hend.not.1 hc)]
    have hkey := KeyOpen.first track hstep fun hc' => hc (Or.inr hc')
    exact .next ⟨rfl, h.settings, hspelled,
      fun _ => ⟨[c], [d], .single p c, .single_of h.spelled d, hkey⟩, fun _ => ⟨P, track, hline⟩⟩

theorem headStep_key (hK : ∀ m n, K m n → SameKey m n) (hstep : P.Step K c d P')
    (h : Lockstep K W W' p p' P (t.inState .hKey H) (t.inState .hKey H')) :
    IterSame (Lockstep K W W' (p ++ [c]) (p' ++ [d]) P')
      (headStep u p.length c (t.inState .hKey H)) (headStep u' p.length d (t.inState .hKey H')) := by
  have hcolon : c = COLON ↔ d = COLON := same_at hstep.lower (by decide)
  have hend : c = LF ∨ c = CR ↔ d = LF ∨ d = CR :=
    or_congr (same_at hstep.lower (by decide)) (same_at hstep.lower (by decide))
  have track : 0 ≤ t.keyStart →
    ∃ key key', Opens p t.keyStart key ∧ Opens p' t.keyStart key' ∧ KeyOpen P key key' := h.track
  have hspelled := spelled_snoc h.spelled hstep
  unfold headStep
  dsimp only [HeadLoop.inState]
  by_cases hc : c = COLON
  · rw [if_pos hc, if_pos (hcolon.1 hc)]
    by_cases hpos : (p.length : Int) - t.keyStart ≤ 0
    · rw [if_pos hpos, if_pos hpos]
      exact .fail ..
    · rw [if_neg hpos, if_neg hpos]
      subst hc
      refine .next ⟨rfl, h.settings, hspelled, fun h0 => ?_, fun _ => h.line (by simp)⟩
      obtain ⟨key, key', hk, hk', ho⟩ := track h0
      exact ⟨hstep.colon_equal, key, key', hk.holds.snoc _, (hk'.holds_of h.spelled).snoc d,
        ho.close hK hstep⟩
  · rw [if_neg hc, if_neg (hcolon.not.1 hc)]
    by_cases hc' : c = LF ∨ c = CR
    · rw [if_pos hc', if_pos (hend.1 hc')]
      exact .fail ..
    · rw [if_neg hc', if_neg (hend.not.1 hc')]
      refine .next ⟨rfl, h.settings, hspelled, fun h0 => ?_, h.line⟩
      obtain ⟨key, key', hk, hk', ho⟩ := track h0
      exact ⟨_, _, hk.snoc c, hk'.snoc d, ho.snoc hstep hc' hc⟩

theorem headStep_value (hstep : P.Step K c d P')
    (h : Lockstep K W W' p p' P (t.inState .hValue H) (t.inState .hValue H')) :
    IterSame (Lockstep K W W' (p ++ [c]) (p' ++ [d]) P')
      (headStep u p.length c (t.inState .hValue H)) (headStep u' p.length d (t.inState .hValue H')) := by
  have hcr : c = CR ↔ d = CR := same_at hstep.lower (by decide)
  have track : 0 ≤ t.keyStart →
    KeyRead p p' (t.inState .hValue H) ∧
      ∃ v v', Opens p t.valueStart v ∧ Opens p' t.valueStart v' ∧ ValueOpen P v v' := h.track
  have hspelled := spelled_snoc h.spelled hstep
  unfold headStep
  dsimp only [HeadLoop.inState]
  by_cases hc : c = CR
  · rw [if_pos hc, if_pos (hcr.1 hc)]
    by_cases hpos : (p.length : Int) - t.valueStart ≤ 0
    · rw [if_pos hpos, if_pos hpos]
      exact .fail ..
    · rw [if_neg hpos, if_neg hpos]
      refine .next ⟨rfl, h.settings, hspelled, fun h0 => ?_, fun _ => h.line (by simp)⟩
      obtain ⟨hk, v, v', hv, hv', ho⟩ := track h0
      exact ⟨hk.snoc c d, v, v', hv.holds.snoc c, (hv'.holds_of h.spelled).snoc d,
        ho.same (hv.lower hv' h.spelled)⟩
  · rw [if_neg hc, if_neg (hcr.not.1 hc)]
    by_cases hlong : (p.length : Int) - t.valueStart > 255
    · rw [if_pos hlong, if_pos hlong]
      exact .fail ..
    · rw [if_neg hlong, if_neg hlong]
      refine .next ⟨rfl, h.settings, hspelled, fun h0 => ?_, h.line⟩
      obtain ⟨hk, v, v', hv, hv', ho⟩ := track h0
      exact ⟨hk.snoc c d, _, _, hv.snoc c, hv'.snoc d, ho.snoc hstep⟩

/-- The end of a line: the two headers are stored. -/
theorem headStep_cr (hstep : P.Step K c d P') (hline : Respelled K P' x x')
    (hdrop : W.drop p.length = c :: x) (hdrop' : W'.drop p.length = d :: x')
    (h : Lockstep K W W' p p' P (t.inState .hCR H) (t.inState .hCR H')) (u u' : Bytes) :
    IterSame (Lockstep K W W' (p ++ [c]) (p' ++ [d]) P')
      (headStep (p ++ u) p.length c (t.inState .hCR H))
      (headStep (p' ++ u') p.length d (t.inState .hCR H')) := by
  have hlf : c = LF ↔ d = LF := same_at hstep.lower (by decide)
  have track : 0 ≤ t.keyStart →
    KeyRead p p' (t.inState .hCR H) ∧ ValueRead p p' (t.inState .hCR H) := h.track
  unfold headStep
  dsimp only [HeadLoop.inState]
  by_cases hc : c = LF
  · rw [if_pos hc, if_pos (hlf.1 hc)]
    by_cases h0 : 0 ≤ t.keyStart
    · obtain ⟨⟨key, key', hk, hk', hkey⟩, v, v', hv, hv', hvalue⟩ := track h0
      rw [hk.slice, hk'.slice, hv.slice, hv'.slice]
      have hspelled := spelled_snoc h.spelled hstep
      subst hc
      obtain ⟨rfl, hP', hagain⟩ := hstep.lf
      refine .next ⟨rfl, h.settings.insert hkey hvalue, hspelled, hP', fun _ => ⟨P', hP', ?_⟩⟩
      rw [hdrop, hdrop']
      exact .cons hagain hline
    · have hneg : t.keyStart < 0 := Int.not_le.1 h0
      rw [slice_neg hneg, slice_neg hneg]
      exact .error _
  · rw [if_neg hc, if_neg (hlf.not.1 hc)]
    exact .fail ..

end States

/-- **One byte of each text**: the passes fail alike, or go on in lockstep. -/
theorem headStep_lockstep (hK : ∀ m n, K m n → SameKey m n)
    (h : Lockstep K (p ++ c :: x) (p' ++ d :: x') p p' P s s') (hstep : P.Step K c d P')
    (hrest : Respelled K P' x x') (u u' : Bytes) :
    IterSame (Lockstep K (p ++ c :: x) (p' ++ d :: x') (p ++ [c]) (p' ++ [d]) P')
      (headStep (p ++ c :: u) p.length c s) (headStep (p' ++ d :: u') p.length d s') := by
  have hdrop : (p ++ c :: x).drop p.length = c :: x := List.drop_left ..
  have hdrop' : (p' ++ d :: x').drop p.length = d :: x' := by
    rw [spelled_length h.spelled]
    exact List.drop_left ..
  have hlf : c = LF ↔ d = LF := same_at hstep.lower (by decide)
  have hcr : c = CR ↔ d = CR := same_at hstep.lower (by decide)
  have hsp : c = SP ↔ d = SP := same_at hstep.lower (by decide)
  have hspelled := spelled_snoc h.spelled hstep
  have hopen := Opens.single_of h.spelled d
  have same := h.same
  generalize s'.headers = H' at same
  subst same
  obtain ⟨t, state, H, rfl⟩ : ∃ t state H, s = HeadLoop.inState t state H := ⟨s, s.hState, s.headers, rfl⟩
  cases state with
  | hStart => exact headStep_start hstep (by rw [hdrop, hdrop']; exact .cons hstep hrest) h
  | hKey => exact headStep_key hK hstep h
  | hColon =>
    have track : 0 ≤ t.keyStart → P.Equal ∧ KeyRead p p' _ := h.track
    unfold headStep
    dsimp only [HeadLoop.inState]
    by_cases hc : c = SP
    · rw [if_pos hc, if_pos (hsp.1 hc)]
      refine .next ⟨rfl, h.settings, hspelled, fun h0 => ?_, fun _ => h.line (by simp)⟩
      obtain ⟨hP, hk⟩ := track h0
      exact ⟨(hstep.equal hP).2.resolve_right (by subst hc; decide), hk.snoc c d⟩
    · rw [if_neg hc, if_neg (hsp.not.1 hc)]
      exact .fail ..
  | hSpacesAfterColon =>
    have track : 0 ≤ t.keyStart → P.Equal ∧ KeyRead p p' _ := h.track
    unfold headStep
    dsimp only [HeadLoop.inState]
    refine .next ⟨rfl, h.settings, hspelled, fun h0 => ?_, fun _ => h.line (by simp)⟩
    obtain ⟨hP, hk⟩ := track h0
    exact ⟨hk.snoc c d, [c], [d], .single p c, hopen, .first hP hstep⟩
  | hValue => exact headStep_value hstep h
  | hCR => exact headStep_cr hstep hrest hdrop hdrop' h (c :: u) (d :: u')
  | hLF =>
    have track : P.AtStart := h.track
    unfold headStep
    dsimp only [HeadLoop.inState]
    by_cases hc : c = CR
    · rw [if_pos hc, if_pos (hcr.1 hc)]
      exact .next ⟨rfl, h.settings, hspelled, trivial, fun _ => h.line (by simp)⟩
    · rw [if_neg hc, if_neg (hcr.not.1 hc)]
      exact .next ⟨rfl, h.settings, hspelled,
        fun _ => ⟨[c], [d], .single p c, hopen, .first track hstep hc⟩, fun _ => h.line (by simp)⟩
  | hEndCR =>
    unfold headStep
    dsimp only [HeadLoop.inState]
    by_cases hc : c = LF
    · rw [if_pos hc, if_pos (hlf.1 hc)]
      exact .next ⟨rfl, h.settings, hspelled, trivial, fun hne => absurd rfl hne⟩
    · rw [if_neg hc, if_neg (hlf.not.1 hc)]
      exact .fail ..
  | hEndLF =>
    unfold headStep
    dsimp only [HeadLoop.inState]
    exact .next ⟨rfl, h.settings, hspelled, trivial, fun hne => absurd rfl hne⟩

/-- **The loop** on two texts, of which `f` and `f'` are not yet there. -/
theorem headLoop_lockstep (hK : ∀ m n, K m n → SameKey m n) (f f' : Bytes) {cs : Bytes} :
    ∀ {cs' p p' : Bytes} {P : Place} {s s' : HeadLoop}, cs.length = cs'.length →
    Respelled K P (cs ++ f) (cs' ++ f') →
    Lockstep K (p ++ cs ++ f) (p' ++ cs' ++ f') p p' P s s' →
    IterSame (fun t t' => ∃ q q' Q, Lockstep K (p ++ cs ++ f) (p' ++ cs' ++ f') q q' Q t t')
      (headLoop (p ++ cs) p.length cs s) (headLoop (p' ++ cs') p.length cs' s') := by
  induction cs with
  | nil =>
    intro cs' p p' P s s' hlen _ h
    obtain rfl := List.length_eq_zero_iff.1 hlen.symm
    exact .next ⟨p, p', P, h⟩
  | cons c cs ih =>
    intro cs' p p' P s s' hlen hw h
    obtain ⟨d, cs', rfl⟩ := List.exists_cons_of_length_pos (by rw [← hlen]; exact Nat.succ_pos _)
    have hfinish : s'.notFinish = s.notFinish := by rw [h.same]
    rw [headLoop, headLoop, hfinish]
    by_cases hn : s.notFinish = true
    · rw [if_pos hn, if_pos hn]
      cases hw with
      | @cons _ P₁ _ _ _ _ hstep hrest =>
        have hpass := headStep_lockstep hK (by simpa using h) hstep hrest cs cs'
        generalize headStep (p ++ c :: cs) p.length c s = y at hpass ⊢
        generalize headStep (p' ++ d :: cs') p.length d s' = y' at hpass ⊢
        cases hpass with
        | error e => exact .error e
        | fail t t' => exact .fail t t'
        | @next t t' hnext =>
          simp only [bind, Except.bind]
          by_cases hi : p.length = 2147483647
          · rw [if_pos hi, if_pos hi]
            exact .error _
          · rw [if_neg hi, if_neg hi]
            have hnext' : Lockstep K (p ++ [c] ++ cs ++ f) (p' ++ [d] ++ cs' ++ f') (p ++ [c]) (p' ++ [d])
                P₁ t t' := by simpa using hnext
            simpa using ih (Nat.succ.inj hlen) hrest hnext'
    · rw [if_neg hn, if_neg hn]
      exact .next ⟨p, p', P, h⟩

end Lockstep

end HPServer
