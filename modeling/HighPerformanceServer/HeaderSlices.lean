import HighPerformanceServer.Headers
/-!
# Where the header slices lie

A call of `parse_request_head` cuts a name and a value out of `content` by four indices
(requestData.cpp:325-326). The indices start at `-1` in every call (:278-279); `h_state` is where the
last call left it (:284).

| here | there |
| --- | --- |
| `headCuts`     | the loop's state at each `LF` behind `h_CR` (:322-328), in front of the cuts |
| `headCalls`    | the object at the start of each call `handleRequest` makes (:131-152) |
| `SlicesInside` | the slices of one call, and its last `substr` (:359, :362), in range |
| `LineTail`     | the rest of a header line, from where `h_state` stands in it |
-/

namespace HPServer

open CppStd

def headCuts (str : Bytes) : Nat → Bytes → HeadLoop → List HeadLoop
  | _, [], _ => []
  | i, c :: rest, s =>
    if s.notFinish then
      (if s.hState = .hCR ∧ c = LF then [s] else []) ++
        match headStep str i c s with
        | .ok (.next s) => if i = 2147483647 then [] else headCuts str (i + 1) rest s
        | _ => []
    else []

/-- One call a piece, as long as the verdict is `PARSE_HEADER_AGAIN`. -/
def headCalls : RequestData → List Bytes → List RequestData
  | _, [] => []
  | r, c :: cs =>
    { r with content := r.content ++ c } ::
      match parseRequestHead { r with content := r.content ++ c } with
      | .ok (.again, r) => headCalls r cs
      | _ => []

/-- The indices of a cut out of `n` bytes. -/
structure HeadLoop.InRange (s : HeadLoop) (n : Nat) : Prop where
  key : 0 ≤ s.keyStart ∧ s.keyStart < s.keyEnd ∧ s.keyEnd ≤ n
  value : 0 ≤ s.valueStart ∧ s.valueStart < s.valueEnd ∧ s.valueEnd ≤ n

structure SlicesInside (r : RequestData) : Prop where
  cuts : ∀ s ∈ headCuts r.content 0 r.content (.init r.hState r.headers), s.InRange r.content.length
  substr : ∀ s, headLoop r.content 0 r.content (.init r.hState r.headers) = .ok (.next s) →
    s.nowReadLineBegin ≤ r.content.length

/-! ## The rest of a line -/

/-- A value's bytes, up to `room` of them, and the line's end. -/
def ValueTail (room : Nat) (line : Bytes) : Prop :=
  ∃ body, line = body ++ [CR, LF] ∧ CR ∉ body ∧ body.length ≤ room

/-- The first byte of a value may be any; the `255` others may not be CR. -/
def GapTail (line : Bytes) : Prop := ∃ x tail, line = x :: tail ∧ ValueTail 255 tail

def ColonTail (line : Bytes) : Prop := ∃ tail, line = SP :: tail ∧ GapTail tail

def NameTail (line : Bytes) : Prop :=
  ∃ name tail, line = name ++ COLON :: tail ∧ (∀ c ∈ name, c ≠ COLON ∧ c ≠ LF ∧ c ≠ CR) ∧
    ColonTail tail

def LineTail : HeadersState → Bytes → Prop
  | .hKey => NameTail
  | .hColon => ColonTail
  | .hSpacesAfterColon => GapTail
  | .hValue => ValueTail 255
  | .hCR => fun line => line = [LF]
  | .hStart | .hLF | .hEndCR | .hEndLF => fun _ => False

/-- `text` begins with a `line` that ends within the reach of the loop's `int`, `i` bytes on. -/
def Begins (T : Bytes → Prop) (i : Nat) (text : Bytes) : Prop :=
  ∃ line, line <+: text ∧ T line ∧ i + line.length ≤ 2147483648

/-- A call that resumes inside a line, and comes to its end. -/
def CompletesLine (r : RequestData) : Prop := Begins (LineTail r.hState) 0 r.content

section Tails

variable {T : Bytes → Prop} {i : Nat} {c : Byte} {text line : Bytes} {room : Nat}

theorem not_begins_nil (h : ¬ T []) : ¬ Begins T i [] := by
  rintro ⟨line, hline, hT, -⟩
  rw [List.prefix_nil.1 hline] at hT
  exact h hT

theorem begins_cons (h : ¬ T []) :
    Begins T i (c :: text) ↔ Begins (fun line => T (c :: line)) (i + 1) text := by
  constructor
  · rintro ⟨line, hline, hT, hlen⟩
    cases line with
    | nil => exact absurd hT h
    | cons d line =>
      obtain ⟨rfl, htext⟩ := List.cons_prefix_cons.1 hline
      rw [List.length_cons] at hlen
      exact ⟨line, htext, hT, by omega⟩
  · rintro ⟨line, hline, hT, hlen⟩
    refine ⟨c :: line, List.cons_prefix_cons.2 ⟨rfl, hline⟩, hT, ?_⟩
    rw [List.length_cons]
    omega

theorem begins_congr {T' : Bytes → Prop} (h : ∀ line, T line ↔ T' line) :
    Begins T i text ↔ Begins T' i text := by
  simp only [Begins, h]

theorem not_begins_of_false (h : ∀ line, ¬ T line) : ¬ Begins T i text := by
  rintro ⟨line, -, hT, -⟩
  exact h line hT

/-- Nothing is left for a tail behind the loop's last index. -/
theorem not_begins_last (h : ¬ T []) : ¬ Begins T (2147483647 + 1) text := by
  rintro ⟨line, -, hT, hlen⟩
  have hnil : line = [] := List.length_eq_zero_iff.1 (by omega)
  exact h (hnil ▸ hT)

theorem not_valueTail_nil : ¬ ValueTail room [] := by
  rintro ⟨body, hline, -⟩
  simp at hline

theorem valueTail_cons :
    ValueTail room (c :: line) ↔
      (c = CR ∧ line = [LF]) ∨ (c ≠ CR ∧ 0 < room ∧ ValueTail (room - 1) line) := by
  constructor
  · rintro ⟨body, hline, hcr, hlen⟩
    cases body with
    | nil =>
      obtain ⟨rfl, rfl⟩ := List.cons.inj hline
      exact Or.inl ⟨rfl, rfl⟩
    | cons d body =>
      obtain ⟨rfl, rfl⟩ := List.cons.inj hline
      rw [List.length_cons] at hlen
      rw [List.mem_cons, not_or] at hcr
      exact Or.inr ⟨Ne.symm hcr.1, by omega, body, rfl, hcr.2, by omega⟩
  · rintro (⟨rfl, rfl⟩ | ⟨hc, hroom, body, rfl, hcr, hlen⟩)
    · exact ⟨[], rfl, by simp, by simp⟩
    · refine ⟨c :: body, rfl, ?_, ?_⟩
      · rw [List.mem_cons, not_or]
        exact ⟨Ne.symm hc, hcr⟩
      · rw [List.length_cons]
        omega

theorem not_gapTail_nil : ¬ GapTail [] := by
  rintro ⟨x, tail, hline, -⟩
  cases hline

theorem gapTail_cons : GapTail (c :: line) ↔ ValueTail 255 line := by
  constructor
  · rintro ⟨x, tail, hline, h⟩
    obtain ⟨-, rfl⟩ := List.cons.inj hline
    exact h
  · intro h
    exact ⟨c, line, rfl, h⟩

theorem not_colonTail_nil : ¬ ColonTail [] := by
  rintro ⟨tail, hline, -⟩
  cases hline

theorem colonTail_cons : ColonTail (c :: line) ↔ c = SP ∧ GapTail line := by
  constructor
  · rintro ⟨tail, hline, h⟩
    obtain ⟨rfl, rfl⟩ := List.cons.inj hline
    exact ⟨rfl, h⟩
  · rintro ⟨rfl, h⟩
    exact ⟨line, rfl, h⟩

theorem not_nameTail_nil : ¬ NameTail [] := by
  rintro ⟨name, tail, hline, -⟩
  simp at hline

theorem nameTail_cons :
    NameTail (c :: line) ↔
      (c = COLON ∧ ColonTail line) ∨ ((c ≠ COLON ∧ c ≠ LF ∧ c ≠ CR) ∧ NameTail line) := by
  constructor
  · rintro ⟨name, tail, hline, hfree, htail⟩
    cases name with
    | nil =>
      obtain ⟨rfl, rfl⟩ := List.cons.inj hline
      exact Or.inl ⟨rfl, htail⟩
    | cons d name =>
      obtain ⟨rfl, rfl⟩ := List.cons.inj hline
      rw [List.forall_mem_cons] at hfree
      exact Or.inr ⟨hfree.1, name, tail, rfl, hfree.2, htail⟩
  · rintro (⟨rfl, htail⟩ | ⟨hc, name, tail, rfl, hfree, htail⟩)
    · exact ⟨[], line, rfl, by simp, htail⟩
    · exact ⟨c :: name, tail, rfl, List.forall_mem_cons.2 ⟨hc, hfree⟩, htail⟩

end Tails

/-! ## A call that resumes inside a line -/

section Resumed

variable {str rest : Bytes} {i : Nat} {c : Byte} {s s' : HeadLoop} {T : Bytes → Prop}

theorem headCuts_fail (hn : s.notFinish = true) (hcut : ¬ (s.hState = .hCR ∧ c = LF))
    (hstep : headStep str i c s = .ok (.fail s')) : headCuts str i (c :: rest) s = [] := by
  rw [headCuts, if_pos hn, if_neg hcut, hstep]
  rfl

/-- A pass that goes on cuts what the rest of the loop cuts. -/
theorem headCuts_next_iff (hn : s.notFinish = true) (hcut : s.hState ≠ .hCR)
    (hstep : headStep str i c s = .ok (.next s')) (hT : ¬ T [])
    (hrest : i ≠ 2147483647 → (headCuts str (i + 1) rest s' ≠ [] ↔ Begins T (i + 1) rest)) :
    headCuts str i (c :: rest) s ≠ [] ↔ Begins T (i + 1) rest := by
  rw [headCuts, if_pos hn, if_neg (fun h => hcut h.1), hstep, List.nil_append]
  dsimp only
  by_cases hi : i = 2147483647
  · rw [if_pos hi, hi]
    exact iff_of_false (fun h => h rfl) (not_begins_last hT)
  · rw [if_neg hi]
    exact hrest hi

theorem cuts_hCR (hs : s.hState = .hCR) (hn : s.notFinish = true) (hi : i ≤ 2147483647) :
    headCuts str i rest s ≠ [] ↔ Begins (fun line => line = [LF]) i rest := by
  cases rest with
  | nil => exact iff_of_false (fun h => h rfl) (not_begins_nil (by simp))
  | cons c rest =>
    by_cases hc : c = LF
    · subst hc
      refine iff_of_true ?_ ⟨[LF], by simp, rfl, by simp only [List.length_singleton]; omega⟩
      rw [headCuts, if_pos hn, if_pos ⟨hs, rfl⟩]
      simp
    · have hstep : headStep str i c s = .ok (.fail s) := by
        unfold headStep
        rw [hs]
        exact if_neg hc
      rw [headCuts_fail hn (fun h => hc h.2) hstep, begins_cons (by simp)]
      exact iff_of_false (fun h => h rfl) (not_begins_of_false fun line h => hc (List.cons.inj h).1)

/-- `room`: how many bytes `h_value` lets pass from index `i` on. -/
theorem cuts_hValue (hs : s.hState = .hValue) (hn : s.notFinish = true) (room : Nat)
    (hi : i ≤ 2147483647) (hstart : s.valueStart < i) (hroom : (i : Int) + room = 256 + s.valueStart) :
    headCuts str i rest s ≠ [] ↔ Begins (ValueTail room) i rest := by
  induction rest generalizing i room with
  | nil => exact iff_of_false (fun h => h rfl) (not_begins_nil not_valueTail_nil)
  | cons c rest ih =>
    have hcut : s.hState ≠ .hCR := by rw [hs]; decide
    rw [begins_cons not_valueTail_nil]
    by_cases hc : c = CR
    · subst hc
      have hstep : headStep str i CR s = .ok (.next { s with hState := .hCR, valueEnd := i }) := by
        unfold headStep
        rw [hs]
        dsimp only
        rw [if_pos rfl, if_neg (by omega)]
      rw [headCuts_next_iff (T := fun line => line = [LF]) hn hcut hstep (by simp)
        fun _ => cuts_hCR rfl hn (by omega)]
      exact begins_congr fun line => by simp [valueTail_cons]
    have hpass : headStep str i c s =
        if (i : Int) - s.valueStart > 255 then .ok (.fail s) else .ok (.next s) := by
      unfold headStep
      rw [hs]
      exact if_neg hc
    by_cases hfull : room = 0
    · rw [if_pos (by omega)] at hpass
      rw [headCuts_fail hn (fun h => hcut h.1) hpass]
      refine iff_of_false (fun h => h rfl) (not_begins_of_false fun line h => ?_)
      rcases valueTail_cons.1 h with ⟨hcr, -⟩ | ⟨-, hpos, -⟩
      · exact hc hcr
      · omega
    · rw [if_neg (by omega)] at hpass
      rw [headCuts_next_iff hn hcut hpass not_valueTail_nil
        fun _ => ih (i := i + 1) (room - 1) (by omega) (by omega) (by omega)]
      refine begins_congr fun line => ?_
      have hpos : 0 < room := by omega
      simp [valueTail_cons, hc, hpos]

theorem cuts_hSpacesAfterColon (hs : s.hState = .hSpacesAfterColon) (hn : s.notFinish = true)
    (hi : i ≤ 2147483647) : headCuts str i rest s ≠ [] ↔ Begins GapTail i rest := by
  cases rest with
  | nil => exact iff_of_false (fun h => h rfl) (not_begins_nil not_gapTail_nil)
  | cons c rest =>
    have hstep : headStep str i c s = .ok (.next { s with hState := .hValue, valueStart := i }) := by
      unfold headStep
      rw [hs]
    have hvalue : i + 1 ≤ 2147483647 →
        (headCuts str (i + 1) rest { s with hState := .hValue, valueStart := i } ≠ [] ↔
          Begins (ValueTail 255) (i + 1) rest) := fun hlast =>
      cuts_hValue rfl (by exact hn) 255 hlast (by dsimp only; omega) (by dsimp only; omega)
    rw [begins_cons not_gapTail_nil, headCuts_next_iff hn (by rw [hs]; decide) hstep not_valueTail_nil
      fun _ => hvalue (by omega)]
    exact begins_congr fun line => gapTail_cons.symm

theorem cuts_hColon (hs : s.hState = .hColon) (hn : s.notFinish = true) (hi : i ≤ 2147483647) :
    headCuts str i rest s ≠ [] ↔ Begins ColonTail i rest := by
  cases rest with
  | nil => exact iff_of_false (fun h => h rfl) (not_begins_nil not_colonTail_nil)
  | cons c rest =>
    have hcut : s.hState ≠ .hCR := by rw [hs]; decide
    have hpass : headStep str i c s =
        if c = SP then .ok (.next { s with hState := .hSpacesAfterColon }) else .ok (.fail s) := by
      unfold headStep
      rw [hs]
    rw [begins_cons not_colonTail_nil]
    by_cases hc : c = SP
    · rw [if_pos hc] at hpass
      rw [headCuts_next_iff hn hcut hpass not_gapTail_nil
        fun _ => cuts_hSpacesAfterColon rfl hn (by omega)]
      exact begins_congr fun line => by simp [colonTail_cons, hc]
    · rw [if_neg hc] at hpass
      rw [headCuts_fail hn (fun h => hcut h.1) hpass]
      exact iff_of_false (fun h => h rfl) (not_begins_of_false fun line h => hc (colonTail_cons.1 h).1)

/-- With `key_start` at `-1`, a name may be empty. -/
theorem cuts_hKey (hs : s.hState = .hKey) (hn : s.notFinish = true) (hk : s.keyStart < 0)
    (hi : i ≤ 2147483647) : headCuts str i rest s ≠ [] ↔ Begins NameTail i rest := by
  induction rest generalizing i with
  | nil => exact iff_of_false (fun h => h rfl) (not_begins_nil not_nameTail_nil)
  | cons c rest ih =>
    have hcut : s.hState ≠ .hCR := by rw [hs]; decide
    rw [begins_cons not_nameTail_nil]
    by_cases hc : c = COLON
    · subst hc
      have hstep : headStep str i COLON s = .ok (.next { s with keyEnd := i, hState := .hColon }) := by
        unfold headStep
        rw [hs]
        dsimp only
        rw [if_pos rfl, if_neg (by omega)]
      rw [headCuts_next_iff hn hcut hstep not_colonTail_nil fun _ => cuts_hColon rfl hn (by omega)]
      exact begins_congr fun line => by simp [nameTail_cons]
    have hpass : headStep str i c s = if c = LF ∨ c = CR then .ok (.fail s) else .ok (.next s) := by
      unfold headStep
      rw [hs]
      exact if_neg hc
    by_cases hbreak : c = LF ∨ c = CR
    · rw [if_pos hbreak] at hpass
      rw [headCuts_fail hn (fun h => hcut h.1) hpass]
      refine iff_of_false (fun h => h rfl) (not_begins_of_false fun line h => ?_)
      rcases nameTail_cons.1 h with ⟨hcolon, -⟩ | ⟨⟨-, hlf, hcr⟩, -⟩
      · exact hc hcolon
      · exact hbreak.elim hlf hcr
    · rw [if_neg hbreak] at hpass
      rw [headCuts_next_iff hn hcut hpass not_nameTail_nil fun _ => ih (i := i + 1) (by omega)]
      rw [not_or] at hbreak
      exact begins_congr fun line => by simp [nameTail_cons, hc, hbreak.1, hbreak.2]

/-- **A call that resumes inside a line** cuts exactly when its text begins with the rest of one. -/
theorem cuts_resumed {h : HeadersState} (hin : InsideLine h) (H : Headers) :
    headCuts str 0 str (.init h H) ≠ [] ↔ Begins (LineTail h) 0 str := by
  cases h with
  | hKey => exact cuts_hKey rfl rfl (by simp [HeadLoop.init]) (by omega)
  | hColon => exact cuts_hColon rfl rfl (by omega)
  | hSpacesAfterColon => exact cuts_hSpacesAfterColon rfl rfl (by omega)
  | hValue =>
    exact cuts_hValue rfl rfl 255 (by omega) (by simp [HeadLoop.init]) (by simp [HeadLoop.init])
  | hCR => exact cuts_hCR rfl rfl (by omega)
  | _ => exact hin.elim

/-- Its cuts take the name from in front of the buffer. -/
theorem headCuts_resumed : ∀ {rest : Bytes} {i : Nat} {s : HeadLoop}, s.keyStart < 0 →
    InsideLine s.hState → ∀ t ∈ headCuts str i rest s, t.keyStart < 0
  | [], _, _, _, _, t, ht => by cases ht
  | c :: rest, i, s, hk, hin, t, ht => by
    rw [headCuts] at ht
    split at ht
    · rcases List.mem_append.1 ht with ht | ht
      · split at ht
        · rw [List.mem_singleton.1 ht]
          exact hk
        · cases ht
      · split at ht
        · rename_i s' hstep
          obtain ⟨hk', hin'⟩ := headStep_resumed hk hin hstep
          split at ht
          · cases ht
          · exact headCuts_resumed hk' hin' t ht
        · cases ht
    · cases ht

/-- Such a cut reads in front of the buffer. -/
theorem headLoop_undefined : ∀ {rest : Bytes} {i : Nat} {s : HeadLoop}, s.keyStart < 0 →
    InsideLine s.hState → headCuts str i rest s ≠ [] → headLoop str i rest s = .error .undefined
  | [], _, _, _, _, h => absurd rfl h
  | c :: rest, i, s, hk, hin, h => by
    rw [headCuts] at h
    split at h
    · rename_i hn
      rw [headLoop, if_pos hn]
      by_cases hcut : s.hState = .hCR ∧ c = LF
      · have hstep : headStep str i c s = .error .undefined := by
          unfold headStep
          rw [hcut.1]
          dsimp only
          rw [if_pos hcut.2, slice_neg hk]
          rfl
        rw [hstep]
        rfl
      rw [if_neg hcut, List.nil_append] at h
      split at h
      · rename_i s' hstep
        obtain ⟨hk', hin'⟩ := headStep_resumed hk hin hstep
        rw [hstep]
        simp only [bind, Except.bind]
        split at h
        · exact absurd rfl h
        · rename_i hlast
          rw [if_neg hlast]
          exact headLoop_undefined hk' hin' h
      · exact absurd rfl h
    · exact absurd rfl h

theorem completesLine_undefined {r : RequestData} (h : CompletesLine r) :
    InsideLine r.hState ∧ parseRequestHead r = .error .undefined := by
  have hin : InsideLine r.hState := by
    cases hs : r.hState <;> first
      | trivial
      | (rw [CompletesLine, hs] at h; exact absurd h (not_begins_of_false fun _ => id))
  have hloop : headLoop r.content 0 r.content (.init r.hState r.headers) = .error .undefined :=
    headLoop_undefined (by simp [HeadLoop.init]) hin ((cuts_resumed hin r.headers).2 h)
  refine ⟨hin, ?_⟩
  rw [parseRequestHead, hloop]
  rfl

end Resumed

/-! ## A call that begins outside a line -/

section Placed

variable {str : Bytes} {i : Nat} {c : Byte} {s s' : HeadLoop}

/-- The indices set so far, behind `i` bytes. -/
def Placed (i : Nat) (s : HeadLoop) : Prop :=
  match s.hState with
  | .hKey => 0 ≤ s.keyStart ∧ s.keyStart < i
  | .hColon | .hSpacesAfterColon => 0 ≤ s.keyStart ∧ s.keyStart < s.keyEnd ∧ s.keyEnd ≤ i
  | .hValue =>
    (0 ≤ s.keyStart ∧ s.keyStart < s.keyEnd ∧ s.keyEnd ≤ i) ∧ 0 ≤ s.valueStart ∧ s.valueStart < i
  | .hCR => s.InRange i
  | .hStart | .hLF | .hEndCR | .hEndLF => True

theorem HeadLoop.InRange.mono {n m : Nat} (h : s.InRange n) (hnm : n ≤ m) : s.InRange m := by
  obtain ⟨⟨hk, hke, hkn⟩, ⟨hv, hve, hvn⟩⟩ := h
  exact ⟨⟨hk, hke, by omega⟩, ⟨hv, hve, by omega⟩⟩

theorem headStep_placed (h : Placed i s) (hstep : headStep str i c s = .ok (.next s')) :
    Placed (i + 1) s' := by
  unfold headStep at hstep
  cases hs : s.hState with
  | hStart =>
    rw [hs] at hstep
    dsimp only at hstep
    split at hstep <;> cases hstep
    · simp only [Placed, hs]
    · simp only [Placed]
      omega
  | hKey =>
    simp only [Placed, hs] at h
    rw [hs] at hstep
    dsimp only at hstep
    split at hstep
    · split at hstep <;> cases hstep
      simp only [Placed]
      omega
    · split at hstep <;> cases hstep
      simp only [Placed, hs]
      omega
  | hColon =>
    simp only [Placed, hs] at h
    rw [hs] at hstep
    dsimp only at hstep
    split at hstep <;> cases hstep
    simp only [Placed]
    omega
  | hSpacesAfterColon =>
    simp only [Placed, hs] at h
    rw [hs] at hstep
    cases hstep
    simp only [Placed]
    omega
  | hValue =>
    simp only [Placed, hs] at h
    rw [hs] at hstep
    dsimp only at hstep
    split at hstep
    · split at hstep <;> cases hstep
      simp only [Placed]
      constructor <;> dsimp only <;> omega
    · split at hstep <;> cases hstep
      simp only [Placed, hs]
      omega
  | hCR =>
    rw [hs] at hstep
    dsimp only at hstep
    split at hstep
    · obtain ⟨key, -, hstep⟩ := bind_eq_ok.1 hstep
      obtain ⟨value, -, hstep⟩ := bind_eq_ok.1 hstep
      cases hstep
      trivial
    · cases hstep
  | hLF =>
    rw [hs] at hstep
    dsimp only at hstep
    split at hstep <;> cases hstep
    · trivial
    · simp only [Placed]
      omega
  | hEndCR =>
    rw [hs] at hstep
    dsimp only at hstep
    split at hstep <;> cases hstep
    trivial
  | hEndLF =>
    rw [hs] at hstep
    cases hstep
    simp only [Placed]

theorem headCuts_inRange {n : Nat} : ∀ {rest : Bytes} {i : Nat} {s : HeadLoop}, Placed i s →
    i + rest.length = n → ∀ t ∈ headCuts str i rest s, t.InRange n
  | [], _, _, _, _, t, ht => by cases ht
  | c :: rest, i, s, h, hn, t, ht => by
    rw [List.length_cons] at hn
    rw [headCuts] at ht
    split at ht
    · rcases List.mem_append.1 ht with ht | ht
      · split at ht
        · rename_i hcut
          rw [List.mem_singleton.1 ht]
          simp only [Placed, hcut.1] at h
          exact h.mono (by omega)
        · cases ht
      · split at ht
        · rename_i s' hstep
          split at ht
          · cases ht
          · exact headCuts_inRange (headStep_placed h hstep) (by omega) t ht
        · cases ht
    · cases ht

/-- The start of the kept bytes is a byte the loop has come to. -/
theorem headStep_lineBegin (h : s.nowReadLineBegin ≤ i)
    (hstep : headStep str i c s = .ok (.next s')) : s'.nowReadLineBegin ≤ i := by
  unfold headStep at hstep
  cases hs : s.hState <;> rw [hs] at hstep <;> dsimp only at hstep
  case hStart => split at hstep <;> cases hstep <;> first | exact h | exact Nat.le_refl i
  case hKey | hValue =>
    split at hstep <;> split at hstep <;> cases hstep <;> exact h
  case hColon | hLF | hEndCR => split at hstep <;> cases hstep <;> exact h
  case hSpacesAfterColon => cases hstep; exact h
  case hCR =>
    split at hstep
    · obtain ⟨key, -, hstep⟩ := bind_eq_ok.1 hstep
      obtain ⟨value, -, hstep⟩ := bind_eq_ok.1 hstep
      cases hstep
      exact Nat.le_refl i
    · cases hstep
  case hEndLF => cases hstep; exact Nat.le_refl i

theorem headLoop_lineBegin : ∀ {rest : Bytes} {i : Nat} {s : HeadLoop}, s.nowReadLineBegin ≤ i →
    headLoop str i rest s = .ok (.next s') → s'.nowReadLineBegin ≤ i + rest.length
  | [], i, s, h, hloop => by cases hloop; exact h
  | c :: rest, i, s, h, hloop => by
    rw [List.length_cons]
    rw [headLoop] at hloop
    split at hloop
    · obtain ⟨it, hstep, hloop⟩ := bind_eq_ok.1 hloop
      cases it with
      | fail s₁ => cases hloop
      | next s₁ =>
        have hbegin := headStep_lineBegin h hstep
        dsimp only at hloop
        split at hloop
        · cases hloop
        · have hrest := headLoop_lineBegin (Nat.le_succ_of_le hbegin) hloop
          omega
    · cases hloop
      omega

end Placed

/-! ## Every call -/

/-- **Bug** (requestData.cpp:278-281). -/
theorem slicesInside_iff (r : RequestData) : SlicesInside r ↔ ¬ CompletesLine r := by
  have hbegin : ∀ s, headLoop r.content 0 r.content (.init r.hState r.headers) = .ok (.next s) →
      s.nowReadLineBegin ≤ r.content.length := by
    intro s hs
    have h := headLoop_lineBegin (Nat.le_refl 0) hs
    rwa [Nat.zero_add] at h
  by_cases hin : InsideLine r.hState
  · have hnone : SlicesInside r ↔ headCuts r.content 0 r.content (.init r.hState r.headers) = [] := by
      constructor
      · intro h
        refine List.eq_nil_iff_forall_not_mem.2 fun t ht => ?_
        have hneg := headCuts_resumed (by simp [HeadLoop.init]) hin t ht
        have hpos := (h.cuts t ht).key.1
        omega
      · intro h
        exact ⟨by simp [h], hbegin⟩
    rw [hnone, CompletesLine, ← cuts_resumed hin r.headers, not_not]
  · have hplaced : Placed 0 (.init r.hState r.headers) := by
      cases hs : r.hState <;> first | trivial | exact absurd (by rw [hs]; trivial) hin
    refine iff_of_true ⟨headCuts_inRange hplaced (Nat.zero_add _), hbegin⟩ ?_
    exact fun h => hin (completesLine_undefined h).1

/-- **The slices of every call lie inside the buffer** exactly when no call resumes inside a line whose
end it reads. -/
theorem headCalls_slicesInside_iff (r : RequestData) (cs : List Bytes) :
    (∀ call ∈ headCalls r cs, SlicesInside call) ↔ ∀ call ∈ headCalls r cs, ¬ CompletesLine call := by
  simp only [slicesInside_iff]

/-- A name cut behind its first byte. -/
theorem cutName_outside :
    ¬ ∀ (r : RequestData) (cs : List Bytes), r.hState = .hStart → (∀ c ∈ cs, c ≠ []) →
      ∀ call ∈ headCalls r cs, SlicesInside call := by
  intro h
  have hsecond := h (RequestData.new 3 5 (ascii "/")) [ascii "A", ascii ": b" ++ CRLF] rfl (by decide) _
    (List.mem_cons_of_mem _ List.mem_cons_self)
  refine (slicesInside_iff _).1 hsecond ⟨ascii "A: b" ++ CRLF, List.prefix_refl _, ?_, by decide⟩
  exact ⟨ascii "A", ascii " b" ++ CRLF, rfl, by simp [ascii, COLON, LF, CR], ascii "b" ++ CRLF, rfl,
    98, CRLF, rfl, [], rfl, by simp, by simp⟩

end HPServer
