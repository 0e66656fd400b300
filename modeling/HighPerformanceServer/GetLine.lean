import HighPerformanceServer.CppStd
/-!
# `get_line` (this_util.cpp:75-100)

One line from a socket, byte by byte, with a look at the byte behind a CR. The store `buf[i++] = c`
stands inside the branch of the CR (:85-93), so the text of a line goes nowhere; the function this
one comes from has it behind that branch (`history_version/failed/include/util.cpp:161-169`).

| here | there |
| --- | --- |
| `put`         | a store to `buf`; behind its end the behaviour is undefined |
| `skipLF`      | the `recv` with `MSG_PEEK` and the one behind it (:86-91) |
| `getLineLoop` | the `while` (:82-97), in front of a test with `c`, `i`, and the bytes to come |
| `getLine`     | `get_line`: the buffer it leaves, and the bytes left on the socket |
| `takeLine`    | the line that is meant |

`recv` fails at the end of the stream and nowhere else. A branch that ends with a LF in `c` ends the
loop. `get_line` always returns `0`.
-/

namespace HPServer

open CppStd

def put (buf : Bytes) (i : Nat) (c : Byte) : Exec Bytes :=
  if i < buf.length then .ok (buf.set i c) else .error .undefined

def skipLF (stream : Bytes) : Bytes := if stream.head? = some LF then stream.tail else stream

def getLineLoop (size : Int) (stream : Bytes) (c : Byte) (i : Nat) (buf : Bytes) :
    Exec (Bytes × Nat × Bytes) :=
  if (i : Int) < size - 1 ∧ c ≠ LF then
    match stream with
    | [] => .ok (buf, i, [])
    | c :: stream =>
      if c = CR then do
        let buf ← put buf i LF
        return (buf, i + 1, skipLF stream)
      else getLineLoop size stream c i buf
  else .ok (buf, i, stream)

def getLine (size : Int) (buf stream : Bytes) : Exec (Bytes × Bytes) := do
  let (buf, i, stream) ← getLineLoop size stream NUL 0 buf
  let buf ← put buf i NUL
  return (buf, stream)

/-- The next line, of at most `n` bytes with its LF, and what is behind it. -/
def takeLine : Nat → Bytes → Bytes × Bytes
  | 0, stream => ([], stream)
  | _ + 1, [] => ([], [])
  | n + 1, c :: stream =>
    if c = CR then ([LF], skipLF stream)
    else if c = LF then ([LF], stream)
    else (c :: (takeLine n stream).1, (takeLine n stream).2)

/-- Whatever was in `buf`, the line is in it now with a NUL behind, inside of `size`, and the socket
is behind the line. -/
def GetsLine (size : Int) (stream : Bytes) : Prop :=
  ∀ buf : Bytes, size ≤ buf.length →
    ((takeLine (size - 1).toNat stream).1.length : Int) < size ∧
    ∃ tail, getLine size buf stream =
      .ok ((takeLine (size - 1).toNat stream).1 ++ NUL :: tail, (takeLine (size - 1).toNat stream).2)

/-! ## The line that is meant -/

theorem takeLine_length (n : Nat) (stream : Bytes) : (takeLine n stream).1.length ≤ n := by
  induction n generalizing stream with
  | zero => simp [takeLine]
  | succ n ih =>
    cases stream with
    | nil => simp [takeLine]
    | cons c stream =>
      simp only [takeLine]
      split
      · simp
      split
      · simp
      · have hlen := ih stream
        simp only [List.length_cons]
        omega

theorem skipLF_eq (stream : Bytes) :
    stream = skipLF stream ∨ stream = LF :: skipLF stream := by
  cases stream with
  | nil => exact Or.inl rfl
  | cons c stream =>
    by_cases hc : c = LF
    · subst hc
      exact Or.inr rfl
    · left
      simp [skipLF, hc]

/-- `takeLine` takes off the bytes of its line, of a line end its one or two. -/
theorem takeLine_consumes (n : Nat) (stream : Bytes) :
    stream = (takeLine n stream).1 ++ (takeLine n stream).2 ∨
    ∃ text, (takeLine n stream).1 = text ++ [LF] ∧
      (stream = text ++ CR :: (takeLine n stream).2 ∨
        stream = text ++ CR :: LF :: (takeLine n stream).2) := by
  induction n generalizing stream with
  | zero => exact Or.inl rfl
  | succ n ih =>
    cases stream with
    | nil => exact Or.inl rfl
    | cons c stream =>
      simp only [takeLine]
      by_cases hcr : c = CR
      · subst hcr
        rw [if_pos rfl]
        refine Or.inr ⟨[], rfl, ?_⟩
        exact (skipLF_eq stream).imp (congrArg (CR :: ·)) (congrArg (CR :: ·))
      by_cases hlf : c = LF
      · subst hlf
        exact Or.inl rfl
      rw [if_neg hcr, if_neg hlf]
      rcases ih stream with h | ⟨text, hline, h⟩
      · exact Or.inl (congrArg (c :: ·) h)
      · exact Or.inr ⟨c :: text, congrArg (c :: ·) hline,
          h.imp (congrArg (c :: ·)) (congrArg (c :: ·))⟩

/-! ## What reaches the buffer -/

/-- The first line end is a CR. -/
def endsInCR : Bytes → Bool
  | [] => false
  | c :: stream => if c = CR then true else if c = LF then false else endsInCR stream

/-- What is behind the first line end. -/
def afterLine : Bytes → Bytes
  | [] => []
  | c :: stream => if c = CR then skipLF stream else if c = LF then stream else afterLine stream

section

variable {size : Int} {stream buf : Bytes} {c : Byte}

theorem getLineLoop_eq (hsize : 2 ≤ size) (hbuf : 0 < buf.length) (hc : c ≠ LF) :
    getLineLoop size stream c 0 buf = .ok
      (if endsInCR stream then (buf.set 0 LF, 1, afterLine stream) else (buf, 0, afterLine stream)) := by
  have htest : ((0 : Nat) : Int) < size - 1 := by omega
  induction stream generalizing c with
  | nil => rw [getLineLoop, if_pos ⟨htest, hc⟩]; rfl
  | cons d stream ih =>
    rw [getLineLoop, if_pos ⟨htest, hc⟩]
    by_cases hcr : d = CR
    · simp [hcr, endsInCR, afterLine, put, hbuf, bind, Except.bind, pure, Except.pure]
    by_cases hlf : d = LF
    · subst hlf
      cases stream <;> simp [getLineLoop, endsInCR, afterLine, hcr]
    · simp only [if_neg hcr, if_neg hlf, endsInCR, afterLine]
      exact ih hlf

/-- **No text of a line reaches `buf`**: with a CR at the line's end a LF does, else nothing. The
socket is read to the line's end, however long the line. -/
theorem getLine_eq (hsize : 2 ≤ size) (hbuf : size ≤ buf.length) :
    getLine size buf stream = .ok
      (if endsInCR stream then (buf.set 0 LF).set 1 NUL else buf.set 0 NUL, afterLine stream) := by
  rw [getLine, getLineLoop_eq hsize (by omega) (by decide)]
  have hone : 1 < buf.length := by omega
  have hzero : 0 < buf.length := by omega
  cases endsInCR stream
  · simp [put, hzero, bind, Except.bind, pure, Except.pure]
  · simp [put, hone, bind, Except.bind, pure, Except.pure]

/-- The first byte of a line is lost, be it the line's LF or text. -/
theorem getLine_loses (hsize : 2 ≤ size) (hcr : c ≠ CR) : ¬ GetsLine size (c :: stream) := by
  obtain ⟨k, rfl⟩ : ∃ k : Nat, size = k + 2 := ⟨(size - 2).toNat, by omega⟩
  have hroom : ((k : Int) + 2 - 1).toNat = k + 1 := by omega
  intro h
  unfold GetsLine at h
  rw [hroom] at h
  by_cases hlf : c = LF
  · subst hlf
    obtain ⟨-, tail, e⟩ := h (List.replicate (k + 2) NUL) (by simp)
    rw [getLine_eq hsize (by simp)] at e
    have hbytes := (Prod.mk.inj (Except.ok.inj e)).1
    have hfirst : NUL = LF := by
      simpa [takeLine, endsInCR, hcr, List.replicate_succ] using congrArg List.head? hbytes
    exact absurd hfirst (by decide)
  -- a buffer that does not happen to hold the rest of the line
  obtain ⟨-, tail, e⟩ := h (List.replicate (k + 2) ((takeLine k stream).1.headD NUL + 1)) (by simp)
  rw [getLine_eq hsize (by simp)] at e
  have hbytes := (Prod.mk.inj (Except.ok.inj e)).1
  simp only [takeLine, if_neg hcr, if_neg hlf, List.replicate_succ, List.cons_append] at hbytes
  cases hend : endsInCR (c :: stream) with
  | true =>
    rw [hend] at hbytes
    exact hlf (List.cons.inj hbytes).1.symm
  | false =>
    rw [hend] at hbytes
    have hrest := (List.cons.inj hbytes).2
    cases hline : (takeLine k stream).1 with
    | nil =>
      rw [hline] at hrest
      exact absurd (List.cons.inj hrest).1 (by decide)
    | cons d line =>
      rw [hline] at hrest
      have hself : d + 1 = d := (List.cons.inj hrest).1
      simp at hself

/-- **Bug** (this_util.cpp:92). `get_line` gets the line exactly when there is no text in it: at the
end of the stream, or when the line is a CR or CR LF. -/
theorem getLine_getsLine_iff (hsize : 2 ≤ size) :
    GetsLine size stream ↔ stream = [] ∨ stream.head? = some CR := by
  constructor
  · intro h
    cases stream with
    | nil => exact Or.inl rfl
    | cons c stream =>
      by_cases hcr : c = CR
      · exact Or.inr (by rw [hcr]; rfl)
      · exact absurd h (getLine_loses hsize hcr)
  · intro h buf hbuf
    obtain ⟨n, hn⟩ : ∃ n, (size - 1).toNat = n + 1 := ⟨(size - 2).toNat, by omega⟩
    have hshort := takeLine_length (n + 1) stream
    rw [hn]
    refine ⟨by omega, ?_⟩
    rw [getLine_eq hsize hbuf]
    obtain ⟨x, buf, rfl⟩ := List.exists_cons_of_length_pos (show 0 < buf.length by omega)
    rw [List.length_cons] at hbuf
    obtain ⟨y, buf, rfl⟩ := List.exists_cons_of_length_pos (show 0 < buf.length by omega)
    rcases h with rfl | h
    · exact ⟨y :: buf, rfl⟩
    · obtain ⟨rest, rfl⟩ := List.head?_eq_some_iff.1 h
      exact ⟨buf, by simp [takeLine, endsInCR, afterLine]⟩

end

theorem emptyLine_got : GetsLine 8 (CR :: LF :: ascii "x") :=
  (getLine_getsLine_iff (by decide)).2 (Or.inr rfl)

/-- A line of two letters leaves an empty string. -/
theorem shortLine_lost : ¬ ∀ (size : Int) (stream : Bytes), 2 ≤ size → GetsLine size stream := by
  intro h
  obtain ⟨-, tail, e⟩ := h 8 (ascii "hi\n") (by decide) (List.replicate 8 SP) (by decide)
  have hget : getLine 8 (List.replicate 8 SP) (ascii "hi\n") = .ok (NUL :: List.replicate 7 SP, []) := by
    decide
  have hline : takeLine (8 - 1 : Int).toNat (ascii "hi\n") = (ascii "hi\n", []) := by decide
  rw [hget, hline] at e
  have hfirst : NUL = 104 := (List.cons.inj (Prod.mk.inj (Except.ok.inj e)).1).1
  exact absurd hfirst (by decide)

end HPServer
