import HighPerformanceServer.Lines
/-!
# Words read off a stream

A `Reader` takes the first word off a stream, and what it has read is not changed by what comes behind
(`stable`). So a word is no beginning of another one (`read_of_prefix`), and a stream of words is read
back one after the other, wherever it stops (`received_append`).

`Lines.reader` reads messages (`Lines.lean`) whose lines say how long the body is.
-/

structure Reader (M α : Type) where
  read : List α → Option (M × List α)
  stable : ∀ {s m rest} (more : List α), read s = some (m, rest) → read (s ++ more) = some (m, rest ++ more)
  shrinks : ∀ {s m rest}, read s = some (m, rest) → rest.length < s.length

namespace Reader

variable {M α : Type} (d : Reader M α)

def Spells (w : List α) (m : M) : Prop := d.read w = some (m, [])

/-- As many words as there are, and what is left. -/
def readAll : Nat → List α → List M × List α
  | 0, s => ([], s)
  | fuel + 1, s =>
    match d.read s with
    | none => ([], s)
    | some (m, rest) => ((m :: (readAll fuel rest).1), (readAll fuel rest).2)

/-- Each word takes something off the stream. -/
def received (s : List α) : List M × List α := d.readAll s.length s

variable {d} {s w : List α} {m : M}

theorem read_none_of_prefix {p : List α} (h : d.read s = none) (hp : p <+: s) : d.read p = none := by
  obtain ⟨more, rfl⟩ := hp
  cases hread : d.read p with
  | none => rfl
  | some x => cases h.symm.trans (d.stable more hread)

/-- A word is no beginning of another one. -/
theorem Spells.read_of_prefix (h : d.Spells w m) {p : List α} (hp : p <+: w) (hne : p ≠ w) : d.read p = none := by
  obtain ⟨more, rfl⟩ := hp
  cases hread : d.read p with
  | none => rfl
  | some x =>
    have hmore : x.2 ++ more = [] := congrArg Prod.snd (Option.some.inj ((d.stable more hread).symm.trans h))
    exact absurd (by rw [(List.append_eq_nil_iff.1 hmore).2, List.append_nil]) hne

theorem Spells.ne_nil (h : d.Spells w m) : w ≠ [] := by
  rintro rfl
  exact absurd (d.shrinks h) (Nat.lt_irrefl 0)

/-- More fuel than there is to read changes nothing. -/
theorem readAll_enough : ∀ {n n' : Nat} {s : List α}, s.length ≤ n → s.length ≤ n' →
    d.readAll n s = d.readAll n' s := by
  intro n
  induction n with
  | zero =>
    intro n' s hn _
    obtain rfl := List.length_eq_zero_iff.1 (Nat.le_zero.1 hn)
    cases n' with
    | zero => rfl
    | succ n' =>
      have hnone : d.read [] = none := by
        cases hread : d.read [] with
        | none => rfl
        | some x => exact absurd (d.shrinks hread) (Nat.not_lt_zero _)
      simp [readAll, hnone]
  | succ n ih =>
    intro n' s hn hn'
    cases hread : d.read s with
    | none => cases n' <;> simp [readAll, hread]
    | some x =>
      have hshrinks := d.shrinks hread
      cases n' with
      | zero => omega
      | succ n' =>
        have hrest : d.readAll n x.2 = d.readAll n' x.2 := ih (by omega) (by omega)
        simp [readAll, hread, hrest]

theorem received_of_none (h : d.read s = none) : d.received s = ([], s) := by
  unfold received
  cases hlen : s.length with
  | zero => rfl
  | succ n => simp [readAll, h]

/-- The first word, and then the others. -/
theorem Spells.received_append (h : d.Spells w m) (s : List α) :
    d.received (w ++ s) = (m :: (d.received s).1, (d.received s).2) := by
  have hread : d.read (w ++ s) = some (m, s) := d.stable s h
  have hshrinks := d.shrinks hread
  unfold received
  cases hlen : (w ++ s).length with
  | zero => omega
  | succ n =>
    rw [readAll_enough (Nat.le_refl _) (show s.length ≤ n by omega)]
    simp [readAll, hread]

end Reader

namespace Lines

variable {α : Type} [DecidableEq α] (c : α) (t : List α)

/-- Up to the first terminator, and what is behind it. -/
def cut : List α → Option (List α × List α)
  | [] => none
  | x :: s =>
    if x = c then if t <+: s then some ([], s.drop t.length) else none
    else (cut s).map fun r => (x :: r.1, r.2)

/-- The lines before an empty one, and what is behind it. -/
def head : Nat → List α → Option (List (List α) × List α)
  | 0, _ => none
  | fuel + 1, s =>
    match cut c t s with
    | none => none
    | some ([], rest) => some ([], rest)
    | some (x :: l, rest) => (head fuel rest).map fun r => ((x :: l) :: r.1, r.2)

/-- A message, when it is all there. -/
def readMessage (declared : List (List α) → Option Nat) (s : List α) :
    Option ((List (List α) × List α) × List α) :=
  match head c t s.length s with
  | none => none
  | some (ls, rest) =>
    match declared ls with
    | none => none
    | some n => if n ≤ rest.length then some ((ls, rest.take n), rest.drop n) else none

variable {c t}

theorem cut_stable : ∀ {s l rest : List α} (more : List α), cut c t s = some (l, rest) →
    cut c t (s ++ more) = some (l, rest ++ more)
  | [], _, _, _, h => by cases h
  | x :: s, l, rest, more, h => by
    simp only [cut, List.cons_append] at h ⊢
    split at h
    · obtain ⟨hpre, h⟩ := Option.ite_none_right_eq_some.1 h
      cases h
      rename_i hx
      rw [if_pos hx, if_pos (hpre.trans (List.prefix_append s more)),
        List.drop_append_of_le_length hpre.length_le]
    · rename_i hx
      obtain ⟨r, hr, h⟩ := Option.map_eq_some_iff.1 h
      cases h
      rw [if_neg hx, cut_stable more hr]
      rfl

theorem cut_shrinks : ∀ {s l rest : List α}, cut c t s = some (l, rest) → rest.length < s.length
  | [], _, _, h => by cases h
  | x :: s, l, rest, h => by
    simp only [cut] at h
    split at h
    · obtain ⟨hpre, h⟩ := Option.ite_none_right_eq_some.1 h
      cases h
      simp only [List.length_drop, List.length_cons]
      omega
    · obtain ⟨r, hr, h⟩ := Option.map_eq_some_iff.1 h
      cases h
      exact Nat.lt_succ_of_lt (cut_shrinks hr)

theorem cut_line {l : List α} (hl : c ∉ l) (rest : List α) : cut c t (l ++ c :: (t ++ rest)) = some (l, rest) := by
  induction l with
  | nil => simp [cut]
  | cons x l ih =>
    rw [List.mem_cons, not_or] at hl
    simp only [List.cons_append, cut, if_neg (Ne.symm hl.1), ih hl.2]
    rfl

theorem head_stable : ∀ {n n' : Nat} {s : List α} {ls : List (List α)} {rest : List α} (more : List α),
    n ≤ n' → head c t n s = some (ls, rest) → head c t n' (s ++ more) = some (ls, rest ++ more) := by
  intro n
  induction n with
  | zero => intro n' s ls rest more _ h; cases h
  | succ n ih =>
    intro n' s ls rest more hle h
    obtain ⟨n', rfl⟩ : ∃ k, n' = k + 1 := ⟨n' - 1, by omega⟩
    simp only [head] at h ⊢
    split at h
    · cases h
    · rename_i hcut
      cases h
      rw [cut_stable more hcut]
    · rename_i hcut
      obtain ⟨r, hr, h⟩ := Option.map_eq_some_iff.1 h
      cases h
      rw [cut_stable more hcut]
      simp only [ih more (Nat.le_of_succ_le_succ hle) hr]
      rfl

theorem head_shrinks : ∀ {n : Nat} {s : List α} {ls : List (List α)} {rest : List α},
    head c t n s = some (ls, rest) → rest.length < s.length := by
  intro n
  induction n with
  | zero => intro s ls rest h; cases h
  | succ n ih =>
    intro s ls rest h
    simp only [head] at h
    split at h
    · cases h
    · rename_i hcut
      cases h
      exact cut_shrinks hcut
    · rename_i hcut
      obtain ⟨r, hr, h⟩ := Option.map_eq_some_iff.1 h
      cases h
      exact Nat.lt_trans (ih hr) (cut_shrinks hcut)

theorem head_message (body : List α) : ∀ {ls : List (List α)} {n : Nat}, (∀ l ∈ ls, IsLine c l) →
    ls.length < n → head c t n (message c t ls body) = some (ls, body)
  | [], n + 1, _, _ => by
    have hempty : message c t [] body = [] ++ c :: (t ++ body) := by simp [message, text]
    rw [head, hempty, cut_line (by simp)]
  | l :: ls, n + 1, hls, hlen => by
    obtain ⟨hne, hl⟩ := hls l List.mem_cons_self
    rw [head, message_cons, cut_line hl]
    cases l with
    | nil => exact absurd rfl hne
    | cons x l =>
      simp only [head_message body (fun l hl => hls l (List.mem_cons_of_mem _ hl)) (Nat.lt_of_succ_lt_succ hlen)]
      rfl

section Messages

variable {declared : List (List α) → Option Nat}

theorem readMessage_stable {s rest : List α} {m : List (List α) × List α} (more : List α)
    (h : readMessage c t declared s = some (m, rest)) :
    readMessage c t declared (s ++ more) = some (m, rest ++ more) := by
  unfold readMessage at h ⊢
  split at h
  · cases h
  · rename_i hhead
    rw [head_stable more (by simp) hhead]
    split at h
    · cases h
    · rename_i n hn
      obtain ⟨hle, h⟩ := Option.ite_none_right_eq_some.1 h
      cases h
      simp only [hn, List.length_append, if_pos (Nat.le_add_right_of_le hle), List.take_append_of_le_length hle,
        List.drop_append_of_le_length hle]

theorem readMessage_shrinks {s rest : List α} {m : List (List α) × List α}
    (h : readMessage c t declared s = some (m, rest)) : rest.length < s.length := by
  unfold readMessage at h
  split at h
  · cases h
  · rename_i hhead
    split at h
    · cases h
    · obtain ⟨hle, h⟩ := Option.ite_none_right_eq_some.1 h
      cases h
      exact Nat.lt_of_le_of_lt (by rw [List.length_drop]; omega) (head_shrinks hhead)

variable (c t declared)

def reader : Reader (List (List α) × List α) α where
  read := readMessage c t declared
  stable := readMessage_stable
  shrinks := readMessage_shrinks

variable {c t declared} {ls : List (List α)} {body : List α}

theorem reader_spells (hls : ∀ l ∈ ls, IsLine c l) (hlen : declared ls = some body.length) :
    (reader c t declared).Spells (message c t ls body) (ls, body) := by
  show readMessage c t declared _ = _
  simp [readMessage, head_message body hls (length_lt_message ls body), hlen]

/-- A body that is shorter than declared is still awaited. -/
theorem reader_none {n : Nat} (hls : ∀ l ∈ ls, IsLine c l) (hlen : declared ls = some n) (hshort : body.length < n) :
    (reader c t declared).read (message c t ls body) = none := by
  show readMessage c t declared _ = _
  simp [readMessage, head_message body hls (length_lt_message ls body), hlen, hshort]

end Messages

end Lines
