import HighPerformanceServer.CppStd
/-!
# `readn` and `writen` (this_util.cpp:8-53)

The kernel's answers to `read` and `write` on one descriptor are scripts, consumed one entry a
call; a call that finds its script empty is still waiting.

| here | there |
| --- | --- |
| `Errno`              | the values of `errno` the code tells apart; `none` is `0` |
| `ReadResult`         | what one `read` answers: `bytes []` is end of file |
| `WriteResult`        | what one `write` answers, for memory it can read |
| `readnLoop`, `readn` | the `while` of `readn` (:13-29); `errno` is the thread's, left alone by success |
| `writenLoop`, `writen` | the `while` of `writen` (:38-51) |

A buffer given to `write` is the list of the bytes that can be read there, which may be fewer than
the count it is called with: a pointer to unmapped memory is `[]`, and `write` answers `EFAULT`
where nothing can be read.
-/

namespace HPServer

open CppStd

inductive Errno where
  | eintr | eagain | other (code : Nat)
deriving DecidableEq, Repr

inductive ReadResult where
  | bytes (bs : Bytes)
  | error (e : Errno)
deriving DecidableEq, Repr

inductive WriteResult where
  | accepted (k : Nat)
  | error (e : Errno)
deriving DecidableEq, Repr

/-! ## `readn` -/

structure ReadnResult where
  ret : Int
  buff : Bytes
  errno : Option Errno
  rest : List ReadResult
deriving DecidableEq, Repr

/-- `nleft` bytes are still free behind the bytes `buff`. A `read` offered more than it asked for
takes what it asked for and leaves the rest for the next one. -/
def readnLoop : Option Errno → List ReadResult → Nat → Bytes → Exec ReadnResult
  | errno, script, 0, buff => .ok ⟨sizeToInt buff.length, buff, errno, script⟩
  | _, [], _ + 1, _ => .error .blocked
  | errno, .bytes bs :: script, nleft + 1, buff =>
    if bs = [] then .ok ⟨sizeToInt buff.length, buff, errno, script⟩
    else if nleft + 1 < bs.length then
      .ok ⟨sizeToInt (buff ++ bs.take (nleft + 1)).length, buff ++ bs.take (nleft + 1), errno,
        .bytes (bs.drop (nleft + 1)) :: script⟩
    else readnLoop errno script (nleft + 1 - bs.length) (buff ++ bs)
  | _, .error .eintr :: script, nleft + 1, buff => readnLoop (some .eintr) script (nleft + 1) buff
  | _, .error .eagain :: script, _ + 1, buff =>
    .ok ⟨sizeToInt buff.length, buff, some .eagain, script⟩
  | _, .error (.other e) :: script, _ + 1, buff => .ok ⟨-1, buff, some (.other e), script⟩

def readn (errno : Option Errno) (script : List ReadResult) (n : Nat) : Exec ReadnResult :=
  readnLoop errno script n []

/-- At most `n` bytes are read, and the result is their number or `-1`. -/
theorem readnLoop_ret : ∀ {script : List ReadResult} {errno : Option Errno} {nleft : Nat}
    {buff : Bytes} {x : ReadnResult}, readnLoop errno script nleft buff = .ok x →
    x.buff.length ≤ buff.length + nleft ∧ (x.ret = -1 ∨ x.ret = sizeToInt x.buff.length)
  | script, errno, 0, buff, x, h => by
    rw [readnLoop, Except.ok.injEq] at h; subst h; exact ⟨Nat.le_refl _, Or.inr (by dsimp only)⟩
  | [], errno, nleft + 1, buff, x, h => by rw [readnLoop] at h; cases h
  | .bytes bs :: script, errno, nleft + 1, buff, x, h => by
    rw [readnLoop] at h
    split at h
    · rw [Except.ok.injEq] at h; subst h; exact ⟨Nat.le_add_right _ _, Or.inr (by dsimp only)⟩
    split at h
    · rw [Except.ok.injEq] at h; subst h
      refine ⟨?_, Or.inr (by dsimp only)⟩
      rw [List.length_append, List.length_take]; omega
    · rename_i hle
      have ih := readnLoop_ret h
      rw [List.length_append] at ih
      exact ⟨by omega, ih.2⟩
  | .error .eintr :: script, errno, nleft + 1, buff, x, h => by
    rw [readnLoop] at h; exact readnLoop_ret h
  | .error .eagain :: script, errno, nleft + 1, buff, x, h => by
    rw [readnLoop, Except.ok.injEq] at h; subst h; exact ⟨Nat.le_add_right _ _, Or.inr (by dsimp only)⟩
  | .error (.other e) :: script, errno, nleft + 1, buff, x, h => by
    rw [readnLoop, Except.ok.injEq] at h; subst h; exact ⟨Nat.le_add_right _ _, Or.inl (by dsimp only)⟩

theorem readn_ret {errno : Option Errno} {script : List ReadResult} {n : Nat} {x : ReadnResult}
    (h : readn errno script n = .ok x) :
    x.buff.length ≤ n ∧ (x.ret = -1 ∨ x.ret = sizeToInt x.buff.length) := by
  simpa using readnLoop_ret h

/-! ## `writen` -/

structure WritenResult where
  sent : Bytes
  ret : Exec Int
  rest : List WriteResult
deriving DecidableEq

/-- `nleft` bytes are still to be sent from a pointer at which the bytes `mem` can be read; `sent`
are the bytes the socket has accepted. -/
def writenLoop : List WriteResult → Nat → Bytes → Bytes → WritenResult
  | script, 0, _, sent => ⟨sent, .ok (sizeToInt sent.length), script⟩
  | [], _ + 1, _, sent => ⟨sent, .error .blocked, []⟩
  | .accepted k :: script, nleft + 1, mem, sent =>
    if mem = [] then ⟨sent, .ok (-1), script⟩
    else
      let m := min k (min (nleft + 1) mem.length)
      writenLoop script (nleft + 1 - m) (mem.drop m) (sent ++ mem.take m)
  | .error .eintr :: script, nleft + 1, mem, sent => writenLoop script (nleft + 1) mem sent
  | .error .eagain :: script, nleft + 1, mem, sent => writenLoop script (nleft + 1) mem sent
  | .error (.other _) :: script, _ + 1, _, sent => ⟨sent, .ok (-1), script⟩

def writen (script : List WriteResult) (mem : Bytes) (n : Nat) : WritenResult :=
  writenLoop script n mem []

/-- `writen` can only wait or return. -/
theorem writenLoop_blocked {script : List WriteResult} : ∀ {nleft : Nat} {mem sent : Bytes} {h : Halt},
    (writenLoop script nleft mem sent).ret = .error h → h = .blocked := by
  induction script with
  | nil =>
    intro nleft mem sent h e
    cases nleft with
    | zero => rw [writenLoop] at e; cases e
    | succ n => rw [writenLoop] at e; cases e; rfl
  | cons w script ih =>
    intro nleft mem sent h e
    cases nleft with
    | zero => rw [writenLoop] at e; cases e
    | succ n =>
      match w, e with
      | .accepted k, e =>
        rw [writenLoop] at e
        split at e
        · cases e
        · exact ih e
      | .error .eintr, e => rw [writenLoop] at e; exact ih e
      | .error .eagain, e => rw [writenLoop] at e; exact ih e
      | .error (.other c), e => rw [writenLoop] at e; cases e

/-- What any socket gets, once `writen` returns: all of the `n` bytes, or a part of them that ends
too early. -/
theorem writenLoop_returns {script : List WriteResult} : ∀ {nleft : Nat} {mem sent : Bytes} {ret : Int},
    (writenLoop script nleft mem sent).ret = .ok ret →
    ((writenLoop script nleft mem sent).sent = sent ++ mem.take nleft ∧ nleft ≤ mem.length ∧
      ret = sizeToInt (sent.length + nleft)) ∨
    (ret = -1 ∧ (writenLoop script nleft mem sent).sent.length < sent.length + nleft ∧
      ∃ rest, (writenLoop script nleft mem sent).sent ++ rest = sent ++ mem.take nleft) := by
  induction script with
  | nil =>
    intro nleft mem sent ret h
    cases nleft with
    | zero => rw [writenLoop, Except.ok.injEq] at h; subst h; rw [writenLoop]; simp
    | succ n => rw [writenLoop] at h; cases h
  | cons w script ih =>
    intro nleft mem sent ret h
    cases nleft with
    | zero => rw [writenLoop, Except.ok.injEq] at h; subst h; rw [writenLoop]; simp
    | succ n =>
      match w, h with
      | .accepted k, h =>
        rw [writenLoop] at h ⊢
        split
        · rename_i hm
          rw [if_pos hm] at h; cases h
          exact Or.inr ⟨rfl, by simp, mem.take (n + 1), rfl⟩
        · rename_i hm
          rw [if_neg hm] at h
          generalize hk : min k (min (n + 1) mem.length) = m at h ⊢
          dsimp only
          have hmn : m ≤ n + 1 := by omega
          have hml : m ≤ mem.length := by omega
          have hlen : (sent ++ mem.take m).length = sent.length + m := by
            rw [List.length_append, List.length_take, Nat.min_eq_left hml]
          have hwhole : (sent ++ mem.take m) ++ (mem.drop m).take (n + 1 - m) = sent ++ mem.take (n + 1) := by
            rw [List.append_assoc, ← List.take_add, Nat.add_sub_cancel' hmn]
          rcases ih h with ⟨h1, h2, h3⟩ | ⟨h1, h2, rest, h3⟩
          · refine Or.inl ⟨h1.trans hwhole, ?_, ?_⟩
            · rw [List.length_drop] at h2; omega
            · rw [h3, hlen]; congr 1; omega
          · exact Or.inr ⟨h1, by omega, rest, h3.trans hwhole⟩
      | .error .eintr, h => rw [writenLoop] at h ⊢; exact ih h
      | .error .eagain, h => rw [writenLoop] at h ⊢; exact ih h
      | .error (.other e), h =>
        rw [writenLoop] at h ⊢
        cases h
        exact Or.inr ⟨rfl, by simp, mem.take (n + 1), rfl⟩

theorem writen_returns {script : List WriteResult} {mem : Bytes} {n : Nat} {ret : Int}
    (h : (writen script mem n).ret = .ok ret) :
    ((writen script mem n).sent = mem.take n ∧ n ≤ mem.length ∧ ret = sizeToInt n) ∨
    (ret = -1 ∧ (writen script mem n).sent.length < n ∧
      ∃ rest, (writen script mem n).sent ++ rest = mem.take n) := by
  simpa [writen] using writenLoop_returns h

/-- A socket that takes whatever readable memory it is given, at once or after a while. -/
def Accepting (script : List WriteResult) : Prop := ∀ w ∈ script, ∀ e, w ≠ .error (.other e)

theorem writenLoop_rest {script : List WriteResult} : ∀ {nleft : Nat} {mem sent : Bytes},
    Accepting script → Accepting (writenLoop script nleft mem sent).rest := by
  induction script with
  | nil => intro nleft mem sent h; cases nleft <;> simpa [writenLoop] using h
  | cons w script ih =>
    intro nleft mem sent h
    have h' : Accepting script := fun x hx => h x (by simp [hx])
    cases nleft with
    | zero => simpa [writenLoop] using h
    | succ n =>
      match w, h with
      | .accepted k, _ =>
        rw [writenLoop]
        split
        · exact h'
        · exact ih h'
      | .error .eintr, _ => rw [writenLoop]; exact ih h'
      | .error .eagain, _ => rw [writenLoop]; exact ih h'
      | .error (.other e), h => exact absurd rfl (h _ (by simp) e)

/-- What an accepting socket gets, once `writen` returns: all that can be read of the `n` bytes. -/
theorem writenLoop_accepting {script : List WriteResult} : ∀ {nleft : Nat} {mem sent : Bytes}
    {ret : Int}, Accepting script → (writenLoop script nleft mem sent).ret = .ok ret →
    (writenLoop script nleft mem sent).sent = sent ++ mem.take nleft ∧
      ret = if nleft ≤ mem.length then sizeToInt (sent.length + nleft) else -1 := by
  induction script with
  | nil =>
    intro nleft mem sent ret _ h
    cases nleft with
    | zero => rw [writenLoop] at h ⊢; rw [Except.ok.injEq] at h; subst h; simp
    | succ n => rw [writenLoop] at h; cases h
  | cons w script ih =>
    intro nleft mem sent ret hacc h
    have hacc' : Accepting script := fun x hx => hacc x (by simp [hx])
    cases nleft with
    | zero => rw [writenLoop] at h ⊢; rw [Except.ok.injEq] at h; subst h; simp
    | succ n =>
      match w, hacc, h with
      | .accepted k, _, h =>
        rw [writenLoop] at h ⊢
        split
        · rename_i hm
          rw [if_pos hm] at h; cases h
          subst hm; simp
        · rename_i hm
          rw [if_neg hm] at h
          have hlen : 0 < mem.length := List.length_pos_iff.mpr hm
          generalize hk : min k (min (n + 1) mem.length) = m at h ⊢
          have hmn : m ≤ n + 1 := by omega
          have hml : m ≤ mem.length := by omega
          obtain ⟨h1, h2⟩ := ih hacc' h
          rw [h1, h2]
          refine ⟨?_, ?_⟩
          · rw [List.append_assoc, ← List.take_add, Nat.add_sub_cancel' hmn]
          · have hd : (mem.drop m).length = mem.length - m := List.length_drop
            rw [hd, List.length_append, List.length_take, Nat.min_eq_left hml]
            by_cases hle : n + 1 ≤ mem.length
            · rw [if_pos (by omega), if_pos hle]; congr 1; omega
            · rw [if_neg (by omega), if_neg hle]
      | .error .eintr, _, h => rw [writenLoop] at h ⊢; exact ih hacc' h
      | .error .eagain, _, h => rw [writenLoop] at h ⊢; exact ih hacc' h
      | .error (.other e), hacc, _ => exact absurd rfl (hacc _ (by simp) e)

theorem writen_accepting {script : List WriteResult} {mem : Bytes} {n : Nat} {ret : Int}
    (hacc : Accepting script) (h : (writen script mem n).ret = .ok ret) :
    (writen script mem n).sent = mem.take n ∧
      ret = if n ≤ mem.length then sizeToInt n else -1 := by
  simpa [writen] using writenLoop_accepting hacc h

end HPServer
