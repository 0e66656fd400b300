import HighPerformanceServer.Io
import HighPerformanceServer.ScriptLoop
/-!
# `readn` and `writen`, call by call (this_util.cpp:8-53)

`Io.lean` has the two loops over one growing buffer. Here they have the locals of the source, and
every `read` and `write` is kept with the locals it was called with.

| here | there |
| --- | --- |
| `ReadnVars`  | `nleft`, `char_nums`, `ptr - buff` (:9-12), and the bytes behind `buff` |
| `readnPass`  | the body of the loop (:14-28) |
| `readnRun`   | `readn(fd, buff, n)` |
| `WritenVars` | `nleft`, `writeSum`, `ptr - buff` (:34-37) |
| `writenPass` | the body of the loop (:39-50) |
| `writenRun`  | `writen(fd, buff, n)` |

`nread` and `nwritten` are the answer of the call. `readnRun_readn` and `writenRun_writen` say that
the counters stay in step with the buffer of `Io.lean`.
-/

namespace HPServer

open CppStd

/-! ## `readn` -/

structure ReadnVars where
  nleft : Nat
  charNums : Nat
  ptr : Nat
  buff : Bytes
deriving DecidableEq

/-- Bytes that do not fit behind `ptr` are written outside the object. -/
def readnPass (v : ReadnVars) : ReadResult → ReadnVars ⊕ Exec Int
  | .error .eintr => .inl v
  | .error .eagain => .inr (.ok (sizeToInt v.charNums))
  | .error (.other _) => .inr (.ok (-1))
  | .bytes bs =>
    if bs = [] then .inr (.ok (sizeToInt v.charNums))
    else if v.ptr + bs.length ≤ v.buff.length then
      .inl { nleft := toSize ((v.nleft : Int) - bs.length)
             charNums := v.charNums + bs.length
             ptr := v.ptr + bs.length
             buff := v.buff.take v.ptr ++ bs ++ v.buff.drop (v.ptr + bs.length) }
    else .inr (.error .undefined)

def readnWhile : ScriptLoop ReadnVars ReadResult (Exec Int) where
  done v := if v.nleft = 0 then some (.ok (sizeToInt v.charNums)) else none
  pass := readnPass

/-- One `read`: the locals it is called with, and its answer. -/
abbrev ReadCall := ReadnVars × ReadResult

def readnRun (buff : Bytes) (n : Nat) (script : List ReadResult) :
    ScriptLoop.Run ReadnVars ReadResult (Exec Int) :=
  readnWhile.run ⟨n, 0, 0, buff⟩ script

/-- The kernel's side of `read`: no more bytes than asked for. -/
def ReadKept (v : ReadnVars) : ReadResult → Prop
  | .bytes bs => bs.length ≤ v.nleft
  | .error _ => True

instance (v : ReadnVars) : (a : ReadResult) → Decidable (ReadKept v a)
  | .bytes bs => inferInstanceAs (Decidable (bs.length ≤ v.nleft))
  | .error _ => isTrue trivial

/-- The bytes the calls have delivered, in order. -/
def delivered (calls : List ReadCall) : Bytes :=
  calls.flatMap fun c => match c.2 with
    | .bytes bs => bs
    | .error _ => []

/-- Answers behind which `readn` may call again. -/
def ReadResult.GoesOn : ReadResult → Prop
  | .bytes bs => bs ≠ []
  | .error e => e = .eintr

/-- The three counters in step: `ptr` stands behind the bytes delivered, `nleft` is what is free. -/
structure ReadnInv (n : Nat) (calls : List ReadCall) (v : ReadnVars) : Prop where
  count : v.charNums = v.ptr
  free : v.ptr + v.nleft = n
  size : v.buff.length = n
  filled : v.buff.take v.ptr = delivered calls
  goesOn : ∀ c ∈ calls, c.2.GoesOn

theorem delivered_append (calls : List ReadCall) (c : ReadCall) :
    delivered (calls ++ [c]) = delivered calls ++ delivered [c] := List.flatMap_append ..

section Readn

variable {n : Nat} {calls : List ReadCall} {v v' : ReadnVars}

theorem ReadnInv.start {buff : Bytes} (h : buff.length = n) : ReadnInv n [] ⟨n, 0, 0, buff⟩ where
  count := rfl
  free := Nat.zero_add n
  size := h
  filled := List.take_zero
  goesOn := by simp

/-- `ptr` counts the bytes delivered. -/
theorem ReadnInv.ptr_eq (h : ReadnInv n calls v) : v.ptr = (delivered calls).length := by
  rw [← h.filled, List.length_take, h.size]
  have := h.free
  omega

theorem readnPass_kept (hn : n < 18446744073709551616) (h : ReadnInv n calls v) {a : ReadResult}
    (ha : ReadKept v a) (hp : readnPass v a = .inl v') : ReadnInv n (calls ++ [(v, a)]) v' := by
  have hfree := h.free
  have hgoes : ∀ {a : ReadResult}, a.GoesOn → ∀ c ∈ calls ++ [(v, a)], c.2.GoesOn := by
    intro a ha c hc
    rcases List.mem_append.1 hc with hc | hc
    · exact h.goesOn c hc
    · rw [List.mem_singleton.1 hc]; exact ha
  match a, ha, hp with
  | .error .eintr, _, hp =>
    cases hp
    exact ⟨h.count, h.free, h.size, by rw [delivered_append, ← h.filled]; simp [delivered], hgoes rfl⟩
  | .bytes bs, ha, hp =>
    unfold ReadKept at ha
    simp only [readnPass] at hp
    split at hp
    · cases hp
    rename_i hne
    rw [if_pos (by rw [h.size]; omega)] at hp
    cases hp
    have hptr : (v.buff.take v.ptr).length = v.ptr := by
      rw [List.length_take, h.size]; omega
    have hleft : (v.nleft : Int) - bs.length = ((v.nleft - bs.length : Nat) : Int) := by omega
    refine ⟨by rw [h.count], ?_, ?_, ?_, hgoes hne⟩
    · rw [hleft, toSize_natCast (by omega)]
      show v.ptr + bs.length + (v.nleft - bs.length) = n
      omega
    · rw [List.length_append, List.length_append, hptr, List.length_drop, h.size]; omega
    · have hlen : (v.buff.take v.ptr ++ bs).length = v.ptr + bs.length := by
        rw [List.length_append, hptr]
      rw [← hlen, List.take_left, delivered_append, h.filled]
      simp [delivered]

/-- No call behind which the loop went on has brought another error. -/
theorem ReadnInv.no_other (h : ReadnInv n calls v) : ¬ ∃ c ∈ calls, ∃ e, c.2 = .error (.other e) := by
  rintro ⟨c, hc, e, he⟩
  have hgoes := h.goesOn c hc
  rw [he] at hgoes
  cases hgoes

/-- What the result of `readn` says of its calls and of the buffer. -/
structure ReadnReturned (n : Nat) (calls : List ReadCall) (buff : Bytes) (r : Int) : Prop where
  other : r = -1 ↔ ∃ c ∈ calls, ∃ e, c.2 = .error (.other e)
  count : r ≠ -1 → r = (delivered calls).length ∧ (delivered calls).length ≤ n
  filled : r ≠ -1 → buff.take (delivered calls).length = delivered calls
  ended : r ≠ -1 → (delivered calls).length < n →
    ∃ c ∈ calls, c.2 = .bytes [] ∨ c.2 = .error .eagain

theorem ReadnInv.result (h : ReadnInv n calls v) (hn : n ≤ 2147483647) :
    sizeToInt v.charNums = (delivered calls).length ∧ (delivered calls).length ≤ n := by
  have hfree := h.free
  rw [h.count, ← h.ptr_eq, sizeToInt_of_lt (by omega)]
  exact ⟨rfl, by omega⟩

theorem ReadnInv.full (h : ReadnInv n calls v) (hn : n ≤ 2147483647) (hzero : v.nleft = 0) :
    ReadnReturned n calls v.buff (sizeToInt v.charNums) := by
  obtain ⟨hr, hle⟩ := h.result hn
  have hfree := h.free
  have hptr := h.ptr_eq
  refine ⟨iff_of_false (by omega) h.no_other, fun _ => ⟨hr, hle⟩, fun _ => ?_, fun _ hlt => ?_⟩
  · rw [← hptr]; exact h.filled
  · omega

/-- A body that leaves the loop returns what the calls so far have delivered, or `-1`. -/
theorem ReadnInv.left (h : ReadnInv n calls v) (hn : n ≤ 2147483647) {a : ReadResult}
    (ha : ReadKept v a) {out : Exec Int} (hp : readnPass v a = .inr out) :
    ∃ r, out = .ok r ∧ ReadnReturned n (calls ++ [(v, a)]) v.buff r := by
  obtain ⟨hr, hle⟩ := h.result hn
  have hfree := h.free
  have hlast : (v, a) ∈ calls ++ [(v, a)] := by simp
  -- end of file and EAGAIN deliver nothing, and the loop is left with the count
  have stop : a = .bytes [] ∨ a = .error .eagain →
      ReadnReturned n (calls ++ [(v, a)]) v.buff (sizeToInt v.charNums) := by
    intro hstop
    have hdel : delivered (calls ++ [(v, a)]) = delivered calls := by
      rw [delivered_append]
      rcases hstop with rfl | rfl <;> simp [delivered]
    refine ⟨iff_of_false (by omega) ?_, fun _ => by rw [hdel]; exact ⟨hr, hle⟩, fun _ => ?_,
      fun _ _ => ⟨_, hlast, hstop⟩⟩
    · rintro ⟨c, hc, e, he⟩
      rcases List.mem_append.1 hc with hc | hc
      · exact h.no_other ⟨c, hc, e, he⟩
      · rw [List.mem_singleton.1 hc] at he
        rcases hstop with rfl | rfl <;> cases he
    · rw [hdel, ← h.ptr_eq]; exact h.filled
  match a, ha, hp with
  | .error .eagain, _, hp => cases hp; exact ⟨_, rfl, stop (Or.inr rfl)⟩
  | .error (.other e), _, hp =>
    cases hp
    exact ⟨-1, rfl, iff_of_true rfl ⟨_, hlast, e, rfl⟩, fun hne => absurd rfl hne,
      fun hne => absurd rfl hne, fun hne => absurd rfl hne⟩
  | .bytes bs, ha, hp =>
    unfold ReadKept at ha
    simp only [readnPass] at hp
    split at hp
    · rename_i hbs
      cases hp
      exact ⟨_, rfl, stop (Or.inl (by rw [hbs]))⟩
    · rw [if_pos (by rw [h.size]; omega)] at hp
      cases hp

end Readn

theorem readnWhile_done {v : ReadnVars} : readnWhile.done v = none ↔ 0 < v.nleft := by
  simp only [readnWhile]
  split
  · rename_i hzero; simp [hzero]
  · rename_i hpos; simp; omega

theorem readnWhile_full {v : ReadnVars} {out : Exec Int} (h : readnWhile.done v = some out) :
    v.nleft = 0 ∧ out = .ok (sizeToInt v.charNums) := by
  simp only [readnWhile] at h
  split at h
  · rename_i hzero; exact ⟨hzero, (Option.some.inj h).symm⟩
  · cases h

/-- **What `readn` does and returns**, for a kernel that gives no more than it is asked for. Each call
finds `ptr` behind the bytes delivered so far and asks for exactly the rest of the buffer, which is
not full, and only the answer of the last one can stop the loop. -/
theorem readn_exact {n : Nat} (hn : n ≤ 2147483647) {buff : Bytes} (hbuff : buff.length = n)
    {script : List ReadResult} (hkernel : ∀ c ∈ (readnRun buff n script).calls, ReadKept c.1 c.2)
    {out : Exec Int} (hret : (readnRun buff n script).result = some out) :
    script = (readnRun buff n script).calls.map Prod.snd ++ (readnRun buff n script).rest ∧
    (∀ pre v a post, (readnRun buff n script).calls = pre ++ (v, a) :: post →
      v.ptr = (delivered pre).length ∧ v.nleft = n - (delivered pre).length ∧
        (delivered pre).length < n ∧ (post ≠ [] → a.GoesOn)) ∧
    ∃ r, out = .ok r ∧
      ReadnReturned n (readnRun buff n script).calls (readnRun buff n script).final.buff r := by
  have hstep : ∀ calls v a v', ReadnInv n calls v → readnWhile.done v = none → ReadKept v a →
      readnWhile.pass v a = .inl v' → ReadnInv n (calls ++ [(v, a)]) v' :=
    fun _ _ _ _ hinv _ ha hp => readnPass_kept (by omega) hinv ha hp
  obtain ⟨-, -, hscript, -⟩ := ScriptLoop.run_cases (L := readnWhile) script ⟨n, 0, 0, buff⟩
  refine ⟨hscript, fun pre v a post hcalls => ?_, ?_⟩
  · obtain ⟨hinv, hd, hnext⟩ := ScriptLoop.run_call (ReadnInv.start hbuff) hstep hkernel hcalls
    have hfree := hinv.free
    have hleft := readnWhile_done.1 hd
    rw [← hinv.ptr_eq]
    refine ⟨rfl, by omega, by omega, fun hpost => ?_⟩
    obtain ⟨v', hp⟩ := hnext hpost
    have ha : ReadKept v a := hkernel (v, a) (by rw [hcalls]; simp)
    exact (readnPass_kept (by omega) hinv ha hp).goesOn (v, a) (by simp)
  · rcases ScriptLoop.run_result (ReadnInv.start hbuff) hstep hkernel hret with
      ⟨hinv, hd⟩ | ⟨pre, a, hcalls, hinv, -, hp⟩
    · obtain ⟨hzero, rfl⟩ := readnWhile_full hd
      exact ⟨_, rfl, hinv.full hn hzero⟩
    · have ha := hkernel ((readnRun buff n script).final, a) (by rw [readnRun, hcalls]; simp)
      obtain ⟨r, hout, hreturned⟩ := hinv.left hn ha hp
      exact ⟨r, hout, by rw [readnRun, hcalls]; exact hreturned⟩

/-- A short read, a retry, the rest of what has arrived, and an empty socket. -/
def helloInTwo : List ReadResult :=
  [.bytes (ascii "hel"), .error .eintr, .bytes (ascii "lo"), .error .eagain, .bytes (ascii "x")]

theorem helloInTwo_exact : ReadnReturned 8 (readnRun (List.replicate 8 NUL) 8 helloInTwo).calls
    (readnRun (List.replicate 8 NUL) 8 helloInTwo).final.buff 5 := by
  have hkernel : ∀ c ∈ (readnRun (List.replicate 8 NUL) 8 helloInTwo).calls, ReadKept c.1 c.2 := by decide
  have hret : (readnRun (List.replicate 8 NUL) 8 helloInTwo).result = some (.ok 5) := by decide
  obtain ⟨-, -, r, hr, hreturned⟩ := readn_exact (by decide) List.length_replicate hkernel hret
  cases hr
  exact hreturned

/-- What `Io.lean` keeps of a run. -/
def ReadnSame (before : List ReadCall) (run : ScriptLoop.Run ReadnVars ReadResult (Exec Int))
    (out : Exec ReadnResult) : Prop :=
  out.map (fun x => (x.ret, x.buff, x.rest)) =
    match run.result with
    | none => .error .blocked
    | some ret => ret.map fun r => (r, delivered (before ++ run.calls), run.rest)

/-- The loop of `Io.lean` from any point of the run on. -/
theorem readnLoop_same {n : Nat} (hn : n < 18446744073709551616) {script : List ReadResult} :
    ∀ {before : List ReadCall} {v : ReadnVars} (errno : Option Errno), ReadnInv n before v →
    (∀ c ∈ (readnWhile.run v script).calls, ReadKept c.1 c.2) →
    ReadnSame before (readnWhile.run v script) (readnLoop errno script v.nleft (delivered before)) := by
  induction script with
  | nil =>
    intro before v errno h _
    have hcount : v.charNums = (delivered before).length := h.count.trans h.ptr_eq
    cases hleft : v.nleft with
    | zero => simp [ReadnSame, readnLoop, ScriptLoop.run, readnWhile, hleft, hcount, Except.map]
    | succ m => simp [ReadnSame, readnLoop, ScriptLoop.run, readnWhile, hleft, Except.map]
  | cons a script ih =>
    intro before v errno h hkernel
    have hcount : v.charNums = (delivered before).length := h.count.trans h.ptr_eq
    cases hleft : v.nleft with
    | zero => simp [ReadnSame, readnLoop, ScriptLoop.run, readnWhile, hleft, hcount, Except.map]
    | succ m =>
      have hd : readnWhile.done v = none := readnWhile_done.2 (by omega)
      have ha : ReadKept v a := hkernel (v, a) (ScriptLoop.mem_run hd a script)
      -- a pass that goes on leaves the rest of both runs
      have next : ∀ (v' : ReadnVars) (errno' : Option Errno), readnPass v a = .inl v' →
          ReadnSame before (readnWhile.run v (a :: script))
            (readnLoop errno' script v'.nleft (delivered (before ++ [(v, a)]))) := by
        intro v' errno' hp
        rw [ScriptLoop.run_again hd hp] at hkernel ⊢
        have hrest := ih errno' (readnPass_kept hn h ha hp) fun c hc =>
          hkernel c (List.mem_cons_of_mem _ hc)
        unfold ReadnSame at hrest ⊢
        rw [hrest, List.append_assoc]
        rfl
      cases a with
      | error e =>
        have hnone : delivered (before ++ [(v, .error e)]) = delivered before := by
          rw [delivered_append]; simp [delivered]
        cases e with
        | eintr =>
          have hrest := next v (some .eintr) rfl
          rwa [hnone, hleft] at hrest
        | eagain =>
          rw [readnLoop, ScriptLoop.run_left hd (r := .ok (sizeToInt v.charNums)) rfl]
          simp [ReadnSame, Except.map, hcount, hnone]
        | other e =>
          rw [readnLoop, ScriptLoop.run_left hd (r := .ok (-1)) rfl]
          simp [ReadnSame, Except.map, hnone]
      | bytes bs =>
        have hmore : delivered (before ++ [(v, .bytes bs)]) = delivered before ++ bs := by
          rw [delivered_append]; simp [delivered]
        have hle : bs.length ≤ v.nleft := ha
        have hfree := h.free
        by_cases hbs : bs = []
        · have hp : readnWhile.pass v (.bytes bs) = .inr (.ok (sizeToInt v.charNums)) := if_pos hbs
          rw [readnLoop, if_pos hbs, ScriptLoop.run_left hd hp]
          subst hbs
          simp [ReadnSame, Except.map, hcount, hmore]
        · have hsub : toSize ((v.nleft : Int) - bs.length) = m + 1 - bs.length := by
            rw [hleft, show ((m + 1 : Nat) : Int) - bs.length = ((m + 1 - bs.length : Nat) : Int) by omega,
              toSize_natCast (by omega)]
          have hrest := next _ errno (by
            rw [readnPass, if_neg hbs, if_pos (show v.ptr + bs.length ≤ v.buff.length by rw [h.size]; omega)])
          rw [hmore, hsub] at hrest
          rwa [readnLoop, if_neg hbs, if_neg (by omega)]

/-- **The counters compute what `readn` of `Io.lean` does.** -/
theorem readnRun_readn {n : Nat} (hn : n < 18446744073709551616) {buff : Bytes} (hbuff : buff.length = n)
    {script : List ReadResult} (hkernel : ∀ c ∈ (readnRun buff n script).calls, ReadKept c.1 c.2)
    (errno : Option Errno) : ReadnSame [] (readnRun buff n script) (readn errno script n) :=
  readnLoop_same hn errno (ReadnInv.start hbuff) hkernel

/-! ## `writen` -/

structure WritenVars where
  nleft : Nat
  writeSum : Nat
  ptr : Nat
deriving DecidableEq

/-- A `write` of nothing falls through to the counters. -/
def writenPass (v : WritenVars) : WriteResult → WritenVars ⊕ Int
  | .error .eintr | .error .eagain => .inl v
  | .error (.other _) => .inr (-1)
  | .accepted k =>
    .inl { nleft := toSize ((v.nleft : Int) - k), writeSum := v.writeSum + k, ptr := v.ptr + k }

def writenWhile : ScriptLoop WritenVars WriteResult Int where
  done v := if v.nleft = 0 then some (sizeToInt v.writeSum) else none
  pass := writenPass

/-- One `write`: the locals it is called with, and its answer. -/
abbrev WriteCall := WritenVars × WriteResult

def writenRun (n : Nat) (script : List WriteResult) : ScriptLoop.Run WritenVars WriteResult Int :=
  writenWhile.run ⟨n, 0, 0⟩ script

/-- The kernel's side of `write`: no more bytes than offered. -/
def WriteKept (v : WritenVars) : WriteResult → Prop
  | .accepted k => k ≤ v.nleft
  | .error _ => True

instance (v : WritenVars) : (a : WriteResult) → Decidable (WriteKept v a)
  | .accepted k => inferInstanceAs (Decidable (k ≤ v.nleft))
  | .error _ => isTrue trivial

/-- The bytes the calls have handed over, each from where its `ptr` stood. -/
def handedOver (buff : Bytes) (calls : List WriteCall) : Bytes :=
  calls.flatMap fun c => match c.2 with
    | .accepted k => (buff.drop c.1.ptr).take k
    | .error _ => []

theorem handedOver_append (buff : Bytes) (calls : List WriteCall) (c : WriteCall) :
    handedOver buff (calls ++ [c]) = handedOver buff calls ++ handedOver buff [c] := List.flatMap_append ..

/-- The three counters in step: what has been handed over is the buffer up to `ptr`. -/
structure WritenInv (buff : Bytes) (calls : List WriteCall) (v : WritenVars) : Prop where
  count : v.writeSum = v.ptr
  left : v.ptr + v.nleft = buff.length
  sent : handedOver buff calls = buff.take v.ptr
  retried : ¬ ∃ c ∈ calls, ∃ e, c.2 = .error (.other e)

section Writen

variable {buff : Bytes} {calls : List WriteCall} {v v' : WritenVars}

theorem WritenInv.start : WritenInv buff [] ⟨buff.length, 0, 0⟩ :=
  ⟨rfl, Nat.zero_add _, rfl, by simp⟩

theorem WritenInv.snoc_retried (h : WritenInv buff calls v) {a : WriteResult}
    (ha : ∀ e, a ≠ .error (.other e)) : ¬ ∃ c ∈ calls ++ [(v, a)], ∃ e, c.2 = .error (.other e) := by
  rintro ⟨c, hc, e, he⟩
  rcases List.mem_append.1 hc with hc | hc
  · exact h.retried ⟨c, hc, e, he⟩
  · rw [List.mem_singleton.1 hc] at he
    exact ha e he

theorem writenPass_kept (hn : buff.length < 18446744073709551616) (h : WritenInv buff calls v)
    {a : WriteResult} (ha : WriteKept v a) (hp : writenPass v a = .inl v') :
    WritenInv buff (calls ++ [(v, a)]) v' := by
  have hleft := h.left
  match a, ha, hp with
  | .error .eintr, _, hp =>
    cases hp
    exact ⟨h.count, hleft, by rw [handedOver_append, h.sent]; simp [handedOver], h.snoc_retried (by simp)⟩
  | .error .eagain, _, hp =>
    cases hp
    exact ⟨h.count, hleft, by rw [handedOver_append, h.sent]; simp [handedOver], h.snoc_retried (by simp)⟩
  | .accepted k, ha, hp =>
    unfold WriteKept at ha
    cases hp
    have hsub : (v.nleft : Int) - k = ((v.nleft - k : Nat) : Int) := by omega
    refine ⟨by rw [h.count], ?_, ?_, h.snoc_retried (by simp)⟩
    · rw [hsub, toSize_natCast (by omega)]
      show v.ptr + k + (v.nleft - k) = buff.length
      omega
    · rw [handedOver_append, h.sent, List.take_add]
      simp [handedOver]

/-- What the result of `writen` says of its calls. -/
structure WritenReturned (buff : Bytes) (calls : List WriteCall) (ret : Int) : Prop where
  whole : ret = buff.length ↔ handedOver buff calls = buff
  other : ret = -1 ↔ ∃ c ∈ calls, ∃ e, c.2 = .error (.other e)
  only : ret = buff.length ∨ ret = -1

theorem WritenInv.full (h : WritenInv buff calls v) (hn : buff.length ≤ 2147483647)
    (hzero : v.nleft = 0) : WritenReturned buff calls (sizeToInt v.writeSum) := by
  have hleft := h.left
  have hr : sizeToInt v.writeSum = buff.length := by
    rw [h.count, sizeToInt_of_lt (by omega)]; omega
  refine ⟨iff_of_true hr ?_, iff_of_false (by omega) h.retried, Or.inl hr⟩
  rw [h.sent, List.take_of_length_le (by omega)]

/-- The loop is left from inside only by another error, with bytes still to be sent. -/
theorem WritenInv.failed (h : WritenInv buff calls v) (hopen : 0 < v.nleft) {a : WriteResult}
    {ret : Int} (hp : writenPass v a = .inr ret) : WritenReturned buff (calls ++ [(v, a)]) ret ∧
      handedOver buff (calls ++ [(v, a)]) = buff.take v.ptr := by
  have hleft := h.left
  match a, hp with
  | .error (.other e), hp =>
    cases hp
    have hsent : handedOver buff (calls ++ [(v, .error (.other e))]) = buff.take v.ptr := by
      rw [handedOver_append, h.sent]; simp [handedOver]
    refine ⟨⟨iff_of_false (by omega) fun hall => ?_, iff_of_true rfl ⟨(v, _), by simp, e, rfl⟩,
      Or.inr rfl⟩, hsent⟩
    have hlen := congrArg List.length (hsent.symm.trans hall)
    rw [List.length_take] at hlen
    omega

end Writen

theorem writenWhile_done {v : WritenVars} : writenWhile.done v = none ↔ 0 < v.nleft := by
  simp only [writenWhile]
  split
  · rename_i hzero; simp [hzero]
  · rename_i hpos; simp; omega

theorem writenWhile_full {v : WritenVars} {ret : Int} (h : writenWhile.done v = some ret) :
    v.nleft = 0 ∧ ret = sizeToInt v.writeSum := by
  simp only [writenWhile] at h
  split at h
  · rename_i hzero; exact ⟨hzero, (Option.some.inj h).symm⟩
  · cases h

/-- **What `writen` hands over and returns**, for a kernel that takes no more than it is offered. At
every moment the bytes handed over are a prefix of the buffer, each call offers exactly the rest of
it, and the result is the length of the buffer or `-1`. -/
theorem writen_exact {buff : Bytes} (hn : buff.length ≤ 2147483647) {script : List WriteResult}
    (hkernel : ∀ c ∈ (writenRun buff.length script).calls, WriteKept c.1 c.2) {ret : Int}
    (hret : (writenRun buff.length script).result = some ret) :
    script = (writenRun buff.length script).calls.map Prod.snd ++ (writenRun buff.length script).rest ∧
    (∀ pre post, (writenRun buff.length script).calls = pre ++ post → handedOver buff pre <+: buff) ∧
    (∀ pre v a post, (writenRun buff.length script).calls = pre ++ (v, a) :: post →
      handedOver buff pre = buff.take v.ptr ∧ v.ptr + v.nleft = buff.length) ∧
    WritenReturned buff (writenRun buff.length script).calls ret := by
  have hstep : ∀ calls v a v', WritenInv buff calls v → writenWhile.done v = none → WriteKept v a →
      writenWhile.pass v a = .inl v' → WritenInv buff (calls ++ [(v, a)]) v' :=
    fun _ _ _ _ hinv _ ha hp => writenPass_kept (by omega) hinv ha hp
  obtain ⟨-, -, hscript, -⟩ := ScriptLoop.run_cases (L := writenWhile) script ⟨buff.length, 0, 0⟩
  have hcall : ∀ pre v a post, (writenRun buff.length script).calls = pre ++ (v, a) :: post →
      handedOver buff pre = buff.take v.ptr ∧ v.ptr + v.nleft = buff.length := by
    intro pre v a post hcalls
    obtain ⟨hinv, -⟩ := ScriptLoop.run_call WritenInv.start hstep hkernel hcalls
    exact ⟨hinv.sent, hinv.left⟩
  have hend : WritenReturned buff (writenRun buff.length script).calls ret ∧
      ∃ k, handedOver buff (writenRun buff.length script).calls = buff.take k := by
    rcases ScriptLoop.run_result WritenInv.start hstep hkernel hret with
      ⟨hinv, hd⟩ | ⟨pre, a, hcalls, hinv, hd, hp⟩
    · obtain ⟨hzero, hsum⟩ := writenWhile_full hd
      exact ⟨hsum ▸ hinv.full hn hzero, _, hinv.sent⟩
    · obtain ⟨hreturned, hsent⟩ := hinv.failed (writenWhile_done.1 hd) hp
      rw [writenRun, hcalls]
      exact ⟨hreturned, _, hsent⟩
  refine ⟨hscript, fun pre post hcalls => ?_, hcall, hend.1⟩
  cases post with
  | nil =>
    obtain ⟨k, hk⟩ := hend.2
    rw [List.append_nil] at hcalls
    rw [← hcalls, hk]
    exact List.take_prefix ..
  | cons c post =>
    rw [(hcall pre c.1 c.2 post hcalls).1]
    exact List.take_prefix ..

/-- A full socket, half of the text, a `write` of nothing, and the rest. -/
theorem helloInThree_exact : WritenReturned (ascii "hello")
    (writenRun 5 [.error .eagain, .accepted 3, .accepted 0, .accepted 2]).calls 5 := by
  have hkernel : ∀ c ∈ (writenRun (ascii "hello").length
      [.error .eagain, .accepted 3, .accepted 0, .accepted 2]).calls, WriteKept c.1 c.2 := by decide
  have hret : (writenRun (ascii "hello").length
      [.error .eagain, .accepted 3, .accepted 0, .accepted 2]).result = some 5 := by decide
  exact (writen_exact (by decide) hkernel hret).2.2.2

/-- What `Io.lean` keeps of a run. -/
def WritenSame (buff : Bytes) (before : List WriteCall)
    (run : ScriptLoop.Run WritenVars WriteResult Int) (out : WritenResult) : Prop :=
  out = ⟨handedOver buff (before ++ run.calls), match run.result with
    | none => .error .blocked
    | some ret => .ok ret, run.rest⟩

/-- The loop of `Io.lean` from any point of the run on. -/
theorem writenLoop_same {buff : Bytes} (hn : buff.length < 18446744073709551616)
    {script : List WriteResult} : ∀ {before : List WriteCall} {v : WritenVars}, WritenInv buff before v →
    (∀ c ∈ (writenWhile.run v script).calls, WriteKept c.1 c.2) →
    WritenSame buff before (writenWhile.run v script)
      (writenLoop script v.nleft (buff.drop v.ptr) (handedOver buff before)) := by
  have hdone : ∀ {before : List WriteCall} {v : WritenVars} (script : List WriteResult),
      WritenInv buff before v → v.nleft = 0 → WritenSame buff before (writenWhile.run v script)
        (writenLoop script v.nleft (buff.drop v.ptr) (handedOver buff before)) := by
    intro before v script h hzero
    have hleft := h.left
    have hsum : v.writeSum = (handedOver buff before).length := by
      rw [h.sent, h.count, List.length_take]; omega
    cases script <;> simp [WritenSame, writenLoop, ScriptLoop.run, writenWhile, hzero, hsum]
  induction script with
  | nil =>
    intro before v h _
    cases hleft : v.nleft with
    | zero => simpa [hleft] using hdone [] h hleft
    | succ m => simp [WritenSame, writenLoop, ScriptLoop.run, writenWhile, hleft]
  | cons a script ih =>
    intro before v h hkernel
    cases hleft : v.nleft with
    | zero => simpa [hleft] using hdone (a :: script) h hleft
    | succ m =>
      have hd : writenWhile.done v = none := writenWhile_done.2 (by omega)
      have ha : WriteKept v a := hkernel (v, a) (ScriptLoop.mem_run hd a script)
      -- a pass that goes on leaves the rest of both runs
      have next : ∀ v' : WritenVars, writenPass v a = .inl v' →
          WritenSame buff before (writenWhile.run v (a :: script))
            (writenLoop script v'.nleft (buff.drop v'.ptr) (handedOver buff (before ++ [(v, a)]))) := by
        intro v' hp
        rw [ScriptLoop.run_again hd hp] at hkernel ⊢
        have hrest := ih (writenPass_kept hn h ha hp) fun c hc => hkernel c (List.mem_cons_of_mem _ hc)
        unfold WritenSame at hrest ⊢
        rw [hrest, List.append_assoc]
        rfl
      cases a with
      | error e =>
        have hnone : handedOver buff (before ++ [(v, .error e)]) = handedOver buff before := by
          rw [handedOver_append]; simp [handedOver]
        cases e with
        | eintr =>
          have hrest := next v rfl
          rwa [hnone, hleft] at hrest
        | eagain =>
          have hrest := next v rfl
          rwa [hnone, hleft] at hrest
        | other e =>
          rw [writenLoop, ScriptLoop.run_left hd (r := (-1 : Int)) rfl]
          simp [WritenSame, hnone]
      | accepted k =>
        have hk : k ≤ v.nleft := ha
        have hlen := h.left
        have hmem : (buff.drop v.ptr).length = m + 1 := by rw [List.length_drop]; omega
        have hmore : handedOver buff (before ++ [(v, .accepted k)]) =
            handedOver buff before ++ (buff.drop v.ptr).take k := by
          rw [handedOver_append]; simp [handedOver]
        have hsub : toSize ((v.nleft : Int) - k) = m + 1 - k := by
          rw [hleft, show ((m + 1 : Nat) : Int) - k = ((m + 1 - k : Nat) : Int) by omega,
            toSize_natCast (by omega)]
        have hrest := next _ rfl
        rw [hmore, hsub] at hrest
        rw [writenLoop, if_neg (by intro e; rw [e] at hmem; cases hmem), hmem, Nat.min_self,
          Nat.min_eq_left (by omega)]
        dsimp only
        rw [List.drop_drop]
        exact hrest

/-- **The counters compute what `writen` of `Io.lean` does.** -/
theorem writenRun_writen {buff : Bytes} (hn : buff.length < 18446744073709551616)
    {script : List WriteResult}
    (hkernel : ∀ c ∈ (writenRun buff.length script).calls, WriteKept c.1 c.2) :
    WritenSame buff [] (writenRun buff.length script) (writen script buff buff.length) :=
  writenLoop_same hn WritenInv.start hkernel

end HPServer
