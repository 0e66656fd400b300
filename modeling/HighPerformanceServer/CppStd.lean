import Mathlib.Data.Nat.Digits.Defs
/-!
# Bytes, `std::string` and integer conversions

What a C++ program on a 64-bit Linux ABI gets from its standard library: byte strings, the
`std::string` searches and cuts, the implicit conversions between `size_t` and `int`, decimal
printing and `std::stoi`. A call that throws, that has no defined behaviour, or that the
environment has not yet answered ends in a `Halt` instead of a value.

| here | there |
| --- | --- |
| `find`, `npos`          | `s.find(c, pos)`; `none` is `npos`, which `toInt` takes to `-1` |
| `substr`                | `s.substr(pos, n)`, throwing when `pos > s.size()` |
| `slice`                 | `std::string(s.begin() + a, s.begin() + b)` |
| `toInt`, `toSize`       | `size_t → int` and `int → size_t` |
| `incr`                  | `pos + 1` on `int` |
| `decimal`               | `%d`, `%zu`, `%ld` and `std::to_string` on a non-negative number |
| `stoi`                  | `std::stoi(s)` |
-/

namespace CppStd

abbrev Byte := UInt8
abbrev Bytes := List Byte

/-- What a call can end in when it does not return. -/
inductive Halt where
  /-- `std::out_of_range` is thrown. -/
  | outOfRange
  /-- `std::invalid_argument` is thrown. -/
  | invalidArgument
  /-- The behaviour is undefined: a read outside an object, an overflow of `int`. -/
  | undefined
  /-- The environment has no further answer: the call is still waiting. -/
  | blocked
deriving DecidableEq, Repr

/-- The halts that are C++ exceptions. -/
def Halt.isException : Halt → Bool
  | .outOfRange | .invalidArgument => true
  | .undefined | .blocked => false

abbrev Exec := Except Halt

instance {α : Type} [DecidableEq α] : DecidableEq (Exec α)
  | .ok a, .ok b => decidable_of_iff (a = b) ⟨fun h => h ▸ rfl, fun h => by cases h; rfl⟩
  | .error a, .error b => decidable_of_iff (a = b) ⟨fun h => h ▸ rfl, fun h => by cases h; rfl⟩
  | .ok _, .error _ => isFalse (by simp)
  | .error _, .ok _ => isFalse (by simp)

/-- A sequence of calls returns when each of them does. -/
theorem bind_eq_ok {ε α β : Type} {x : Except ε α} {f : α → Except ε β} {b : β} :
    (x >>= f) = .ok b ↔ ∃ a, x = .ok a ∧ f a = .ok b := by
  cases x <;> simp [bind, Except.bind]

/-- The bytes of a C string literal. -/
def ascii (s : String) : Bytes := s.toList.map fun c => UInt8.ofNat c.toNat

def NUL : Byte := 0
def LF : Byte := 10
def CR : Byte := 13
def SP : Byte := 32
def DOT : Byte := 46
def SLASH : Byte := 47
def COLON : Byte := 58
def QMARK : Byte := 63
def CRLF : Bytes := [CR, LF]

/-- What `s.c_str()` shows to a C function: the bytes before the first NUL. -/
def cStr (s : Bytes) : Bytes := s.takeWhile (· ≠ NUL)

/-! ## Integer conversions -/

/-- `size_t` to `int`: the residue modulo `2^32` in `[-2^31, 2^31)`. -/
def sizeToInt (n : Nat) : Int := Int.bmod n 4294967296

/-- The `int` that a `find` result is stored in. -/
def toInt : Option Nat → Int
  | none => -1
  | some n => sizeToInt n

/-- `int` to `size_t`: modulo `2^64`. -/
def toSize (x : Int) : Nat := (x % 18446744073709551616).toNat

/-- `pos + 1` on `int`; signed overflow is undefined. -/
def incr (x : Int) : Exec Int := if x = 2147483647 then .error .undefined else .ok (x + 1)

theorem sizeToInt_of_lt {n : Nat} (h : n < 2147483648) : sizeToInt n = n := by
  unfold sizeToInt; rw [Int.bmod_def]; omega

theorem sizeToInt_cases (n : Nat) : sizeToInt n < 0 ∨ sizeToInt n = n ∨
    ∃ k : Nat, sizeToInt n = k ∧ k < 2147483648 ∧ k + 4294967296 ≤ n := by
  have h : sizeToInt n = if (n : Int) % 4294967296 < 2147483648 then (n : Int) % 4294967296
      else (n : Int) % 4294967296 - 4294967296 := by
    unfold sizeToInt; rw [Int.bmod_def]; rfl
  rw [h]
  split
  · rename_i hlt
    by_cases hn : n < 4294967296
    · exact Or.inr (Or.inl (by omega))
    · exact Or.inr (Or.inr ⟨n % 4294967296, by omega, by omega, by omega⟩)
  · exact Or.inl (by omega)

theorem toSize_natCast {n : Nat} (h : n < 18446744073709551616) : toSize n = n := by
  unfold toSize; omega

/-- A negative `int` becomes a `size_t` of at least `2^64 - 2^31`. -/
theorem toSize_of_neg {x : Int} (h : x < 0) (hlo : -2147483648 ≤ x) :
    18446744071562067968 ≤ toSize x := by
  unfold toSize; omega

theorem toSize_succ {n : Nat} (h : n < 2147483647) : toSize ((n : Int) + 1) = n + 1 := by
  unfold toSize; omega

theorem incr_of_lt {n : Nat} (h : n < 2147483647) : incr n = .ok ((n : Int) + 1) := by
  unfold incr; rw [if_neg (by omega)]

/-! ## Searching and cutting -/

/-- `s.find(c, pos)`. -/
def find (s : Bytes) (c : Byte) (pos : Nat) : Option Nat :=
  if pos ≤ s.length then ((s.drop pos).findIdx? (· == c)).map (· + pos) else none

/-- `npos`, the default length of `substr`. -/
def npos : Nat := 18446744073709551615

/-- `s.substr(pos, n)`; the length `npos` means up to the end. -/
def substr (s : Bytes) (pos n : Nat) : Exec Bytes :=
  if pos ≤ s.length then .ok (if n = npos then s.drop pos else (s.drop pos).take n)
  else .error .outOfRange

/-- `std::string(s.begin() + a, s.begin() + b)`; iterators outside the string are undefined. -/
def slice (s : Bytes) (a b : Int) : Exec Bytes :=
  if 0 ≤ a ∧ a ≤ b ∧ b ≤ s.length then .ok ((s.drop a.toNat).take (b - a).toNat)
  else .error .undefined

theorem findIdx?_append_of_notMem {p : Bytes} {c : Byte} (h : c ∉ p) (q : Bytes) :
    (p ++ c :: q).findIdx? (· == c) = some p.length := by
  induction p with
  | nil => simp [List.findIdx?_cons]
  | cons x xs ih =>
    have hx : (x == c) = false := by simp; exact fun e => h (by simp [e])
    simp [List.findIdx?_cons, hx, ih (fun hm => h (by simp [hm]))]

theorem find_append {p : Bytes} {c : Byte} (h : c ∉ p) (q : Bytes) :
    find (p ++ c :: q) c 0 = some p.length := by
  simp only [find, Nat.zero_le, if_true, List.drop_zero, findIdx?_append_of_notMem h]
  simp

/-- Two strings cut at their first `c` are cut alike. -/
theorem cut_unique {p q p' q' : Bytes} {c : Byte} (hp : c ∉ p) (hp' : c ∉ p')
    (h : p ++ c :: q = p' ++ c :: q') : p = p' ∧ q = q' := by
  have hlen : p.length = p'.length := by
    have hfind := find_append hp q
    rw [h, find_append hp' q'] at hfind
    exact (Option.some.inj hfind).symm
  obtain ⟨hpp, hqq⟩ := List.append_inj h hlen
  exact ⟨hpp, (List.cons.inj hqq).2⟩

/-- A search from the start splits the string at the first match. -/
theorem find_zero_some {s : Bytes} {c : Byte} {n : Nat} (h : find s c 0 = some n) :
    c ∉ s.take n ∧ s = s.take n ++ c :: s.drop (n + 1) ∧ n < s.length := by
  simp only [find, Nat.zero_le, if_true, List.drop_zero, Option.map_eq_some_iff, Nat.add_zero] at h
  obtain ⟨m, hm, rfl⟩ := h
  rw [List.findIdx?_eq_some_iff_getElem] at hm
  obtain ⟨hlt, hc, hbefore⟩ := hm
  have hcm : s[m] = c := by simpa using hc
  refine ⟨?_, ?_, hlt⟩
  · intro hmem
    obtain ⟨i, hi, e⟩ := List.getElem_of_mem hmem
    have him : i < m := by simp at hi; omega
    have := hbefore i him
    simp only [List.getElem_take] at e
    simp [e] at this
  · rw [← hcm, List.getElem_cons_drop hlt, List.take_append_drop]

theorem find_zero_none {s : Bytes} {c : Byte} (h : find s c 0 = none) : c ∉ s := by
  intro hm
  simp only [find, Nat.zero_le, if_true, List.drop_zero, Option.map_eq_none_iff,
    List.findIdx?_eq_none_iff] at h
  simpa using h c hm

theorem find_of_notMem {s : Bytes} {c : Byte} (h : c ∉ s) : find s c 0 = none := by
  cases hf : find s c 0 with
  | none => rfl
  | some n =>
    obtain ⟨-, hcut, -⟩ := find_zero_some hf
    exact absurd (by rw [hcut]; simp) h

theorem substr_zero {n : Nat} (s : Bytes) (h : n ≠ npos) : substr s 0 n = .ok (s.take n) := by
  simp [substr, h]

theorem substr_npos {s : Bytes} {pos : Nat} (hp : pos ≤ s.length) :
    substr s pos npos = .ok (s.drop pos) := by
  simp [substr, hp]

theorem slice_ok {s : Bytes} {a b : Nat} (h1 : a ≤ b) (h2 : b ≤ s.length) :
    slice s a b = .ok ((s.drop a).take (b - a)) := by
  unfold slice
  rw [if_pos ⟨by omega, by omega, by omega⟩]
  congr 2; omega

theorem slice_neg {s : Bytes} {a b : Int} (h : a < 0) : slice s a b = .error .undefined := by
  unfold slice; rw [if_neg (by omega)]

/-! ## Numbers as text -/

/-- The decimal digits of a number. -/
def decimal (n : Nat) : Bytes := (Nat.toDigits 10 n).map fun c => UInt8.ofNat c.toNat

def isDigit (c : Byte) : Bool := 48 ≤ c && c ≤ 57
/-- `isspace` in the C locale. -/
def isSpace (c : Byte) : Bool := c == 32 || (9 ≤ c && c ≤ 13)

/-- The number a digit string denotes. -/
def natOf (ds : Bytes) : Nat := ds.foldl (fun a d => a * 10 + (d.toNat - 48)) 0

/-- The sign `strtol` accepts: whether the number is negative, and the bytes after the sign. -/
def sign : Bytes → Bool × Bytes
  | 45 :: s => (true, s)
  | 43 :: s => (false, s)
  | s => (false, s)

/-- The range check `std::stoi` makes on what `strtol` read. -/
def intRange (n : Int) : Exec Int :=
  if n < -2147483648 ∨ 2147483647 < n then .error .outOfRange else .ok n

/-- `std::stoi(s)`: leading white space, a sign, then the longest run of digits. -/
def stoi (s : Bytes) : Exec Int :=
  let (neg, t) := sign (s.dropWhile isSpace)
  let ds := t.takeWhile isDigit
  if ds = [] then .error .invalidArgument
  else intRange (if neg then -(natOf ds : Int) else natOf ds)

theorem intRange_ok {m n : Int} (h : intRange m = .ok n) : -2147483648 ≤ n ∧ n ≤ 2147483647 := by
  unfold intRange at h
  split at h
  · cases h
  · cases h; omega

theorem intRange_error {m : Int} {e : Halt} (h : intRange m = .error e) : e.isException = true := by
  unfold intRange at h
  split at h
  · cases h; rfl
  · cases h

theorem stoi_range {s : Bytes} {n : Int} (h : stoi s = .ok n) : -2147483648 ≤ n ∧ n ≤ 2147483647 := by
  unfold stoi at h
  dsimp only at h
  split at h
  · cases h
  · exact intRange_ok h

/-- `std::stoi` returns, or throws one of its two exceptions. -/
theorem stoi_error {s : Bytes} {e : Halt} (h : stoi s = .error e) : e.isException = true := by
  unfold stoi at h
  dsimp only at h
  split at h
  · cases h; rfl
  · exact intRange_error h

theorem natOf_append (ds : Bytes) (d : Byte) : natOf (ds ++ [d]) = natOf ds * 10 + (d.toNat - 48) := by
  simp [natOf]

theorem digit_toNat {d : Nat} (h : d < 10) : (UInt8.ofNat (Nat.digitChar d).toNat).toNat = 48 + d := by
  rw [Nat.toNat_digitChar_of_lt_ten h, UInt8.toNat_ofNat']; omega

/-- Printing a number and reading it back. -/
theorem natOf_decimal (n : Nat) : natOf (decimal n) = n := by
  induction n using Nat.strongRecOn with
  | ind n ih =>
    unfold decimal
    rw [Nat.toDigits_eq_if (by decide)]
    split
    · rename_i h; simp [natOf, digit_toNat h]
    · rename_i h
      have hq := ih (n / 10) (by omega)
      unfold decimal at hq
      rw [List.map_append, List.map_singleton, natOf_append, hq, digit_toNat (by omega)]
      omega

theorem decimal_inj {m n : Nat} (h : decimal m = decimal n) : m = n := by
  rw [← natOf_decimal m, h, natOf_decimal]

theorem decimal_digits {n : Nat} : ∀ c ∈ decimal n, isDigit c = true := by
  induction n using Nat.strongRecOn with
  | ind n ih =>
    have key : ∀ d, d < 10 → isDigit (UInt8.ofNat (Nat.digitChar d).toNat) = true := by
      decide
    unfold decimal
    rw [Nat.toDigits_eq_if (by decide)]
    split
    · rename_i h; intro c hc; simp only [List.map_singleton, List.mem_singleton] at hc
      subst hc; exact key n h
    · rename_i h
      intro c hc
      rw [List.map_append, List.map_singleton, List.mem_append, List.mem_singleton] at hc
      rcases hc with hc | rfl
      · exact ih (n / 10) (by omega) c hc
      · exact key _ (by omega)

theorem decimal_length {n : Nat} (h : n < 10 ^ 19) : (decimal n).length ≤ 19 := by
  unfold decimal
  rw [List.length_map]
  exact (Nat.length_toDigits_le_iff (by decide) (by decide)).2 h

end CppStd
