import Mathlib.Data.Nat.Digits.Defs
import Mathlib.Tactic.IntervalCases

/-!
# Go's `strconv` package

`strconv.ParseUint`, `strconv.ParseInt` and `strconv.Atoi` in base 10, the only base the
repository passes, on a string as its list of characters. A value is accumulated digit by digit
as `Nat.ofDigitChars` does, and checked against the largest value of the bit size after every
digit, so an overflowing string fails with `ErrRange` at the digit that overflows.

`parseUint_eq_ok_iff` says what each accepts: a non-empty string of decimal digits whose value
fits in the bit size, and `atoi_digits` the same for `Atoi` on a digit string.

`formatHex` is `strconv.FormatUint(n, 16)`, which `%x` prints; the hexadecimal value of what it
writes is `n` (`hexValue_formatHex`), so it is injective.
-/

namespace Gobpf.Go

/-- `strconv.ErrSyntax` and `strconv.ErrRange`. -/
inductive NumErr where
  | errSyntax
  | errRange
  deriving DecidableEq, Repr

/-- `strconv.NumError`: the function that failed, its input, and why. -/
structure NumError where
  func : String
  num : List Char
  err : NumErr
  deriving DecidableEq, Repr

/-- The digit loop of `ParseUint` in base 10 on the input `s0`: every character must be a
decimal digit, and the value after each digit at most `maxVal`. -/
def parseUintDigits (s0 : List Char) (maxVal : Nat) : List Char → Nat → Except NumError Nat
  | [], n => .ok n
  | c :: cs, n =>
    if c.isDigit then
      if maxVal < 10 * n + (c.toNat - '0'.toNat) then .error ⟨"ParseUint", s0, .errRange⟩
      else parseUintDigits s0 maxVal cs (10 * n + (c.toNat - '0'.toNat))
    else .error ⟨"ParseUint", s0, .errSyntax⟩

/-- `strconv.ParseUint(s, 10, bitSize)` for `0 ≤ bitSize ≤ 64`; a bit size of 0 is Go's `int`
size, 64. The check that `n * 10` overflows 64 bits is subsumed by the one against `maxVal`. -/
def parseUint (s : List Char) (bitSize : Nat) : Except NumError Nat :=
  if s = [] then .error ⟨"ParseUint", s, .errSyntax⟩
  else parseUintDigits s (2 ^ (if bitSize = 0 then 64 else bitSize) - 1) s 0

/-- The optional sign that `ParseInt` and `Atoi` cut off: whether it is `-`, and the rest. -/
def cutSign : List Char → Bool × List Char
  | '+' :: t => (false, t)
  | '-' :: t => (true, t)
  | t => (false, t)

/-- `strconv.ParseInt(s, 10, bitSize)`: an optional sign, then `ParseUint`, then the signed
range of the bit size. -/
def parseInt (s : List Char) (bitSize : Nat) : Except NumError Int :=
  let size := if bitSize = 0 then 64 else bitSize
  let (neg, digits) := cutSign s
  if s = [] then .error ⟨"ParseInt", s, .errSyntax⟩
  else
    match parseUint digits size with
    | .error ⟨_, _, .errSyntax⟩ => .error ⟨"ParseInt", s, .errSyntax⟩
    | .error ⟨_, _, .errRange⟩ => .error ⟨"ParseInt", s, .errRange⟩
    | .ok un =>
      if !neg && 2 ^ (size - 1) ≤ un then .error ⟨"ParseInt", s, .errRange⟩
      else if neg && 2 ^ (size - 1) < un then .error ⟨"ParseInt", s, .errRange⟩
      else .ok (if neg then -(un : Int) else un)

/-- The fast path of `strconv.Atoi` for strings shorter than 19 bytes: an optional sign, then
decimal digits, which cannot overflow a 64-bit `int`. -/
def atoiFast (s0 : List Char) : Except NumError Int :=
  let (neg, s) := cutSign s0
  if s = [] then .error ⟨"Atoi", s0, .errSyntax⟩
  else if s.all Char.isDigit then
    let n : Int := Nat.ofDigitChars 10 s 0
    .ok (if neg then -n else n)
  else .error ⟨"Atoi", s0, .errSyntax⟩

/-- `strconv.Atoi(s)` on a 64-bit platform: the fast path for `0 < len(s) < 19`, else
`ParseInt(s, 10, 0)` with the error's function renamed. -/
def atoi (s : List Char) : Except NumError Int :=
  if 0 < s.length ∧ s.length < 19 then atoiFast s
  else (parseInt s 0).mapError fun e => { e with func := "Atoi" }

/-! ## What `ParseUint` accepts -/

/-- The value of a digit string only grows as digits are appended. -/
theorem le_ofDigitChars (w : List Char) (n : Nat) : n ≤ Nat.ofDigitChars 10 w n := by
  rw [Nat.ofDigitChars_eq_ofDigitChars_zero]
  have := Nat.one_le_pow w.length 10 (by decide)
  calc n ≤ 10 ^ w.length * n := Nat.le_mul_of_pos_left n this
    _ ≤ 10 ^ w.length * n + Nat.ofDigitChars 10 w 0 := Nat.le_add_right _ _

/-- The digit loop succeeds exactly on digit strings whose value stays at most `maxVal`; since
the value only grows, checking it after the last digit is enough. -/
theorem parseUintDigits_eq_ok_iff {s0 : List Char} {maxVal : Nat} (w : List Char) (n v : Nat) :
    parseUintDigits s0 maxVal w n = .ok v ↔
      (∀ c ∈ w, c.isDigit) ∧ v = Nat.ofDigitChars 10 w n ∧ (w ≠ [] → v ≤ maxVal) := by
  induction w generalizing n with
  | nil =>
    simp only [parseUintDigits, Except.ok.injEq, List.not_mem_nil, Nat.ofDigitChars_nil]
    exact ⟨fun h => ⟨nofun, h.symm, nofun⟩, fun h => h.2.1.symm⟩
  | cons c cs ih =>
    have hgrow := le_ofDigitChars cs (10 * n + (c.toNat - '0'.toNat))
    simp only [parseUintDigits, Nat.ofDigitChars_cons, List.mem_cons, forall_eq_or_imp]
    by_cases hc : c.isDigit
    · by_cases hmax : maxVal < 10 * n + (c.toNat - '0'.toNat)
      · simp only [hc, hmax, if_true, reduceCtorEq, false_iff]
        rintro ⟨-, rfl, hle⟩
        exact absurd (hle (List.cons_ne_nil _ _)) (by omega)
      · simp only [hc, hmax, if_true, if_false, ih, true_and]
        constructor
        · rintro ⟨hd, rfl, hle⟩
          refine ⟨hd, rfl, fun _ => ?_⟩
          cases cs with
          | nil => simpa using Nat.le_of_not_lt hmax
          | cons _ _ => exact hle (List.cons_ne_nil _ _)
        · rintro ⟨hd, rfl, hle⟩
          exact ⟨hd, rfl, fun _ => hle (List.cons_ne_nil _ _)⟩
    · simp [hc]

/-- **What `ParseUint` accepts.** `ParseUint(w, 10, b)` returns `v` exactly when `w` is a
non-empty decimal digit string of value `v` below `2^b`. -/
theorem parseUint_eq_ok_iff {w : List Char} {b v : Nat} (hb : 0 < b) :
    parseUint w b = .ok v ↔
      w ≠ [] ∧ (∀ c ∈ w, c.isDigit) ∧ v = Nat.ofDigitChars 10 w 0 ∧ v < 2 ^ b := by
  have hpos := Nat.one_le_two_pow (n := b)
  unfold parseUint
  by_cases hw : w = []
  · simp [hw]
  · rw [if_neg hw, if_neg (Nat.pos_iff_ne_zero.1 hb), parseUintDigits_eq_ok_iff]
    constructor
    · rintro ⟨hd, rfl, hle⟩
      exact ⟨hw, hd, rfl, by have := hle hw; omega⟩
    · rintro ⟨-, hd, rfl, hlt⟩
      exact ⟨hd, rfl, fun _ => by omega⟩

/-- `ParseUint` reads back the decimal digits `Nat.toDigits` writes. -/
theorem parseUint_toDigits {n b : Nat} (hb : 0 < b) (hn : n < 2 ^ b) :
    parseUint (Nat.toDigits 10 n) b = .ok n :=
  (parseUint_eq_ok_iff hb).2 ⟨Nat.toDigits_ne_nil,
    fun _ hc => Nat.isDigit_of_mem_toDigits (by decide) (by decide) hc,
    Nat.ofDigitChars_ten_toDigits.symm, hn⟩

/-! ## What `Atoi` returns on a digit string -/

theorem digit_sub_lt_ten {c : Char} (h : c.isDigit = true) : c.toNat - '0'.toNat < 10 := by
  have := Char.isDigit_iff_toNat.1 h
  simp only [Char.reduceToNat] at this ⊢
  omega

/-- A digit string of length `k` has a value below `10^k`. -/
theorem ofDigitChars_lt_pow {w : List Char} (hd : ∀ c ∈ w, c.isDigit = true) (n : Nat) :
    Nat.ofDigitChars 10 w n < 10 ^ w.length * (n + 1) := by
  induction w generalizing n with
  | nil => simp
  | cons c w ih =>
    have hc := digit_sub_lt_ten (hd c List.mem_cons_self)
    rw [Nat.ofDigitChars_cons, List.length_cons, Nat.pow_succ]
    calc Nat.ofDigitChars 10 w (10 * n + (c.toNat - '0'.toNat))
        < 10 ^ w.length * (10 * n + (c.toNat - '0'.toNat) + 1) :=
          ih (fun d hd' => hd d (List.mem_cons_of_mem c hd')) _
      _ ≤ 10 ^ w.length * 10 * (n + 1) := by
          rw [Nat.mul_assoc]
          exact Nat.mul_le_mul_left _ (by omega)

theorem cutSign_of_isDigit {c : Char} (hc : c.isDigit = true) (w : List Char) :
    cutSign (c :: w) = (false, c :: w) := by
  unfold cutSign
  split
  · rename_i t h
    cases h
    simp at hc
  · rename_i t h
    cases h
    simp at hc
  · rfl

/-- **`Atoi` on a digit string** returns its value, when the value fits in 63 bits. -/
theorem atoi_digits {w : List Char} (hne : w ≠ []) (hd : ∀ c ∈ w, c.isDigit = true) {a : Int} :
    atoi w = .ok a ↔ a = Nat.ofDigitChars 10 w 0 ∧ Nat.ofDigitChars 10 w 0 < 2 ^ 63 := by
  obtain ⟨c, w', rfl⟩ := List.exists_cons_of_ne_nil hne
  have hsign := cutSign_of_isDigit (hd c List.mem_cons_self) w'
  unfold atoi
  split
  · rename_i hlen
    have hlt := ofDigitChars_lt_pow hd 0
    have h18 : 10 ^ (c :: w').length ≤ 10 ^ 18 := Nat.pow_le_pow_right (by omega) (by omega)
    have hall : (c :: w').all Char.isDigit = true := List.all_eq_true.2 hd
    simp only [atoiFast, hsign, hall, if_true, reduceCtorEq, if_false, Bool.false_eq_true,
      Except.ok.injEq]
    constructor
    · rintro rfl
      exact ⟨rfl, by omega⟩
    · rintro ⟨rfl, -⟩
      rfl
  · have hval : ∀ un, parseUint (c :: w') 64 = .ok un ↔
        un = Nat.ofDigitChars 10 (c :: w') 0 ∧ un < 2 ^ 64 := by
      intro un
      rw [parseUint_eq_ok_iff (by omega)]
      exact ⟨fun h => h.2.2, fun h => ⟨List.cons_ne_nil _ _, hd, h⟩⟩
    simp only [parseInt, hsign, reduceIte, reduceCtorEq, if_false, Nat.add_one_sub_one]
    cases hp : parseUint (c :: w') 64 with
    | error e =>
      obtain ⟨func, num, err⟩ := e
      have hbig : ¬ Nat.ofDigitChars 10 (c :: w') 0 < 2 ^ 63 := fun hlt =>
        absurd ((hval _).2 ⟨rfl, by omega⟩) (by rw [hp]; exact nofun)
      cases err <;> simp only [Except.mapError, reduceCtorEq, false_iff, not_and] <;> omega
    | ok un =>
      obtain ⟨rfl, -⟩ := (hval un).1 hp
      simp only [Bool.not_false, Bool.true_and, Bool.false_and, decide_eq_true_eq,
        Bool.false_eq_true, if_false]
      split_ifs with hle
      · simp only [Except.mapError, reduceCtorEq, false_iff, not_and]
        omega
      · simp only [Except.mapError, Except.ok.injEq]
        constructor
        · rintro rfl
          exact ⟨rfl, by omega⟩
        · rintro ⟨rfl, -⟩
          rfl

/-! ## `FormatUint` in base 16 -/

/-- `strconv.FormatUint(n, 16)`, which is also what `%x` prints of an unsigned integer: lowercase
hexadecimal digits, without leading zeros. -/
def formatHex (n : Nat) : List Char := Nat.toDigits 16 n

/-- The value of a lowercase hexadecimal digit. -/
def hexDigitValue (c : Char) : Nat :=
  if c.isDigit then c.toNat - '0'.toNat else c.toNat - 'a'.toNat + 10

/-- The value of a string of lowercase hexadecimal digits, most significant first. -/
def hexValue (s : List Char) : Nat :=
  s.foldl (fun acc c => 16 * acc + hexDigitValue c) 0

theorem hexDigitValue_digitChar {d : Nat} (hd : d < 16) : hexDigitValue d.digitChar = d := by
  interval_cases d <;> rfl

theorem hexValue_append_digitChar (s : List Char) {d : Nat} (hd : d < 16) :
    hexValue (s ++ [d.digitChar]) = 16 * hexValue s + d := by
  simp [hexValue, List.foldl_append, hexDigitValue_digitChar hd]

/-- What `formatHex` writes reads back as the number, by induction on the digits. -/
theorem hexValue_formatHex (n : Nat) : hexValue (formatHex n) = n := by
  induction n using Nat.strong_induction_on with
  | _ n ih =>
    unfold formatHex at ih ⊢
    rw [Nat.toDigits_eq_if (by norm_num)]
    split_ifs with hn
    · simpa [hexValue] using hexValue_append_digitChar [] hn
    · rw [hexValue_append_digitChar _ (Nat.mod_lt _ (by norm_num)), ih (n / 16) (by omega)]
      omega

theorem formatHex_injective : Function.Injective formatHex := fun a b h => by
  rw [← hexValue_formatHex a, h, hexValue_formatHex]

/-- Every character `formatHex` writes is a hexadecimal digit. -/
theorem mem_formatHex {n : Nat} {c : Char} (hc : c ∈ formatHex n) : ∃ d < 16, c = d.digitChar := by
  induction n using Nat.strong_induction_on with
  | _ n ih =>
    unfold formatHex at hc ih
    rw [Nat.toDigits_eq_if (by norm_num)] at hc
    split_ifs at hc with hn
    · exact ⟨n, hn, by simpa using hc⟩
    · rcases List.mem_append.1 hc with hc | hc
      · exact ih (n / 16) (by omega) hc
      · exact ⟨n % 16, Nat.mod_lt _ (by norm_num), by simpa using hc⟩

theorem underscore_not_mem_formatHex (n : Nat) : '_' ∉ formatHex n := by
  intro hc
  obtain ⟨d, hd, hdc⟩ := mem_formatHex hc
  interval_cases d <;> simp at hdc

end Gobpf.Go
