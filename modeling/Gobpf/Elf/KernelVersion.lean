import Gobpf.Go.Regexp
import Gobpf.Go.Strconv
import Gobpf.Go.Int

/-!
# `KernelVersionFromReleaseString`

A kernel release string is matched against `versionRegex`, `^(\d+)\.(\d+).(\d+).*$`, and its three
groups are read with `strconv.Atoi` into a `LINUX_VERSION_CODE`, `a*65536 + b*256 + c` in Go's
`int`, truncated to `uint32`.

On the documented format `a.b.c[-suffix]` the groups are `a`, `b` and `c`
(`versionRegex_head?_format`), so the code is read as documented
(`kernelVersionFromReleaseString_format`). The second separator of the pattern is an unescaped
`.`, which matches any character but a newline, so strings outside the format are accepted too.
Whatever is accepted, every group captured a non-empty digit string (`versionRegex_captures`), so
the numbers read are never negative (`releaseNumbers_nonneg`), and the code is monotone in them
while each lower component stays below 256.
-/

namespace Gobpf.Elf

open Gobpf.Go Regex

/-- `versionRegex`, `^(\d+)\.(\d+).(\d+).*$`. -/
def versionRegex : Regex :=
  seq beginText (seq (group 1 (plus digit)) (seq (char '.') (seq (group 2 (plus digit))
    (seq dot (seq (group 3 (plus digit)) (seq (star true dot) endText))))))

/-- The errors of `KernelVersionFromReleaseString`. -/
inductive KernelVersionError where
  /-- `got invalid release version %q (expected format '4.3.2-1')`. -/
  | invalidRelease (releaseString : List Char)
  /-- The error of `strconv.Atoi` on a group. -/
  | atoi (err : NumError)

/-- `KernelVersionFromReleaseString`: the check that `FindStringSubmatch` returned four strings
is the match on a list of four. -/
def kernelVersionFromReleaseString (releaseString : List Char) :
    Except KernelVersionError Nat :=
  match findStringSubmatch versionRegex 3 releaseString with
  | [_, a, b, c] => do
    let major ← (atoi a).mapError .atoi
    let minor ← (atoi b).mapError .atoi
    let patch ← (atoi c).mapError .atoi
    let out := goInt (major * 256 * 256 + minor * 256 + patch)
    return toUint32 out
  | _ => throw (.invalidRelease releaseString)

/-- The numbers `KernelVersionFromReleaseString` reads from the three groups of `versionRegex`. -/
def releaseNumbers (releaseString : List Char) : Option (Int × Int × Int) :=
  match findStringSubmatch versionRegex 3 releaseString with
  | [_, a, b, c] =>
    match atoi a, atoi b, atoi c with
    | .ok x, .ok y, .ok z => some (x, y, z)
    | _, _, _ => none
  | _ => none

/-! ## The result from the numbers read -/

/-- `KernelVersionFromReleaseString` succeeds exactly when the three groups are read, with the
code of the three numbers. -/
theorem kernelVersionFromReleaseString_eq_ok_iff {r : List Char} {v : Nat} :
    kernelVersionFromReleaseString r = .ok v ↔
      ∃ x y z, releaseNumbers r = some (x, y, z) ∧
        v = toUint32 (goInt (x * 256 * 256 + y * 256 + z)) := by
  unfold kernelVersionFromReleaseString releaseNumbers
  split
  · rename_i a b c _
    cases atoi a <;> cases atoi b <;> cases atoi c <;>
      simp [Except.mapError, bind, Except.bind, pure, Except.pure, eq_comm]
  · simp [throw, throwThe, MonadExceptOf.throw]

/-! ## What the groups capture -/

/-- Each group of `versionRegex` captures a non-empty digit string. -/
theorem versionRegex_captures {i : Nat} {w : List Char} (h : w ∈ versionRegex.captures i) :
    w ≠ [] ∧ ∀ c ∈ w, c.isDigit = true := by
  simp only [versionRegex, captures, plus, digit, char, dot, Language.mem_add, mem_ite_zero,
    Language.notMem_zero, false_or, or_false] at h
  rcases h with ⟨-, h⟩ | ⟨-, h⟩ | ⟨-, h⟩ <;> exact mem_of_mem_lang_plus_cls h

/-- `Atoi` fails on the empty string. -/
theorem atoi_nil_ne_ok (a : Int) : atoi [] ≠ .ok a := by
  simp [atoi, parseInt, Except.mapError]

/-- A group read by `Atoi` captured a non-empty digit string, whose value it is. -/
theorem atoi_capture {caps : Nat → Option (List Char)}
    (hcaps : ∀ i w, caps i = some w → w ∈ versionRegex.captures i) {i : Nat} {x : Int}
    (h : atoi ((caps i).getD []) = .ok x) :
    ∃ w, caps i = some w ∧ x = Nat.ofDigitChars 10 w 0 := by
  cases hc : caps i with
  | none =>
    rw [hc] at h
    exact absurd h (atoi_nil_ne_ok x)
  | some w =>
    rw [hc] at h
    obtain ⟨hne, hd⟩ := versionRegex_captures (hcaps i w hc)
    exact ⟨w, rfl, ((atoi_digits hne hd).1 h).1⟩

/-- The numbers read from a release string are never negative. -/
theorem releaseNumbers_nonneg {r : List Char} {x y z : Int}
    (h : releaseNumbers r = some (x, y, z)) : 0 ≤ x ∧ 0 ≤ y ∧ 0 ≤ z := by
  unfold releaseNumbers at h
  split at h
  · rename_i m a b c hm
    obtain ⟨caps, hcaps, hparts⟩ := findStringSubmatch_captures hm
    simp only [List.range_succ, List.range_zero, List.map_cons, List.map_nil, List.nil_append,
      List.cons_append, List.cons.injEq] at hparts
    obtain ⟨rfl, rfl, rfl, -⟩ := hparts
    split at h
    · rename_i x' y' z' ha hb hc
      simp only [Option.some.injEq, Prod.mk.injEq] at h
      obtain ⟨rfl, rfl, rfl⟩ := h
      obtain ⟨_, -, rfl⟩ := atoi_capture hcaps ha
      obtain ⟨_, -, rfl⟩ := atoi_capture hcaps hb
      obtain ⟨_, -, rfl⟩ := atoi_capture hcaps hc
      exact ⟨Int.natCast_nonneg _, Int.natCast_nonneg _, Int.natCast_nonneg _⟩
    · cases h
  · cases h

/-! ## Monotonicity -/

/-- The code of three numbers in range is their `LINUX_VERSION_CODE`, with no wrap. -/
theorem toUint32_versionCode {a b c : Int} (ha : 0 ≤ a ∧ a < 2 ^ 16) (hb : 0 ≤ b ∧ b < 256)
    (hc : 0 ≤ c ∧ c < 256) :
    (toUint32 (goInt (a * 256 * 256 + b * 256 + c)) : Int) = a * 65536 + b * 256 + c := by
  rw [toUint32_goInt, toUint32_of_lt (by omega) (by omega)]
  omega

/-- A successful read of a release string, as its three numbers and its code. -/
theorem versionCode_of_ok {r : List Char} {a b c : Int} {v : Nat}
    (h : releaseNumbers r = some (a, b, c)) (hv : kernelVersionFromReleaseString r = .ok v) :
    v = toUint32 (goInt (a * 256 * 256 + b * 256 + c)) := by
  obtain ⟨x, y, z, hn, rfl⟩ := kernelVersionFromReleaseString_eq_ok_iff.1 hv
  rw [h] at hn
  simp only [Option.some.injEq, Prod.mk.injEq] at hn
  obtain ⟨rfl, rfl, rfl⟩ := hn
  rfl

/-- `4.9.337` and `4.10.0`: the patch level carries into the minor number, and the code of the
smaller release is the larger. -/
theorem kernelVersion_carry_unordered :
    releaseNumbers ['4', '.', '9', '.', '3', '3', '7'] = some (4, 9, 337) ∧
      releaseNumbers ['4', '.', '1', '0', '.', '0'] = some (4, 10, 0) ∧
      kernelVersionFromReleaseString ['4', '.', '9', '.', '3', '3', '7'] = .ok 264785 ∧
      kernelVersionFromReleaseString ['4', '.', '1', '0', '.', '0'] = .ok 264704 ∧
      ¬ 264785 ≤ 264704 :=
  ⟨by decide, by decide, kernelVersionFromReleaseString_eq_ok_iff.2 ⟨4, 9, 337, by decide, by decide⟩,
    kernelVersionFromReleaseString_eq_ok_iff.2 ⟨4, 10, 0, by decide, by decide⟩, by decide⟩

/-- **Monotonicity below 256.** While the minor and patch numbers stay below 256 and the major
number below `2^16`, a release with lexicographically smaller numbers has a code no larger. -/
theorem kernelVersion_monotone {r₁ r₂ : List Char} {a₁ b₁ c₁ a₂ b₂ c₂ : Int} {v₁ v₂ : Nat}
    (h₁ : releaseNumbers r₁ = some (a₁, b₁, c₁)) (h₂ : releaseNumbers r₂ = some (a₂, b₂, c₂))
    (hv₁ : kernelVersionFromReleaseString r₁ = .ok v₁)
    (hv₂ : kernelVersionFromReleaseString r₂ = .ok v₂)
    (hb₁ : b₁ < 256) (hc₁ : c₁ < 256) (hb₂ : b₂ < 256) (hc₂ : c₂ < 256) (ha₂ : a₂ < 2 ^ 16)
    (hlex : a₁ < a₂ ∨ a₁ = a₂ ∧ (b₁ < b₂ ∨ b₁ = b₂ ∧ c₁ ≤ c₂)) :
    v₁ ≤ v₂ := by
  obtain ⟨ha₁0, hb₁0, hc₁0⟩ := releaseNumbers_nonneg h₁
  obtain ⟨ha₂0, hb₂0, hc₂0⟩ := releaseNumbers_nonneg h₂
  have ha₁ : a₁ < 2 ^ 16 := by omega
  have e₁ := toUint32_versionCode ⟨ha₁0, ha₁⟩ ⟨hb₁0, hb₁⟩ ⟨hc₁0, hc₁⟩
  have e₂ := toUint32_versionCode ⟨ha₂0, ha₂⟩ ⟨hb₂0, hb₂⟩ ⟨hc₂0, hc₂⟩
  rw [← versionCode_of_ok h₁ hv₁] at e₁
  rw [← versionCode_of_ok h₂ hv₂] at e₂
  omega

/-- `4.9.10` and `4.10.0`. -/
theorem kernelVersion_monotone_minor :
    releaseNumbers ['4', '.', '9', '.', '1', '0'] = some (4, 9, 10) ∧
      releaseNumbers ['4', '.', '1', '0', '.', '0'] = some (4, 10, 0) ∧ 264458 ≤ 264704 := by
  have h₁ : releaseNumbers ['4', '.', '9', '.', '1', '0'] = some (4, 9, 10) := by decide
  have h₂ : releaseNumbers ['4', '.', '1', '0', '.', '0'] = some (4, 10, 0) := by decide
  have hv₁ : kernelVersionFromReleaseString ['4', '.', '9', '.', '1', '0'] = .ok 264458 :=
    kernelVersionFromReleaseString_eq_ok_iff.2 ⟨4, 9, 10, h₁, by decide⟩
  have hv₂ : kernelVersionFromReleaseString ['4', '.', '1', '0', '.', '0'] = .ok 264704 :=
    kernelVersionFromReleaseString_eq_ok_iff.2 ⟨4, 10, 0, h₂, by decide⟩
  exact ⟨h₁, h₂, kernelVersion_monotone h₁ h₂ hv₁ hv₂ (by decide) (by decide) (by decide)
    (by decide) (by decide) (by decide)⟩

/-! ## The documented format -/

section Format
variable {A B C R : List Char}

/-- On `A.B.C R`, with `A`, `B`, `C` digit strings and `R` neither starting with a digit nor
holding a newline, the first match at the start takes `A`, `B` and `C` as the groups. -/
theorem versionRegex_head?_format (hA : A ≠ [] ∧ ∀ c ∈ A, c.isDigit = true)
    (hB : B ≠ [] ∧ ∀ c ∈ B, c.isDigit = true) (hC : C ≠ [] ∧ ∀ c ∈ C, c.isDigit = true)
    (hR : ∀ d ∈ R.head?, d.isDigit = false) (hRn : '\n' ∉ R) :
    (backtrack (A ++ '.' :: (B ++ '.' :: (C ++ R))).length versionRegex
        ⟨A ++ '.' :: (B ++ '.' :: (C ++ R)), fun _ => none⟩).head? =
      some ⟨[], Function.update (Function.update (Function.update (fun _ => none) 1 (some A))
        2 (some B)) 3 (some C)⟩ := by
  have hR' : ∀ c ∈ R, (c != '\n') = true := fun c hc => by
    simpa using ne_of_mem_of_not_mem hc hRn
  unfold versionRegex
  refine head?_seq_of_head? (head?_beginText rfl) ?_
  refine head?_seq_of_head? (head?_group rfl (head?_plus_cls hA.1 hA.2 (by simp))) ?_
  refine head?_seq_of_head? (head?_char_self '.' _) ?_
  refine head?_seq_of_head? (head?_group rfl (head?_plus_cls hB.1 hB.2 (by simp))) ?_
  refine head?_seq_of_head? (head?_cls_cons (by decide) _) ?_
  refine head?_seq_of_head? (head?_group rfl (head?_plus_cls hC.1 hC.2 hR)) ?_
  refine head?_seq_of_head? (by simpa [dot] using head?_star_cls (s := []) hR' (by simp)) ?_
  exact head?_endText _

/-- **The documented format is read as documented.** -/
theorem kernelVersionFromReleaseString_format (hA : A ≠ [] ∧ ∀ c ∈ A, c.isDigit = true)
    (hB : B ≠ [] ∧ ∀ c ∈ B, c.isDigit = true) (hC : C ≠ [] ∧ ∀ c ∈ C, c.isDigit = true)
    (hR : ∀ d ∈ R.head?, d.isDigit = false) (hRn : '\n' ∉ R)
    (ha : Nat.ofDigitChars 10 A 0 < 2 ^ 63) (hb : Nat.ofDigitChars 10 B 0 < 2 ^ 63)
    (hc : Nat.ofDigitChars 10 C 0 < 2 ^ 63) :
    kernelVersionFromReleaseString (A ++ '.' :: (B ++ '.' :: (C ++ R))) =
      .ok (toUint32 ((Nat.ofDigitChars 10 A 0 : Int) * 65536 + Nat.ofDigitChars 10 B 0 * 256 +
        Nat.ofDigitChars 10 C 0)) := by
  have hparts := findStringSubmatch_of_head? (k := 3) (versionRegex_head?_format hA hB hC hR hRn)
  have hxA := (atoi_digits hA.1 hA.2).2 ⟨rfl, ha⟩
  have hxB := (atoi_digits hB.1 hB.2).2 ⟨rfl, hb⟩
  have hxC := (atoi_digits hC.1 hC.2).2 ⟨rfl, hc⟩
  simp only [List.range_succ, List.range_zero, List.map_cons, List.map_nil, List.nil_append,
    List.cons_append, Nat.reduceAdd, Function.update_apply] at hparts
  rw [kernelVersionFromReleaseString, hparts]
  simp only [hxA, hxB, hxC, Except.mapError, bind, Except.bind, pure, Except.pure, toUint32_goInt,
    reduceIte, Nat.reduceEqDiff, Option.getD_some]
  rw [Int.mul_assoc _ 256 256]
  rfl

end Format

/-- `4.1x2` has one dot, and is read as `4.1.2`: the second `.` of `versionRegex` matched `x`. -/
theorem kernelVersionFromReleaseString_dot_any :
    ['4', '.', '1', 'x', '2'].count '.' = 1 ∧
      kernelVersionFromReleaseString ['4', '.', '1', 'x', '2'] = .ok 262402 :=
  ⟨by decide, kernelVersionFromReleaseString_eq_ok_iff.2 ⟨4, 1, 2, by decide, by decide⟩⟩

end Gobpf.Elf
