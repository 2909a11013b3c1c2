import Mathlib

/-!
# Go's integer types

Go's `int` on a 64-bit platform wraps modulo `2^64`, and a conversion to an unsigned type keeps the
low bits of the two's complement. A value of `int` is an `Int` in `[-2^63, 2^63)`, kept there by
`Int.bmod`; a `uint32` is a `Nat` below `2^32`. The conversions to C's `int` and `uint64_t` that
cgo code makes follow the same rules at 32 and 64 bits.
-/

namespace Gobpf.Go

/-- The result of Go's `int` arithmetic on an expression: its mathematical value wrapped into 64
bits. Wrapping commutes with `+` and `*`, so one wrap at the end gives every intermediate one. -/
def goInt (x : Int) : Int := x.bmod (2 ^ 64)

/-- `uint32(x)` of a Go integer: its low 32 bits. -/
def toUint32 (x : Int) : Nat := (x % 2 ^ 32).toNat

/-- The low 32 bits do not see the 64-bit wrap. -/
theorem toUint32_goInt (x : Int) : toUint32 (goInt x) = toUint32 x := by
  unfold toUint32 goInt
  rw [Int.bmod_def]
  split <;> omega

theorem toUint32_of_lt {x : Int} (h0 : 0 ≤ x) (h : x < 2 ^ 32) : (toUint32 x : Int) = x := by
  unfold toUint32
  rw [Int.emod_eq_of_lt h0 h, Int.toNat_of_nonneg h0]

theorem toUint32_lt (x : Int) : toUint32 x < 2 ^ 32 := by
  unfold toUint32
  omega

/-- `C.int(x)` of a Go integer: its low 32 bits read as two's complement. -/
def toInt32 (x : Int) : Int := x.bmod (2 ^ 32)

/-- `(uint64_t)x` in C: the low 64 bits of an integer, unsigned. -/
def toUint64 (x : Int) : Nat := (x % 2 ^ 64).toNat

/-- `int` arithmetic that stays in range does not wrap. -/
theorem goInt_of_lt {x : Int} (h0 : -2 ^ 63 ≤ x) (h : x < 2 ^ 63) : goInt x = x :=
  Int.bmod_eq_of_le (by norm_num; omega) (by norm_num; omega)

theorem toInt32_of_lt {x : Int} (h0 : -2 ^ 31 ≤ x) (h : x < 2 ^ 31) : toInt32 x = x :=
  Int.bmod_eq_of_le (by norm_num; omega) (by norm_num; omega)

theorem toUint64_of_lt {x : Int} (h0 : 0 ≤ x) (h : x < 2 ^ 64) : (toUint64 x : Int) = x := by
  unfold toUint64
  rw [Int.emod_eq_of_lt h0 h, Int.toNat_of_nonneg h0]

/-- A non-negative value that fits in `C.int` crosses `C.int` and `uint64_t` unchanged. -/
theorem toUint64_toInt32_of_lt {x : Int} (h0 : 0 ≤ x) (h : x < 2 ^ 31) :
    toUint64 (toInt32 x) = x.toNat := by
  have := toUint64_of_lt h0 (by omega)
  rw [toInt32_of_lt (by omega) h]
  omega

theorem toUint64_toInt32_natCast {n : Nat} (h : n < 2 ^ 31) : toUint64 (toInt32 n) = n := by
  have := toUint64_toInt32_of_lt (Int.natCast_nonneg n) (by exact_mod_cast h)
  simpa using this

/-- `C.int(2^31)` is the least `int`. -/
theorem toInt32_two_pow_31 : toInt32 (2 ^ 31) = -2 ^ 31 := by decide

/-- `C.int` drops a multiple of `2^32`. -/
theorem toInt32_two_pow_of_le {k : Nat} (hk : 32 ≤ k) : toInt32 (2 ^ k) = 0 := by
  have hdvd : (2 : Int) ^ 32 ∣ 2 ^ k := pow_dvd_pow 2 hk
  unfold toInt32
  rw [Int.bmod_def, Int.emod_eq_zero_of_dvd (by exact_mod_cast hdvd)]
  simp

end Gobpf.Go
