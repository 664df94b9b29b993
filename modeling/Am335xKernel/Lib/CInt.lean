import Mathlib.Tactic.NormNum
import Mathlib.Data.Int.ModEq

/-!
# 32-bit C integers

On the 32-bit target `int`, `unsigned int` and `unsigned long` are 32 bits
wide. A value of `int` is an `ℤ` in two's-complement range, a value of an
unsigned type a `ℕ` below `2 ^ 32`; arithmetic is done in `ℤ` or `ℕ` and
brought back into range by `toInt` and `toU32`. Signed overflow wraps (the
kernel is built with `-fno-strict-overflow`).
-/

namespace CInt

/-- Conversion of any integer to `int`. -/
def toInt (x : ℤ) : ℤ := Int.bmod x (2 ^ 32)

/-- Conversion of any integer to `unsigned int` / `unsigned long`. -/
def toU32 (x : ℤ) : ℕ := (x % 2 ^ 32).toNat

variable {x : ℤ}

lemma toInt_le (h : 0 ≤ x) : toInt x ≤ x := by
  unfold toInt Int.bmod
  norm_num
  split <;> omega

lemma toInt_of_range (hle : -2 ^ 31 ≤ x) (hlt : x < 2 ^ 31) : toInt x = x := by
  unfold toInt
  rw [Int.bmod_def]
  split_ifs <;> omega

lemma toInt_of_lt (h : 0 ≤ x) (hlt : x < 2 ^ 31) : toInt x = x := toInt_of_range (by omega) hlt

lemma toU32_toInt (x : ℤ) : toU32 (toInt x) = toU32 x := by
  unfold toU32 toInt
  have h : Int.bmod x (2 ^ 32) % 2 ^ 32 = x % 2 ^ 32 := by
    exact_mod_cast Int.bmod_emod (x := x) (m := 2 ^ 32)
  rw [h]

end CInt
