import Mathlib.Data.Nat.Bitwise
import Mathlib.Data.Nat.Size

/-!
# Divisions: `lib/div64.c`, `lib/reciprocal_div.c`

`__div64_32` divides by 32 bits: it doubles the divisor up to the number that is left, and goes
back down, subtracting it where that is possible. `div64_u64` divides by 64 bits. If the divisor
has more than 32 bits it is estimated by what is left of the two numbers when the divisor has been
cut down to 31 bits, one bit less than `div_u64` can take. The correction is for an estimate that
is one too large; with the bit that is missing it can be two too large.

`reciprocal_divide` multiplies by the reciprocal of the divisor, of 32 bits and rounded up.
-/

namespace Am335x.Div64

/-- The first loop of `__div64_32`; `b` and `d` are doubled. -/
def double (rem b d : ℕ) : ℕ × ℕ :=
  if 0 < b ∧ b < 2 ^ 63 ∧ b < rem then double rem ((b + b) % 2 ^ 64) ((d + d) % 2 ^ 64)
  else (b, d)
termination_by rem - b
decreasing_by omega

/-- The second loop of `__div64_32`, that ends with the quotient and the remainder. -/
def reduce (rem res b d : ℕ) : ℕ × ℕ :=
  let p := if b ≤ rem then (rem - b, (res + d) % 2 ^ 64) else (rem, res)
  if d >>> 1 = 0 then (p.2, p.1) else reduce p.1 p.2 (b >>> 1) (d >>> 1)
termination_by d
decreasing_by omega

/-- `__div64_32`: what it stores in `*n`, and what it returns. -/
def div6432 (n base : ℕ) : ℕ × ℕ :=
  let high := n >>> 32
  let p :=
    if base ≤ high then
      (n - (high / base * base % 2 ^ 32) <<< 32, ((high / base) <<< 32) % 2 ^ 64)
    else (n, 0)
  let q := double p.1 base 1
  let r := reduce p.1 p.2 q.1 q.2
  (r.1, r.2 % 2 ^ 32)

/-- `div_u64`, which is exact; the divisor is a `u32`. -/
def divU64 (dividend divisor : ℕ) : ℕ := dividend / (divisor % 2 ^ 32)

/-- The shift of `div64_u64`. -/
def shiftOf (divisor : ℕ) : ℕ := 1 + (divisor >>> 32).size

def div64U64 (dividend divisor : ℕ) : ℕ :=
  if divisor >>> 32 = 0 then divU64 dividend divisor
  else
    let n := shiftOf divisor
    let quot := divU64 (dividend >>> n) (divisor >>> n)
    let quot := if quot ≠ 0 then quot - 1 else quot
    if divisor ≤ (dividend + 2 ^ 64 - quot * divisor % 2 ^ 64) % 2 ^ 64 then quot + 1 else quot

/-- `reciprocal_value`, where `do_div` is exact. -/
def reciprocalValue (k : ℕ) : ℕ := (2 ^ 32 + (k - 1)) / k % 2 ^ 32

def reciprocalDivide (a r : ℕ) : ℕ := (a * r % 2 ^ 64) >>> 32 % 2 ^ 32

open Nat

variable {n base rem res a b d k dividend divisor : ℕ}

lemma double_spec (hrem : rem < 2 ^ 64) (hb : 0 < b) (hlt : b < 2 ^ 64) (hd : d ≤ b) :
    ∃ k, double rem b d = (b * 2 ^ k, d * 2 ^ k) ∧ rem < 2 * (b * 2 ^ k) := by
  fun_induction double rem b d with
  | case1 b d hloop ih =>
    have hb2 : (b + b) % 2 ^ 64 = b * 2 := by omega
    have hd2 : (d + d) % 2 ^ 64 = d * 2 := by omega
    rw [hb2, hd2] at ih ⊢
    obtain ⟨k, heq, hle⟩ := ih (by omega) (by omega) (by omega)
    refine ⟨k + 1, ?_⟩
    rw [heq, pow_succ', ← mul_assoc, ← mul_assoc]
    exact ⟨rfl, hle⟩
  | case2 b d hstop =>
    refine ⟨0, ?_, ?_⟩
    · rw [pow_zero, mul_one, mul_one]
    · rw [pow_zero, mul_one]
      omega

/-- One bit of the quotient. -/
lemma reduce_step (hbase : 0 < base) (hn : res * base + rem < 2 ^ 64)
    (hrem : rem < 2 * (base * d)) : ∃ rem' res',
      (if base * d ≤ rem then (rem - base * d, (res + d) % 2 ^ 64) else (rem, res)) = (rem', res') ∧
      base * res' + rem' = res * base + rem ∧ rem' < base * d := by
  by_cases hle : base * d ≤ rem
  · have hsum : base * (res + d) = res * base + base * d := by
      rw [mul_add, mul_comm base res]
    have hres : res + d ≤ base * (res + d) := Nat.le_mul_of_pos_left _ hbase
    refine ⟨_, _, if_pos hle, ?_, by omega⟩
    rw [mod_eq_of_lt (by omega), hsum]
    omega
  · exact ⟨_, _, if_neg hle, by rw [mul_comm], not_le.mp hle⟩

lemma reduce_spec (hbase : 0 < base) (hn : res * base + rem < 2 ^ 64)
    (hrem : rem < 2 * (base * 2 ^ k)) : reduce rem res (base * 2 ^ k) (2 ^ k) =
      ((res * base + rem) / base, (res * base + rem) % base) := by
  induction k generalizing rem res with
  | zero =>
    obtain ⟨rem', res', hstep, hsum, hlt⟩ := reduce_step hbase hn hrem
    rw [pow_zero, mul_one] at hlt
    unfold reduce
    rw [hstep, ← hsum, mul_add_div hbase, mul_add_mod, div_eq_of_lt hlt, mod_eq_of_lt hlt]
    rfl
  | succ k ih =>
    obtain ⟨rem', res', hstep, hsum, hlt⟩ := reduce_step hbase hn hrem
    have hb : (base * 2 ^ (k + 1)) >>> 1 = base * 2 ^ k := by
      rw [shiftRight_one, Nat.pow_succ, ← mul_assoc, Nat.mul_div_cancel _ Nat.two_pos]
    have hd : 2 ^ (k + 1) >>> 1 = 2 ^ k := by
      rw [shiftRight_one, Nat.pow_succ, Nat.mul_div_cancel _ Nat.two_pos]
    rw [mul_comm base res'] at hsum
    rw [Nat.pow_succ', mul_left_comm] at hlt
    unfold reduce
    simp only [hstep, hb, hd]
    rw [if_neg (Nat.two_pow_pos k).ne', ih (by omega) hlt, hsum]

/-- **`__div64_32`.** -/
theorem div64_32_exact (hn : n < 2 ^ 64) (hbase : base ≠ 0) (hlt : base < 2 ^ 32) :
    div6432 n base = (n / base, n % base) := by
  have hpos : 0 < base := Nat.pos_of_ne_zero hbase
  -- what the high word is reduced by goes to the quotient
  obtain ⟨rem, res, hp, hsum⟩ : ∃ rem res, (if base ≤ n >>> 32 then
        (n - (n >>> 32 / base * base % 2 ^ 32) <<< 32, ((n >>> 32 / base) <<< 32) % 2 ^ 64)
      else (n, 0)) = (rem, res) ∧ res * base + rem = n := by
    by_cases hhigh : base ≤ n >>> 32
    · refine ⟨_, _, if_pos hhigh, ?_⟩
      have hle : n >>> 32 / base * base ≤ n >>> 32 := div_mul_le_self _ _
      have hquot : n >>> 32 / base ≤ n >>> 32 := Nat.div_le_self _ _
      rw [shiftRight_eq_div_pow] at hle hquot ⊢
      rw [shiftLeft_eq, shiftLeft_eq, mod_eq_of_lt (b := 2 ^ 64) (by omega),
        mod_eq_of_lt (b := 2 ^ 32) (by omega), mul_right_comm]
      omega
    · exact ⟨_, _, if_neg hhigh, by omega⟩
  have hfits : rem < 2 ^ 64 := by omega
  obtain ⟨k, hq, hrem⟩ := double_spec hfits hpos (by omega) hpos
  rw [Nat.one_mul] at hq
  have hmod : n % base < 2 ^ 32 := (mod_lt n hpos).trans hlt
  have hred : reduce rem res _ _ = _ := reduce_spec hpos (by omega) hrem
  unfold div6432
  simp only [hp, hq, hred, hsum, mod_eq_of_lt hmod]

theorem div64_32_exact_max : div6432 (2 ^ 64 - 1) 10 = (1844674407370955161, 5) :=
  div64_32_exact (by decide) (by decide) (by decide)

/-- Cutting off bits of the divisor makes the quotient larger. -/
lemma le_estimate (dividend n : ℕ) (hpos : 0 < divisor >>> n) :
    dividend / divisor ≤ dividend >>> n / divisor >>> n := by
  rw [shiftRight_eq_div_pow] at hpos
  rw [shiftRight_eq_div_pow, shiftRight_eq_div_pow, Nat.div_div_eq_div_mul]
  exact Nat.div_le_div_left (mul_div_le _ _) (Nat.mul_pos (Nat.two_pow_pos n) hpos)

lemma shifted_bounds (hhigh : divisor >>> 32 ≠ 0) :
    0 < divisor >>> shiftOf divisor ∧ divisor >>> shiftOf divisor < 2 ^ 32 := by
  obtain ⟨m, hm⟩ := exists_eq_succ_of_ne_zero (mt size_eq_zero.mp hhigh)
  have hlow : 2 ^ m ≤ divisor >>> 32 := lt_size.mp (by omega)
  have hup : divisor >>> 32 < 2 ^ (m + 1) := size_le.mp hm.le
  have hpow : 2 ^ (m + 1 + 1) = 2 * 2 ^ (m + 1) := pow_succ'
  rw [shiftOf, hm, add_comm, shiftRight_eq_div_pow divisor (m + 1 + 1), hpow]
  rw [shiftRight_eq_div_pow] at hlow hup
  rw [pow_succ'] at hup ⊢
  exact ⟨Nat.div_pos (by omega) (by omega), Nat.div_lt_of_lt_mul (by omega)⟩

/-- The correction of a quotient that is not too large. -/
lemma corrected (hdividend : dividend < 2 ^ 64) (hpos : 0 < divisor) {quot : ℕ}
    (hle : quot ≤ dividend / divisor) :
    divisor ≤ (dividend + 2 ^ 64 - quot * divisor % 2 ^ 64) % 2 ^ 64 ↔
      quot < dividend / divisor := by
  have hmul : quot * divisor ≤ dividend := (le_div_iff_mul_le hpos).mp hle
  have hsub : (dividend + 2 ^ 64 - quot * divisor % 2 ^ 64) % 2 ^ 64 =
      dividend - quot * divisor := by
    omega
  rw [hsub, lt_iff_add_one_le, le_div_iff_mul_le hpos, succ_mul]
  omega

/-- The estimate divides by the divisor without its last `n` bits. -/
lemma estimate_le_iff (dividend n : ℕ) (hpos : 0 < divisor >>> n) :
    dividend >>> n / divisor >>> n ≤ dividend / divisor + 1 ↔
      (dividend / divisor + 2) * (divisor % 2 ^ n) + dividend % divisor < 2 * divisor := by
  have hsum := div_add_mod divisor (2 ^ n)
  have hnum := div_add_mod' dividend divisor
  rw [shiftRight_eq_div_pow] at hpos
  have hcut : 0 < 2 ^ n * (divisor / 2 ^ n) := Nat.mul_pos (Nat.two_pow_pos n) hpos
  rw [shiftRight_eq_div_pow, shiftRight_eq_div_pow, Nat.div_div_eq_div_mul, ← Nat.lt_succ_iff,
    Nat.div_lt_iff_lt_mul hcut]
  generalize dividend / divisor = quot at hnum ⊢
  have hmul : (quot + 2) * (2 ^ n * (divisor / 2 ^ n)) + (quot + 2) * (divisor % 2 ^ n) =
      quot * divisor + 2 * divisor := by
    rw [← mul_add, hsum, add_mul]
  change dividend < (quot + 2) * _ ↔ _
  omega

/-- **`div64_u64`** is right exactly if the bits that are cut off the divisor leave the estimate at
most one too large. -/
theorem div64_u64_right_iff (hdividend : dividend < 2 ^ 64) (hne : divisor ≠ 0)
    (hlt : divisor < 2 ^ 64) : div64U64 dividend divisor = dividend / divisor ↔
      (2 ^ 32 ≤ divisor → (dividend / divisor + 2) * (divisor % 2 ^ shiftOf divisor) +
        dividend % divisor < 2 * divisor) := by
  have hshift : divisor >>> 32 = divisor / 2 ^ 32 := shiftRight_eq_div_pow ..
  unfold div64U64
  by_cases hhigh : divisor >>> 32 = 0
  · have hu32 : divisor < 2 ^ 32 := by omega
    rw [if_pos hhigh, divU64, mod_eq_of_lt hu32]
    exact iff_of_true rfl fun h => absurd hu32 h.not_gt
  · obtain ⟨hpos, hu32⟩ := shifted_bounds hhigh
    have hle := le_estimate dividend _ hpos
    rw [if_neg hhigh, forall_prop_of_true (by omega), ← estimate_le_iff dividend _ hpos]
    simp only [divU64, mod_eq_of_lt hu32]
    generalize dividend >>> shiftOf divisor / divisor >>> shiftOf divisor = estimate at hle ⊢
    have hdec : (if estimate ≠ 0 then estimate - 1 else estimate) = estimate - 1 := by
      split <;> omega
    rw [hdec]
    by_cases hquot : estimate - 1 ≤ dividend / divisor
    · simp only [corrected hdividend (Nat.pos_of_ne_zero hne) hquot]
      split <;> omega
    · generalize dividend / divisor = quot at hquot ⊢
      split <;> omega

theorem div64_u64_right_pow : div64U64 (2 ^ 64 - 1) (2 ^ 32) = (2 ^ 64 - 1) / 2 ^ 32 :=
  (div64_u64_right_iff (by decide) (by decide) (by decide)).mpr fun _ => by decide

/-- The estimate is two too large, and is taken as it is. -/
theorem div64_u64_wrong : div64U64 (2 ^ 64 - 1) (2 ^ 32 + 3) = 2 ^ 32 - 1 ∧
    (2 ^ 64 - 1) / (2 ^ 32 + 3) = 2 ^ 32 - 3 := by
  decide

lemma reciprocal_bounds (hb : 1 < b) (hlt : b < 2 ^ 32) :
    reciprocalValue b < 2 ^ 32 ∧ 2 ^ 32 ≤ b * reciprocalValue b ∧
      b * reciprocalValue b < 2 ^ 32 + b := by
  have hmod : (2 ^ 32 + (b - 1)) % b < b := mod_lt _ (by omega)
  have hsum := div_add_mod (2 ^ 32 + (b - 1)) b
  have hval : (2 ^ 32 + (b - 1)) / b < 2 ^ 32 := Nat.div_lt_of_lt_mul (by omega)
  rw [reciprocalValue, mod_eq_of_lt hval]
  omega

/-- What the rounding up adds. -/
lemma reciprocal_excess (hb : 1 < b) (hlt : b < 2 ^ 32) :
    b * reciprocalValue b - 2 ^ 32 = (b - 2 ^ 32 % b) % b := by
  obtain ⟨-, hle, hlt⟩ := reciprocal_bounds hb hlt
  obtain ⟨e, he⟩ := Nat.exists_eq_add_of_le hle
  have hrest : 2 ^ 32 % b < b := mod_lt _ (by omega)
  have hzero : (2 ^ 32 % b + e) % b = 0 := by
    rw [mod_add_mod, ← he, mul_mod_right]
  rw [he, Nat.add_sub_cancel_left]
  -- the two rests together are 0 or `b`
  rcases Nat.eq_zero_or_pos (2 ^ 32 % b) with hdvd | hpos
  · rw [hdvd, Nat.zero_add, mod_eq_of_lt (by omega)] at hzero
    rw [hdvd, Nat.sub_zero, mod_self, hzero]
  · rw [mod_eq_of_lt (a := b - _) (by omega)]
    rcases Nat.lt_or_ge (2 ^ 32 % b + e) b with hsmall | hlarge
    · rw [mod_eq_of_lt hsmall] at hzero
      omega
    · rw [mod_eq_sub_mod hlarge, mod_eq_of_lt (by omega)] at hzero
      omega

/-- **`reciprocal_divide`** is right exactly if what the reciprocal is too large does not carry the
product over the next multiple. The reciprocal of 1 is 0. -/
theorem reciprocal_divide_right_iff (ha : a < 2 ^ 32) (hb : b ≠ 0) (hlt : b < 2 ^ 32) :
    reciprocalDivide a (reciprocalValue b) = a / b ↔
      (b = 1 → a = 0) ∧ a * ((b - 2 ^ 32 % b) % b) < (b - a % b) * 2 ^ 32 := by
  rcases eq_or_ne b 1 with rfl | hone
  · have hzero : reciprocalValue 1 = 0 := by decide
    simp [hzero, reciprocalDivide, mod_one, eq_comm]
  obtain ⟨hvalue, hle, -⟩ := reciprocal_bounds (by omega) hlt
  have hprod : a * reciprocalValue b < 2 ^ 32 * 2 ^ 32 := Nat.mul_lt_mul'' ha hvalue
  have hquot : a * reciprocalValue b / 2 ^ 32 < 2 ^ 32 := Nat.div_lt_of_lt_mul hprod
  rw [reciprocalDivide, mod_eq_of_lt (b := 2 ^ 64) hprod, shiftRight_eq_div_pow, mod_eq_of_lt hquot]
  obtain ⟨e, he⟩ := Nat.exists_eq_add_of_le hle
  have hscaled : b * (a * reciprocalValue b) = a * 2 ^ 32 + a * e := by
    rw [mul_left_comm, he, mul_add]
  have hlow : a / b ≤ a * reciprocalValue b / 2 ^ 32 := by
    rw [Nat.le_div_iff_mul_le (by decide)]
    calc a / b * 2 ^ 32 ≤ a / b * (b * reciprocalValue b) := Nat.mul_le_mul_left _ hle
      _ = a / b * b * reciprocalValue b := (mul_assoc ..).symm
      _ ≤ a * reciprocalValue b := Nat.mul_le_mul_right _ (div_mul_le_self a b)
  have hhigh : a * reciprocalValue b / 2 ^ 32 < a / b + 1 ↔
      b * (a * reciprocalValue b) < b * ((a / b + 1) * 2 ^ 32) := by
    rw [Nat.div_lt_iff_lt_mul (by decide), Nat.mul_lt_mul_left (by omega)]
  have hnext : b * ((a / b + 1) * 2 ^ 32) = (a - a % b + b) * 2 ^ 32 := by
    rw [← mul_assoc, mul_add, mul_one, mul_div_self_eq_mod_sub_self]
  have hmod : a % b < b := mod_lt a (by omega)
  have hmodle : a % b ≤ a := mod_le a b
  rw [hscaled, hnext] at hhigh
  rw [← reciprocal_excess (by omega) hlt, he, Nat.add_sub_cancel_left]
  omega

theorem reciprocal_divide_right_ten : reciprocalDivide 1000 (reciprocalValue 10) = 1000 / 10 :=
  (reciprocal_divide_right_iff (by decide) (by decide) (by decide)).mpr (by decide)

theorem reciprocal_divide_wrong : reciprocalDivide 7 (reciprocalValue 1) = 0 ∧
    reciprocalDivide (2 ^ 32 - 2) (reciprocalValue 3) = (2 ^ 32 - 2) / 3 + 1 := by
  decide

end Am335x.Div64
