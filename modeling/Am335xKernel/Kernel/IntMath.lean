import Mathlib.Data.Nat.GCD.Basic
import Mathlib.Tactic.Ring

/-!
# Least common multiples and square roots: `lib/gcd.c`, `lib/lcm.c`, `lib/int_sqrt.c`

`unsigned long` has 32 bits. `lcm` divides the product by the greatest common divisor, so the
product has to fit, not only the result. `int_sqrt` finds the digits of the root one by one.
-/

namespace Am335x.IntMath

/-- The loop of `gcd`. -/
def gcdLoop (a b : ℕ) : ℕ :=
  if a % b = 0 ∨ b = 0 then b else gcdLoop b (a % b)
termination_by b
decreasing_by exact Nat.mod_lt a (by omega)

def gcd (a b : ℕ) : ℕ := if a < b then gcdLoop b a else gcdLoop a b

def lcm (a b : ℕ) : ℕ :=
  if a ≠ 0 ∧ b ≠ 0 then a * b % 2 ^ 32 / gcd a b else if b ≠ 0 then b else a

/-- A sum, unless it overflows. -/
def sum (a b : ℕ) : Option ℕ := if a + b < 2 ^ 32 then some (a + b) else none

/-- The first loop of `int_sqrt`. -/
def startAt (op one : ℕ) : ℕ := if op < one then startAt op (one >>> 2) else one
termination_by one
decreasing_by rw [Nat.shiftRight_eq_div_pow]; omega

/-- The second loop of `int_sqrt`. -/
def digits (op res one : ℕ) : Option ℕ :=
  if one = 0 then some res
  else do
    let next ← sum res one
    if next ≤ op then
      let twice ← sum one one
      let res ← sum res twice
      digits (op - next) (res / 2) (one / 4)
    else digits op (res / 2) (one / 4)
termination_by one

/-- `int_sqrt`; `none` if a sum overflows -/
def intSqrt (x : ℕ) : Option ℕ := digits x 0 (startAt x (1 <<< 30))

variable {a b x op k m : ℕ}

lemma gcdLoop_eq (hb : b ≠ 0) : gcdLoop a b = Nat.gcd a b := by
  fun_induction gcdLoop a b with
  | case1 a b h => exact (Nat.gcd_eq_right (Nat.dvd_of_mod_eq_zero (h.resolve_right hb))).symm
  | case2 a b h ih => rw [ih (not_or.mp h).1, Nat.gcd_comm b, ← Nat.gcd_rec, Nat.gcd_comm]

lemma gcd_eq (ha : a ≠ 0) (hb : b ≠ 0) : gcd a b = Nat.gcd a b := by
  unfold gcd
  split_ifs
  · rw [gcdLoop_eq ha, Nat.gcd_comm]
  · exact gcdLoop_eq hb

/-- **`lcm`** is right exactly if the product fits. -/
theorem lcm_right_iff (a b : ℕ) :
    lcm a b = (if a ≠ 0 ∧ b ≠ 0 then Nat.lcm a b else max a b) ↔ a * b < 2 ^ 32 := by
  unfold lcm
  split_ifs with hne hb
  · obtain ⟨ha, hb⟩ := hne
    rw [gcd_eq ha hb]
    constructor
    · intro heq
      have hle := Nat.div_mul_le_self (a * b % 2 ^ 32) (Nat.gcd a b)
      rw [heq, mul_comm, Nat.gcd_mul_lcm] at hle
      exact hle.trans_lt (Nat.mod_lt _ (by decide))
    · intro hlt
      rw [Nat.mod_eq_of_lt hlt]
      rfl
  · simp_all
  · simp_all

theorem lcm_wraps : lcm (2 ^ 16) (2 ^ 17) = 0 ∧ Nat.lcm (2 ^ 16) (2 ^ 17) = 2 ^ 17 := by
  refine ⟨?_, by decide⟩
  rw [lcm, gcd_eq (by decide) (by decide)]
  decide

lemma startAt_spec (hx : x < 4 ^ k) : ∃ j ≤ k, startAt x (4 ^ k / 4) = 4 ^ j / 4 ∧ x < 4 ^ j := by
  induction k with
  | zero =>
    refine ⟨0, le_rfl, ?_, hx⟩
    unfold startAt
    exact if_neg (Nat.not_lt_zero x)
  | succ k ih =>
    have hone : 4 ^ (k + 1) / 4 = 4 ^ k := Nat.mul_div_cancel _ (by decide)
    by_cases hlt : x < 4 ^ k
    · obtain ⟨j, hj, hstart, hx⟩ := ih hlt
      refine ⟨j, hj.trans k.le_succ, ?_, hx⟩
      unfold startAt
      rw [hone, if_pos hlt, Nat.shiftRight_eq_div_pow]
      exact hstart
    · refine ⟨k + 1, le_rfl, ?_, hx⟩
      unfold startAt
      rw [hone, if_neg hlt]

/-- `m` are the digits of the root so far, and `k` are left to be found. -/
lemma digits_spec (hx : x = m * m * 4 ^ k + op) (hlt : x < (m + 1) * (m + 1) * 4 ^ k)
    (hfits : (m + 1) * 4 ^ k ≤ 2 ^ 32) :
    ∃ r, digits op (m * 4 ^ k) (4 ^ k / 4) = some r ∧ r * r ≤ x ∧ x < (r + 1) * (r + 1) := by
  induction k generalizing m op with
  | zero =>
    rw [pow_zero, mul_one] at hx hlt ⊢
    refine ⟨m, ?_, by omega, hlt⟩
    unfold digits
    rfl
  | succ k ih =>
    have hone : 4 ^ (k + 1) / 4 = 4 ^ k := Nat.mul_div_cancel _ (by decide)
    have hpos : 0 < 4 ^ k := Nat.pow_pos (by decide)
    have hres : m * 4 ^ (k + 1) = 4 * (m * 4 ^ k) := by ring
    have hnext : (m + 1) * 4 ^ (k + 1) = 4 * (m * 4 ^ k) + 4 * 4 ^ k := by ring
    have hsquare : m * m * 4 ^ (k + 1) = 2 * m * (2 * m) * 4 ^ k := by ring
    have hodd : (2 * m + 1) * (2 * m + 1) * 4 ^ k =
        2 * m * (2 * m) * 4 ^ k + (4 * (m * 4 ^ k) + 4 ^ k) := by ring
    have hupper : (m + 1) * (m + 1) * 4 ^ (k + 1) = (2 * m + 1 + 1) * (2 * m + 1 + 1) * 4 ^ k := by
      ring
    rw [hnext] at hfits
    rw [hsquare] at hx
    rw [hupper] at hlt
    unfold digits
    rw [hone, hres, if_neg hpos.ne', sum, if_pos (by omega), Option.bind_eq_bind, Option.bind_some]
    by_cases hle : 4 * (m * 4 ^ k) + 4 ^ k ≤ op
    · have hhalf : (4 * (m * 4 ^ k) + (4 ^ k + 4 ^ k)) / 2 = (2 * m + 1) * 4 ^ k := by
        rw [add_one_mul, mul_assoc]
        omega
      rw [if_pos hle, sum, if_pos (by omega), Option.bind_some, sum, if_pos (by omega),
        Option.bind_some, hhalf]
      refine ih ?_ hlt ?_
      · rw [hodd]
        omega
      · rw [add_one_mul, add_one_mul, mul_assoc]
        omega
    · have hhalf : 4 * (m * 4 ^ k) / 2 = 2 * m * 4 ^ k := by
        rw [mul_assoc]
        omega
      rw [if_neg hle, hhalf]
      refine ih hx ?_ ?_
      · rw [hodd]
        omega
      · rw [add_one_mul, mul_assoc]
        omega

/-- **`int_sqrt`** is exact, and no sum overflows. -/
theorem int_sqrt_exact (hx : x < 2 ^ 32) :
    ∃ r, intSqrt x = some r ∧ IsGreatest {r | r * r ≤ x} r := by
  obtain ⟨j, hj, hstart, hlt⟩ := startAt_spec (show x < 4 ^ 16 from hx)
  have hpow : 4 ^ j ≤ 4 ^ 16 := Nat.pow_le_pow_right (by decide) hj
  obtain ⟨r, hr, hle, hgt⟩ := digits_spec (show x = 0 * 0 * 4 ^ j + x by omega) (by omega)
    (by omega)
  rw [zero_mul, ← hstart] at hr
  refine ⟨r, hr, hle, fun s hs => ?_⟩
  exact Nat.lt_succ_iff.mp (Nat.mul_self_lt_mul_self_iff.mp (lt_of_le_of_lt hs hgt))

theorem int_sqrt_exact_max :
    ∃ r, intSqrt (2 ^ 32 - 1) = some r ∧ IsGreatest {r | r * r ≤ 2 ^ 32 - 1} r :=
  int_sqrt_exact (by decide)

end Am335x.IntMath
