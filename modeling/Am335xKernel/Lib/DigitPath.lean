import Mathlib.Algebra.Order.Group.Nat
import Mathlib.Data.Nat.Bitwise

/-!
# Indices as paths

A tree whose nodes have `2 ^ w` slots is entered with an index: the slot to take
at a node with `h` levels below it is the digit `h` of the index in base `2 ^ w`.
Two indices that agree in the lower `h` digits (`Agree`) take the same slots from
there on; indices below `(2 ^ w) ^ h` have no other digits.
-/

namespace DigitPath

open Nat

variable {w h i j d : ℕ}

/-- The digit `h` of `i` in base `2 ^ w`, as it is computed: by a shift and a mask. -/
def digit (w h i : ℕ) : ℕ := i >>> (h * w) &&& (2 ^ w - 1)

lemma digit_eq : digit w h i = i / (2 ^ w) ^ h % 2 ^ w := by
  unfold digit
  rw [and_two_pow_sub_one_eq_mod, shiftRight_eq_div_pow, mul_comm, pow_mul]

lemma digit_lt : digit w h i < 2 ^ w := by
  rw [digit_eq]
  exact Nat.mod_lt _ (Nat.two_pow_pos w)

/-- The lower `h` digits are the same. -/
def Agree (w : ℕ) : ℕ → ℕ → ℕ → Prop
  | 0, _, _ => True
  | h + 1, i, j => digit w h i = digit w h j ∧ Agree w h i j

instance decidableAgree (w : ℕ) : ∀ h i j, Decidable (Agree w h i j)
  | 0, _, _ => inferInstanceAs (Decidable True)
  | h + 1, i, j =>
    have := decidableAgree w h i j
    inferInstanceAs (Decidable (_ ∧ _))

lemma Agree.refl (w h i : ℕ) : Agree w h i i := by
  induction h with
  | zero => trivial
  | succ h ih => exact ⟨rfl, ih⟩

lemma agree_iff_mod : Agree w h i j ↔ i % (2 ^ w) ^ h = j % (2 ^ w) ^ h := by
  induction h with
  | zero => simp [Agree, mod_one]
  | succ h ih =>
    have hpos : 0 < (2 ^ w) ^ h := Nat.pow_pos (Nat.two_pow_pos w)
    unfold Agree
    rw [ih, digit_eq, digit_eq, mod_pow_succ, mod_pow_succ]
    constructor
    · rintro ⟨hd, hm⟩
      rw [hd, hm]
    · intro heq
      -- the remainder and the quotient of both sides by the lower digits
      have hm := congrArg (· % (2 ^ w) ^ h) heq
      have hd := congrArg (· / (2 ^ w) ^ h) heq
      simp only [add_mul_mod_self_left, mod_mod] at hm
      simp only [add_mul_div_left _ _ hpos, div_eq_of_lt (mod_lt _ hpos), zero_add] at hd
      exact ⟨hd, hm⟩

lemma agree_iff_eq (hi : i < (2 ^ w) ^ h) (hj : j < (2 ^ w) ^ h) : Agree w h i j ↔ i = j := by
  rw [agree_iff_mod, mod_eq_of_lt hi, mod_eq_of_lt hj]

lemma digit_eq_zero (hi : i < (2 ^ w) ^ h) : digit w h i = 0 := by
  rw [digit_eq, div_eq_of_lt hi, zero_mod]

lemma lt_of_digit_eq_zero (hi : i < (2 ^ w) ^ (h + 1)) (hd : digit w h i = 0) :
    i < (2 ^ w) ^ h := by
  have hpos : 0 < (2 ^ w) ^ h := Nat.pow_pos (Nat.two_pow_pos w)
  have hlt : i / (2 ^ w) ^ h < 2 ^ w := Nat.div_lt_of_lt_mul (by rwa [pow_succ] at hi)
  rw [digit_eq, mod_eq_of_lt hlt] at hd
  exact (div_eq_zero_iff_lt hpos).mp hd

lemma exists_digit (i : ℕ) (hd : d < 2 ^ w) : ∃ j, digit w h j = d ∧ Agree w h j i := by
  have hpos : 0 < (2 ^ w) ^ h := Nat.pow_pos (Nat.two_pow_pos w)
  refine ⟨i % (2 ^ w) ^ h + (2 ^ w) ^ h * d, ?_, ?_⟩
  · rw [digit_eq, add_mul_div_left _ _ hpos, div_eq_of_lt (mod_lt _ hpos),
      zero_add, mod_eq_of_lt hd]
  · rw [agree_iff_mod, add_mul_mod_self_left, mod_mod]

variable {m k : ℕ}

/-- The first index with the upper digits of `i` and `m` for digit `l`; for
`m = 2 ^ w` this carries into the upper digits. -/
def withDigit (w l i m : ℕ) : ℕ := i / (2 ^ w) ^ (l + 1) * (2 ^ w) ^ (l + 1) + m * (2 ^ w) ^ l

variable {l : ℕ} {N : ℕ}

lemma base_pow_pos : 0 < (2 ^ w) ^ l := Nat.pow_pos (Nat.two_pow_pos w)

lemma div_pow_succ : i / (2 ^ w) ^ (l + 1) = i / (2 ^ w) ^ l / 2 ^ w := by
  rw [pow_succ, Nat.div_div_eq_div_mul]

lemma div_pow_eq : i / (2 ^ w) ^ l = i / (2 ^ w) ^ (l + 1) * 2 ^ w + digit w l i := by
  rw [digit_eq, div_pow_succ]
  exact (div_add_mod' _ _).symm

lemma withDigit_eq : withDigit w l i m = (i / (2 ^ w) ^ (l + 1) * 2 ^ w + m) * (2 ^ w) ^ l := by
  rw [add_mul, mul_assoc, ← pow_succ']
  rfl

lemma lt_withDigit (hm : digit w l i < m) : i < withDigit w l i m := by
  have hlt : i / (2 ^ w) ^ l < i / (2 ^ w) ^ (l + 1) * 2 ^ w + m := by
    rw [div_pow_eq]
    omega
  rw [withDigit_eq]
  exact (div_lt_iff_lt_mul base_pow_pos).mp hlt

lemma digit_of_lt_withDigit (hm : m ≤ 2 ^ w) (hij : i ≤ j) (hj : j < withDigit w l i m) :
    j / (2 ^ w) ^ (l + 1) = i / (2 ^ w) ^ (l + 1) ∧ digit w l i ≤ digit w l j ∧
      digit w l j < m := by
  have hdiv : j / (2 ^ w) ^ l < i / (2 ^ w) ^ (l + 1) * 2 ^ w + m := by
    rw [withDigit_eq] at hj
    exact (div_lt_iff_lt_mul base_pow_pos).mpr hj
  have hle : i / (2 ^ w) ^ l ≤ j / (2 ^ w) ^ l := Nat.div_le_div_right hij
  have hupper : j / (2 ^ w) ^ (l + 1) = i / (2 ^ w) ^ (l + 1) := by
    refine le_antisymm ?_ (Nat.div_le_div_right hij)
    rw [div_pow_succ, ← Nat.lt_succ_iff, Nat.div_lt_iff_lt_mul (Nat.two_pow_pos w), Nat.succ_mul]
    omega
  have hi := div_pow_eq (w := w) (l := l) (i := i)
  have hj := div_pow_eq (w := w) (l := l) (i := j)
  rw [hupper] at hj
  exact ⟨hupper, by omega, by omega⟩

lemma lt_pow_congr (hdiv : i / (2 ^ w) ^ l = j / (2 ^ w) ^ l) (hi : i < (2 ^ w) ^ N)
    (hl : l ≤ N) : j < (2 ^ w) ^ N := by
  obtain ⟨d, rfl⟩ := Nat.exists_eq_add_of_le hl
  rw [pow_add, mul_comm] at hi ⊢
  rw [← div_lt_iff_lt_mul base_pow_pos] at hi ⊢
  rwa [← hdiv]

lemma mod_pow_succ_eq_zero : i % (2 ^ w) ^ (l + 1) = 0 ↔ i % (2 ^ w) ^ l = 0 ∧ digit w l i = 0 := by
  rw [Nat.mod_pow_succ, digit_eq, Nat.add_eq_zero_iff, Nat.mul_eq_zero]
  exact and_congr_right fun _ => or_iff_right base_pow_pos.ne'

lemma withDigit_div (hm : m < 2 ^ w) :
    withDigit w l i m / (2 ^ w) ^ (l + 1) = i / (2 ^ w) ^ (l + 1) := by
  rw [div_pow_succ, withDigit_eq, Nat.mul_div_cancel _ base_pow_pos,
    add_comm, Nat.add_mul_div_right _ _ (Nat.two_pow_pos w), Nat.div_eq_of_lt hm,
    zero_add]

lemma digit_withDigit (hm : m < 2 ^ w) : digit w l (withDigit w l i m) = m := by
  rw [digit_eq, withDigit_eq, Nat.mul_div_cancel _ base_pow_pos, add_comm,
    add_mul_mod_self_right, mod_eq_of_lt hm]

lemma withDigit_mod : withDigit w l i m % (2 ^ w) ^ l = 0 := by
  rw [withDigit_eq, mul_mod_left]

lemma withDigit_carry :
    withDigit w l i (2 ^ w) = (i / (2 ^ w) ^ (l + 1) + 1) * (2 ^ w) ^ (l + 1) := by
  rw [add_mul, one_mul, withDigit, ← pow_succ']

lemma withDigit_carry_le (hi : i < (2 ^ w) ^ N) (hl : l + 1 ≤ N) :
    withDigit w l i (2 ^ w) ≤ (2 ^ w) ^ N := by
  obtain ⟨d, rfl⟩ := Nat.exists_eq_add_of_le hl
  rw [pow_add (2 ^ w) (l + 1) d, mul_comm] at hi ⊢
  rw [withDigit_carry]
  exact mul_le_mul_right _ ((div_lt_iff_lt_mul base_pow_pos).mpr hi)

lemma or_add_one : (i ||| 2 ^ (w * (l + 1)) - 1) + 1 = withDigit w l i (2 ^ w) := by
  rw [withDigit_carry, ← pow_mul]
  have hor : i ||| 2 ^ (w * (l + 1)) - 1 =
      2 ^ (w * (l + 1)) * (i / 2 ^ (w * (l + 1))) + (2 ^ (w * (l + 1)) - 1) := by
    refine eq_of_testBit_eq fun b => ?_
    rw [testBit_or, testBit_two_pow_sub_one,
      Nat.testBit_two_pow_mul_add _ (Nat.sub_lt (Nat.two_pow_pos _) Nat.one_pos)]
    split_ifs with hb
    · rw [decide_eq_true hb, Bool.or_true, testBit_two_pow_sub_one, decide_eq_true hb]
    · rw [decide_eq_false hb, Bool.or_false, testBit_div_two_pow]
      congr 1
      omega
  rw [hor, mul_comm, add_mul, one_mul, add_assoc, Nat.sub_add_cancel (Nat.one_le_two_pow)]

lemma xor_shiftLeft (hm : m < 2 ^ w) :
    ((i >>> (w * l)) ^^^ digit w l i ^^^ m) <<< (w * l) = withDigit w l i m := by
  have hx : (i >>> (w * l)) ^^^ digit w l i ^^^ m = i / (2 ^ w) ^ (l + 1) * 2 ^ w + m := by
    rw [shiftRight_eq_div_pow, pow_mul, div_pow_eq, mul_comm]
    refine eq_of_testBit_eq fun b => ?_
    rw [testBit_xor, testBit_xor, testBit_two_pow_mul_add _ digit_lt, testBit_two_pow_mul_add _ hm]
    split_ifs with hb
    · simp
    · have hpow : 2 ^ w ≤ 2 ^ b := Nat.pow_le_pow_right (by decide) (le_of_not_gt hb)
      rw [testBit_lt_two_pow (digit_lt.trans_le hpow),
        testBit_lt_two_pow (hm.trans_le hpow), Bool.xor_false, Bool.xor_false]
  rw [hx, shiftLeft_eq, withDigit_eq, pow_mul]

end DigitPath
