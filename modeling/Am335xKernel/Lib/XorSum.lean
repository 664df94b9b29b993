import Mathlib.Algebra.Group.Nat.Defs
import Mathlib.Logic.Basic

/-!
# Sums and parities over exclusive or

`xorSum` adds a sequence of words, `xorBits` one of bits, `parity` the bits of a
word. They are linear over `^^^`, and so is every word function built from
shifts and masks (`Linear`). A check bit that is the parity of a linear function
of a sum therefore changes with one word by what it is at the change alone.
-/

namespace XorSum

open BitVec

variable {v w : ℕ} {f g : ℕ → BitVec w} {n : ℕ} {k : ℕ}

/-- `f 0 ^^^ f 1 ^^^ ⋯ ^^^ f (n - 1)`. -/
def xorSum (f : ℕ → BitVec w) : ℕ → BitVec w
  | 0 => 0#w
  | n + 1 => xorSum f n ^^^ f n

lemma xorSum_add (f : ℕ → BitVec w) (m n : ℕ) :
    xorSum f (m + n) = xorSum f m ^^^ xorSum (fun j => f (m + j)) n := by
  induction n with
  | zero => exact xor_zero.symm
  | succ n ih =>
    rw [← Nat.add_assoc, xorSum, xorSum, ih, xor_assoc]

lemma xorSum_congr (h : ∀ j < n, f j = g j) : xorSum f n = xorSum g n := by
  induction n with
  | zero => rfl
  | succ n ih =>
    rw [xorSum, xorSum, h n (by omega), ih fun j hj => h j (by omega)]

lemma xorSum_change {d : BitVec w} (hk : g k = f k ^^^ d) (hne : ∀ j, j ≠ k → g j = f j) (n : ℕ) :
    xorSum g n = xorSum f n ^^^ if k < n then d else 0#w := by
  induction n with
  | zero => rw [if_neg (Nat.not_lt_zero k), xor_zero, xorSum, xorSum]
  | succ n ih =>
    rw [xorSum, xorSum, ih]
    rcases Nat.lt_trichotomy k n with hlt | rfl | hgt
    · rw [if_pos hlt, if_pos (by omega), hne n (Nat.ne_of_gt hlt)]
      ac_rfl
    · rw [if_neg (Nat.lt_irrefl k), if_pos (by omega), hk, xor_zero]
      ac_rfl
    · rw [if_neg (Nat.lt_asymm hgt), if_neg (Nat.not_lt.mpr hgt), hne n (Nat.ne_of_lt hgt),
        xor_zero, xor_zero]

/-- The exclusive or of the lowest `n` bits. -/
def parityBelow (x : BitVec w) : ℕ → Bool
  | 0 => false
  | n + 1 => parityBelow x n ^^ x.getLsbD n

def parity (x : BitVec w) : Bool := parityBelow x w

lemma parityBelow_of_lt {x : BitVec w} {k n : ℕ} (hx : x.toNat < 2 ^ k) (hkn : k ≤ n) :
    parityBelow x n = parityBelow x k := by
  induction hkn with
  | refl => rfl
  | @step m hkm ih =>
    have hbit : x.getLsbD m = false :=
      Nat.testBit_lt_two_pow (Nat.lt_of_lt_of_le hx (Nat.pow_le_pow_right (by decide) hkm))
    rw [parityBelow, ih, hbit, Bool.xor_false]

lemma parityBelow_xor (x y : BitVec w) (n : ℕ) :
    parityBelow (x ^^^ y) n = (parityBelow x n ^^ parityBelow y n) := by
  induction n with
  | zero => rfl
  | succ n ih =>
    simp only [parityBelow, ih, getLsbD_xor, Bool.xor_assoc, Bool.xor_left_comm]

/-- `f 0 ^^ f 1 ^^ ⋯ ^^ f (n - 1)`. -/
def xorBits (f : ℕ → Bool) : ℕ → Bool
  | 0 => false
  | n + 1 => xorBits f n ^^ f n

lemma xorBits_eq_false {f : ℕ → Bool} (h : ∀ j < n, f j = false) : xorBits f n = false := by
  induction n with
  | zero => rfl
  | succ n ih =>
    rw [xorBits, ih fun j hj => h j (by omega), h n (by omega)]
    rfl

lemma xorBits_change {f g : ℕ → Bool} {d : Bool} (hk : g k = (f k ^^ d))
    (hne : ∀ j, j ≠ k → g j = f j) (n : ℕ) :
    xorBits g n = (xorBits f n ^^ (decide (k < n) && d)) := by
  induction n with
  | zero => rfl
  | succ n ih =>
    rw [xorBits, xorBits, ih]
    rcases Nat.lt_trichotomy k n with hlt | rfl | hgt
    · rw [hne n (Nat.ne_of_gt hlt), decide_eq_true hlt, decide_eq_true (by omega),
        Bool.true_and, Bool.xor_right_comm]
    · rw [hk, decide_eq_false (Nat.lt_irrefl k), decide_eq_true (by omega),
        Bool.false_and, Bool.true_and, Bool.xor_false, Bool.xor_assoc]
    · rw [hne n (Nat.ne_of_lt hgt), decide_eq_false (Nat.lt_asymm hgt),
        decide_eq_false (Nat.not_lt.mpr hgt), Bool.false_and, Bool.xor_false, Bool.xor_false]

def Linear (F : BitVec v → BitVec w) : Prop := ∀ x y, F (x ^^^ y) = F x ^^^ F y

lemma linear_id : Linear (fun x : BitVec w => x) := fun _ _ => rfl

namespace Linear

variable {F G : BitVec v → BitVec w} (hF : Linear F)
include hF

lemma xor (hG : Linear G) : Linear fun x => F x ^^^ G x := by
  intro x y
  simp only [hF x y, hG x y]
  ac_rfl

lemma ushiftRight (n : ℕ) : Linear fun x => F x >>> n := by
  intro x y
  simp only [hF x y, ushiftRight_xor_distrib]

lemma and (m : BitVec w) : Linear fun x => F x &&& m := by
  intro x y
  simp only [hF x y]
  ext i hi
  simp only [getElem_and, getElem_xor]
  cases (F x)[i] <;> cases (F y)[i] <;> cases m[i] <;> rfl

lemma parity_add (x d : BitVec v) : parity (F (x ^^^ d)) = (parity (F x) ^^ parity (F d)) := by
  rw [hF]
  exact parityBelow_xor _ _ w

end Linear

end XorSum
