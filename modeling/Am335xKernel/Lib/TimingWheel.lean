import Mathlib.Data.Nat.ModEq

/-!
# Hierarchical timing wheels

Time is written with a digit for each level. A wheel has a bucket for each value of the digit of a
level: what is due soon is in a bucket of the lowest level, by its last digit; what is due later is
in a bucket of a higher level, by the digit there, and has to be moved down when time comes to the
beginning of the block that the bucket stands for.

`Placed n v d` says that something that is due at `d` can be at level `v` at the time `n`.
-/

structure TimingWheel where
  size : ℕ → ℕ
  size_pos : ∀ v, 0 < size v

namespace TimingWheel

open Nat

variable (W : TimingWheel) {n v d : ℕ} {j : ℕ}

def span : ℕ → ℕ
  | 0 => 1
  | v + 1 => span v * W.size v

def slot (v d : ℕ) : ℕ := d / W.span v % W.size v

def start (v d : ℕ) : ℕ := d / W.span v * W.span v

structure Placed (n v d : ℕ) : Prop where
  le : n ≤ W.start v d
  lt : d < n + W.span (v + 1)

lemma span_pos (v : ℕ) : 0 < W.span v := by
  induction v with
  | zero => exact one_pos
  | succ v ih => exact Nat.mul_pos ih (W.size_pos v)

lemma span_dvd (h : v ≤ j) : W.span v ∣ W.span j := by
  induction j, h using le_induction with
  | base => exact dvd_refl _
  | succ j _ ih => exact ih.trans (dvd_mul_right _ _)

lemma start_le (v d : ℕ) : W.start v d ≤ d := Nat.div_mul_le_self d _

lemma lt_start_add (v d : ℕ) : d < W.start v d + W.span v := by
  have h := lt_div_mul_add (W.span_pos v) (a := d)
  exact h

lemma start_zero (d : ℕ) : W.start 0 d = d := by
  unfold start span
  rw [Nat.div_one, mul_one]

variable {W} {c : ℕ}

lemma Placed.le_due (h : W.Placed n v d) : n ≤ d := h.le.trans (W.start_le v d)

lemma lt_start_of_add_le (h : n + W.span v ≤ d) : n < W.start v d := by
  have hlt := W.lt_start_add v d
  omega

lemma Placed.zero (h : n ≤ d) (hlt : d < n + W.span 1) : W.Placed n 0 d :=
  ⟨(W.start_zero d).symm ▸ h, hlt⟩

lemma Placed.succ (h : W.Placed n v d) (hne : W.start v d ≠ n) : W.Placed (n + 1) v d :=
  ⟨lt_of_le_of_ne h.le (Ne.symm hne), h.lt.trans (by omega)⟩

lemma Placed.start_eq_iff (h : W.Placed n v d) :
    W.start v d = n ↔ W.span v ∣ n ∧ W.slot v d = W.slot v n := by
  constructor
  · intro heq
    have hdiv : n / W.span v = d / W.span v := by
      rw [← heq, start, Nat.mul_div_cancel _ (W.span_pos v)]
    refine ⟨heq ▸ Dvd.intro_left _ rfl, ?_⟩
    rw [slot, slot, hdiv]
  · rintro ⟨⟨m, rfl⟩, hslot⟩
    have hm : W.span v * m / W.span v = m := Nat.mul_div_cancel_left m (W.span_pos v)
    have hle : m ≤ d / W.span v := by
      refine Nat.le_of_mul_le_mul_left ?_ (W.span_pos v)
      rw [mul_comm (W.span v) (d / W.span v)]
      exact h.le
    have hlt : d / W.span v < m + W.size v := by
      rw [div_lt_iff_lt_mul (W.span_pos v), mul_comm, mul_add]
      exact h.lt
    have hmod : d / W.span v % W.size v = m % W.size v := by
      rw [slot, slot, hm] at hslot
      exact hslot
    have hdiv : d / W.span v = m := by
      obtain ⟨j, hj⟩ := Nat.exists_eq_add_of_le hle
      rw [hj] at hmod hlt ⊢
      have hj' : j % W.size v = 0 := by
        have hmod' : (m + j) % W.size v = (m + 0) % W.size v := hmod
        have hcancel := Nat.ModEq.add_left_cancel' m hmod'
        rwa [Nat.ModEq, zero_mod] at hcancel
      rw [mod_eq_of_lt (by omega)] at hj'
      rw [hj', add_zero]
    rw [start, hdiv, mul_comm]

lemma span_succ_dvd : W.span (v + 1) ∣ n ↔ W.span v ∣ n ∧ W.slot v n = 0 := by
  constructor
  · intro h
    have hdvd : W.span v ∣ n := (Dvd.intro _ rfl).trans h
    refine ⟨hdvd, ?_⟩
    obtain ⟨m, rfl⟩ := h
    rw [slot, span, mul_assoc, Nat.mul_div_cancel_left _ (W.span_pos v), Nat.mul_mod_right]
  · rintro ⟨⟨m, rfl⟩, h⟩
    rw [slot, Nat.mul_div_cancel_left _ (W.span_pos v)] at h
    obtain ⟨j, rfl⟩ := dvd_of_mod_eq_zero h
    exact ⟨j, by rw [span, mul_assoc]⟩

def first (W : TimingWheel) (v n : ℕ) : ℕ := (n + (W.span v - 1)) / W.span v

lemma first_le_iff : W.first v n ≤ c ↔ n ≤ c * W.span v := by
  rw [first, Nat.div_le_iff_le_mul_add_pred (W.span_pos v), Nat.add_le_add_iff_right, mul_comm]

lemma le_first_mul : n ≤ W.first v n * W.span v := first_le_iff.mp le_rfl

lemma first_mul_lt : W.first v n * W.span v < n + W.span v := by
  have hle : W.first v n * W.span v ≤ n + (W.span v - 1) := div_mul_le_self _ _
  have hpos := W.span_pos v
  omega

lemma first_succ_le_iff : W.first (v + 1) n ≤ c ↔ W.first v n ≤ c * W.size v := by
  rw [first_le_iff, first_le_iff, span, mul_assoc, mul_comm (W.size v)]

variable (h : W.Placed n v d)
include h

lemma Placed.first_le : W.first v n ≤ d / W.span v := first_le_iff.mpr h.le

lemma Placed.div_lt : d / W.span v < W.first v n + W.size v := by
  rw [div_lt_iff_lt_mul (W.span_pos v), add_mul, mul_comm (W.size v)]
  exact h.lt.trans_le (Nat.add_le_add_right le_first_mul _)

lemma Placed.first_mul_le (hj : j ≤ v) : W.first j n * W.span j ≤ d := by
  obtain ⟨m, hm⟩ := W.span_dvd hj
  have hstart : W.start v d = d / W.span v * m * W.span j := by
    rw [start, mul_assoc, mul_comm m, ← hm]
  have hfirst : W.first j n ≤ d / W.span v * m := first_le_iff.mpr (hstart ▸ h.le)
  calc W.first j n * W.span j ≤ d / W.span v * m * W.span j := mul_le_mul_right _ hfirst
    _ = W.start v d := hstart.symm
    _ ≤ d := W.start_le v d

end TimingWheel
