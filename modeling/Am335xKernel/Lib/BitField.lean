import Mathlib.Algebra.Group.Nat.Defs
import Mathlib.Data.Fintype.Basic

/-!
# Bit fields of a record of words

A record is a tuple of `n` words of `w` bits. A field is a run of bits inside
one of the words; it is read by shift and mask and written by clearing the run
and or-ing the masked value in. `BitField` carries the proof that the run lies
inside its word.
-/

structure BitField (n w : ℕ) where
  word : Fin n
  shift : ℕ
  bits : ℕ
  fits : shift + bits ≤ w

namespace BitField

open Function BitVec

variable {n w : ℕ} {f g : BitField n w} {e : Fin n → BitVec w} {v : BitVec w}

def mask (f : BitField n w) : BitVec w := BitVec.ofNat w (2 ^ f.bits - 1)

def get (f : BitField n w) (e : Fin n → BitVec w) : BitVec w := e f.word >>> f.shift &&& f.mask

def set (f : BitField n w) (v : BitVec w) (e : Fin n → BitVec w) : Fin n → BitVec w :=
  update e f.word
    (e f.word &&& ~~~(f.mask <<< f.shift) ||| (v &&& f.mask) <<< f.shift)

def Apart (f g : BitField n w) : Prop :=
  f.word = g.word → f.shift + f.bits ≤ g.shift ∨ g.shift + g.bits ≤ f.shift

instance (f g : BitField n w) : Decidable (f.Apart g) := inferInstanceAs (Decidable (_ → _))

section

variable (f : BitField n w)

lemma getLsbD_mask (i : ℕ) : f.mask.getLsbD i = decide (i < f.bits) := by
  have hfits := f.fits
  rw [mask, getLsbD_ofNat, Nat.testBit_two_pow_sub_one]
  by_cases hi : i < f.bits
  · simp [hi, show i < w by omega]
  · simp [hi]

lemma getLsbD_get (e : Fin n → BitVec w) (i : ℕ) :
    (f.get e).getLsbD i = ((e f.word).getLsbD (f.shift + i) && decide (i < f.bits)) := by
  rw [get, getLsbD_and, getLsbD_ushiftRight, getLsbD_mask]

lemma getLsbD_set_word (v : BitVec w) (e : Fin n → BitVec w) {j : ℕ}
    (hj : j < w) : (f.set v e f.word).getLsbD j =
      if f.shift ≤ j ∧ j < f.shift + f.bits then v.getLsbD (j - f.shift)
      else (e f.word).getLsbD j := by
  rw [set, update_self, getLsbD_or, getLsbD_and, getLsbD_not,
    getLsbD_shiftLeft, getLsbD_shiftLeft, getLsbD_and, getLsbD_mask]
  by_cases hlo : f.shift ≤ j
  · by_cases hhi : j < f.shift + f.bits
    · simp [hj, hlo, hhi, show j - f.shift < f.bits by omega, show ¬ j < f.shift by omega]
    · simp [hj, hhi, show ¬ j - f.shift < f.bits by omega]
  · simp [hj, hlo, show j < f.shift by omega]

/-- **A field reads what was written to it**, cut to its width. -/
@[simp] lemma get_set (v : BitVec w) (e : Fin n → BitVec w) :
    f.get (f.set v e) = v &&& f.mask := by
  have hfits := f.fits
  apply eq_of_getLsbD_eq
  intro i _
  rw [getLsbD_get, getLsbD_and, getLsbD_mask]
  by_cases hb : i < f.bits
  · rw [getLsbD_set_word f v e (by omega), if_pos (by omega), Nat.add_sub_cancel_left]
  · simp [hb]

end

/-- **A write leaves the fields apart from it.** -/
lemma get_set_of_apart (h : f.Apart g) : g.get (f.set v e) = g.get e := by
  have hfits := g.fits
  by_cases hw : f.word = g.word
  · have hapart := h hw
    apply eq_of_getLsbD_eq
    intro i _
    rw [getLsbD_get, getLsbD_get]
    by_cases hb : i < g.bits
    · rw [← hw, getLsbD_set_word f v e (by omega), if_neg (by omega)]
    · simp [hb]
  · rw [get, get, set, update_of_ne (Ne.symm hw)]

def setAll {ι : Type*} (fs : ι → BitField n w) (vs : ι → BitVec w) (is : List ι)
    (e : Fin n → BitVec w) : Fin n → BitVec w :=
  is.foldl (fun e i => (fs i).set (vs i) e) e

section

variable {ι : Type*} {fs : ι → BitField n w} {vs : ι → BitVec w} {is : List ι}

lemma get_setAll_of_apart (h : ∀ i ∈ is, (fs i).Apart g) : g.get (setAll fs vs is e) = g.get e := by
  induction is generalizing e with
  | nil => rfl
  | cons i is ih =>
    have hrest := ih (e := (fs i).set (vs i) e) fun j hj => h j (List.mem_cons_of_mem _ hj)
    exact hrest.trans (get_set_of_apart (h i List.mem_cons_self))

lemma get_setAll (hapart : ∀ i j, i ≠ j → (fs i).Apart (fs j)) {i : ι}
    (hi : i ∈ is) (hnodup : is.Nodup) : (fs i).get (setAll fs vs is e) = vs i &&& (fs i).mask := by
  induction is generalizing e with
  | nil => cases hi
  | cons j is ih =>
    obtain ⟨hj, hnodup⟩ := List.nodup_cons.mp hnodup
    rcases List.mem_cons.mp hi with rfl | hi
    · have hrest : (fs i).get (setAll fs vs is ((fs i).set (vs i) e)) =
          (fs i).get ((fs i).set (vs i) e) := by
        apply get_setAll_of_apart
        intro k hk
        apply hapart
        rintro rfl
        exact hj hk
      exact hrest.trans (get_set ..)
    · exact ih hi hnodup

end

end BitField
