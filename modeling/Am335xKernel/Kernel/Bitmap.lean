import Mathlib.Data.Nat.Bitwise
import Mathlib.Order.Bounds.Basic

/-!
# Bitmaps of `lib/bitmap.c`

A bitmap is the function that reads it. The searches return their size when
nothing is found, except `bitmap_find_next_zero_area`: when the area it is
about to try does not fit it returns the end of that area, which is behind the
size by up to `nr`.
-/

namespace Am335x

abbrev Bitmap := ℕ → Bool

namespace Bitmap

def findNextBit (map : Bitmap) (size offset : ℕ) : ℕ :=
  if offset < size then
    if map offset then offset else findNextBit map size (offset + 1)
  else size
termination_by size - offset

def findNextZeroBit (map : Bitmap) (size offset : ℕ) : ℕ :=
  findNextBit (fun i => !map i) size offset

/-- `bitmap_set`. -/
def set (map : Bitmap) (start nr : ℕ) : Bitmap :=
  fun i => if start ≤ i ∧ i < start + nr then true else map i

/-- `bitmap_clear`. -/
def clear (map : Bitmap) (start nr : ℕ) : Bitmap :=
  fun i => if start ≤ i ∧ i < start + nr then false else map i

/-- `__ALIGN_MASK`, that is `(x + mask) & ~mask`. -/
def alignMask (x mask : ℕ) : ℕ := x + mask - ((x + mask) &&& mask)

lemma findNextBit_le (map : Bitmap) (size offset : ℕ) : findNextBit map size offset ≤ size := by
  fun_induction findNextBit map size offset with
  | case1 offset hlt _ => exact hlt.le
  | case2 offset _ _ ih => exact ih
  | case3 offset _ => exact le_rfl

variable {map : Bitmap} {offset size i : ℕ}

lemma le_findNextBit (h : offset ≤ size) : offset ≤ findNextBit map size offset := by
  fun_induction findNextBit map size offset with
  | case1 offset _ _ => exact le_rfl
  | case2 offset hlt _ ih => exact (Nat.le_succ offset).trans (ih hlt)
  | case3 offset _ => exact h

lemma findNextBit_spec (h : findNextBit map size offset < size)
    : map (findNextBit map size offset) = true := by
  fun_induction findNextBit map size offset with
  | case1 offset _ hbit => exact hbit
  | case2 offset _ _ ih => exact ih h
  | case3 offset _ => omega

lemma not_of_lt_findNextBit (hi : offset ≤ i) (h : i < findNextBit map size offset)
    (hsize : i < size) : map i = false := by
  fun_induction findNextBit map size offset with
  | case1 offset _ _ => omega
  | case2 offset _ hbit ih =>
    rcases Nat.eq_or_lt_of_le hi with rfl | hlt
    · simpa using hbit
    · exact ih hlt h
  | case3 offset hge => omega

lemma findNextZeroBit_cases (map : Bitmap) (h : offset ≤ size) :
    (findNextZeroBit map size offset = size ∧ ∀ i, offset ≤ i → i < size → map i = true) ∨
      (offset ≤ findNextZeroBit map size offset ∧ findNextZeroBit map size offset < size ∧
        map (findNextZeroBit map size offset) = false) := by
  unfold findNextZeroBit
  rcases Nat.eq_or_lt_of_le (findNextBit_le (fun i => !map i) size offset) with heq | hlt
  · refine .inl ⟨heq, fun i hi hsize => ?_⟩
    have hpassed : i < findNextBit (fun i => !map i) size offset := by rw [heq]; exact hsize
    simpa using not_of_lt_findNextBit hi hpassed hsize
  · refine .inr ⟨le_findNextBit h, hlt, ?_⟩
    have hbit := findNextBit_spec hlt
    simpa using hbit

lemma of_lt_findNextZeroBit (hi : offset ≤ i) (h : i < findNextZeroBit map size offset)
    : map i = true := by
  have hsize : i < size := h.trans_le (findNextBit_le _ size offset)
  simpa using not_of_lt_findNextBit hi h hsize

lemma le_alignMask (x mask : ℕ) : x ≤ alignMask x mask := by
  have hand : (x + mask) &&& mask ≤ mask := Nat.and_le_right
  unfold alignMask
  omega

lemma min_le_index (map : Bitmap) (size start mask : ℕ) :
    min start size ≤ alignMask (findNextZeroBit map size start) mask := by
  refine le_trans ?_ (le_alignMask _ mask)
  rcases lt_or_ge size start with h | h
  · have hnone : findNextZeroBit map size start = size := by
      rw [findNextZeroBit, findNextBit, if_neg (by omega)]
    omega
  · exact (Nat.min_le_left start size).trans (le_findNextBit h)

/-- `bitmap_find_next_zero_area`; the recursion is `goto again`. -/
def findNextZeroArea (map : Bitmap) (size start nr mask : ℕ) : ℕ :=
  let index := alignMask (findNextZeroBit map size start) mask
  let last := index + nr
  if size < last then last
  else
    let i := findNextBit map last index
    if i < last then findNextZeroArea map size (i + 1) nr mask else index
termination_by size + 1 - start
decreasing_by
  have hindex := min_le_index map size start mask
  have hge : index ≤ i := le_findNextBit (by omega)
  show size + 1 - (i + 1) < size + 1 - start
  omega

lemma findNextZeroArea_one (map : Bitmap) {start : ℕ} (h : start ≤ size) :
    findNextZeroArea map size start 1 0 = if findNextZeroBit map size start = size then size + 1
      else findNextZeroBit map size start := by
  have hmask : ∀ x, alignMask x 0 = x := by
    intro x
    simp [alignMask]
  unfold findNextZeroArea
  simp only [hmask]
  rcases findNextZeroBit_cases map h with ⟨heq, _⟩ | ⟨_, hlt, hzero⟩
  · rw [heq, if_pos (by omega), if_pos rfl]
  · generalize findNextZeroBit map size start = index at hlt hzero
    have hnone : findNextBit map (index + 1) index = index + 1 := by
      rw [findNextBit, if_pos (by omega), hzero, if_neg nofun, findNextBit, if_neg (lt_irrefl _)]
    rw [if_neg (by omega), hnone, if_neg (lt_irrefl _), if_neg hlt.ne]

variable {start nr k p x : ℕ}

lemma dvd_alignMask (x k : ℕ) : 2 ^ k ∣ alignMask x (2 ^ k - 1) := by
  rw [alignMask, Nat.and_two_pow_sub_one_eq_mod]
  exact Nat.dvd_sub_mod _

lemma alignMask_le (hle : x ≤ p) (hdvd : 2 ^ k ∣ p) : alignMask x (2 ^ k - 1) ≤ p := by
  have hpos := Nat.two_pow_pos k
  refine Nat.le_of_lt_add_of_dvd ?_ (dvd_alignMask x k) hdvd
  unfold alignMask
  omega

/-- An aligned area of `nr` zero bits from `p` on. -/
structure IsArea (map : Bitmap) (size start nr k p : ℕ) : Prop where
  le : start ≤ p
  dvd : 2 ^ k ∣ p
  fits : p + nr ≤ size
  free : ∀ i, p ≤ i → i < p + nr → map i = false

lemma IsArea.index_le (h : IsArea map size start nr k p) (hnr : 0 < nr) :
    alignMask (findNextZeroBit map size start) (2 ^ k - 1) ≤ p := by
  refine alignMask_le (not_lt.mp fun hlt => ?_) h.dvd
  have hset := of_lt_findNextZeroBit h.le hlt
  rw [h.free p le_rfl (by omega)] at hset
  cases hset

lemma findNextZeroArea_spec (hnr : 0 < nr) :
    (size < findNextZeroArea map size start nr (2 ^ k - 1) ∧ ∀ p, ¬ IsArea map size start nr k p) ∨
      IsLeast {p | IsArea map size start nr k p}
        (findNextZeroArea map size start nr (2 ^ k - 1)) := by
  fun_induction findNextZeroArea map size start nr (2 ^ k - 1) with
  | case1 start index last hlast =>
    refine .inl ⟨hlast, fun p hp => ?_⟩
    have hle : index ≤ p := hp.index_le hnr
    have hfits := hp.fits
    omega
  | case2 start index last hlast i hi ih =>
    have hstart := min_le_index map size start (2 ^ k - 1)
    have hindex : index ≤ i := le_findNextBit (by omega)
    have hset : map i = true := findNextBit_spec hi
    -- an area cannot contain the bit `i`, and none begins before `index`
    have hiff : ∀ p, IsArea map size start nr k p ↔ IsArea map size (i + 1) nr k p := by
      refine fun p => ⟨fun hp => ⟨?_, hp.dvd, hp.fits, hp.free⟩,
        fun hp => ⟨by have := hp.le; omega, hp.dvd, hp.fits, hp.free⟩⟩
      by_contra hlt
      have hle : index ≤ p := hp.index_le hnr
      have hfree := hp.free i (by omega) (by omega)
      rw [hset] at hfree
      cases hfree
    simpa only [hiff] using ih
  | case3 start index last hlast i hi =>
    have hstart := min_le_index map size start (2 ^ k - 1)
    refine .inr ⟨⟨by omega, dvd_alignMask _ k, not_lt.mp hlast, fun j hj hlt => ?_⟩,
      fun p hp => hp.index_le hnr⟩
    exact not_of_lt_findNextBit hj (hlt.trans_le (not_lt.mp hi)) hlt

/-- **`bitmap_find_next_zero_area`**: the first area, if there is one. -/
theorem zero_area_first (map : Bitmap) (size start : ℕ) (hnr : 0 < nr) (k : ℕ) :
    (findNextZeroArea map size start nr (2 ^ k - 1) + nr ≤ size →
      IsLeast {p | IsArea map size start nr k p} (findNextZeroArea map size start nr (2 ^ k - 1))) ∧
      (size < findNextZeroArea map size start nr (2 ^ k - 1) + nr ↔
        ¬ ∃ p, IsArea map size start nr k p) := by
  rcases findNextZeroArea_spec hnr with ⟨hlt, hnone⟩ | hleast
  · exact ⟨fun hle => by omega, iff_of_true (by omega) fun ⟨p, hp⟩ => hnone p hp⟩
  · exact ⟨fun _ => hleast, iff_of_false (not_lt.mpr hleast.1.fits) (not_not_intro ⟨_, hleast.1⟩)⟩

theorem no_zero_area_of_three : ¬ ∃ p, IsArea (fun i => i == 1) 4 0 3 1 p :=
  (zero_area_first (fun i => i == 1) 4 0 (by decide) 1).2.mp (by
    simp [findNextZeroArea, findNextZeroBit, findNextBit, alignMask])

/-- An area without bits could begin at a bit that is set, but is looked for at a zero bit. -/
theorem empty_area_missed : IsArea (fun i => i == 0) 4 0 0 0 0 ∧
    findNextZeroArea (fun i => i == 0) 4 0 0 0 = 1 := by
  refine ⟨⟨le_rfl, ⟨0, rfl⟩, by decide, by omega⟩, ?_⟩
  simp [findNextZeroArea, findNextZeroBit, findNextBit, alignMask]

end Bitmap

end Am335x
