import Mathlib.Data.Set.Lattice
import Mathlib.Order.CompletePartialOrder
import Am335xKernel.Mm.MemblockArrays

/-!
# The highest free place: `memblock_find_base`

The search goes down from the top of the memory. Where the place overlaps a reserved region the next
one that is tried ends where that begins; which of several regions it is does not matter, since no
place in between is free.
-/

namespace Am335x.Memblock

open Spans List Nat Set

/-- The greatest element of a set, or that there is none. -/
def Highest (S : Set ℕ) : Option ℕ → Prop
  | some b => IsGreatest S b
  | none => S = ∅

/-- The places from `low` up to `high` of which nothing is reserved. -/
def places (reserved : List Region) (size align low high : ℕ) : Set ℕ :=
  {b | align ∣ b ∧ low ≤ b ∧ b + size ≤ high ∧ Disjoint (covered reserved) (Set.Ico b (b + size))}

/-- Where `memblock_find_region` begins: it must not return 0. -/
def bottom (base start : ℕ) : ℕ := if max base start = 0 then 4096 else max base start

/-- What `memblock_find_base` may return. -/
def freePlaces (reserved memory : List Region) (size align start fin : ℕ) : Set ℕ :=
  {b | ∃ r ∈ memory, b ∈ places reserved size align (bottom r.base start) (min r.stop fin)}

lemma Regions.stop_lt {l : List Region} (h : Regions l) {r : Region} (hr : r ∈ l) :
    r.stop < 2 ^ 32 := by
  rcases h with rfl | ⟨-, hs⟩
  · rw [mem_singleton.mp hr]
    decide
  · exact hs.fit r hr

section

variable {reserved : List Region} {size k a b low high : ℕ}

lemma memblockAlignDown_eq (ha : a < 2 ^ 32) (hk : k < 32) :
    memblockAlignDown a (2 ^ k) = 2 ^ k * (a / 2 ^ k) := by
  have hpos := Nat.two_pow_pos k
  have hlt : 2 ^ k - 1 < 2 ^ 32 := by
    have hle : 2 ^ k ≤ 2 ^ 32 := Nat.pow_le_pow_right (by decide) hk.le
    omega
  have hsub : 2 ^ 32 - 2 ^ k = 2 ^ 32 - (2 ^ k - 1 + 1) := by omega
  unfold memblockAlignDown
  refine Nat.eq_of_testBit_eq fun i => ?_
  rw [hsub, testBit_and, testBit_two_pow_sub_succ hlt, testBit_two_pow_sub_one,
    testBit_two_pow_mul, testBit_div_two_pow]
  by_cases hi : i < 32
  · by_cases hik : i < k
    · simp [hik, hik.not_ge]
    · simp [hi, hik, Nat.sub_add_cancel (not_lt.mp hik), not_lt.mp hik]
  · have hbit : a.testBit i = false :=
      Nat.testBit_lt_two_pow (ha.trans_le (Nat.pow_le_pow_right (by decide) (not_lt.mp hi)))
    simp [hbit, hi, Nat.sub_add_cancel (hk.le.trans (not_lt.mp hi))]

lemma le_memblockAlignDown_iff (ha : a < 2 ^ 32) (hk : k < 32) (hb : 2 ^ k ∣ b) :
    b ≤ memblockAlignDown a (2 ^ k) ↔ b ≤ a := by
  obtain ⟨q, rfl⟩ := hb
  rw [memblockAlignDown_eq ha hk, Nat.mul_le_mul_left_iff (Nat.two_pow_pos k),
    Nat.le_div_iff_mul_le (Nat.two_pow_pos k), Nat.mul_comm]

lemma dvd_memblockAlignDown (ha : a < 2 ^ 32) (hk : k < 32) :
    2 ^ k ∣ memblockAlignDown a (2 ^ k) := by
  rw [memblockAlignDown_eq ha hk]
  exact dvd_mul_right _ _

lemma places_alignDown (hk : k < 32) (hhigh : high < 2 ^ 32) (hle : size ≤ high) :
    places reserved size (2 ^ k) low high =
      places reserved size (2 ^ k) low (memblockAlignDown (high - size) (2 ^ k) + size) := by
  ext b
  refine and_congr_right fun hb => and_congr_right fun _ => and_congr_left fun _ => ?_
  have hiff := le_memblockAlignDown_iff (a := high - size) (by omega) hk hb
  omega

variable (hres : Regions reserved) (hsize : 0 < size)
include hres hsize

lemma add_le_base {r : Region} (hr : r ∈ reserved) (hb : b < r.stop)
    (hfree : Disjoint (covered reserved) (Set.Ico b (b + size))) : b + size ≤ r.base := by
  have hlt : r.base < r.stop := by
    rcases hres with rfl | ⟨-, hs⟩
    · rw [mem_singleton.mp hr] at hb
      cases hb
    · exact Nat.lt_add_of_pos_right (hs.pos r hr)
  by_contra hover
  rw [not_le] at hover
  refine disjoint_left.mp hfree ⟨r, hr, le_max_right b r.base, max_lt hb hlt⟩ ?_
  exact ⟨le_max_left _ _, max_lt (Nat.lt_add_of_pos_right hsize) hover⟩

omit hsize in
lemma disjoint_of_overlaps (hfit : b + size < 2 ^ 32)
    (h : memblockOverlapsRegion reserved b size = none) :
    Disjoint (covered reserved) (Set.Ico b (b + size)) := by
  refine disjoint_left.mpr ?_
  rintro x ⟨r, hr, hrx, hxr⟩ ⟨hbx, hxb⟩
  have hmiss := List.find?_eq_none.mp h r hr
  rw [decide_eq_true_eq, rend_eq (hres.stop_lt hr), add32_of_lt hfit] at hmiss
  exact hmiss ⟨hbx.trans_lt hxr, hrx.trans_lt hxb⟩

variable (hk : k < 32)
include hk

/-- **The loop** goes down past the region that is found, and no further than it has to. -/
lemma findLoop_highest {base : ℕ} (hfit : base + size < 2 ^ 32) (hbase : 2 ^ k ∣ base) :
    Highest (places reserved size (2 ^ k) low (base + size))
      (findLoop reserved low size (2 ^ k) base) := by
  induction base using Nat.strong_induction_on with
  | _ base ih =>
    unfold findLoop
    by_cases hlow : low ≤ base
    · rw [if_pos hlow]
      cases hover : memblockOverlapsRegion reserved base size with
      | none =>
        refine ⟨⟨hbase, hlow, le_rfl, disjoint_of_overlaps hres hfit hover⟩, ?_⟩
        exact fun b hb => le_of_add_le_add_right hb.2.2.1
      | some res =>
        have hr : res ∈ reserved := List.mem_of_find?_eq_some hover
        have hmeet := List.find?_some hover
        rw [decide_eq_true_eq, rend_eq (hres.stop_lt hr), add32_of_lt hfit] at hmeet
        -- a place that is not higher ends before the region
        have hsame : places reserved size (2 ^ k) low (base + size) =
            places reserved size (2 ^ k) low res.base := by
          ext b
          refine and_congr_right fun _ => and_congr_right fun _ => and_congr_left fun hfree => ?_
          refine ⟨fun hle => add_le_base hres hsize hr ?_ hfree, fun hle => by omega⟩
          omega
        have hstop := res.base_le_stop.trans_lt (hres.stop_lt hr)
        dsimp only
        rw [hsame]
        split_ifs with hsmall hmoves
        · exact eq_empty_iff_forall_notMem.mpr fun b hb =>
            hsmall.not_ge ((le_add_left _ _).trans hb.2.2.1)
        · rw [places_alignDown hk hstop (not_lt.mp hsmall)]
          exact ih _ hmoves (by omega) (dvd_memblockAlignDown (by omega) hk)
        · have hle : memblockAlignDown (res.base - size) (2 ^ k) ≤ res.base - size := and_le_left
          omega
    · rw [if_neg hlow]
      refine eq_empty_iff_forall_notMem.mpr fun b hb => hlow ?_
      exact hb.2.1.trans (le_of_add_le_add_right hb.2.2.1)

lemma findRegion_highest (hhigh : high < 2 ^ 32) :
    Highest (places reserved size (2 ^ k) (if low = 0 then 4096 else low) high)
      (memblockFindRegion reserved low high size (2 ^ k)) := by
  unfold memblockFindRegion
  by_cases hsmall : high < size
  · rw [if_pos hsmall]
    exact eq_empty_iff_forall_notMem.mpr fun b hb =>
      hsmall.not_ge ((le_add_left _ _).trans hb.2.2.1)
  · have hle : memblockAlignDown (high - size) (2 ^ k) ≤ high - size := and_le_left
    rw [if_neg hsmall, places_alignDown hk hhigh (not_lt.mp hsmall)]
    exact findLoop_highest hres hsize hk (by omega) (dvd_memblockAlignDown (by omega) hk)

variable {start fin : ℕ} {memory : List Region}

lemma findBaseFrom_highest (hfit : ∀ r ∈ memory, r.stop < 2 ^ 32)
    (hdown : memory.Pairwise fun r r' => r'.stop ≤ r.base) :
    Highest (freePlaces reserved memory size (2 ^ k) start fin)
      (findBaseFrom reserved start fin size (2 ^ k) memory) := by
  induction memory with
  | nil => exact eq_empty_iff_forall_notMem.mpr fun b ⟨r, hr, _⟩ => nomatch hr
  | cons rgn rest ih =>
    obtain ⟨hbelow, hdown⟩ := pairwise_cons.mp hdown
    have hrest := ih (fun r hr => hfit r (mem_cons_of_mem rgn hr)) hdown
    have hstop := hfit rgn mem_cons_self
    have hinside : ∀ r : Region, ∀ b ∈ places reserved size (2 ^ k) (bottom r.base start)
        (min r.stop fin), r.base ≤ b ∧ start ≤ b ∧ b + size ≤ r.stop ∧ b + size ≤ fin := by
      rintro r b ⟨-, hlow, hhigh, -⟩
      unfold bottom at hlow
      split_ifs at hlow <;> omega
    have hskip :
        (∀ b, b ∉ places reserved size (2 ^ k) (bottom rgn.base start) (min rgn.stop fin)) →
        freePlaces reserved (rgn :: rest) size (2 ^ k) start fin =
          freePlaces reserved rest size (2 ^ k) start fin := by
      intro hnone
      ext b
      simp [freePlaces, hnone]
    unfold findBaseFrom
    rw [rend_eq hstop]
    split_ifs with hsmall hbefore hempty
    · rw [hskip fun b hb => ?_]
      · exact hrest
      · have hb' := hinside rgn b hb
        unfold Region.stop at hb'
        omega
    · refine eq_empty_iff_forall_notMem.mpr ?_
      rintro b ⟨r, hr, hb⟩
      have hb' := hinside r b hb
      rcases mem_cons.mp hr with rfl | hr
      · omega
      · have hle := hbelow r hr
        have hle' := rgn.base_le_stop
        omega
    · rw [hskip fun b hb => ?_]
      · exact hrest
      · have hb' := hinside rgn b hb
        omega
    · have hregion : Highest
          (places reserved size (2 ^ k) (bottom rgn.base start) (min rgn.stop fin))
          _ := findRegion_highest hres hsize hk ((min_le_left rgn.stop fin).trans_lt hstop)
      cases hfound : memblockFindRegion reserved (max rgn.base start) (min rgn.stop fin) size
        (2 ^ k) with
      | none =>
        rw [hfound] at hregion
        rw [hskip (eq_empty_iff_forall_notMem.mp hregion)]
        exact hrest
      | some found =>
        rw [hfound] at hregion
        refine ⟨⟨rgn, mem_cons_self, hregion.1⟩, ?_⟩
        rintro b ⟨r, hr, hb⟩
        rcases mem_cons.mp hr with rfl | hr
        · exact hregion.2 hb
        · have hle := hbelow r hr
          have hb' := hinside r b hb
          have hat := hinside rgn found hregion.1
          omega

lemma findBase_highest (hmem : Regions memory) :
    Highest (freePlaces reserved memory size (2 ^ k) start fin)
      (findBaseFrom reserved start fin size (2 ^ k) memory.reverse) := by
  have hdown : memory.reverse.Pairwise fun r r' => r'.stop ≤ r.base := by
    rw [pairwise_reverse]
    rcases hmem with rfl | ⟨-, hs⟩
    · exact pairwise_singleton _ _
    · exact hs.ordered.apart.imp fun hlt => (lt_of_succ_le hlt).le
  have hsame : freePlaces reserved memory.reverse size (2 ^ k) start fin =
      freePlaces reserved memory size (2 ^ k) start fin := by
    ext b
    simp [freePlaces]
  rw [← hsame]
  exact findBaseFrom_highest hres hsize hk (fun r hr => hmem.stop_lt (mem_reverse.mp hr)) hdown

end

/-- **`memblock_find_base`** returns the highest place, or there is none. -/
theorem memblock_find_base_highest {s : State} {size k : ℕ}
    (hmem : Regions (s.type .memory).regions)
    (hres : Regions (s.type .reserved).regions) (hsize : 0 < size) (hk : k < 32) (start fin : ℕ) :
    Highest (freePlaces (s.type .reserved).regions (s.type .memory).regions size (2 ^ k) start
      (if fin = 0 then s.currentLimit else fin)) (memblockFindBase s size (2 ^ k) start fin) :=
  findBase_highest hres hsize hk hmem

/-- The upper one of two pages is reserved. -/
theorem memblock_find_base_highest_onePage :
    Highest (freePlaces [⟨8192, 4096⟩] [⟨4096, 8192⟩] 4096 (2 ^ 12) 0 (2 ^ 32 - 1))
      (memblockFindBase (((memblockInit (2 ^ 32 - 1)).setRegions .memory [⟨4096, 8192⟩]).setRegions
        .reserved [⟨8192, 4096⟩]) 4096 (2 ^ 12) 0 0) := by
  have hregions : ∀ base size, 0 < size → base + size < 2 ^ 32 → Regions [⟨base, size⟩] :=
    fun _ _ hpos hlt => .inr ⟨cons_ne_nil _ _, by simpa, by simpa,
      by simp [Region.stop, Nat.lt_succ_iff], pairwise_singleton _ _⟩
  exact memblock_find_base_highest (hregions 4096 8192 (by decide) (by decide))
    (hregions 8192 4096 (by decide) (by decide)) (by decide) (by decide) 0 0

end Am335x.Memblock
