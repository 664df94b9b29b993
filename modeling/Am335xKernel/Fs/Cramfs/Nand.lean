import Mathlib.Data.Nat.Nth
import Mathlib.Tactic.Ring

/-!
# The bad-block map of `fs/cramfs/inode.c`

A cramfs image on a NAND partition is written to the good blocks in order. At mount time
`cramfs_fill_nand` computes for each block of the image how far it is displaced, and
`cramfs_nand_transfer_offset` adds the displacement.

The loop that looks for the next good block asks `block_isbad`, which is not zero behind the end of
the partition either, and its offset is a `uint32_t` that wraps around. Near the end of a partition
with bad blocks the search therefore runs through all of the 32-bit range and comes back: below 4
GiB it ends if and only if the last block is good, and entries that belong to a good block are right
in any case. The loop asks for as many good blocks as the partition has blocks, so a single bad
block leads it behind the end.
-/

namespace Am335x.Cramfs

open List Option Nat

/-- A NAND partition of whole erase blocks. The size of a block, a `uint32_t`, is at least a
page. -/
structure Partition where
  shift : ℕ
  blocks : ℕ
  bad : ℕ → Bool
  page_le : 12 ≤ shift
  shift_lt : shift < 32

namespace Partition

variable (p : Partition)

def erasesize : ℕ := 2 ^ p.shift

def size : ℕ := p.blocks * p.erasesize

/-- `part_block_isbad`, as a truth value: the error behind the end of the
partition counts as bad. -/
def blockIsbad (ofs : ℕ) : Bool :=
  if p.size ≤ ofs then true else p.bad (ofs / p.erasesize)

/-! ### Where the image lies -/

def Usable (b : ℕ) : Prop := p.blocks ≤ b ∨ p.bad b = false

instance : DecidablePred p.Usable := fun _ => inferInstanceAs (Decidable (_ ∨ _))

def goodCount : ℕ := Nat.count p.Usable p.blocks

/-- The good block with number `i`. -/
noncomputable def goodBlock (i : ℕ) : ℕ := Nat.nth p.Usable i

/-- The offset in the partition at which byte `x` of the image lies. -/
noncomputable def place (x : ℕ) : ℕ :=
  p.goodBlock (x / p.erasesize) * p.erasesize + x % p.erasesize

def capacity : ℕ := p.goodCount * p.erasesize

end Partition

/-- `struct cramfs_nand_info`; a `NULL` map is `none`. -/
structure NandInfo where
  erasesizeShift : ℕ
  blockMap : Option (List ℕ)
  size : ℕ
  deriving DecidableEq

/-- The `while` loop of `cramfs_fill_nand` at block `i`: the first offset at
which the block is not bad, `none` if that takes more than the given number of
turns. -/
def skipBad (p : Partition) (i : ℕ) : ℕ → ℕ → Option ℕ
  | 0, _ => none
  | fuel + 1, offset =>
    if p.blockIsbad (i * p.erasesize + offset) then
      skipBad p i fuel ((offset + p.erasesize) % 2 ^ 32)
    else some offset

/-- The `for` loop over the `n` blocks from `i` on. -/
def fillMap (p : Partition) (fuel : ℕ) : ℕ → ℕ → ℕ → Option (List ℕ)
  | 0, _, _ => some []
  | n + 1, i, offset =>
    (skipBad p i fuel offset).bind fun offset =>
      (fillMap p fuel n (i + 1) offset).map (offset :: ·)

/-- `cramfs_fill_nand` on a NAND partition. If `kmalloc` has no memory for the map, the structure
stays zeroed. -/
def cramfsFillNand (p : Partition) (kmalloc : Bool) (fuel : ℕ) : Option NandInfo :=
  if kmalloc then
    (fillMap p fuel p.blocks 0 0).map fun map =>
      { erasesizeShift := p.shift, blockMap := some map, size := p.size % 2 ^ 32 }
  else some { erasesizeShift := 0, blockMap := none, size := 0 }

/-- `cramfs_nand_transfer_offset`. An index behind the end of the map is not
defined; it is not used below. -/
def cramfsNandTransferOffset (info : NandInfo) (offset : ℕ) : ℕ :=
  match info.blockMap with
  | none => offset
  | some map =>
    if info.erasesizeShift = 0 then offset
    else if info.size < offset then offset
    else (offset + map.getD (offset >>> info.erasesizeShift) 0) % 2 ^ 32

namespace Partition

variable {p : Partition}

lemma erasesize_pos : 0 < p.erasesize := Nat.two_pow_pos p.shift

def range (p : Partition) : ℕ := 2 ^ (32 - p.shift)

lemma infinite_usable (p : Partition) : (Set.ofPred p.Usable).Infinite := by
  refine Set.infinite_of_injective_forall_mem (f := fun n => n + p.blocks) ?_ ?_
  · intro a b h
    exact add_right_cancel h
  · intro n
    exact .inl (by omega)

lemma goodCount_le (p : Partition) : p.goodCount ≤ p.blocks := count_le p.Usable

lemma goodBlock_strictMono (p : Partition) : StrictMono p.goodBlock :=
  nth_strictMono p.infinite_usable

variable {i b : ℕ}

lemma goodBlock_lt (h : i < p.goodCount) : p.goodBlock i < p.blocks := nth_lt_of_lt_count h

lemma goodBlock_good (h : i < p.goodCount) : p.bad (p.goodBlock i) = false := by
  rcases nth_mem_of_infinite p.infinite_usable i with hle | hgood
  · exact absurd (goodBlock_lt h) (not_lt.mpr hle)
  · exact hgood

lemma le_goodBlock (p : Partition) (i : ℕ) : i ≤ p.goodBlock i := p.goodBlock_strictMono.le_apply

lemma exists_goodBlock (h : p.Usable b) : ∃ i, p.goodBlock i = b := ⟨_, nth_count h⟩

lemma bad_between (h1 : p.goodBlock i < b) (h2 : b < p.goodBlock (i + 1)) : ¬ p.Usable b := by
  intro hu
  obtain ⟨k, rfl⟩ := exists_goodBlock hu
  have hik := p.goodBlock_strictMono.lt_iff_lt.mp h1
  have hki := p.goodBlock_strictMono.lt_iff_lt.mp h2
  omega

lemma bad_before_first (h : b < p.goodBlock 0) : ¬ p.Usable b := by
  intro hu
  obtain ⟨k, rfl⟩ := exists_goodBlock hu
  exact absurd (p.goodBlock_strictMono.lt_iff_lt.mp h) (not_lt_zero k)

lemma range_mul (p : Partition) : p.range * p.erasesize = 2 ^ 32 := by
  unfold range erasesize
  rw [← pow_add, Nat.sub_add_cancel p.shift_lt.le]

lemma blocks_lt_range (hsmall : p.size < 2 ^ 32) : p.blocks < p.range := by
  rw [← p.range_mul] at hsmall
  exact Nat.lt_of_mul_lt_mul_right hsmall

lemma next_offset (p : Partition) (o : ℕ) :
    (o * p.erasesize + p.erasesize) % 2 ^ 32 = (o + 1) % p.range * p.erasesize := by
  rw [← p.range_mul, ← mul_mod_mul_right]
  congr 1
  ring

lemma blockIsbad_block (p : Partition) (i o : ℕ) :
    p.blockIsbad (i * p.erasesize + o * p.erasesize) =
      if p.blocks ≤ i + o then true else p.bad (i + o) := by
  unfold blockIsbad size
  rw [← add_mul, Nat.mul_div_cancel _ erasesize_pos]
  by_cases h : p.blocks ≤ i + o
  · rw [if_pos h, if_pos (mul_le_mul_right _ h)]
  · rw [if_neg h, if_neg]
    intro hle
    exact h (le_of_mul_le_mul_right hle erasesize_pos)

lemma blockIsbad_of_not_usable {o : ℕ} (h : ¬ p.Usable (i + o)) :
    p.blockIsbad (i * p.erasesize + o * p.erasesize) = true := by
  rw [blockIsbad_block]
  by_cases hle : p.blocks ≤ i + o
  · rw [if_pos hle]
  · rw [if_neg hle]
    by_contra hgood
    exact h (.inr (by simpa using hgood))

end Partition

open Partition

section

variable {p : Partition} {fuel i : ℕ}

lemma skipBad_aligned : ∀ {o r : ℕ}, o < p.range → skipBad p i fuel (o * p.erasesize) = some r →
      ∃ o' < p.range, r = o' * p.erasesize := by
  induction fuel with
  | zero => intro o r _ hr; cases hr
  | succ fuel ih =>
    intro o r ho hr
    simp only [skipBad] at hr
    split at hr
    · rw [p.next_offset] at hr
      exact ih (mod_lt _ (zero_lt_of_lt ho)) hr
    · exact ⟨o, ho, (some.inj hr).symm⟩

/-- What the search finds from a point that no good block after the previous
one precedes: the good block with number `i`. -/
lemma skipBad_eq (hsmall : p.size < 2 ^ 32) (hi : i < p.goodCount) :
    ∀ {o r : ℕ}, i + o ≤ p.goodBlock i → (∀ b, i + o ≤ b → b < p.goodBlock i → ¬ p.Usable b) →
      skipBad p i fuel (o * p.erasesize) = some r → r = (p.goodBlock i - i) * p.erasesize := by
  have hlt := goodBlock_lt hi
  induction fuel with
  | zero => intro o r _ _ hr; cases hr
  | succ fuel ih =>
    intro o r hle hbad hr
    simp only [skipBad] at hr
    by_cases heq : i + o = p.goodBlock i
    · have hgood : p.blockIsbad (i * p.erasesize + o * p.erasesize) = false := by
        rw [blockIsbad_block, heq, if_neg (not_le.mpr hlt)]
        exact goodBlock_good hi
      simp only [hgood, Bool.false_eq_true, if_false, some.injEq] at hr
      rw [← hr]
      congr 1
      omega
    · have hskip := blockIsbad_of_not_usable (hbad (i + o) le_rfl (by omega))
      have hrange := blocks_lt_range hsmall
      rw [hskip, if_pos rfl, p.next_offset, mod_eq_of_lt (by omega)] at hr
      exact ih (by omega) (fun b hb => hbad b (by omega)) hr

lemma skipBad_mono {fuel' : ℕ} (hle : fuel ≤ fuel') :
    ∀ {offset r : ℕ}, skipBad p i fuel offset = some r → skipBad p i fuel' offset = some r := by
  induction fuel generalizing fuel' with
  | zero => intro offset r hr; cases hr
  | succ fuel ih =>
    intro offset r hr
    obtain ⟨m, rfl⟩ : ∃ m, fuel' = m + 1 := ⟨fuel' - 1, by omega⟩
    simp only [skipBad] at hr ⊢
    split at hr
    · rename_i hb
      rw [if_pos hb]
      exact ih (by omega) hr
    · rename_i hb
      rw [if_neg hb]
      exact hr

lemma skipBad_of_ahead {k : ℕ} : ∀ {o : ℕ}, o < p.range →
      p.blockIsbad (i * p.erasesize + (o + k) % p.range * p.erasesize) = false →
      ∃ r, skipBad p i (k + 1) (o * p.erasesize) = some r := by
  induction k with
  | zero =>
    intro o ho hgood
    rw [add_zero, mod_eq_of_lt ho] at hgood
    exact ⟨_, by simp [skipBad, hgood]; rfl⟩
  | succ k ih =>
    intro o ho hgood
    rw [skipBad]
    split
    · rw [p.next_offset]
      apply ih (mod_lt _ (zero_lt_of_lt ho))
      rw [mod_add_mod]
      rw [show o + 1 + k = o + (k + 1) by omega]
      exact hgood
    · exact ⟨_, rfl⟩

lemma skipBad_terminates (hsmall : p.size < 2 ^ 32) (hi : i < p.blocks)
    (hlast : p.bad (p.blocks - 1) = false) {o : ℕ} (ho : o < p.range) :
    ∃ r, skipBad p i p.range (o * p.erasesize) = some r := by
  have hrange := blocks_lt_range hsmall
  -- the turns from `o` to the offset of the last block
  obtain ⟨k, hk, htarget⟩ : ∃ k < p.range, (o + k) % p.range = p.blocks - 1 - i := by
    by_cases hle : o ≤ p.blocks - 1 - i
    · exact ⟨p.blocks - 1 - i - o, by omega, by rw [mod_eq_of_lt] <;> omega⟩
    · refine ⟨p.range - o + (p.blocks - 1 - i), by omega, ?_⟩
      rw [show o + (p.range - o + (p.blocks - 1 - i)) = p.blocks - 1 - i + p.range by omega,
        add_mod_right, mod_eq_of_lt (by omega)]
  have hgood : p.blockIsbad (i * p.erasesize + (o + k) % p.range * p.erasesize) = false := by
    rw [htarget, blockIsbad_block, if_neg (by omega),
      show i + (p.blocks - 1 - i) = p.blocks - 1 by omega]
    exact hlast
  obtain ⟨r, hr⟩ := skipBad_of_ahead ho hgood
  exact ⟨r, skipBad_mono hk hr⟩

lemma skipBad_loops (h : 0 < p.blocks) (hlast : p.bad (p.blocks - 1) = true) (fuel : ℕ) :
    ∀ o, o < p.range → skipBad p (p.blocks - 1) fuel (o * p.erasesize) = none := by
  induction fuel with
  | zero => intro o _; rfl
  | succ fuel ih =>
    intro o ho
    have hbad : p.blockIsbad ((p.blocks - 1) * p.erasesize + o * p.erasesize) = true := by
      rw [blockIsbad_block]
      by_cases h0 : o = 0
      · rw [h0, add_zero, if_neg (by omega), hlast]
      · rw [if_pos (by omega)]
    rw [skipBad, if_pos hbad, p.next_offset]
    exact ih _ (mod_lt _ (zero_lt_of_lt ho))

end

section

variable {p : Partition} {fuel x : ℕ}

lemma fillMap_succ_eq_some {n i offset : ℕ} {map : List ℕ} :
    fillMap p fuel (n + 1) i offset = some map ↔
      ∃ r rest, skipBad p i fuel offset = some r ∧ fillMap p fuel n (i + 1) r = some rest ∧
        map = r :: rest := by
  simp only [fillMap, bind_eq_some_iff, map_eq_some_iff]
  constructor
  · rintro ⟨r, hr, rest, hrest, rfl⟩
    exact ⟨r, rest, hr, hrest, rfl⟩
  · rintro ⟨r, rest, hr, hrest, rfl⟩
    exact ⟨r, hr, rest, hrest, rfl⟩

lemma fillMap_terminates (hsmall : p.size < 2 ^ 32) (hlast : p.bad (p.blocks - 1) = false) (n : ℕ) :
    ∀ i o, i + n ≤ p.blocks → o < p.range →
      ∃ map, fillMap p p.range n i (o * p.erasesize) = some map := by
  induction n with
  | zero => intro i o _ _; exact ⟨[], rfl⟩
  | succ n ih =>
    intro i o hle ho
    obtain ⟨r, hr⟩ := skipBad_terminates (i := i) hsmall (by omega) hlast ho
    obtain ⟨o', ho', rfl⟩ := skipBad_aligned ho hr
    obtain ⟨rest, hrest⟩ := ih (i + 1) o' (by omega) ho'
    exact ⟨_, fillMap_succ_eq_some.mpr ⟨_, rest, hr, hrest, rfl⟩⟩

lemma fillMap_loops (h : 0 < p.blocks) (hlast : p.bad (p.blocks - 1) = true) (fuel n : ℕ) :
    ∀ i o, i + (n + 1) = p.blocks → o < p.range →
      fillMap p fuel (n + 1) i (o * p.erasesize) = none := by
  induction n with
  | zero =>
    intro i o hi ho
    obtain rfl : i = p.blocks - 1 := by omega
    rw [fillMap, skipBad_loops h hlast fuel o ho]
    rfl
  | succ n ih =>
    intro i o hi ho
    by_contra hne
    obtain ⟨map, hmap⟩ := ne_none_iff_exists'.mp hne
    obtain ⟨r, rest, hr, hrest, _⟩ := fillMap_succ_eq_some.mp hmap
    obtain ⟨o', ho', rfl⟩ := skipBad_aligned ho hr
    rw [ih (i + 1) o' (by omega) ho'] at hrest
    cases hrest

lemma fillMap_entry (hsmall : p.size < 2 ^ 32) (n : ℕ) :
    ∀ (i o : ℕ) (map : List ℕ), i + o ≤ p.goodBlock i →
      (∀ b, i + o ≤ b → b < p.goodBlock i → ¬ p.Usable b) →
      fillMap p fuel n i (o * p.erasesize) = some map → ∀ k < n, i + k < p.goodCount →
        map.getD k 0 = (p.goodBlock (i + k) - (i + k)) * p.erasesize := by
  induction n with
  | zero => intro i o map _ _ _ k hk; omega
  | succ n ih =>
    intro i o map hle hbad hmap k hk hgood
    obtain ⟨r, rest, hr, hrest, rfl⟩ := fillMap_succ_eq_some.mp hmap
    have hr' := skipBad_eq hsmall (by omega) hle hbad hr
    subst hr'
    cases k with
    | zero => rfl
    | succ k =>
      have hnext := p.goodBlock_strictMono (show i < i + 1 by omega)
      have hi := p.le_goodBlock i
      have hentry := ih (i + 1) (p.goodBlock i - i) rest (by omega)
        (fun b hb1 hb2 => bad_between (i := i) (by omega) hb2) hrest k (by omega)
        (by omega)
      rw [getD_cons_succ, hentry, show i + 1 + k = i + (k + 1) by omega]

/-- A search that ends needs a good last block. -/
lemma last_good {map : List ℕ} (h : 0 < p.blocks)
    (hmap : fillMap p fuel p.blocks 0 0 = some map) : p.bad (p.blocks - 1) = false := by
  by_contra hbad
  rw [Bool.not_eq_false] at hbad
  obtain ⟨n, hn⟩ : ∃ n, p.blocks = n + 1 := ⟨p.blocks - 1, by omega⟩
  have hnone := fillMap_loops h hbad fuel n 0 0 (by omega) (Nat.two_pow_pos _)
  rw [← hn, zero_mul, hmap] at hnone
  cases hnone

/-- **Mounting ends exactly if the last block is good.** -/
lemma fillNand_terminates_iff (hsmall : p.size < 2 ^ 32) (h : 0 < p.blocks) :
    (∃ fuel info, cramfsFillNand p true fuel = some info) ↔ p.bad (p.blocks - 1) = false := by
  constructor
  · rintro ⟨fuel, info, hinfo⟩
    obtain ⟨map, hmap, -⟩ := map_eq_some_iff.mp hinfo
    exact last_good h hmap
  · intro hlast
    obtain ⟨map, hmap⟩ := fillMap_terminates hsmall hlast p.blocks 0 0 (by omega)
      (Nat.two_pow_pos _)
    rw [zero_mul] at hmap
    exact ⟨p.range, _, by rw [cramfsFillNand, hmap]; rfl⟩

lemma div_lt_goodCount (hx : x < p.capacity) : x / p.erasesize < p.goodCount :=
  Nat.div_lt_of_lt_mul (by rwa [mul_comm])

lemma place_lt_size (hx : x < p.capacity) : p.place x < p.size := by
  have hblock := goodBlock_lt (div_lt_goodCount hx)
  have hmod := mod_lt x (erasesize_pos (p := p))
  calc p.place x < p.goodBlock (x / p.erasesize) * p.erasesize + p.erasesize :=
        Nat.add_lt_add_left hmod _
    _ = (p.goodBlock (x / p.erasesize) + 1) * p.erasesize := by ring
    _ ≤ p.size := mul_le_mul_right _ hblock

lemma fillMap_good_entries {i : ℕ} {map : List ℕ} (hsmall : p.size < 2 ^ 32)
    (hmap : fillMap p fuel p.blocks 0 0 = some map)
    (hi : i < p.goodCount) : i * p.erasesize + map.getD i 0 = p.goodBlock i * p.erasesize := by
  have hle := p.goodCount_le
  have hmap' : fillMap p fuel p.blocks 0 (0 * p.erasesize) = some map := by
    rwa [zero_mul]
  have hentry := fillMap_entry hsmall p.blocks 0 0 map (zero_le _)
    (fun b _ hb => bad_before_first hb) hmap' i (by omega) (by rwa [zero_add])
  rw [zero_add] at hentry
  have hge := mul_le_mul_right p.erasesize (p.le_goodBlock i)
  rw [hentry, Nat.sub_mul]
  omega

/-- **The offset of every byte of the image is translated right.** -/
lemma fillNand_transferOffset {info : NandInfo} (hsmall : p.size < 2 ^ 32)
    (hinfo : cramfsFillNand p true fuel = some info) (hx : x < p.capacity) :
    cramfsNandTransferOffset info x = p.place x := by
  have hk := div_lt_goodCount hx
  have hblocks := p.goodCount_le
  obtain ⟨map, hmap, rfl⟩ := map_eq_some_iff.mp hinfo
  have hentry := fillMap_good_entries hsmall hmap hk
  have hshift : p.shift ≠ 0 := by have := p.page_le; omega
  have hsize : ¬ p.size % 2 ^ 32 < x := by
    rw [mod_eq_of_lt hsmall, not_lt]
    exact (hx.trans_le (mul_le_mul_right _ hblocks)).le
  have hsum : x + map.getD (x / p.erasesize) 0 = p.place x := by
    have hdiv := div_add_mod' x p.erasesize
    rw [place]
    omega
  have hlt := place_lt_size hx
  simp only [cramfsNandTransferOffset, if_neg hshift, if_neg hsize, shiftRight_eq_div_pow]
  rw [show x / 2 ^ p.shift = x / p.erasesize from rfl, hsum, mod_eq_of_lt (by omega)]

end

/-- The offsets at which `block_isbad` is called by `skipBad`, in order. -/
def skipBadQueries (p : Partition) (i : ℕ) : ℕ → ℕ → List ℕ
  | 0, _ => []
  | fuel + 1, offset =>
    (i * p.erasesize + offset) ::
      if p.blockIsbad (i * p.erasesize + offset) then
        skipBadQueries p i fuel ((offset + p.erasesize) % 2 ^ 32)
      else []

def fillMapQueries (p : Partition) (fuel : ℕ) : ℕ → ℕ → ℕ → List ℕ
  | 0, _, _ => []
  | n + 1, i, offset =>
    skipBadQueries p i fuel offset ++
      match skipBad p i fuel offset with
      | none => []
      | some offset => fillMapQueries p fuel n (i + 1) offset

/-- With memory for the map `cramfs_fill_nand` returns, has asked for blocks of the partition only,
and has mapped the good blocks in order. -/
def FillsInside (p : Partition) : Prop :=
  ∃ fuel map, cramfsFillNand p true fuel =
      some { erasesizeShift := p.shift, blockMap := some map, size := p.size % 2 ^ 32 } ∧
    (∀ q ∈ fillMapQueries p fuel p.blocks 0 0, q < p.size) ∧
    ∀ i < p.goodCount, i * p.erasesize + map.getD i 0 = p.goodBlock i * p.erasesize

section

variable {p : Partition} {fuel i : ℕ}

/-- The search behind an entry begins at the block behind that entry's. -/
lemma mem_fillMapQueries (n : ℕ) : ∀ {i offset k : ℕ} {map : List ℕ},
    fillMap p fuel n i offset = some map → k + 1 < n →
      (i + (k + 1)) * p.erasesize + map.getD k 0 ∈ fillMapQueries p fuel n i offset := by
  induction n with
  | zero => intro i offset k map _ hk; omega
  | succ n ih =>
    intro i offset k map hmap hk
    obtain ⟨r, rest, hr, hrest, rfl⟩ := fillMap_succ_eq_some.mp hmap
    rw [fillMapQueries, hr]
    refine mem_append_right _ ?_
    cases k with
    | zero =>
      obtain ⟨n, rfl⟩ : ∃ m, n = m + 1 := ⟨n - 1, by omega⟩
      obtain ⟨_, _, hr', -, -⟩ := fillMap_succ_eq_some.mp hrest
      obtain ⟨f, rfl⟩ : ∃ f, fuel = f + 1 := exists_eq_succ_of_ne_zero fun h => by
        rw [h] at hr'
        cases hr'
      exact mem_append_left _ mem_cons_self
    | succ k =>
      have hmem := ih (k := k) hrest (by omega)
      rwa [show i + 1 + (k + 1) = i + (k + 1 + 1) by omega] at hmem

lemma fillMap_all_good (hgood : ∀ b < p.blocks, p.bad b = false) (n : ℕ) :
    ∀ i, i + n = p.blocks → fillMap p 1 n i 0 = some (List.replicate n 0) ∧
      ∀ q ∈ fillMapQueries p 1 n i 0, q < p.size := by
  induction n with
  | zero => intro i _; exact ⟨rfl, nofun⟩
  | succ n ih =>
    intro i hi
    have hb : p.blockIsbad (i * p.erasesize + 0) = false := by
      have hblock := p.blockIsbad_block i 0
      rw [zero_mul, if_neg (by omega), add_zero] at hblock
      rw [add_zero, hblock]
      exact hgood i (by omega)
    have hskip : skipBad p i 1 0 = some 0 := by
      rw [skipBad, hb]
      rfl
    obtain ⟨hmap, hq⟩ := ih (i + 1) (by omega)
    constructor
    · exact fillMap_succ_eq_some.mpr ⟨0, _, hskip, hmap, rfl⟩
    · intro q hmem
      rw [fillMapQueries, hskip] at hmem
      rcases mem_append.mp hmem with hmem | hmem
      · rw [skipBadQueries, hb] at hmem
        simp only [add_zero, Bool.false_eq_true, if_false, mem_singleton] at hmem
        rw [hmem]
        exact mul_lt_mul_of_pos_right (by omega) erasesize_pos
      · exact hq q hmem

/-- The last good block is the last block, and its entry leads the next search behind it. -/
lemma good_of_fillsInside (h : FillsInside p) : ∀ b < p.blocks, p.bad b = false := by
  obtain ⟨fuel, map, hfill, hq, hentry⟩ := h
  obtain ⟨map', hmap, heq⟩ := map_eq_some_iff.mp hfill
  cases heq
  intro b hb
  by_contra hbad
  have hlast : p.Usable (p.blocks - 1) := .inr (last_good (by omega) hmap)
  obtain ⟨m, hblock⟩ := exists_goodBlock hlast
  have hm : p.goodCount = m + 1 := by
    have hcount := count_nth_succ (p := p.Usable) (n := m) fun hf => absurd hf p.infinite_usable
    rwa [show nth p.Usable m + 1 = p.blocks by rw [← goodBlock, hblock]; omega] at hcount
  have hless : m + 1 < p.blocks := by
    rw [← hm]
    refine p.goodCount_le.lt_of_ne fun heq => ?_
    rcases count_iff_forall.mp heq b hb with hle | hgood
    · omega
    · exact hbad hgood
  have hout := hq _ (mem_fillMapQueries p.blocks hmap hless)
  have hat := hentry m (by omega)
  have hsize : p.size = (p.blocks - 1) * p.erasesize + p.erasesize := by
    rw [← succ_mul, Nat.succ_eq_add_one, Nat.sub_add_cancel (by omega)]
    rfl
  rw [hblock] at hat
  rw [zero_add, succ_mul] at hout
  omega

/-- **The search stays inside of the partition exactly if no block is bad.** -/
theorem fillNand_inside_iff (p : Partition) : FillsInside p ↔ ∀ b < p.blocks, p.bad b = false := by
  constructor
  · exact good_of_fillsInside
  · intro hgood
    obtain ⟨hmap, hq⟩ := fillMap_all_good hgood p.blocks 0 (zero_add _)
    refine ⟨1, List.replicate p.blocks 0, ?_, hq, fun i hi => ?_⟩
    · rw [cramfsFillNand, hmap]
      rfl
    · have hblock : p.goodBlock i = i := nth_of_forall fun b hb =>
        .inr (hgood b (hb.trans_lt (hi.trans_le p.goodCount_le)))
      rw [hblock]
      simp

/-- Two blocks of 128 KiB, the first one bad: the third offset asked for is the
end of the partition. -/
theorem fillNand_leaves_partition :
    let p : Partition :=
      { shift := 17, blocks := 2, bad := fun b => b == 0
        page_le := by decide, shift_lt := by decide }
    fillMapQueries p 2 2 0 0 = [0, 131072, 262144, 393216] ∧ p.size = 262144 ∧ ¬ FillsInside p := by
  refine ⟨by decide, by decide, ?_⟩
  intro h
  have hgood := good_of_fillsInside h 0 (by decide)
  cases hgood

end

end Am335x.Cramfs
