import Mathlib.Data.List.Chain
import Am335xKernel.Mm.Percpu

/-!
# How `pcpu_alloc_area` takes an area

The walk stops at the first entry with room behind its alignment. The entry falls into the bytes in
front of the area, the area, and the bytes behind it: `HeadPut` and `TailPut` say what becomes of
them.
-/

namespace Am335x.Percpu

open Tiling List CInt Int

section

variable {l l' A B C : List ℤ} {x : ℤ}

def freeSum (l : List ℤ) : ℤ := (l.filter fun x => 0 < x).sum

@[simp] lemma freeSum_nil : freeSum [] = 0 := rfl

@[simp] lemma freeSum_cons : freeSum (x :: l) = max x 0 + freeSum l := by
  unfold freeSum
  by_cases hx : 0 < x
  · rw [filter_cons_of_pos (by simpa using hx), sum_cons, max_eq_left hx.le]
  · rw [filter_cons_of_neg (by simpa using hx), max_eq_right (not_lt.mp hx), zero_add]

@[simp] lemma freeSum_append : freeSum (l ++ l') = freeSum l + freeSum l' := by
  unfold freeSum
  rw [filter_append, sum_append]

lemma freeSum_nonneg (l : List ℤ) : 0 ≤ freeSum l := by
  induction l with
  | nil => exact le_rfl
  | cons x l ih =>
    rw [freeSum_cons]
    exact add_nonneg (le_max_right x 0) ih

lemma freeSum_le (l : List ℤ) : freeSum l ≤ total Int.natAbs l := by
  induction l with
  | nil => exact le_rfl
  | cons x l ih =>
    rw [freeSum_cons, total_cons]
    omega

def Sparse (l : List ℤ) : Prop := l.IsChain fun a b => ¬ (0 < a ∧ 0 < b)

def EndsUsed (l : List ℤ) : Prop := ∀ p ∈ l.getLast?, p ≤ 0

def BeginsUsed (l : List ℤ) : Prop := ∀ n ∈ l.head?, n ≤ 0

lemma sparse_cons : Sparse (x :: C) ↔ Sparse C ∧ (0 < x → BeginsUsed C) := by
  unfold Sparse BeginsUsed
  rw [isChain_cons, and_comm]
  refine and_congr_right fun _ => ⟨fun h hx n hn => ?_, fun h n hn hboth => ?_⟩
  · exact not_lt.mp fun hlt => h n hn ⟨hx, hlt⟩
  · exact not_lt.mpr (h hboth.1 n hn) hboth.2

lemma sparse_append_cons :
    Sparse (A ++ x :: C) ↔ Sparse A ∧ Sparse C ∧ (0 < x → EndsUsed A ∧ BeginsUsed C) := by
  have happend : Sparse (A ++ x :: C) ↔
      Sparse A ∧ Sparse (x :: C) ∧ ∀ p ∈ A.getLast?, ¬ (0 < p ∧ 0 < x) := by
    unfold Sparse
    rw [isChain_append]
    simp only [List.head?_cons, Option.mem_some_iff, forall_eq']
  rw [happend, sparse_cons]
  constructor
  · rintro ⟨hA, ⟨hC, hnext⟩, hlast⟩
    exact ⟨hA, hC, fun hx => ⟨fun p hp => not_lt.mp fun hlt => hlast p hp ⟨hlt, hx⟩, hnext hx⟩⟩
  · rintro ⟨hA, hC, hx⟩
    exact ⟨hA, ⟨hC, fun h => (hx h).2⟩, fun p hp hboth => not_lt.mpr ((hx hboth.2).1 p hp) hboth.1⟩

def Solid : List ℤ → Prop
  | [] => True
  | _ :: l => ∀ x ∈ l, x ≠ 0

lemma solid_append_cons : Solid (A ++ x :: C) ↔ Solid A ∧ (A ≠ [] → x ≠ 0) ∧ ∀ y ∈ C, y ≠ 0 := by
  cases A with
  | nil => exact ⟨fun h => ⟨trivial, fun hne => absurd rfl hne, h⟩, fun h => h.2.2⟩
  | cons a A =>
    have hcons : a :: A ≠ [] := nofun
    show (∀ y ∈ A ++ x :: C, y ≠ 0) ↔ (∀ y ∈ A, y ≠ 0) ∧ _
    simp only [forall_mem_append, forall_mem_cons, hcons, ne_eq, not_false_eq_true, forall_const]

end

lemma toU32_of_lt {x : ℤ} (h : 0 ≤ x) (hlt : x < 2 ^ 32) : (CInt.toU32 x : ℤ) = x := by
  unfold toU32
  rw [emod_eq_of_lt h hlt, toNat_of_nonneg h]

/-- The bytes up to the next multiple of `2 ^ k`. -/
def headTo (k off : ℕ) : ℕ := 2 ^ k - 1 - (off + (2 ^ k - 1)) % 2 ^ k

lemma headTo_lt (k off : ℕ) : headTo k off < 2 ^ k := by
  have hpos : 0 < 2 ^ k := Nat.two_pow_pos k
  unfold headTo
  omega

lemma dvd_add_headTo (k off : ℕ) : 2 ^ k ∣ off + headTo k off := by
  have hpos : 0 < 2 ^ k := Nat.two_pow_pos k
  have hlt := Nat.mod_lt (off + (2 ^ k - 1)) hpos
  have hsplit := Nat.mod_add_div (off + (2 ^ k - 1)) (2 ^ k)
  refine ⟨(off + (2 ^ k - 1)) / 2 ^ k, ?_⟩
  unfold headTo
  omega

lemma headTo_zero (k : ℕ) : headTo k 0 = 0 := by
  have hpos : 0 < 2 ^ k := Nat.two_pow_pos k
  unfold headTo
  rw [Nat.zero_add, Nat.mod_eq_of_lt (by omega), Nat.sub_self]

lemma head_eq {k : ℕ} (off : ℕ) (hk : k ≤ 12) (hoff : off < 2 ^ 31) :
    CInt.toInt (align off (2 ^ k : ℕ) - off) = headTo k off := by
  have hpos : 0 < 2 ^ k := Nat.two_pow_pos k
  have hpow : 2 ^ k ≤ 2 ^ 12 := Nat.pow_le_pow_right (by norm_num) hk
  have hu : toU32 (off : ℤ) = off := by
    have h := toU32_of_lt (natCast_nonneg off) (by omega)
    exact_mod_cast h
  have hmask : toU32 (((2 ^ k : ℕ) : ℤ) - 1) = 2 ^ k - 1 := by
    have h : (toU32 (((2 ^ k : ℕ) : ℤ) - 1) : ℤ) = _ := toU32_of_lt (by omega) (by omega)
    omega
  have hle := Bitmap.le_alignMask off (2 ^ k - 1)
  have hval : Bitmap.alignMask off (2 ^ k - 1) - off = headTo k off := by
    unfold Bitmap.alignMask headTo
    rw [Nat.and_two_pow_sub_one_eq_mod]
    omega
  have hlt := headTo_lt k off
  unfold align
  rw [hu, hmask]
  unfold toInt
  rw [bmod_sub_bmod]
  have hcast : (Bitmap.alignMask off (2 ^ k - 1) : ℤ) - off = headTo k off := by omega
  rw [hcast]
  exact toInt_of_lt (by omega) (by omega)

/-- The bytes in front of an aligned area: there are none, the area in front gets them, or they
stay free. The last argument is how much less is free for it. -/
inductive HeadPut (h : ℤ) : List ℤ → List ℤ → ℤ → Prop
  | none (A : List ℤ) (hh : h = 0) : HeadPut h A A 0
  | given (A : List ℤ) {p : ℤ} (hp : p ≤ 0) (hh : 0 < h) : HeadPut h (A ++ [p]) (A ++ [p - h]) h
  | kept (A : List ℤ) (hh : 0 < h) : HeadPut h A (A ++ [h]) 0

/-- The bytes behind an area that is taken from `x` bytes: it keeps them, or they stay free. -/
inductive TailPut (size x : ℤ) : ℤ → List ℤ → List ℤ → Prop
  | keep (C : List ℤ) (h : size ≤ x) : TailPut size x x C C
  | cut (C : List ℤ) (h : size < x) : TailPut size x size C ((x - size) :: C)

section

variable {unit : ℕ} {chunk : PcpuChunk} {size off h maxContig freeSize cur x : ℤ}
  {front rest : List ℤ} {place : Place} {fit : Fit} {tail : ℤ} {n : ℕ}

lemma toU32_lt_four_iff (hx : 0 ≤ x) (hlt : x < 2 ^ 31) : CInt.toU32 x < 4 ↔ x < 4 := by
  have hu := toU32_of_lt hx (by omega)
  omega

lemma mergeHead_cases (rest : List ℤ) (hh : 0 ≤ h) (hfits : h ≤ cur) (hcur : cur < 2 ^ 31)
    (hfirst : front = [] → h = 0) (hprev : ∀ p ∈ front.head?, -2 ^ 31 < p - h ∧ p ≤ 0)
    (hoff : 0 ≤ off ∧ off + h < 2 ^ 31) (hfree : h ≤ freeSize ∧ freeSize < 2 ^ 31) :
    (h = 0 ∧ mergeHead freeSize ⟨front, cur, rest⟩ off h =
        some ⟨freeSize, ⟨front, cur, rest⟩, off, 0⟩) ∨
      (∃ prev front', front = prev :: front' ∧ 0 < h ∧ prev ≤ 0 ∧
        mergeHead freeSize ⟨front, cur, rest⟩ off h =
          some ⟨freeSize - h, ⟨(prev - h) :: front', cur - h, rest⟩, off + h, 0⟩) ∨
      (0 < h ∧ mergeHead freeSize ⟨front, cur, rest⟩ off h =
        some ⟨freeSize, ⟨front, cur, rest⟩, off, h⟩) := by
  unfold mergeHead
  by_cases hzero : h = 0
  · rw [if_pos hzero]
    exact .inl ⟨hzero, by rw [hzero]⟩
  · rw [if_neg hzero]
    cases front with
    | nil => exact absurd (hfirst rfl) hzero
    | cons prev front' =>
      obtain ⟨hrange, hused⟩ := hprev prev rfl
      have hnot : ¬ 0 < prev := not_lt.mpr hused
      have hpos : 0 < h := by omega
      dsimp only
      by_cases hsmall : toU32 h < 4
      · rw [if_pos (.inl hsmall), if_neg hnot, toInt_of_range (by omega) (by omega),
          toInt_of_range (by omega) (by omega), toInt_of_range (by omega) (by omega),
          toInt_of_range (by omega) (by omega)]
        exact .inr (.inl ⟨prev, front', rfl, hpos, hused, rfl⟩)
      · rw [if_neg (not_or.mpr ⟨hsmall, hnot⟩)]
        exact .inr (.inr ⟨hpos, rfl⟩)

lemma splitFit_eq (hh : 0 ≤ fit.head) (htail : 0 ≤ tail)
    (hfits : fit.head + tail ≤ fit.place.cur) (hcur : fit.place.cur < 2 ^ 31)
    (hslots : fit.place.toList.length + 2 ≤ n) : splitFit n fit tail =
      some ⟨if fit.head = 0 then fit.place.front else fit.head :: fit.place.front,
        fit.place.cur - fit.head - tail,
        if tail = 0 then fit.place.rest else tail :: fit.place.rest⟩ := by
  have hhead : toInt (fit.place.cur - fit.head) = fit.place.cur - fit.head :=
    toInt_of_range (by omega) (by omega)
  have hboth : toInt (fit.place.cur - fit.head - tail) = fit.place.cur - fit.head - tail :=
    toInt_of_range (by omega) (by omega)
  have hroom : ¬ n < fit.place.toList.length +
      ((if fit.head ≠ 0 then 1 else 0) + if tail ≠ 0 then 1 else 0) := by
    split_ifs <;> omega
  unfold splitFit pcpuSplitBlock
  simp only [if_neg hroom]
  by_cases hzero : fit.head = 0
  · rw [hzero, sub_zero] at hboth
    by_cases hkept : tail = 0
    · simp [hzero, hkept]
    · simp [hzero, hkept, hboth]
  · by_cases hkept : tail = 0
    · simp [hzero, hkept, hhead]
    · simp [hzero, hkept, hhead, hboth]

lemma le_nextHint (old m : ℤ) (isLast : Bool) : m ≤ nextHint old m isLast := by
  cases isLast
  · exact le_max_right old m
  · exact le_rfl

lemma nextHint_lt {old m b : ℤ} (hold : old < b) (hm : m < b) (isLast : Bool) :
    nextHint old m isLast < b := by
  cases isLast
  · exact max_lt hold hm
  · exact hm

/-- What the walk has to know when it takes an area of the entry `cur`. -/
structure Takes (chunk : PcpuChunk) (size : ℤ) (front : List ℤ) (cur : ℤ) (rest : List ℤ)
    (off h maxContig : ℤ) : Prop where
  size_pos : 1 ≤ size
  head_nonneg : 0 ≤ h
  fits : h + size ≤ cur
  cur_lt : cur < 2 ^ 31
  first : front = [] → h = 0
  prev : ∀ p ∈ front.head?, -2 ^ 31 < p - h ∧ p ≤ 0
  off_nonneg : 0 ≤ off
  off_lt : off + h < 2 ^ 31
  free : cur ≤ chunk.freeSize
  free_lt : chunk.freeSize < 2 ^ 31
  slots : front.length + rest.length + 3 ≤ chunk.mapAlloc
  max_nonneg : 0 ≤ maxContig
  max_lt : maxContig < 2 ^ 31
  max_front : ∀ z ∈ front, z ≤ maxContig
  hint_rest : ∀ z ∈ rest, z ≤ chunk.contigHint
  hint_lt : chunk.contigHint < 2 ^ 31

section

variable (unit : ℕ) (fit : Fit) (hsize : 1 ≤ size) (hh : 0 ≤ fit.head)
  (hfits : fit.head + size ≤ fit.place.cur) (hcur : fit.place.cur < 2 ^ 31)
include hsize hh hfits hcur

lemma tailOf_cases : tailOf fit size = 0 ∨
      4 ≤ tailOf fit size ∧ tailOf fit size = fit.place.cur - fit.head - size := by
  unfold tailOf
  rw [toInt_of_range (by omega) (by omega)]
  dsimp only
  split_ifs with hsmall
  · exact .inl rfl
  · rw [toU32_lt_four_iff (by omega) (by omega)] at hsmall
    exact .inr ⟨by omega, rfl⟩

variable (hoff : 0 ≤ fit.off ∧ fit.off + fit.head < 2 ^ 31)
  (hfree : fit.place.cur ≤ fit.freeSize ∧ fit.freeSize < 2 ^ 31)
  (hslots : fit.place.toList.length + 2 ≤ chunk.mapAlloc)
include hoff hfree hslots

lemma takeFit_eq {isLast : Bool} (htail : tail = tailOf fit size) :
    takeFit unit chunk size isLast maxContig fit = some (pcpuChunkRelocate unit { chunk with
          contigHint := nextHint chunk.contigHint
            (let m := if fit.head ≠ 0 then max fit.head maxContig else maxContig
              if tail ≠ 0 then max tail m else m) isLast
          freeSize := fit.freeSize - (fit.place.cur - fit.head - tail)
          map := (if fit.head = 0 then fit.place.front else fit.head :: fit.place.front).reverse ++
            -(fit.place.cur - fit.head - tail) ::
              if tail = 0 then fit.place.rest else tail :: fit.place.rest }
        (pcpuChunkSlot unit chunk), fit.off + fit.head) := by
  have hbounds : 0 ≤ tail ∧ fit.head + tail + size ≤ fit.place.cur := by
    rcases tailOf_cases fit hsize hh hfits hcur with hzero | ⟨hbig, heq⟩ <;> omega
  have hoffset : (if fit.head ≠ 0 then toInt (fit.off + fit.head) else fit.off) =
      fit.off + fit.head := by
    split_ifs with hne
    · exact toInt_of_range (by omega) (by omega)
    · omega
  unfold takeFit
  dsimp only
  rw [← htail, splitFit_eq hh hbounds.1 (by omega) hcur hslots, Option.map_some, hoffset]
  dsimp only
  rw [toInt_of_range (by omega) (by omega), toInt_of_range (by omega) (by omega)]
  rfl

lemma takeFit_spec (hmax : 0 ≤ maxContig) (hmaxlt : maxContig < 2 ^ 31)
    (hrest : ∀ z ∈ fit.place.rest, z ≤ chunk.contigHint)
    (hold : chunk.contigHint < 2 ^ 31) :
    ∃ y C hint, TailPut size (fit.place.cur - fit.head) y fit.place.rest C ∧
      (∀ z ∈ C, z ≤ hint) ∧ maxContig ≤ hint ∧ hint < 2 ^ 31 ∧ fit.head ≤ hint ∧
      takeFit unit chunk size fit.place.rest.isEmpty maxContig fit = some (pcpuChunkRelocate unit
          { chunk with
            contigHint := hint
            freeSize := fit.freeSize - y
            map := (if fit.head = 0 then fit.place.front
              else fit.head :: fit.place.front).reverse ++ -y :: C }
          (pcpuChunkSlot unit chunk), fit.off + fit.head) := by
  have hcases := tailOf_cases fit hsize hh hfits hcur
  obtain ⟨tail, htail⟩ : ∃ tail, tail = tailOf fit size := ⟨_, rfl⟩
  rw [← htail] at hcases
  obtain ⟨m, hm⟩ : ∃ m, m = if fit.head ≠ 0 then max fit.head maxContig else maxContig := ⟨_, rfl⟩
  have hmhead : fit.head ≤ m ∧ maxContig ≤ m ∧ m < 2 ^ 31 := by
    rw [hm]
    split_ifs with hne
    · exact ⟨le_max_left _ _, le_max_right _ _, max_lt (by omega) hmaxlt⟩
    · exact ⟨by omega, le_rfl, hmaxlt⟩
  obtain ⟨m', hm'⟩ : ∃ m', m' = if tail ≠ 0 then max tail m else m := ⟨_, rfl⟩
  have hmtail : m ≤ m' ∧ tail ≤ m' ∧ m' < 2 ^ 31 := by
    rw [hm']
    split_ifs with hne
    · exact ⟨le_max_right _ _, le_max_left _ _, max_lt (by omega) hmhead.2.2⟩
    · exact ⟨le_rfl, by omega, hmhead.2.2⟩
  have hle := le_nextHint chunk.contigHint m' fit.place.rest.isEmpty
  have hahead : ∀ z ∈ fit.place.rest, z ≤ nextHint chunk.contigHint m' fit.place.rest.isEmpty := by
    intro z hz
    have hne : fit.place.rest.isEmpty = false := by
      simpa using ne_nil_of_mem hz
    rw [hne]
    exact (hrest z hz).trans (le_max_left _ _)
  refine ⟨fit.place.cur - fit.head - tail, if tail = 0 then fit.place.rest
    else tail :: fit.place.rest, nextHint chunk.contigHint m' fit.place.rest.isEmpty, ?_, ?_,
    by omega, nextHint_lt hold hmtail.2.2 _, by omega, ?_⟩
  · rcases hcases with hzero | ⟨hbig, heq⟩
    · rw [if_pos hzero, hzero, sub_zero]
      exact .keep _ (by omega)
    · rw [if_neg (by omega), heq, sub_sub_cancel]
      exact .cut _ (by omega)
  · intro z hz
    split_ifs at hz with hzero
    · exact hahead z hz
    · rcases mem_cons.mp hz with rfl | hz
      · omega
      · exact hahead z hz
  · rw [takeFit_eq unit fit hsize hh hfits hcur hoff hfree hslots htail, hm', hm]

end

/-- **An area is taken.** -/
lemma takeArea_spec (unit : ℕ) (ht : Takes chunk size front cur rest off h maxContig) :
    ∃ B lost y C hint, HeadPut h front.reverse B lost ∧ TailPut size (cur - h) y rest C ∧
      (∀ z ∈ B, z ≤ hint) ∧ (∀ z ∈ C, z ≤ hint) ∧ 0 ≤ hint ∧ hint < 2 ^ 31 ∧
      takeArea unit chunk size ⟨front, cur, rest⟩ off h maxContig = some (pcpuChunkRelocate unit
          { chunk with
            contigHint := hint
            freeSize := chunk.freeSize - lost - y
            map := B ++ -y :: C }
          (pcpuChunkSlot unit chunk), off + h) := by
  obtain ⟨hsize, hh, hfits, hcur, hfirst, hprev, hoff, hofflt, hfree, hfreelt, hslots, hmax, hmaxlt,
    hfront, hrest, hold⟩ := ht
  have hfrontle : ∀ {hint}, maxContig ≤ hint → ∀ z ∈ front.reverse, z ≤ hint := fun hle z hz =>
    (hfront z (mem_reverse.mp hz)).trans hle
  have hlen : ∀ front' : List ℤ, front'.length = front.length → ∀ cur',
      (Place.toList ⟨front', cur', rest⟩).length + 2 ≤ chunk.mapAlloc := by
    intro front' hlen cur'
    unfold Place.toList
    rw [length_append, length_reverse, length_cons, hlen]
    omega
  unfold takeArea
  rcases mergeHead_cases rest hh (by omega) hcur hfirst hprev ⟨hoff, hofflt⟩
      ⟨by omega, hfreelt⟩ with ⟨rfl, heq⟩ | ⟨prev, front', rfl, hpos, hused, heq⟩ | ⟨hpos, heq⟩
  · obtain ⟨y, C, hint, htail, hC, hle, hlt, -, htake⟩ := takeFit_spec unit
      ⟨chunk.freeSize, ⟨front, cur, rest⟩, off, 0⟩ hsize le_rfl hfits hcur ⟨hoff, hofflt⟩
      ⟨hfree, hfreelt⟩ (hlen front rfl cur) hmax hmaxlt hrest hold
    refine ⟨front.reverse, 0, y, C, hint, .none _ rfl, htail, hfrontle hle, hC, by omega, hlt, ?_⟩
    rw [heq, Option.bind_some, htake, if_pos rfl, sub_zero]
  · obtain ⟨y, C, hint, htail, hC, hle, hlt, -, htake⟩ := takeFit_spec unit
      ⟨chunk.freeSize - h, ⟨(prev - h) :: front', cur - h, rest⟩, off + h, 0⟩ hsize le_rfl
      (by dsimp only; omega) (by dsimp only; omega) (by dsimp only; omega) (by dsimp only; omega)
      (hlen ((prev - h) :: front') rfl _) hmax hmaxlt hrest hold
    rw [sub_zero] at htail
    refine ⟨front'.reverse ++ [prev - h], h, y, C, hint, ?_, htail, ?_, hC, by omega, hlt, ?_⟩
    · rw [reverse_cons]
      exact .given _ hused hpos
    · intro z hz
      rcases mem_append.mp hz with hz | hz
      · exact hfrontle hle z (mem_reverse.mpr (mem_cons_of_mem prev (mem_reverse.mp hz)))
      · rw [mem_singleton.mp hz]
        omega
    · rw [heq, Option.bind_some, htake, if_pos rfl, reverse_cons, add_zero]
  · obtain ⟨y, C, hint, htail, hC, hle, hlt, hhead, htake⟩ := takeFit_spec unit
      ⟨chunk.freeSize, ⟨front, cur, rest⟩, off, h⟩ hsize hh hfits hcur ⟨hoff, hofflt⟩
      ⟨hfree, hfreelt⟩ (hlen front rfl cur) hmax hmaxlt hrest hold
    refine ⟨front.reverse ++ [h], 0, y, C, hint, .kept _ hpos, htail, ?_, hC, by omega, hlt, ?_⟩
    · exact forall_mem_append.mpr ⟨hfrontle hle, forall_mem_singleton.mpr hhead⟩
    · rw [heq, Option.bind_some, htake, if_neg (by dsimp only; omega), reverse_cons, sub_zero]

end

section

variable {unit k : ℕ} {chunk : PcpuChunk} {size : ℤ}

lemma total_reverse (l : List ℤ) : total Int.natAbs l.reverse = total Int.natAbs l := by
  unfold total
  rw [map_reverse, sum_reverse]

def NoRoom (k : ℕ) (size : ℤ) (l : List ℤ) : Prop :=
  ∀ off cur, (off, cur) ∈ layout Int.natAbs 0 l → cur < headTo k off + size

lemma NoRoom.append_singleton {l : List ℤ} {cur : ℤ} (h : NoRoom k size l)
    (hcur : cur < headTo k (total Int.natAbs l) + size) : NoRoom k size (l ++ [cur]) := by
  intro off c hmem
  rcases mem_layout_append.mp hmem with hmem | hmem
  · exact h off c hmem
  · rcases mem_layout_cons.mp hmem with ⟨rfl, rfl⟩ | hnil
    · rw [Nat.zero_add]
      exact hcur
    · cases hnil

/-- **The walk** ends at an entry with room, or has seen that there is none. -/
lemma allocWalk_spec (unit : ℕ) (hk : k ≤ 12) (hsize : 1 ≤ size)
    (hfit : size + (2 ^ k : ℕ) ≤ 2 ^ 31) (hcov : total Int.natAbs chunk.map < 2 ^ 31)
    (rest front : List ℤ) (maxContig : ℤ)
    (hmap : chunk.map = front.reverse ++ rest) (hmax : 0 ≤ maxContig)
    (hmaxlt : maxContig < 2 ^ 31) (hfront : ∀ z ∈ front, z ≤ maxContig)
    (hseen : NoRoom k size front.reverse) :
    (NoRoom k size chunk.map ∧ ∃ hint, (∀ z ∈ chunk.map, z ≤ hint) ∧ 0 ≤ hint ∧ hint < 2 ^ 31 ∧
        allocWalk unit chunk size (2 ^ k : ℕ) front rest (total Int.natAbs front) maxContig =
          some (pcpuChunkRelocate unit { chunk with contigHint := hint }
            (pcpuChunkSlot unit chunk), -1)) ∨
      ∃ A cur C m, chunk.map = A ++ cur :: C ∧ headTo k (total Int.natAbs A) + size ≤ cur ∧
        0 ≤ m ∧ m < 2 ^ 31 ∧ (∀ z ∈ A, z ≤ m) ∧
        allocWalk unit chunk size (2 ^ k : ℕ) front rest (total Int.natAbs front) maxContig =
          takeArea unit chunk size ⟨A.reverse, cur, C⟩ (total Int.natAbs A)
            (headTo k (total Int.natAbs A)) m := by
  induction rest generalizing front maxContig with
  | nil =>
    rw [append_nil] at hmap
    refine .inl ⟨?_, maxContig, ?_, hmax, hmaxlt, rfl⟩
    · rw [hmap]
      exact hseen
    · intro z hz
      rw [hmap, mem_reverse] at hz
      exact hfront z hz
  | cons cur rest ih =>
    have htotal : total natAbs chunk.map =
        total natAbs front + (cur.natAbs + total natAbs rest) := by
      rw [hmap, total_append, total_reverse, total_cons]
    have hhead := head_eq (total natAbs front) hk (by omega)
    have hlt := headTo_lt k (total natAbs front)
    have hnext : toInt ((total natAbs front : ℤ) + |cur|) =
        (total natAbs (cur :: front) : ℕ) := by
      rw [total_cons, ← natCast_natAbs, add_comm cur.natAbs]
      exact toInt_of_range (by omega) (by omega)
    have hmap' : chunk.map = (cur :: front).reverse ++ rest := by
      rw [hmap, reverse_cons, append_assoc, singleton_append]
    have hnotbug : ¬ (front = [] ∧ (headTo k (total natAbs front) : ℤ) ≠ 0) := by
      rintro ⟨rfl, hne⟩
      rw [total_nil, headTo_zero] at hne
      exact hne rfl
    have hwant : toInt ((headTo k (total natAbs front) : ℤ) + size) =
        headTo k (total natAbs front) + size := toInt_of_range (by omega) (by omega)
    have hpass : cur < headTo k (total natAbs front) + size →
        NoRoom k size (cur :: front).reverse := by
      intro hsmall
      rw [reverse_cons]
      refine hseen.append_singleton ?_
      rw [total_reverse]
      exact hsmall
    unfold allocWalk
    rw [hhead, hnext, if_neg hnotbug, hwant]
    by_cases hneg : cur < 0
    · rw [if_pos hneg]
      refine ih (cur :: front) maxContig hmap' hmax hmaxlt ?_ (hpass (by omega))
      intro z hz
      rcases mem_cons.mp hz with rfl | hz
      · omega
      · exact hfront z hz
    · rw [if_neg hneg]
      by_cases hsmall : cur < headTo k (total natAbs front) + size
      · rw [if_pos hsmall]
        refine ih (cur :: front) (max cur maxContig) hmap' (hmax.trans (le_max_right _ _))
          (max_lt (by omega) hmaxlt) ?_ (hpass hsmall)
        exact forall_mem_cons.mpr ⟨le_max_left _ _,
          fun z hz => (hfront z hz).trans (le_max_right _ _)⟩
      · rw [if_neg hsmall]
        refine .inr ⟨front.reverse, cur, rest, maxContig, hmap, ?_, hmax, hmaxlt, ?_, ?_⟩
        · rw [total_reverse]
          exact not_lt.mp hsmall
        · intro z hz
          exact hfront z (mem_reverse.mp hz)
        · rw [total_reverse, reverse_reverse]

end

end Am335x.Percpu
