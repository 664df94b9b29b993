import Mathlib.Data.Nat.Bitwise
import Am335xKernel.Mtd.NandEcc

/-!
# The software ECC corrects one bit and detects two

The code of a block is linear but for the inversion of every bit. Flipping a
data bit therefore changes it by a pattern that depends on the place alone: of
the pair of check bits for each bit of its address, one. `__nand_correct_data`
reads the address off that pattern.
-/

namespace Am335x.Mtd

open Function Nat

open XorSum

/-- The sum of the words whose number has bit `t` clear. -/
def evenRows (w : ℕ → BitVec 32) (t n : ℕ) : BitVec 32 :=
  xorSum (fun k => if k.testBit t then 0#32 else w k) n

variable {i j r a mult n : ℕ}

section

variable (w : ℕ → BitVec 32) (i : ℕ)

lemma evenRows_succ_low {t : ℕ} (ht : t < 4) : evenRows w t (16 * (i + 1)) =
      evenRows w t (16 * i) ^^^
        xorSum (fun j => if j.testBit t then 0#32 else w (16 * i + j)) 16 := by
  unfold evenRows
  rw [mul_succ, xorSum_add]
  congr 1
  apply xorSum_congr
  intro j hj
  rw [testBit_two_pow_mul_add i (show j < 2 ^ 4 from hj), if_pos ht]

lemma evenRows_succ_high (t : ℕ) : evenRows w (t + 4) (16 * (i + 1)) =
      if i.testBit t then evenRows w (t + 4) (16 * i)
      else evenRows w (t + 4) (16 * i) ^^^ xorSum (fun j => w (16 * i + j)) 16 := by
  have hsum : xorSum (fun j => if (16 * i + j).testBit (t + 4) then 0#32 else w (16 * i + j)) 16 =
      xorSum (fun j => if i.testBit t then 0#32 else w (16 * i + j)) 16 := by
    apply xorSum_congr
    intro j hj
    have hbit : (16 * i + j).testBit (t + 4) = i.testBit t := by
      rw [testBit_two_pow_mul_add i (show j < 2 ^ 4 from hj), if_neg (not_lt.mpr (by omega)),
        Nat.add_sub_cancel]
    rw [hbit]
  unfold evenRows
  rw [mul_succ, xorSum_add, hsum]
  cases i.testBit t with
  | false => rfl
  | true =>
    have hzero : xorSum (fun _ => 0#32) 16 = 0#32 := by decide
    simp only [if_true, hzero, BitVec.xor_zero]

end

lemma and_two_pow_eq_zero_iff (i t : ℕ) : i &&& 2 ^ t = 0 ↔ i.testBit t = false := by
  rw [and_two_pow]
  cases i.testBit t <;> simp

/-- The sum of those of sixteen words whose number has bit `t` clear. -/
def evens (v : ℕ → BitVec 32) (t : ℕ) : BitVec 32 :=
  xorSum (fun j => if j.testBit t then 0#32 else v j) 16

open Parities

/-- **One iteration.** The unrolled statements add up the words of each row. -/
lemma Parities.iterate_eq (s : Parities) (mult i : ℕ) (v : ℕ → BitVec 32) : s.iterate mult i v =
      { par := s.par ^^^ xorSum v 16
        rp4 := s.rp4 ^^^ evens v 0
        rp6 := s.rp6 ^^^ evens v 1
        rp8 := s.rp8 ^^^ evens v 2
        rp10 := s.rp10 ^^^ evens v 3
        rp12 := if i.testBit 0 then s.rp12 else s.rp12 ^^^ xorSum v 16
        rp14 := if i.testBit 1 then s.rp14 else s.rp14 ^^^ xorSum v 16
        rp16 := if mult = 2 ∧ i.testBit 2 = false then s.rp16 ^^^ xorSum v 16 else s.rp16 } := by
  have h1 : i &&& 0x1 = 0 ↔ i.testBit 0 = false := and_two_pow_eq_zero_iff i 0
  have h2 : i &&& 0x2 = 0 ↔ i.testBit 1 = false := and_two_pow_eq_zero_iff i 1
  have h4 : i &&& 0x4 = 0 ↔ i.testBit 2 = false := and_two_pow_eq_zero_iff i 2
  simp only [iterate, mk.injEq, h1, h2, h4]
  generalize i.testBit 0 = b0, i.testBit 1 = b1, i.testBit 2 = b2
  simp [evens, xorSum, Nat.testBit]
  refine ⟨?_, ?_, ?_, ?_, ?_⟩
  · ac_rfl
  · ac_rfl
  · ac_rfl
  · cases b0 <;> rfl
  · cases b1 <;> rfl

/-- **The loop.** What it has accumulated after `n` iterations. -/
lemma parities_eq (buf : ℕ → BitVec 8) (mult n : ℕ) : parities buf mult n =
      { par := xorSum (word buf) (16 * n)
        rp4 := evenRows (word buf) 0 (16 * n)
        rp6 := evenRows (word buf) 1 (16 * n)
        rp8 := evenRows (word buf) 2 (16 * n)
        rp10 := evenRows (word buf) 3 (16 * n)
        rp12 := evenRows (word buf) 4 (16 * n)
        rp14 := evenRows (word buf) 5 (16 * n)
        rp16 := if mult = 2 then evenRows (word buf) 6 (16 * n) else 0#32 } := by
  induction n with
  | zero => simp [parities, Parities.zero, evenRows, xorSum]
  | succ n ih =>
    have hpar : xorSum (word buf) (16 * (n + 1)) =
        xorSum (word buf) (16 * n) ^^^ xorSum (fun j => word buf (16 * n + j)) 16 := by
      rw [mul_succ, xorSum_add]
    rw [parities, ih, iterate_eq, hpar, evenRows_succ_low (word buf) n (show 0 < 4 by decide),
      evenRows_succ_low (word buf) n (show 1 < 4 by decide),
      evenRows_succ_low (word buf) n (show 2 < 4 by decide),
      evenRows_succ_low (word buf) n (show 3 < 4 by decide),
      evenRows_succ_high (word buf) n 0, evenRows_succ_high (word buf) n 1,
      evenRows_succ_high (word buf) n 2]
    by_cases hmult : mult = 2
    · cases n.testBit 2 <;> simp [hmult, evens]
    · simp [hmult, evens]

/-- Data bit `a` is bit `a % 8` of byte `a / 8`. -/
def flipBit (buf : ℕ → BitVec 8) (a : ℕ) : ℕ → BitVec 8 :=
  update buf (a / 8) (buf (a / 8) ^^^ 1#8 <<< (a % 8))

section

variable (buf : ℕ → BitVec 8)

lemma getLsbD_word (k : ℕ) (hr : r < 32) :
    (word buf k).getLsbD r = (buf (4 * k + r / 8)).getLsbD (r % 8) := by
  simp only [word, BitVec.getLsbD_append]
  obtain h | h | h | h : r / 8 = 0 ∨ r / 8 = 1 ∨ r / 8 = 2 ∨ r / 8 = 3 := by omega
  · rw [if_pos (by omega), h, show r % 8 = r by omega]
    rfl
  · rw [if_neg (by omega), if_pos (by omega), h, show r % 8 = r - 8 by omega]
  · rw [if_neg (by omega), if_neg (by omega), if_pos (by omega), h, show r % 8 = r - 8 - 8 by omega]
  · rw [if_neg (by omega), if_neg (by omega), if_neg (by omega), h,
      show r % 8 = r - 8 - 8 - 8 by omega]

lemma word_flipBit_of_ne {k : ℕ} (hk : k ≠ a / 32) : word (flipBit buf a) k = word buf k := by
  have hbyte : ∀ j < 4, flipBit buf a (4 * k + j) = buf (4 * k + j) := by
    intro j hj
    exact update_of_ne (by omega) _ _
  have h0 : flipBit buf a (4 * k) = buf (4 * k) := hbyte 0 (by omega)
  rw [word, word, hbyte 3 (by omega), hbyte 2 (by omega), hbyte 1 (by omega), h0]

lemma word_flipBit (a : ℕ) :
    word (flipBit buf a) (a / 32) = word buf (a / 32) ^^^ 1#32 <<< (a % 32) := by
  apply BitVec.eq_of_getLsbD_eq
  intro r hr
  rw [BitVec.getLsbD_xor, getLsbD_word _ _ hr, getLsbD_word _ _ hr, ← BitVec.twoPow_eq,
    BitVec.getLsbD_twoPow]
  by_cases hbyte : 4 * (a / 32) + r / 8 = a / 8
  · rw [hbyte, flipBit, update_self, BitVec.getLsbD_xor, ← BitVec.twoPow_eq, BitVec.getLsbD_twoPow]
    have hbit : a % 8 = r % 8 ↔ a % 32 = r := by omega
    simp only [hbit, mod_lt a (show 0 < 8 by decide), mod_lt a (show 0 < 32 by decide)]
  · have hbit : ¬ a % 32 = r := by omega
    rw [flipBit, update_of_ne hbyte]
    simp [hbit]

end

section

variable (buf : ℕ → BitVec 8) {a n : ℕ} (ha : a / 32 < n)

include ha

lemma evenRows_flipBit (t : ℕ) : evenRows (word (flipBit buf a)) t n = evenRows (word buf) t n ^^^
      if a.testBit (t + 5) then 0#32 else 1#32 <<< (a % 32) := by
  have htest : (a / 2 ^ 5).testBit t = a.testBit (t + 5) := testBit_div_two_pow a t
  change (a / 32).testBit t = _ at htest
  unfold evenRows
  rw [xorSum_change (d := if a.testBit (t + 5) then 0#32 else 1#32 <<< (a % 32)) ?_ ?_, if_pos ha]
  · rw [htest]
    cases a.testBit (t + 5) with
    | true => rw [if_pos rfl, if_pos rfl, if_pos rfl, BitVec.xor_zero]
    | false => exact word_flipBit buf a
  · intro j hj
    rw [word_flipBit_of_ne buf hj]

end

def columnReg (par : BitVec 32) : ℕ → Bool → BitVec 32
  | 0, v => toByte par &&& (if v then 0xaa else 0x55)
  | 1, v => toByte par &&& (if v then 0xcc else 0x33)
  | 2, v => toByte par &&& (if v then 0xf0 else 0x0f)
  | 3, v => if v then rp1Of par else rp0Of par
  | _, v => if v then rp3Of par else rp2Of par

def rowReg (par rp : BitVec 32) (v : Bool) : BitVec 32 :=
  if v then (toByte par ^^^ toByte rp) &&& 0xff else toByte rp

def Parities.row (s : Parities) : ℕ → BitVec 32
  | 0 => s.rp4
  | 1 => s.rp6
  | 2 => s.rp8
  | 3 => s.rp10
  | 4 => s.rp12
  | 5 => s.rp14
  | _ => s.rp16

/-- The register for the data bits whose address has `v` as bit `j`. -/
def Parities.checkReg (s : Parities) (j : ℕ) (v : Bool) : BitVec 32 :=
  if j < 5 then columnReg s.par j v else rowReg s.par (s.row (j - 5)) v

lemma linear_toByte : Linear toByte :=
  (((linear_id.xor (linear_id.ushiftRight 16)).xor
    ((linear_id.xor (linear_id.ushiftRight 16)).ushiftRight 8)).and 0xff)

lemma linear_columnReg (j : ℕ) (v : Bool) : Linear fun par => columnReg par j v := by
  have h16 : Linear fun x : BitVec 32 => x ^^^ x >>> 16 := linear_id.xor (linear_id.ushiftRight 16)
  have hlow := (linear_id (w := 32)).and 0xffff
  have hhigh := (linear_id (w := 32)).ushiftRight 16
  match j, v with
  | 0, v | 1, v | 2, v => exact linear_toByte.and _
  | 3, true => exact (h16.ushiftRight 8).and 0xff
  | 3, false => exact h16.and 0xff
  | _ + 4, true => exact (hhigh.xor (hhigh.ushiftRight 8)).and 0xff
  | _ + 4, false => exact (hlow.xor (hlow.ushiftRight 8)).and 0xff

/-! All of these registers hold a byte. -/

variable {x : BitVec 32}

lemma and_lt_of_lt (hx : x.toNat < 256) (m : BitVec 32) : (x &&& m).toNat < 256 := by
  rw [BitVec.toNat_and]
  exact and_le_left.trans_lt hx

lemma and_ff_lt (x : BitVec 32) : (x &&& 0xff#32).toNat < 256 := by
  rw [BitVec.toNat_and]
  exact and_le_right.trans_lt (by decide)

lemma columnReg_lt (par : BitVec 32) (j : ℕ) (v : Bool) : (columnReg par j v).toNat < 256 := by
  match j, v with
  | 0, v | 1, v | 2, v => exact and_lt_of_lt (and_ff_lt _) _
  | 3, true | 3, false | _ + 4, true | _ + 4, false => exact and_ff_lt _

lemma Parities.checkReg_lt (s : Parities) (j : ℕ) (v : Bool) : (s.checkReg j v).toNat < 256 := by
  unfold checkReg
  split
  · exact columnReg_lt s.par j v
  · cases v <;> exact and_ff_lt _

lemma parity_eq_of_lt (hx : x.toNat < 256) : parity x = parityBelow x 8 :=
  parityBelow_of_lt (k := 8) hx (by decide)

lemma parity_toByte_unit (hr : r < 32) : parity (toByte (1#32 <<< r)) = true := by
  have hall : ∀ r < 32, parityBelow (toByte (1#32 <<< r)) 8 = true := by
    decide
  exact (parity_eq_of_lt (and_ff_lt _)).trans (hall r hr)

lemma parity_columnReg_unit (hr : r < 32) (hj : j < 5) (v : Bool) :
    parity (columnReg (1#32 <<< r) j v) = (r.testBit j == v) := by
  have hall : ∀ r < 32, ∀ j < 5, ∀ v,
      parityBelow (columnReg (1#32 <<< r) j v) 8 = (r.testBit j == v) := by
    decide
  rw [parity_eq_of_lt (columnReg_lt _ j v), hall r hr j hj v]

lemma toByte_and (x : BitVec 32) : toByte x &&& 0xff#32 = toByte x := by
  simp only [toByte, BitVec.and_assoc]
  rfl

lemma parity_rowReg (par rp : BitVec 32) (v : Bool) :
    parity (rowReg par rp v) = (parity (toByte rp) ^^ (v && parity (toByte par))) := by
  cases v with
  | false => simp [rowReg]
  | true =>
    have hand : (toByte par ^^^ toByte rp) &&& 0xff#32 = toByte par ^^^ toByte rp := by
      rw [← linear_toByte, toByte_and]
    show parity ((toByte par ^^^ toByte rp) &&& 0xff#32) = _
    rw [hand, Bool.true_and, Bool.xor_comm]
    exact parityBelow_xor _ _ 32

lemma parity_checkReg_flipBit (buf : ℕ → BitVec 8) (ha : a / 32 < 16 * n)
    (hj : j < 11 ∨ j = 11 ∧ mult = 2) (v : Bool) :
    parity ((parities (flipBit buf a) mult n).checkReg j v) =
      (parity ((parities buf mult n).checkReg j v) ^^ (a.testBit j == v)) := by
  have hr : a % 32 < 32 := mod_lt a (by decide)
  have hpar : (parities (flipBit buf a) mult n).par =
      (parities buf mult n).par ^^^ 1#32 <<< (a % 32) := by
    rw [parities_eq, parities_eq]
    refine (xorSum_change (word_flipBit buf a) (fun _ => word_flipBit_of_ne buf) _).trans ?_
    rw [if_pos ha]
  unfold checkReg
  by_cases hlow : j < 5
  · have htest : (a % 2 ^ 5).testBit j = a.testBit j := by
      rw [testBit_mod_two_pow, decide_eq_true hlow, Bool.true_and]
    change (a % 32).testBit j = _ at htest
    rw [if_pos hlow, if_pos hlow, hpar, (linear_columnReg j v).parity_add,
      parity_columnReg_unit hr hlow, htest]
  · have hrow : (parities (flipBit buf a) mult n).row (j - 5) =
        (parities buf mult n).row (j - 5) ^^^
          if a.testBit j then 0#32 else 1#32 <<< (a % 32) := by
      obtain ⟨t, rfl⟩ : ∃ t, j = t + 5 := ⟨j - 5, by omega⟩
      have heven := evenRows_flipBit buf ha t
      rw [Nat.add_sub_cancel, parities_eq, parities_eq]
      match t with
      | 0 | 1 | 2 | 3 | 4 | 5 => exact heven
      | t + 6 =>
        obtain ⟨rfl, rfl⟩ : t = 0 ∧ mult = 2 := by omega
        exact heven
    rw [if_neg hlow, if_neg hlow, parity_rowReg, parity_rowReg, hpar, hrow,
      linear_toByte.parity_add, linear_toByte.parity_add, parity_toByte_unit hr]
    have hzero : parity (toByte 0#32) = false := by decide
    cases a.testBit j with
    | true => cases v <;> simp [hzero]
    | false => cases v <;> simp [parity_toByte_unit hr]

/-- A bit as `invparity` holds it. -/
def bitByte (b : Bool) : BitVec 8 := if b then 1 else 0

def join (f : ℕ → BitVec 8) : BitVec 8 :=
  f 7 <<< 7 ||| f 6 <<< 6 ||| f 5 <<< 5 ||| f 4 <<< 4 ||| f 3 <<< 3 ||| f 2 <<< 2 ||| f 1 <<< 1 |||
    f 0

lemma join_congr {f g : ℕ → BitVec 8} (h : ∀ i < 8, f i = g i) : join f = join g := by
  unfold join
  simp only [h 0, h 1, h 2, h 3, h 4, h 5, h 6, h 7, Nat.reduceLT]

def pack (c : ℕ → Bool) : BitVec 8 := join fun i => bitByte (c i)

lemma getLsbD_pack (c : ℕ → Bool) (hi : i < 8) : (pack c).getLsbD i = c i := by
  have hall : ∀ b0 b1 b2 b3 b4 b5 b6 b7 : Bool, ∀ i < 8,
      (pack fun j => [b0, b1, b2, b3, b4, b5, b6, b7].getD j false).getLsbD i =
        [b0, b1, b2, b3, b4, b5, b6, b7].getD i false := by
    decide
  refine (hall (c 0) (c 1) (c 2) (c 3) (c 4) (c 5) (c 6) (c 7) i hi).trans ?_
  match i with
  | 0 | 1 | 2 | 3 | 4 | 5 | 6 | 7 => rfl
  | _ + 8 => omega

lemma pack_xor (c d : ℕ → Bool) : pack c ^^^ pack d = pack fun i => c i ^^ d i := by
  apply BitVec.eq_of_getLsbD_eq
  intro i hi
  rw [BitVec.getLsbD_xor, getLsbD_pack c hi, getLsbD_pack d hi, getLsbD_pack _ hi]

lemma pack_congr {c d : ℕ → Bool} (h : ∀ i < 8, c i = d i) : pack c = pack d :=
  join_congr fun i hi => congrArg bitByte (h i hi)

lemma invparityAt_eq (hx : x.toNat < 256) : invparityAt x = bitByte (!parity x) := by
  have htable : invparity =
      (List.range 256).map fun n => bitByte (!parityBelow (BitVec.ofNat 32 n) 8) := by
    decide +kernel
  rw [invparityAt, htable, List.getD_eq_getElem?_getD, List.getElem?_map, List.getElem?_range hx,
    Option.map_some, Option.getD_some, BitVec.ofNat_toNat, BitVec.setWidth_eq, parity_eq_of_lt hx]

/-- `code[n]`. -/
def Ecc.byte (e : Ecc) : Fin 3 → BitVec 8
  | 0 => e.code0
  | 1 => e.code1
  | 2 => e.code2

/-- The bit of the address that bit `i` of `code[n]` checks; its value is that
of the lowest bit of `i`. -/
def addressBit : Fin 3 → ℕ → ℕ
  | 0, i => 7 + i / 2
  | 1, i => 3 + i / 2
  | 2, i => if i < 2 then 11 else i / 2 - 1

scoped instance code_neZero : NeZero 3 := ⟨by decide⟩

/-- The bits of the code that are used: for 256 bytes, `code[2]` has two that
are always 1. -/
def usedBit (mult : ℕ) (n : Fin 3) (i : ℕ) : Bool := !(mult = 1 ∧ n = 2 ∧ i < 2)

/-- **The code.** Its bits are the inverted parities of the check registers. -/
lemma Parities.ecc_byte (s : Parities) (hmult : mult = 1 ∨ mult = 2) (n : Fin 3) :
    (s.ecc mult).byte n = pack fun i =>
      !(usedBit mult n i && parity (s.checkReg (addressBit n i) (i % 2 == 1))) := by
  have hjoin : (s.ecc mult).byte n = join fun i =>
      if usedBit mult n i then invparityAt (s.checkReg (addressBit n i) (i % 2 == 1)) else 1 := by
    rcases hmult with rfl | rfl
    · match n with
      | 0 | 1 => rfl
      | 2 => exact (BitVec.or_assoc _ 2 1).symm
    · match n with
      | 0 | 1 => rfl
      | 2 => exact congrArg (_ ||| ·) (BitVec.shiftLeft_zero _)
  refine hjoin.trans (join_congr fun i _ => ?_)
  dsimp only
  cases usedBit mult n i with
  | false => rfl
  | true => exact invparityAt_eq (s.checkReg_lt _ _)

lemma addressBit_bound (hmult : mult = 1 ∨ mult = 2) {n : Fin 3} (hi : i < 8)
    (hused : usedBit mult n i = true) : addressBit n i < 11 ∨ addressBit n i = 11 ∧ mult = 2 := by
  have hall : ∀ n : Fin 3, ∀ i < 8, addressBit n i < 11 ∨ addressBit n i = 11 ∧ n = 2 ∧ i < 2 := by
    decide
  rcases hall n i hi with h | ⟨h, hn, hi⟩
  · exact .inl h
  · refine .inr ⟨h, hmult.resolve_left ?_⟩
    rintro rfl
    simp [usedBit, hn, hi] at hused

lemma eccsizeMult_eq (mult : ℕ) : (256 * mult) >>> 8 = mult := by
  rw [shiftRight_eq_div_pow]
  exact Nat.mul_div_cancel_left mult (by decide)

/-- What flipping data bit `a` changes of `code[n]`. -/
def dataSyndrome (mult a : ℕ) (n : Fin 3) : BitVec 8 :=
  pack fun i => usedBit mult n i && (a.testBit (addressBit n i) == (i % 2 == 1))

/-- **A flipped data bit.** Of each pair of check bits in use, the one that
the address names changes. -/
lemma nandCalculateEcc_flip (buf : ℕ → BitVec 8) (hmult : mult = 1 ∨ mult = 2)
    (ha : a < 2048 * mult) (n : Fin 3) : (nandCalculateEcc (flipBit buf a) (256 * mult)).byte n =
      (nandCalculateEcc buf (256 * mult)).byte n ^^^ dataSyndrome mult a n := by
  have hword : a / 32 < 16 * (mult <<< 2) := by
    rw [shiftLeft_eq]
    omega
  unfold nandCalculateEcc
  simp only [eccsizeMult_eq]
  rw [ecc_byte _ hmult, ecc_byte _ hmult, dataSyndrome, pack_xor]
  apply pack_congr
  intro i hi
  cases hused : usedBit mult n i with
  | false => simp
  | true =>
    rw [parity_checkReg_flipBit buf hword (addressBit_bound hmult hi hused)]
    simp

def split (x0 x1 x2 x3 : Bool) : BitVec 8 :=
  pack fun i => [x0, x1, x2, x3].getD (i / 2) false == (i % 2 == 1)

/-- The bits of `code[n]` that are used. -/
def usedMask (mult : ℕ) : Fin 3 → BitVec 8
  | 2 => if mult = 1 then 0xfc else 0xff
  | _ => 0xff

lemma usedMask_mem (mult : ℕ) (n : Fin 3) : usedMask mult n ∈ [0xff#8, 0xfc#8] := by
  unfold usedMask
  split
  · split_ifs <;> simp
  · simp

lemma split_facts : ∀ x0 x1 x2 x3 : Bool, ∀ m ∈ [0xff#8, 0xfc#8],
    pairsSplit (split x0 x1 x2 x3 &&& m) (m &&& 0x55) = true ∧
      3 ≤ bitsperbyteAt (split x0 x1 x2 x3 &&& m) ∧
      addressbitsAt ((split x0 x1 x2 x3 &&& m) >>> 2) = x1.toNat + 2 * x2.toNat + 4 * x3.toNat ∧
      (m = 0xff → addressbitsAt (split x0 x1 x2 x3 &&& m &&& 0x3) = x0.toNat ∧
        addressbitsAt (split x0 x1 x2 x3 &&& m) =
          x0.toNat + 2 * x1.toNat + 4 * x2.toNat + 8 * x3.toNat) := by
  decide

/-- Pairs of equal bits. -/
def double (x0 x1 x2 x3 : Bool) : BitVec 8 := pack fun i => [x0, x1, x2, x3].getD (i / 2) false

lemma split_xor_split (x0 x1 x2 x3 y0 y1 y2 y3 : Bool) : split x0 x1 x2 x3 ^^^ split y0 y1 y2 y3 =
      double (x0 ^^ y0) (x1 ^^ y1) (x2 ^^ y2) (x3 ^^ y3) := by
  have hbit : ∀ x y v : Bool, ((x == v) ^^ (y == v)) = (x ^^ y) := by decide
  rw [split, split, pack_xor]
  refine pack_congr fun i hi => ?_
  rw [hbit]
  obtain h | h | h | h : i / 2 = 0 ∨ i / 2 = 1 ∨ i / 2 = 2 ∨ i / 2 = 3 := by omega
  all_goals
    rw [h]
    rfl

lemma double_facts : ∀ x0 x1 x2 x3 : Bool, ∀ m ∈ [0xff#8, 0xfc#8],
    pairsSplit (double x0 x1 x2 x3 &&& m) (m &&& 0x55) = false ∧
      bitsperbyteAt (double x0 x1 x2 x3 &&& m) % 2 = 0 := by
  decide

lemma split_xor_unit : ∀ x0 x1 x2 x3 : Bool, ∀ m ∈ [0xff#8, 0xfc#8], ∀ i < 8, m.getLsbD i = true →
      pairsSplit ((split x0 x1 x2 x3 &&& m) ^^^ 1#8 <<< i) (m &&& 0x55) = false := by
  decide

/-- The test of `__nand_correct_data` for a single data error, on the change
`d` of the code. -/
def located (mult : ℕ) (d : Fin 3 → BitVec 8) : Bool :=
  pairsSplit (d 1) 0x55 && pairsSplit (d 0) 0x55 &&
    pairsSplit (d 2) (if mult = 1 then 0x54 else 0x55)

def weight (d : Fin 3 → BitVec 8) : ℕ :=
  bitsperbyteAt (d 1) + bitsperbyteAt (d 0) + bitsperbyteAt (d 2)

section

variable {mult : ℕ} (hmult : mult = 1 ∨ mult = 2) (buf : ℕ → BitVec 8) {d : Fin 3 → BitVec 8}

include hmult

lemma located_iff : (pairsSplit (d 1) 0x55 = true ∧ pairsSplit (d 0) 0x55 = true ∧
      (mult = 1 ∧ pairsSplit (d 2) 0x54 = true ∨ mult = 2 ∧ pairsSplit (d 2) 0x55 = true)) ↔
    located mult d = true := by
  rcases hmult with rfl | rfl
  · simp [located, and_assoc]
  · simp [located, and_assoc]

omit hmult in
lemma or_ne_zero (hne : ∃ n, d n ≠ 0) : ¬ d 1 ||| d 0 ||| d 2 = 0 := by
  intro hzero
  change _ = 0#8 at hzero
  rw [BitVec.or_eq_zero_iff, BitVec.or_eq_zero_iff] at hzero
  obtain ⟨⟨h1, h0⟩, h2⟩ := hzero
  obtain ⟨n, hn⟩ := hne
  apply hn
  match n with
  | 0 => exact h0
  | 1 => exact h1
  | 2 => exact h2

lemma correctBits_not_located (hne : ∃ n, d n ≠ 0) (hloc : located mult d = false) :
    correctBits buf (d 1) (d 0) (d 2) mult = (buf, if weight d = 1 then 1 else -1) := by
  have hnot := mt (located_iff hmult).mp (by rw [hloc]; decide)
  rw [correctBits, if_neg (or_ne_zero hne), if_neg hnot]
  show (if weight d = 1 then (buf, 1) else (buf, -1)) = _
  by_cases hweight : weight d = 1
  · rw [if_pos hweight, if_pos hweight]
  · rw [if_neg hweight, if_neg hweight]

omit hmult in
lemma located_iff_forall :
    located mult d = true ↔ ∀ n, pairsSplit (d n) (usedMask mult n &&& 0x55) = true := by
  have hlow : 0xff#8 &&& 0x55 = 0x55 := by decide
  have hhigh : (if mult = 1 then 0x54 else 0xff#8 &&& 0x55) = usedMask mult 2 &&& 0x55 := by
    simp only [usedMask]
    split_ifs <;> rfl
  rw [located, ← hlow, hhigh, Bool.and_eq_true, Bool.and_eq_true]
  constructor
  · rintro ⟨⟨h1, h0⟩, h2⟩ n
    match n with
    | 0 => exact h0
    | 1 => exact h1
    | 2 => exact h2
  · exact fun h => ⟨⟨h 1, h 0⟩, h 2⟩

lemma getLsbD_usedMask : ∀ n : Fin 3, ∀ i < 8, (usedMask mult n).getLsbD i = usedBit mult n i := by
  rcases hmult with rfl | rfl
  · decide
  · decide

/-- Four bits of the address, as those of the pairs of check bits that are used. -/
lemma dataSyndrome_eq (a : ℕ) (n : Fin 3) : dataSyndrome mult a n =
      split (a.testBit (addressBit n 0)) (a.testBit (addressBit n 2)) (a.testBit (addressBit n 4))
        (a.testBit (addressBit n 6)) &&& usedMask mult n := by
  apply BitVec.eq_of_getLsbD_eq
  intro i hi
  have hpair : ∀ n : Fin 3, ∀ i < 8, addressBit n i = addressBit n (2 * (i / 2)) := by decide
  rw [BitVec.getLsbD_and, dataSyndrome, split, getLsbD_pack _ hi, getLsbD_pack _ hi,
    getLsbD_usedMask hmult n i hi, hpair n i hi, Bool.and_comm]
  obtain h | h | h | h : i / 2 = 0 ∨ i / 2 = 1 ∨ i / 2 = 2 ∨ i / 2 = 3 := by omega
  all_goals
    rw [h]
    rfl

lemma located_dataSyndrome (a : ℕ) : located mult (dataSyndrome mult a) = true := by
  rw [located_iff_forall]
  intro n
  rw [dataSyndrome_eq hmult]
  exact (split_facts _ _ _ _ _ (usedMask_mem mult n)).1

lemma three_le_bitsperbyte (a : ℕ) (n : Fin 3) : 3 ≤ bitsperbyteAt (dataSyndrome mult a n) := by
  rw [dataSyndrome_eq hmult]
  exact (split_facts _ _ _ _ _ (usedMask_mem mult n)).2.1

lemma dataSyndrome_ne_zero (a : ℕ) (n : Fin 3) : dataSyndrome mult a n ≠ 0 := by
  intro hzero
  have hthree := three_le_bitsperbyte hmult a n
  rw [hzero] at hthree
  cases hthree

lemma addressbits_low (a : ℕ) : addressbitsAt (dataSyndrome mult a 1) = a / 8 % 16 := by
  rw [dataSyndrome_eq hmult, ((split_facts _ _ _ _ _ (usedMask_mem mult 1)).2.2.2 rfl).2]
  simp only [addressBit, toNat_testBit]
  omega

lemma addressbits_high (a : ℕ) : addressbitsAt (dataSyndrome mult a 0) = a / 128 % 16 := by
  rw [dataSyndrome_eq hmult, ((split_facts _ _ _ _ _ (usedMask_mem mult 0)).2.2.2 rfl).2]
  simp only [addressBit, toNat_testBit]
  omega

lemma addressbits_bit (a : ℕ) : addressbitsAt (dataSyndrome mult a 2 >>> 2) = a % 8 := by
  rw [dataSyndrome_eq hmult, (split_facts _ _ _ _ _ (usedMask_mem mult 2)).2.2.1]
  simp only [toNat_testBit]
  change a / 2 ^ 0 % 2 + 2 * (a / 2 ^ 1 % 2) + 4 * (a / 2 ^ 2 % 2) = _
  omega

lemma addressbits_byte {a : ℕ} (ha : a < 2048 * mult) : (if mult = 1 then
        addressbitsAt (dataSyndrome mult a 0) <<< 4 + addressbitsAt (dataSyndrome mult a 1)
      else addressbitsAt (dataSyndrome mult a 2 &&& 0x3) <<< 8 +
        addressbitsAt (dataSyndrome mult a 0) <<< 4 + addressbitsAt (dataSyndrome mult a 1)) =
      a / 8 := by
  rw [addressbits_low hmult, addressbits_high hmult, shiftLeft_eq, shiftLeft_eq]
  rcases hmult with rfl | rfl
  · rw [if_pos rfl]
    omega
  · rw [if_neg nofun, dataSyndrome_eq (.inr rfl),
      ((split_facts _ _ _ _ _ (usedMask_mem 2 2)).2.2.2 rfl).1, toNat_testBit]
    change a / 2 ^ 11 % 2 * _ + _ + _ = _
    omega

lemma correctBits_data {a : ℕ} (ha : a < 2048 * mult) :
    correctBits buf (dataSyndrome mult a 1) (dataSyndrome mult a 0) (dataSyndrome mult a 2) mult =
      (flipBit buf a, 1) := by
  have hne : ∃ n, dataSyndrome mult a n ≠ 0 := ⟨1, dataSyndrome_ne_zero hmult a 1⟩
  rw [correctBits, if_neg (or_ne_zero hne),
    if_pos ((located_iff hmult).mpr (located_dataSyndrome hmult a))]
  simp only [addressbits_byte hmult ha, addressbits_bit hmult]
  rfl

end

lemma flipBit_flipBit (buf : ℕ → BitVec 8) (a : ℕ) : flipBit (flipBit buf a) a = buf := by
  unfold flipBit
  rw [update_self, update_idem, BitVec.xor_assoc, BitVec.xor_self, BitVec.xor_zero, update_eq_self]

inductive Flip where
  | data (a : ℕ)
  | code (n : Fin 3) (i : Fin 8)
  deriving DecidableEq

namespace Flip

def Valid (eccsize : ℕ) : Flip → Prop
  | data a => a < 8 * eccsize
  | code n i => usedBit (eccsize >>> 8) n i = true

def apply (s : (ℕ → BitVec 8) × Ecc) : Flip → (ℕ → BitVec 8) × Ecc
  | data a => (flipBit s.1 a, s.2)
  | code 0 i => (s.1, { s.2 with code0 := s.2.code0 ^^^ 1#8 <<< i.val })
  | code 1 i => (s.1, { s.2 with code1 := s.2.code1 ^^^ 1#8 <<< i.val })
  | code 2 i => (s.1, { s.2 with code2 := s.2.code2 ^^^ 1#8 <<< i.val })

lemma lt_of_valid {mult a : ℕ} (h : (data a).Valid (256 * mult)) : a < 2048 * mult := by
  have : a < 8 * (256 * mult) := h
  omega

lemma apply_code_fst (s : (ℕ → BitVec 8) × Ecc) (n : Fin 3) (i : Fin 8) :
    ((code n i).apply s).1 = s.1 := by
  match n with
  | 0 | 1 | 2 => rfl

def syndrome (mult : ℕ) : Flip → Fin 3 → BitVec 8
  | data a => dataSyndrome mult a
  | code m i => fun n => if n = m then 1#8 <<< i.val else 0#8

end Flip

def difference (eccsize : ℕ) (s : (ℕ → BitVec 8) × Ecc) (n : Fin 3) : BitVec 8 :=
  s.2.byte n ^^^ (nandCalculateEcc s.1 eccsize).byte n

lemma nandCorrectData_eq (eccsize : ℕ) (s : (ℕ → BitVec 8) × Ecc) :
    nandCorrectData s.1 s.2 (nandCalculateEcc s.1 eccsize) eccsize =
      correctBits s.1 (difference eccsize s 1) (difference eccsize s 0) (difference eccsize s 2)
        (eccsize >>> 8) := rfl

open Flip

/-- **A flipped bit.** Whatever was wrong before, it changes the comparison by
its own pattern. -/
lemma difference_apply (hmult : mult = 1 ∨ mult = 2) (s : (ℕ → BitVec 8) × Ecc) {e : Flip}
    (he : e.Valid (256 * mult)) (n : Fin 3) : difference (256 * mult) (e.apply s) n =
      difference (256 * mult) s n ^^^ e.syndrome mult n := by
  unfold difference
  cases e with
  | data a =>
    show s.2.byte n ^^^ (nandCalculateEcc (flipBit s.1 a) (256 * mult)).byte n = _
    rw [nandCalculateEcc_flip s.1 hmult (lt_of_valid he) n]
    exact (BitVec.xor_assoc _ _ _).symm
  | code m i =>
    have hbyte : ((code m i).apply s).2.byte n =
        s.2.byte n ^^^ (code m i).syndrome mult n := by
      match m, n with
      | 0, 0 | 1, 1 | 2, 2 => rfl
      | 0, 1 | 0, 2 | 1, 0 | 1, 2 | 2, 0 | 2, 1 => exact BitVec.xor_zero.symm
    rw [hbyte, apply_code_fst]
    ac_rfl

structure Refused (mult : ℕ) (d : Fin 3 → BitVec 8) : Prop where
  ne_zero : ∃ n, d n ≠ 0
  not_located : located mult d = false
  weight_ne : weight d ≠ 1

instance (mult : ℕ) (d : Fin 3 → BitVec 8) : Decidable (Refused mult d) :=
  decidable_of_iff ((∃ n, d n ≠ 0) ∧ located mult d = false ∧ weight d ≠ 1)
    ⟨fun h => ⟨h.1, h.2.1, h.2.2⟩, fun h => ⟨h.1, h.2, h.3⟩⟩

lemma located_eq_false {d : Fin 3 → BitVec 8} (n : Fin 3)
    (h : pairsSplit (d n) (usedMask mult n &&& 0x55) = false) : located mult d = false :=
  Bool.eq_false_iff.mpr fun hloc => Bool.eq_false_iff.mp h (located_iff_forall.mp hloc n)

lemma le_weight (d : Fin 3 → BitVec 8) (n : Fin 3) : bitsperbyteAt (d n) ≤ weight d := by
  unfold weight
  match n with
  | 0 | 1 | 2 => omega

section

variable {mult : ℕ} (hmult : mult = 1 ∨ mult = 2)

include hmult

variable {m n : Fin 3} {i : Fin 8}

lemma refused_code_code {j : Fin 8} (h : ¬ (m = n ∧ i = j)) :
    Refused mult fun k => (Flip.code m i).syndrome mult k ^^^ (Flip.code n j).syndrome mult k := by
  revert m n i j
  rcases hmult with rfl | rfl
  · decide
  · decide

/-- A data error and one in the code: the pair with the second is not split,
and a byte without it has more than one bit. -/
lemma refused_data_code (a : ℕ) (hused : usedBit mult m i = true) :
    Refused mult fun k => dataSyndrome mult a k ^^^ (Flip.code m i).syndrome mult k := by
  have hself : (code m i).syndrome mult m = 1#8 <<< i.val := if_pos rfl
  have hne : ∀ m : Fin 3, ∃ k, k ≠ m := by decide
  obtain ⟨k, hk⟩ := hne m
  have hother : dataSyndrome mult a k ^^^ (code m i).syndrome mult k =
      dataSyndrome mult a k := by
    have hzero : (code m i).syndrome mult k = 0#8 := if_neg hk
    rw [hzero, BitVec.xor_zero]
  have hthree := three_le_bitsperbyte hmult a k
  have hweight := le_weight
    (fun k => dataSyndrome mult a k ^^^ (code m i).syndrome mult k) k
  simp only [hother] at hweight
  refine ⟨⟨k, ?_⟩, located_eq_false m ?_, by omega⟩
  · intro hzero
    rw [hother] at hzero
    rw [hzero] at hthree
    cases hthree
  · rw [hself, dataSyndrome_eq hmult]
    apply split_xor_unit _ _ _ _ _ (usedMask_mem mult m) i i.isLt
    rw [getLsbD_usedMask hmult m i i.isLt, hused]

variable {a b : ℕ}

lemma refused_data_data (ha : a < 2048 * mult) (hb : b < 2048 * mult) (hab : a ≠ b) :
    Refused mult fun k => dataSyndrome mult a k ^^^ dataSyndrome mult b k := by
  have hxor : ∀ k, pairsSplit (dataSyndrome mult a k ^^^ dataSyndrome mult b k)
        (usedMask mult k &&& 0x55) = false ∧
      bitsperbyteAt (dataSyndrome mult a k ^^^ dataSyndrome mult b k) % 2 = 0 := by
    intro k
    rw [dataSyndrome_eq hmult a, dataSyndrome_eq hmult b, ← linear_id.and, split_xor_split]
    exact double_facts _ _ _ _ _ (usedMask_mem mult k)
  refine ⟨?_, located_eq_false 1 (hxor 1).1, ?_⟩
  · by_contra hnone
    rw [not_exists] at hnone
    -- the address can be read off the change
    have hsame : dataSyndrome mult a = dataSyndrome mult b :=
      funext fun n => BitVec.xor_eq_zero_iff.mp (not_not.mp (hnone n))
    have hbyte := addressbits_byte hmult ha
    have hbit := addressbits_bit hmult a
    rw [hsame, addressbits_byte hmult hb] at hbyte
    rw [hsame, addressbits_bit hmult] at hbit
    omega
  · have h0 := (hxor 0).2
    have h1 := (hxor 1).2
    have h2 := (hxor 2).2
    simp only [weight]
    omega

/-- **Two errors** are refused, wherever they are. -/
lemma refused_of_ne {e f : Flip} (he : e.Valid (256 * mult)) (hf : f.Valid (256 * mult))
    (hne : e ≠ f) : Refused mult fun k => e.syndrome mult k ^^^ f.syndrome mult k := by
  have hcode : ∀ m i, (code m i).Valid (256 * mult) → usedBit mult m i = true := by
    intro m i hused
    rw [Flip.Valid, eccsizeMult_eq] at hused
    exact hused
  cases e with
  | data a =>
    cases f with
    | data b =>
      apply refused_data_data hmult (lt_of_valid he) (lt_of_valid hf)
      rintro rfl
      exact hne rfl
    | code m i => exact refused_data_code hmult a (hcode m i hf)
  | code m i =>
    cases f with
    | data b =>
      have hrefused := refused_data_code hmult b (hcode m i he)
      simp only [BitVec.xor_comm (dataSyndrome mult b _)] at hrefused
      exact hrefused
    | code n j =>
      apply refused_code_code hmult
      rintro ⟨rfl, rfl⟩
      exact hne rfl

end

lemma weight_code (hmult : mult = 1 ∨ mult = 2) (m : Fin 3) (i : Fin 8) :
    (∃ n, (Flip.code m i).syndrome mult n ≠ 0) ∧
      located mult ((Flip.code m i).syndrome mult) = false ∧
      weight ((Flip.code m i).syndrome mult) = 1 := by
  revert m i
  rcases hmult with rfl | rfl
  · decide
  · decide

section

variable {mult : ℕ} (hmult : mult = 1 ∨ mult = 2) (buf : ℕ → BitVec 8)

include hmult

variable {e f : Flip}

lemma difference_one (he : e.Valid (256 * mult)) :
    difference (256 * mult) (e.apply (buf, nandCalculateEcc buf (256 * mult))) =
      e.syndrome mult := by
  funext n
  rw [difference_apply hmult _ he]
  show (_ ^^^ _) ^^^ _ = _
  rw [BitVec.xor_self, BitVec.zero_xor]

lemma difference_two (he : e.Valid (256 * mult)) (hf : f.Valid (256 * mult)) :
    difference (256 * mult) (f.apply (e.apply (buf, nandCalculateEcc buf (256 * mult)))) =
      fun n => e.syndrome mult n ^^^ f.syndrome mult n := by
  funext n
  rw [difference_apply hmult _ hf, difference_one hmult buf he]

end

/-- For blocks of 256 and 512 bytes: a flipped data bit is restored and reported, a flipped bit of
the code in use is reported with the data as they are, and any two bits, of the data or of the code
in use, are reported as an error that cannot be corrected. -/
theorem ecc_corrects {eccsize : ℕ} (hsize : eccsize = 256 ∨ eccsize = 512) (buf : ℕ → BitVec 8) :
    (∀ a < 8 * eccsize, nandCorrectData (flipBit buf a) (nandCalculateEcc buf eccsize)
        (nandCalculateEcc (flipBit buf a) eccsize) eccsize = (buf, 1)) ∧
    (∀ n i, (Flip.code n i).Valid eccsize →
      nandCorrectData buf ((Flip.code n i).apply (buf, nandCalculateEcc buf eccsize)).2
        (nandCalculateEcc buf eccsize) eccsize = (buf, 1)) ∧
    (∀ e f : Flip, e.Valid eccsize → f.Valid eccsize → e ≠ f →
      ∀ s, s = f.apply (e.apply (buf, nandCalculateEcc buf eccsize)) →
        nandCorrectData s.1 s.2 (nandCalculateEcc s.1 eccsize) eccsize = (s.1, -1)) := by
  obtain ⟨mult, hmult, rfl⟩ : ∃ mult, (mult = 1 ∨ mult = 2) ∧ eccsize = 256 * mult := by
    rcases hsize with rfl | rfl
    · exact ⟨1, .inl rfl, rfl⟩
    · exact ⟨2, .inr rfl, rfl⟩
  refine ⟨?_, ?_, ?_⟩
  · intro a ha
    have hcorrect := nandCorrectData_eq (256 * mult)
      ((Flip.data a).apply (buf, nandCalculateEcc buf (256 * mult)))
    rw [difference_one hmult buf (e := .data a) ha, eccsizeMult_eq] at hcorrect
    refine hcorrect.trans ?_
    refine (correctBits_data hmult (flipBit buf a) (Flip.lt_of_valid ha)).trans ?_
    rw [flipBit_flipBit]
  · intro n i hi
    have hcorrect := nandCorrectData_eq (256 * mult)
      ((Flip.code n i).apply (buf, nandCalculateEcc buf (256 * mult)))
    rw [difference_one hmult buf hi, eccsizeMult_eq, Flip.apply_code_fst] at hcorrect
    obtain ⟨hne, hloc, hweight⟩ := weight_code hmult n i
    refine hcorrect.trans ?_
    rw [correctBits_not_located hmult buf hne hloc, if_pos hweight]
  · intro e f he hf hne s hs
    have hrefused := refused_of_ne hmult he hf hne
    rw [← difference_two hmult buf he hf, ← hs] at hrefused
    rw [nandCorrectData_eq, eccsizeMult_eq,
      correctBits_not_located hmult s.1 hrefused.ne_zero hrefused.not_located,
      if_neg hrefused.weight_ne]

/-- A block of zeros: the last data bit, the first bit of the code in use in
`code[2]`, and both. -/
theorem ecc_corrects_zeros :
    nandCorrectData (flipBit (fun _ => 0#8) 2047) (nandCalculateEcc (fun _ => 0#8) 256)
        (nandCalculateEcc (flipBit (fun _ => 0#8) 2047) 256) 256 = (fun _ => 0#8, 1) ∧
      nandCorrectData (fun _ => 0#8)
        ((Flip.code 2 2).apply (fun _ => 0#8, nandCalculateEcc (fun _ => 0#8) 256)).2
        (nandCalculateEcc (fun _ => 0#8) 256) 256 = (fun _ => 0#8, 1) ∧
      ∀ s, s = (Flip.code 2 2).apply
          ((Flip.data 2047).apply (fun _ => 0#8, nandCalculateEcc (fun _ => 0#8) 256)) →
        nandCorrectData s.1 s.2 (nandCalculateEcc s.1 256) 256 = (s.1, -1) := by
  obtain ⟨hdata, hcode, htwo⟩ := ecc_corrects (.inl rfl) fun _ => 0#8
  have hvalid : (Flip.data 2047).Valid 256 := show 2047 < 8 * 256 by decide
  have hused : (Flip.code 2 2).Valid 256 := show usedBit (256 >>> 8) 2 2 = true by decide
  exact ⟨hdata 2047 hvalid, hcode 2 2 hused, htwo _ _ hvalid hused (by decide)⟩

end Am335x.Mtd
