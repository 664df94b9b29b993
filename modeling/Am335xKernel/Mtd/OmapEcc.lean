import Mathlib.Tactic.IntervalCases
import Am335xKernel.Mtd.NandEccCorrect

/-!
# The hardware ECC of `drivers/mtd/nand/omap2.c`

The GPMC computes 24 parities of a block of 512 bytes: for each of the twelve
bits of the address of a data bit, one parity over the data bits where it is 0
(`P1e` to `P2048e`) and one over those where it is 1 (`P1o` to `P2048o`).
`omap_compare_ecc` brings the parities of the stored and of the computed code
into order and counts those that differ. Twelve is taken for a single flipped
bit, whose address the odd parities spell.

But two flipped bits change both parities of a pair for each address bit in
which they differ, and six such bits make twelve as well: then a third bit is
flipped and the block reported as corrected. And if the stored code is all ones,
the test that is to tell an erased block looks at bytes that the loops have
shifted out, and accepts any.
-/

namespace Am335x.Mtd

open Function List BitVec Nat

open XorSum

/-- `TF(a & (1 << k)) << s`. -/
def eccFlag (k s : ℕ) (a : BitVec 32) : BitVec 8 :=
  (if a &&& 1#32 <<< k ≠ 0 then 1#8 else 0#8) <<< s

def p2048e := eccFlag 11 0
def p2048o := eccFlag 27 1
def p1e := eccFlag 0 2
def p1o := eccFlag 16 3
def p2e := eccFlag 1 4
def p2o := eccFlag 17 5
def p4e := eccFlag 2 6
def p4o := eccFlag 18 7

def p8e := eccFlag 3 0
def p8o := eccFlag 19 1
def p16e := eccFlag 4 2
def p16o := eccFlag 20 3
def p32e := eccFlag 5 4
def p32o := eccFlag 21 5
def p64e := eccFlag 6 6
def p64o := eccFlag 22 7

def p128e := eccFlag 7 0
def p128o := eccFlag 23 1
def p256e := eccFlag 8 2
def p256o := eccFlag 24 3
def p512e := eccFlag 9 4
def p512o := eccFlag 25 5
def p1024e := eccFlag 10 6
def p1024o := eccFlag 26 7

/-- `tmp` of `gen_true_ecc`. -/
def eccWord (e : Ecc) : BitVec 32 :=
  e.code0.setWidth 32 ||| e.code1.setWidth 32 <<< 16 |||
    (e.code2 &&& 0xF0#8).setWidth 32 <<< 20 ||| (e.code2 &&& 0x0F#8).setWidth 32 <<< 8

def genTrueEcc (e : Ecc) : Ecc :=
  let tmp := eccWord e
  { code0 := ~~~(p64o tmp ||| p64e tmp ||| p32o tmp ||| p32e tmp |||
      p16o tmp ||| p16e tmp ||| p8o tmp ||| p8e tmp)
    code1 := ~~~(p1024o tmp ||| p1024e tmp ||| p512o tmp ||| p512e tmp |||
      p256o tmp ||| p256e tmp ||| p128o tmp ||| p128e tmp)
    code2 := ~~~(p4o tmp ||| p4e tmp ||| p2o tmp ||| p2e tmp ||| p1o tmp |||
      p1e tmp ||| p2048o tmp ||| p2048e tmp) }

/-- `for (i = 0; i < n; i++) { bit[i] = *p % 2; *p = *p / 2; }`: the bits, and
what is left of the byte. -/
def shiftOut : ℕ → ℕ → List ℕ × ℕ
  | 0, p => ([], p)
  | n + 1, p => (p % 2 :: (shiftOut n (p / 2)).1, (shiftOut n (p / 2)).2)

/-- A code as `omap_compare_ecc` takes it apart: the bits of the three bytes,
and what the loops leave of the bytes. -/
structure EccBits where
  bit0 : List ℕ
  bit1 : List ℕ
  bit2 : List ℕ
  left : List ℕ
  deriving DecidableEq

def eccBits (e : Ecc) : EccBits :=
  let t := genTrueEcc e
  let s0 := shiftOut 8 (~~~t.code0).toNat
  let s1 := shiftOut 8 (~~~t.code1).toNat
  let s2 := shiftOut 8 (~~~t.code2).toNat
  { bit0 := s0.1, bit1 := s1.1, bit2 := s2.1, left := [s0.2, s1.2, s2.2] }

/-- `ecc_bit[]`. -/
def eccDiff (tmp comp : EccBits) : List ℕ :=
  let diff (a b : List ℕ) := List.zipWith (· ^^^ ·) a b
  diff (tmp.bit2.drop 2) (comp.bit2.drop 2) ++ diff tmp.bit0 comp.bit0 ++
    diff tmp.bit1 comp.bit1 ++ diff (tmp.bit2.take 2) (comp.bit2.take 2)

def findByte (eccBit : ℕ → ℕ) : ℕ :=
  eccBit 23 <<< 8 + eccBit 21 <<< 7 + eccBit 19 <<< 6 + eccBit 17 <<< 5 + eccBit 15 <<< 4 +
    eccBit 13 <<< 3 + eccBit 11 <<< 2 + eccBit 9 <<< 1 + eccBit 7

def findBit (eccBit : ℕ → ℕ) : ℕ := eccBit 5 <<< 2 + eccBit 3 <<< 1 + eccBit 1

def isEccFF (e : Ecc) : Bool := e.code0 = 0xff ∧ e.code1 = 0xff ∧ e.code2 = 0xff

/-- `omap_compare_ecc`: the data, and the result. -/
def omapCompareEcc (eccData1 eccData2 : Ecc) (pageData : ℕ → BitVec 8) : (ℕ → BitVec 8) × ℤ :=
  let tmp := eccBits eccData1
  let comp := eccBits eccData2
  let eccBit := eccDiff tmp comp
  let eccSum := eccBit.sum % 2 ^ 8
  if eccSum = 0 then (pageData, 0)
  else if eccSum = 1 then (pageData, -1)
  else if eccSum = 11 then (pageData, -1)
  else if eccSum = 12 then
    let byte := findByte fun i => eccBit.getD i 0
    let bit := findBit fun i => eccBit.getD i 0
    (update pageData byte (pageData byte ^^^ 1#8 <<< bit), 1)
  else if isEccFF eccData1 ∧ comp.left = [0, 0, 0] then (pageData, 0)
  else (pageData, -1)

/-- Data bit `a` of a block. -/
def dataBit (buf : ℕ → BitVec 8) (a : ℕ) : Bool := (buf (a / 8)).getLsbD (a % 8)

/-- The parity over the data bits whose address has bit `t` equal to `v`:
`P1e` is `t = 0`, `v = false`, and `P2048o` is `t = 11`, `v = true`. -/
def addressParity (buf : ℕ → BitVec 8) (t : ℕ) (v : Bool) : Bool :=
  xorBits (fun a => dataBit buf a && (a.testBit t == v)) 4096

def gpmcEcc (buf : ℕ → BitVec 8) : Ecc where
  code0 := pack fun i => addressParity buf i false
  code1 := pack fun i => addressParity buf i true
  code2 := pack fun i =>
    if i < 4 then addressParity buf (i + 8) false else addressParity buf (i + 4) true

/-- The parity `t` of a code: the even one, or the odd one. -/
def Ecc.parityBit (e : Ecc) (t : ℕ) (v : Bool) : Bool :=
  if t < 8 then (if v then e.code1 else e.code0).getLsbD t
  else e.code2.getLsbD (if v then t - 4 else t - 8)

variable {t : ℕ} {i : ℕ} {x : ℕ}

lemma gpmcEcc_parityBit (buf : ℕ → BitVec 8) (ht : t < 12) (v : Bool) :
    (gpmcEcc buf).parityBit t v = addressParity buf t v := by
  unfold Ecc.parityBit gpmcEcc
  by_cases h8 : t < 8
  · rw [if_pos h8]
    cases v
    · simp only [Bool.false_eq_true, if_false]
      rw [getLsbD_pack _ h8]
    · simp only [if_true]
      rw [getLsbD_pack _ h8]
  · rw [if_neg h8]
    cases v
    · simp only [Bool.false_eq_true, if_false]
      rw [getLsbD_pack _ (by omega), if_pos (by omega), Nat.sub_add_cancel (by omega)]
    · simp only [if_true]
      rw [getLsbD_pack _ (by omega), if_neg (by omega), Nat.sub_add_cancel (by omega)]

lemma shiftOut_eq (n p : ℕ) :
    shiftOut n p = ((List.range n).map fun i => (p.testBit i).toNat, p / 2 ^ n) := by
  induction n generalizing p with
  | zero => rw [shiftOut, pow_zero, Nat.div_one, range_zero, map_nil]
  | succ n ih =>
    rw [shiftOut, ih, range_succ_eq_map, map_cons, map_map]
    refine Prod.ext ?_ ?_
    · refine cons_eq_cons.mpr ⟨?_, ?_⟩
      · rw [testBit_zero]
        rcases mod_two_eq_zero_or_one p with h | h <;> rw [h] <;> rfl
      · apply map_congr_left
        intro i _
        rw [Function.comp_apply, testBit_succ]
    · rw [Nat.div_div_eq_div_mul, ← pow_succ']

lemma shiftOut_byte (x : BitVec 8) :
    shiftOut 8 x.toNat = ((List.range 8).map fun i => (x.getLsbD i).toNat, 0) := by
  rw [shiftOut_eq, div_eq_of_lt x.isLt]
  rfl

lemma and_bit_ne_zero_iff (a : BitVec 32) {k : ℕ} (hk : k < 32) :
    a &&& 1#32 <<< k ≠ 0 ↔ a.getLsbD k = true := by
  rw [← twoPow_eq, and_twoPow]
  cases a.getLsbD k with
  | false => simp
  | true =>
    simp only [if_true, iff_true]
    intro h
    have hbit := congrArg (fun x => x.getLsbD k) h
    simp [hk] at hbit

lemma eccFlag_getLsbD {k s i : ℕ} (hk : k < 32) (hs : s < 8) (hi : i < 8) (a : BitVec 32) :
    (eccFlag k s a).getLsbD i = (decide (i = s) && a.getLsbD k) := by
  have hunit : ∀ s < 8, ∀ i < 8, (1#8 <<< s).getLsbD i = decide (i = s) := by decide
  unfold eccFlag
  by_cases h : a &&& 1#32 <<< k ≠ 0
  · rw [if_pos h, (and_bit_ne_zero_iff a hk).mp h, Bool.and_true, hunit s hs i hi]
  · rw [if_neg h]
    have hfalse : a.getLsbD k = false := by
      rw [and_bit_ne_zero_iff a hk] at h
      simpa using h
    simp [hfalse]

section

variable (e : Ecc)

lemma eccWord_getLsbD (ht : t < 12) : (eccWord e).getLsbD t = e.parityBit t false ∧
      (eccWord e).getLsbD (t + 16) = e.parityBit t true := by
  unfold eccWord Ecc.parityBit
  interval_cases t <;> simp

/-- `gen_true_ecc` puts the even and the odd parity of an address bit next to
each other, from `P8` on in the first byte. -/
lemma eccBits_eq : eccBits e =
      { bit0 := (List.range 8).map fun i => (e.parityBit (i / 2 + 3) (i % 2 == 1)).toNat
        bit1 := (List.range 8).map fun i => (e.parityBit (i / 2 + 7) (i % 2 == 1)).toNat
        bit2 := (List.range 8).map fun i =>
          (e.parityBit (if i < 2 then 11 else i / 2 - 1) (i % 2 == 1)).toNat
        left := [0, 0, 0] } := by
  simp only [eccBits, shiftOut_byte, EccBits.mk.injEq, and_true]
  refine ⟨?_, ?_, ?_⟩ <;> refine map_congr_left fun i hi => congrArg Bool.toNat ?_
  all_goals
    rw [mem_range] at hi
    simp (disch := omega) only [genTrueEcc, BitVec.not_not, BitVec.getLsbD_or, p64o, p64e, p32o,
      p32e, p16o, p16e, p8o, p8e, p1024o, p1024e, p512o, p512e, p256o, p256e, p128o, p128e, p4o,
      p4e, p2o, p2e, p1o, p1e, p2048o, p2048e, eccFlag_getLsbD]
    interval_cases i <;> simp (disch := decide) [-getLsbD_eq_getElem, eccWord_getLsbD]

end

lemma dataBit_flipBit (buf : ℕ → BitVec 8) (a j : ℕ) :
    dataBit (flipBit buf a) j = (dataBit buf j ^^ decide (j = a)) := by
  unfold dataBit flipBit
  by_cases hbyte : j / 8 = a / 8
  · rw [hbyte, update_self, getLsbD_xor]
    have hunit : ∀ s < 8, ∀ i < 8, (1#8 <<< s).getLsbD i = decide (i = s) := by decide
    rw [hunit _ (mod_lt _ (by norm_num)) _ (mod_lt _ (by norm_num))]
    congr 2
    rw [eq_iff_iff]
    omega
  · rw [update_of_ne hbyte]
    have hne : j ≠ a := fun h => hbyte (congrArg (· / 8) h)
    rw [decide_eq_false hne, Bool.xor_false]

lemma addressParity_flipBit (buf : ℕ → BitVec 8) {a : ℕ} (ha : a < 4096) (t : ℕ) (v : Bool) :
    addressParity (flipBit buf a) t v = (addressParity buf t v ^^ (a.testBit t == v)) := by
  unfold addressParity
  rw [xorBits_change (k := a) (d := a.testBit t == v) ?_ ?_ 4096, decide_eq_true ha, Bool.true_and]
  · rw [dataBit_flipBit, decide_eq_true rfl]
    cases dataBit buf a <;> cases (a.testBit t == v) <;> rfl
  · intro j hj
    rw [dataBit_flipBit, decide_eq_false hj, Bool.xor_false]

lemma sum_pairs (g : ℕ → Bool → ℕ) (n : ℕ) :
    ((List.range (2 * n)).map fun k => g (k / 2) (k % 2 == 1)).sum =
      ((List.range n).map fun t => g t false + g t true).sum := by
  induction n with
  | zero => rfl
  | succ n ih =>
    rw [show 2 * (n + 1) = 2 * n + 1 + 1 by omega, range_succ, range_succ,
      range_succ, map_append, map_append, map_append, List.sum_append,
      List.sum_append, List.sum_append, ih]
    have h0 : 2 * n / 2 = n := by omega
    have h1 : (2 * n + 1) / 2 = n := by omega
    have h2 : 2 * n % 2 = 0 := by omega
    have h3 : (2 * n + 1) % 2 = 1 := by omega
    simp [h0, h1, h2, h3, add_assoc]

lemma find_address (hx : x < 4096) (eccBit : ℕ → ℕ)
    (h : ∀ k < 24, k % 2 = 1 → eccBit k = (x.testBit (k / 2)).toNat) :
    findByte eccBit = x / 8 ∧ findBit eccBit = x % 8 := by
  simp (disch := decide) only [findByte, findBit, h, Nat.toNat_testBit, Nat.shiftLeft_eq,
    Nat.reduceDiv, Nat.reducePow, Nat.add_comm]
  omega

/-- `ecc_bit[]`, for codes whose parities differ by `d`. -/
def diffBits (d : ℕ → Bool → Bool) : List ℕ :=
  (List.range 24).map fun k => (d (k / 2) (k % 2 == 1)).toNat

lemma diffBits_sum (d : ℕ → Bool → Bool) : (diffBits d).sum =
      ((List.range 12).map fun t => (d t false).toNat + (d t true).toNat).sum :=
  sum_pairs (fun t v => (d t v).toNat) 12

/-- The parities of the stored and of the computed code differ by `d`. -/
def DiffersBy (e f : Ecc) (d : ℕ → Bool → Bool) : Prop :=
  ∀ t < 12, ∀ v, (e.parityBit t v ^^ f.parityBit t v) = d t v

section

variable {e f : Ecc} {d : ℕ → Bool → Bool} (pageData : ℕ → BitVec 8) (h : DiffersBy e f d)
include h

lemma eccDiff_of_differsBy : eccDiff (eccBits e) (eccBits f) = diffBits d := by
  have hxor : ∀ b c : Bool, b.toNat ^^^ c.toNat = (b ^^ c).toNat := by decide
  have heq : eccDiff (eccBits e) (eccBits f) = (range 24).map fun k =>
      (e.parityBit (k / 2) (k % 2 == 1) ^^ f.parityBit (k / 2) (k % 2 == 1)).toNat := by
    rw [eccBits_eq, eccBits_eq]
    simp [eccDiff, range_succ_eq_map, hxor]
  rw [heq]
  apply map_congr_left
  intro k hk
  have hk' := mem_range.mp hk
  rw [h (k / 2) (by omega)]

lemma compare_of_twelve (hsum : (diffBits d).sum = 12)
    (hx : x < 4096) (hodd : ∀ t < 12, d t true = x.testBit t) :
    omapCompareEcc e f pageData = (flipBit pageData x, 1) := by
  have hbit : ∀ k < 24, k % 2 = 1 → (diffBits d).getD k 0 = (x.testBit (k / 2)).toNat := by
    intro k hk hmod
    rw [diffBits, getD_eq_getElem?_getD, getElem?_map, getElem?_range hk, ← hodd _ (by omega)]
    simp [hmod]
  obtain ⟨hbyte, hbits⟩ := find_address hx (fun i => (diffBits d).getD i 0) hbit
  simp only [omapCompareEcc, eccDiff_of_differsBy h, hsum, hbyte, hbits]
  rfl

end

def addressDistance (a b : ℕ) : ℕ := (List.range 12).countP fun t => a.testBit t ^^ b.testBit t

section

variable (buf : ℕ → BitVec 8) {a b : ℕ}

lemma differsBy_one (ha : a < 4096) :
    DiffersBy (gpmcEcc buf) (gpmcEcc (flipBit buf a)) fun t v => a.testBit t == v := by
  intro t ht v
  rw [gpmcEcc_parityBit _ ht, gpmcEcc_parityBit _ ht, addressParity_flipBit buf ha,
    ← Bool.xor_assoc, Bool.xor_self, Bool.false_xor]

lemma differsBy_two (ha : a < 4096) (hb : b < 4096) :
    DiffersBy (gpmcEcc buf) (gpmcEcc (flipBit (flipBit buf a) b)) fun t _ =>
      a.testBit t ^^ b.testBit t := by
  intro t ht v
  rw [gpmcEcc_parityBit _ ht, gpmcEcc_parityBit _ ht, addressParity_flipBit _ hb,
    addressParity_flipBit buf ha]
  have hbool : ∀ x y z v : Bool, (x ^^ ((x ^^ (y == v)) ^^ (z == v))) = (y ^^ z) := by decide
  exact hbool _ _ _ _

lemma compare_one (ha : a < 4096) :
    omapCompareEcc (gpmcEcc buf) (gpmcEcc (flipBit buf a)) (flipBit buf a) = (buf, 1) := by
  have hpair : ∀ t, ((a.testBit t == false).toNat + (a.testBit t == true).toNat) = 1 := by
    intro t
    cases a.testBit t <;> rfl
  have hsum : (diffBits fun t v => a.testBit t == v).sum = 12 := by
    rw [diffBits_sum]
    simp only [hpair]
    rfl
  rw [compare_of_twelve _ (differsBy_one buf ha) hsum ha (fun t _ => by simp), flipBit_flipBit]

lemma sum_two (a b : ℕ) :
    (diffBits fun t _ => a.testBit t ^^ b.testBit t).sum = 2 * addressDistance a b := by
  rw [diffBits_sum, addressDistance]
  induction range 12 with
  | nil => rfl
  | cons t l ih =>
    rw [map_cons, sum_cons, ih, countP_cons]
    cases (a.testBit t ^^ b.testBit t) <;> simp
    omega

lemma addressDistance_pos (ha : a < 4096) (hb : b < 4096) (hne : a ≠ b) :
    0 < addressDistance a b := by
  rw [addressDistance, countP_pos_iff]
  by_contra h
  have hsame : BitVec.ofNat 12 a = BitVec.ofNat 12 b := by
    apply BitVec.eq_of_getLsbD_eq
    intro j hj
    rw [BitVec.getLsbD_ofNat, BitVec.getLsbD_ofNat]
    by_contra hbit
    refine h ⟨j, mem_range.mpr hj, ?_⟩
    revert hbit
    cases a.testBit j <;> cases b.testBit j <;> simp
  have heq := congrArg BitVec.toNat hsame
  rw [BitVec.toNat_ofNat, BitVec.toNat_ofNat, mod_eq_of_lt ha, mod_eq_of_lt hb] at heq
  exact hne heq

lemma addressDistance_le (a b : ℕ) : addressDistance a b ≤ 12 := by
  have hle := countP_le_length (p := fun t => a.testBit t ^^ b.testBit t)
    (l := range 12)
  rwa [length_range] at hle

lemma compare_two (ha : a < 4096) (hb : b < 4096) (hne : a ≠ b) :
    omapCompareEcc (gpmcEcc buf) (gpmcEcc (flipBit (flipBit buf a) b)) (flipBit (flipBit buf a) b) =
      if addressDistance a b = 6 then (flipBit (flipBit (flipBit buf a) b) (a ^^^ b), 1)
      else (flipBit (flipBit buf a) b, if isEccFF (gpmcEcc buf) then 0 else -1) := by
  have hdiff := differsBy_two buf ha hb
  split
  · rename_i hsix
    apply compare_of_twelve _ hdiff (by rw [sum_two, hsix]) (xor_lt_two_pow ha hb (n := 12))
    intro t _
    rw [testBit_xor]
  · rename_i hsix
    have hpos := addressDistance_pos ha hb hne
    have hle := addressDistance_le a b
    have hleft : (eccBits (gpmcEcc (flipBit (flipBit buf a) b))).left = [0, 0, 0] := by
      rw [eccBits_eq]
    have hmod : 2 * addressDistance a b % 2 ^ 8 = 2 * addressDistance a b :=
      Nat.mod_eq_of_lt (by omega)
    simp only [omapCompareEcc, eccDiff_of_differsBy hdiff, sum_two, hmod, hleft, and_true]
    rw [if_neg (by omega), if_neg (by omega), if_neg (by omega), if_neg (by omega)]
    split <;> rfl

end

/-- **One flipped bit is repaired; two are detected, and the data left as they
are, exactly if their addresses do not differ in six bits and the stored code
is not all ones.** -/
theorem omap_ecc_iff (buf : ℕ → BitVec 8) {a : ℕ} (ha : a < 4096) :
    omapCompareEcc (gpmcEcc buf) (gpmcEcc (flipBit buf a)) (flipBit buf a) = (buf, 1) ∧
    ∀ b < 4096, a ≠ b → (omapCompareEcc (gpmcEcc buf) (gpmcEcc (flipBit (flipBit buf a) b))
          (flipBit (flipBit buf a) b) = (flipBit (flipBit buf a) b, -1) ↔
        addressDistance a b ≠ 6 ∧ isEccFF (gpmcEcc buf) = false) := by
  refine ⟨compare_one buf ha, ?_⟩
  intro b hb hne
  rw [compare_two buf ha hb hne]
  by_cases hsix : addressDistance a b = 6
  · rw [if_pos hsix]
    simp [hsix]
  · rw [if_neg hsix]
    cases isEccFF (gpmcEcc buf) <;> simp [hsix]

/-- Two neighbouring bits of a block of zeroes. -/
theorem omap_ecc_neighbours :
    let zeroes : ℕ → BitVec 8 := fun _ => 0
    omapCompareEcc (gpmcEcc zeroes) (gpmcEcc (flipBit (flipBit zeroes 0) 1))
      (flipBit (flipBit zeroes 0) 1) = (flipBit (flipBit zeroes 0) 1, -1) := by
  intro zeroes
  have hparity : ∀ t v, addressParity zeroes t v = false := by
    intro t v
    apply xorBits_eq_false
    intro j _
    simp [dataBit, zeroes]
  have hcode : isEccFF (gpmcEcc zeroes) = false := by
    simp only [gpmcEcc, hparity, ite_self]
    decide
  exact ((omap_ecc_iff zeroes (show 0 < 4096 by norm_num)).2 1 (by norm_num) (by norm_num)).mpr
    ⟨by decide, hcode⟩

/-- Bits 0 and 63 of a block of zeroes: bit 63 is set right, the block is
reported as corrected, and bit 0 stays wrong. -/
theorem omap_ecc_miscorrects :
    let zeroes : ℕ → BitVec 8 := fun _ => 0
    omapCompareEcc (gpmcEcc zeroes) (gpmcEcc (flipBit (flipBit zeroes 0) 63))
      (flipBit (flipBit zeroes 0) 63) = (flipBit zeroes 0, 1) ∧ flipBit zeroes 0 0 = 1 := by
  intro zeroes
  refine ⟨?_, by simp [flipBit, zeroes]⟩
  rw [compare_two zeroes (by norm_num) (by norm_num) (by norm_num), if_pos (by decide)]
  rw [show 0 ^^^ 63 = 63 from rfl, flipBit_flipBit]

end Am335x.Mtd
