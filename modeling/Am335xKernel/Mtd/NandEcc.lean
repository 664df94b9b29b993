import Mathlib.Logic.Function.Basic
import Am335xKernel.Lib.XorSum

/-!
# The software ECC of `drivers/mtd/nand/nand_ecc.c`

`__nand_calculate_ecc` computes three bytes of parities of a block of 256 or
512 bytes, and `__nand_correct_data` compares the bytes stored with a block
with those of the block as it was read. The parities come in pairs: for every
bit of the address of a data bit, one over the data bits where it is 0 and one
over those where it is 1.

The loop goes over the block in 32-bit words, sixteen at a time, and keeps only
the even one of each pair `rp4`/`rp5` and up; the odd one follows from the
parity of everything, `par`. The model is for a little-endian machine without
`CONFIG_MTD_NAND_ECC_SMC`.

A buffer is the memory it points to.
-/

namespace Am335x.Mtd

/-- `invparity`: 1 for a byte with an even number of bits. -/
def invparity : List (BitVec 8) :=
  [1,0,0,1,0,1,1,0,0,1,1,0,1,0,0,1, 0,1,1,0,1,0,0,1,1,0,0,1,0,1,1,0,
    0,1,1,0,1,0,0,1,1,0,0,1,0,1,1,0,
    1,0,0,1,0,1,1,0,0,1,1,0,1,0,0,1,
    0,1,1,0,1,0,0,1,1,0,0,1,0,1,1,0,
    1,0,0,1,0,1,1,0,0,1,1,0,1,0,0,1,
    1,0,0,1,0,1,1,0,0,1,1,0,1,0,0,1,
    0,1,1,0,1,0,0,1,1,0,0,1,0,1,1,0,
    0,1,1,0,1,0,0,1,1,0,0,1,0,1,1,0,
    1,0,0,1,0,1,1,0,0,1,1,0,1,0,0,1,
    1,0,0,1,0,1,1,0,0,1,1,0,1,0,0,1,
    0,1,1,0,1,0,0,1,1,0,0,1,0,1,1,0,
    1,0,0,1,0,1,1,0,0,1,1,0,1,0,0,1,
    0,1,1,0,1,0,0,1,1,0,0,1,0,1,1,0,
    0,1,1,0,1,0,0,1,1,0,0,1,0,1,1,0,
    1,0,0,1,0,1,1,0,0,1,1,0,1,0,0,1]

def bitsperbyte : List ℕ :=
  [0,1,1,2,1,2,2,3,1,2,2,3,2,3,3,4, 1,2,2,3,2,3,3,4,2,3,3,4,3,4,4,5,
    1,2,2,3,2,3,3,4,2,3,3,4,3,4,4,5,
    2,3,3,4,3,4,4,5,3,4,4,5,4,5,5,6,
    1,2,2,3,2,3,3,4,2,3,3,4,3,4,4,5,
    2,3,3,4,3,4,4,5,3,4,4,5,4,5,5,6,
    2,3,3,4,3,4,4,5,3,4,4,5,4,5,5,6,
    3,4,4,5,4,5,5,6,4,5,5,6,5,6,6,7,
    1,2,2,3,2,3,3,4,2,3,3,4,3,4,4,5,
    2,3,3,4,3,4,4,5,3,4,4,5,4,5,5,6,
    2,3,3,4,3,4,4,5,3,4,4,5,4,5,5,6,
    3,4,4,5,4,5,5,6,4,5,5,6,5,6,6,7,
    2,3,3,4,3,4,4,5,3,4,4,5,4,5,5,6,
    3,4,4,5,4,5,5,6,4,5,5,6,5,6,6,7,
    3,4,4,5,4,5,5,6,4,5,5,6,5,6,6,7,
    4,5,5,6,5,6,6,7,5,6,6,7,6,7,7,8]

/-- `addressbits`: the odd bits of a byte, moved together. -/
def addressbits : List ℕ :=
  [0,0,1,1,0,0,1,1,2,2,3,3,2,2,3,3, 0,0,1,1,0,0,1,1,2,2,3,3,2,2,3,3,
    4,4,5,5,4,4,5,5,6,6,7,7,6,6,7,7,
    4,4,5,5,4,4,5,5,6,6,7,7,6,6,7,7,
    0,0,1,1,0,0,1,1,2,2,3,3,2,2,3,3,
    0,0,1,1,0,0,1,1,2,2,3,3,2,2,3,3,
    4,4,5,5,4,4,5,5,6,6,7,7,6,6,7,7,
    4,4,5,5,4,4,5,5,6,6,7,7,6,6,7,7,
    8,8,9,9,8,8,9,9,10,10,11,11,10,10,11,11,
    8,8,9,9,8,8,9,9,10,10,11,11,10,10,11,11,
    12,12,13,13,12,12,13,13,14,14,15,15,14,14,15,15,
    12,12,13,13,12,12,13,13,14,14,15,15,14,14,15,15,
    8,8,9,9,8,8,9,9,10,10,11,11,10,10,11,11,
    8,8,9,9,8,8,9,9,10,10,11,11,10,10,11,11,
    12,12,13,13,12,12,13,13,14,14,15,15,14,14,15,15,
    12,12,13,13,12,12,13,13,14,14,15,15,14,14,15,15]

/-- `code[0]` to `code[2]`. -/
structure Ecc where
  code0 : BitVec 8
  code1 : BitVec 8
  code2 : BitVec 8
  deriving DecidableEq

/-- `bp[k]`. -/
def word (buf : ℕ → BitVec 8) (k : ℕ) : BitVec 32 :=
  buf (4 * k + 3) ++ buf (4 * k + 2) ++ buf (4 * k + 1) ++ buf (4 * k)

structure Parities where
  par : BitVec 32
  rp4 : BitVec 32
  rp6 : BitVec 32
  rp8 : BitVec 32
  rp10 : BitVec 32
  rp12 : BitVec 32
  rp14 : BitVec 32
  rp16 : BitVec 32

def Parities.zero : Parities :=
  { par := 0, rp4 := 0, rp6 := 0, rp8 := 0, rp10 := 0, rp12 := 0, rp14 := 0, rp16 := 0 }

/-- One iteration of the loop, on the sixteen words from `bp` on. -/
def Parities.iterate (s : Parities) (eccsizeMult i : ℕ) (bp : ℕ → BitVec 32) : Parities :=
  let cur := bp 0
  let tmppar := cur
  let rp4 := s.rp4 ^^^ cur
  let cur := bp 1
  let tmppar := tmppar ^^^ cur
  let rp6 := s.rp6 ^^^ tmppar
  let cur := bp 2
  let tmppar := tmppar ^^^ cur
  let rp4 := rp4 ^^^ cur
  let cur := bp 3
  let tmppar := tmppar ^^^ cur
  let rp8 := s.rp8 ^^^ tmppar
  let cur := bp 4
  let tmppar := tmppar ^^^ cur
  let rp4 := rp4 ^^^ cur
  let rp6 := rp6 ^^^ cur
  let cur := bp 5
  let tmppar := tmppar ^^^ cur
  let rp6 := rp6 ^^^ cur
  let cur := bp 6
  let tmppar := tmppar ^^^ cur
  let rp4 := rp4 ^^^ cur
  let cur := bp 7
  let tmppar := tmppar ^^^ cur
  let rp10 := s.rp10 ^^^ tmppar
  let cur := bp 8
  let tmppar := tmppar ^^^ cur
  let rp4 := rp4 ^^^ cur
  let rp6 := rp6 ^^^ cur
  let rp8 := rp8 ^^^ cur
  let cur := bp 9
  let tmppar := tmppar ^^^ cur
  let rp6 := rp6 ^^^ cur
  let rp8 := rp8 ^^^ cur
  let cur := bp 10
  let tmppar := tmppar ^^^ cur
  let rp4 := rp4 ^^^ cur
  let rp8 := rp8 ^^^ cur
  let cur := bp 11
  let tmppar := tmppar ^^^ cur
  let rp8 := rp8 ^^^ cur
  let cur := bp 12
  let tmppar := tmppar ^^^ cur
  let rp4 := rp4 ^^^ cur
  let rp6 := rp6 ^^^ cur
  let cur := bp 13
  let tmppar := tmppar ^^^ cur
  let rp6 := rp6 ^^^ cur
  let cur := bp 14
  let tmppar := tmppar ^^^ cur
  let rp4 := rp4 ^^^ cur
  let cur := bp 15
  let tmppar := tmppar ^^^ cur
  { par := s.par ^^^ tmppar
    rp4 := rp4
    rp6 := rp6
    rp8 := rp8
    rp10 := rp10
    rp12 := if i &&& 0x1 = 0 then s.rp12 ^^^ tmppar else s.rp12
    rp14 := if i &&& 0x2 = 0 then s.rp14 ^^^ tmppar else s.rp14
    rp16 := if eccsizeMult = 2 ∧ i &&& 0x4 = 0 then s.rp16 ^^^ tmppar else s.rp16 }

/-- The first `n` iterations. -/
def parities (buf : ℕ → BitVec 8) (eccsizeMult : ℕ) : ℕ → Parities
  | 0 => Parities.zero
  | i + 1 =>
    (parities buf eccsizeMult i).iterate eccsizeMult i fun j => word buf (16 * i + j)

def toByte (x : BitVec 32) : BitVec 32 :=
  let x := x ^^^ x >>> 16
  let x := x ^^^ x >>> 8
  x &&& 0xff

/-- `rp3`, of the upper half of each word. -/
def rp3Of (par : BitVec 32) : BitVec 32 :=
  let rp3 := par >>> 16
  (rp3 ^^^ rp3 >>> 8) &&& 0xff

/-- `rp2`, of the lower half. -/
def rp2Of (par : BitVec 32) : BitVec 32 :=
  let rp2 := par &&& 0xffff
  (rp2 ^^^ rp2 >>> 8) &&& 0xff

/-- `rp1`, of the odd bytes. -/
def rp1Of (par : BitVec 32) : BitVec 32 :=
  let par := par ^^^ par >>> 16
  (par >>> 8) &&& 0xff

/-- `rp0`, of the even bytes. -/
def rp0Of (par : BitVec 32) : BitVec 32 :=
  let par := par ^^^ par >>> 16
  par &&& 0xff

/-- `invparity[x]`. -/
def invparityAt (x : BitVec 32) : BitVec 8 := invparity.getD x.toNat 0

/-- `__nand_calculate_ecc`, after the loop. -/
def Parities.ecc (s : Parities) (eccsizeMult : ℕ) : Ecc :=
  let rp4 := toByte s.rp4
  let rp6 := toByte s.rp6
  let rp8 := toByte s.rp8
  let rp10 := toByte s.rp10
  let rp12 := toByte s.rp12
  let rp14 := toByte s.rp14
  let rp16 := toByte s.rp16
  let rp3 := rp3Of s.par
  let rp2 := rp2Of s.par
  let rp1 := rp1Of s.par
  let rp0 := rp0Of s.par
  let par := toByte s.par
  let rp5 := (par ^^^ rp4) &&& 0xff
  let rp7 := (par ^^^ rp6) &&& 0xff
  let rp9 := (par ^^^ rp8) &&& 0xff
  let rp11 := (par ^^^ rp10) &&& 0xff
  let rp13 := (par ^^^ rp12) &&& 0xff
  let rp15 := (par ^^^ rp14) &&& 0xff
  let rp17 := (par ^^^ rp16) &&& 0xff
  { code1 :=
      invparityAt rp7 <<< 7 ||| invparityAt rp6 <<< 6 ||| invparityAt rp5 <<< 5 |||
        invparityAt rp4 <<< 4 ||| invparityAt rp3 <<< 3 ||| invparityAt rp2 <<< 2 |||
        invparityAt rp1 <<< 1 ||| invparityAt rp0
    code0 :=
      invparityAt rp15 <<< 7 ||| invparityAt rp14 <<< 6 ||| invparityAt rp13 <<< 5 |||
        invparityAt rp12 <<< 4 ||| invparityAt rp11 <<< 3 ||| invparityAt rp10 <<< 2 |||
        invparityAt rp9 <<< 1 ||| invparityAt rp8
    code2 :=
      let cp :=
        invparityAt (par &&& 0xf0) <<< 7 ||| invparityAt (par &&& 0x0f) <<< 6 |||
          invparityAt (par &&& 0xcc) <<< 5 ||| invparityAt (par &&& 0x33) <<< 4 |||
          invparityAt (par &&& 0xaa) <<< 3 ||| invparityAt (par &&& 0x55) <<< 2
      -- `rp16` and `rp17` are not computed for 256 bytes
      if eccsizeMult = 1 then cp ||| 3
      else cp ||| invparityAt rp17 <<< 1 ||| invparityAt rp16 <<< 0 }

def nandCalculateEcc (buf : ℕ → BitVec 8) (eccsize : ℕ) : Ecc :=
  let eccsizeMult := eccsize >>> 8
  (parities buf eccsizeMult (eccsizeMult <<< 2)).ecc eccsizeMult

def pairsSplit (b mask : BitVec 8) : Bool := (b ^^^ b >>> 1) &&& mask = mask

def bitsperbyteAt (b : BitVec 8) : ℕ := bitsperbyte.getD b.toNat 0

def addressbitsAt (b : BitVec 8) : ℕ := addressbits.getD b.toNat 0

/-- `__nand_correct_data`, once the stored and the calculated code are
compared. -/
def correctBits (buf : ℕ → BitVec 8) (b0 b1 b2 : BitVec 8) (eccsizeMult : ℕ) :
    (ℕ → BitVec 8) × ℤ :=
  if b0 ||| b1 ||| b2 = 0 then (buf, 0)
  else if pairsSplit b0 0x55 ∧ pairsSplit b1 0x55 ∧
      (eccsizeMult = 1 ∧ pairsSplit b2 0x54 ∨ eccsizeMult = 2 ∧ pairsSplit b2 0x55) then
    let byteAddr :=
      if eccsizeMult = 1 then addressbitsAt b1 <<< 4 + addressbitsAt b0
      else addressbitsAt (b2 &&& 0x3) <<< 8 + addressbitsAt b1 <<< 4 + addressbitsAt b0
    let bitAddr := addressbitsAt (b2 >>> 2)
    (Function.update buf byteAddr (buf byteAddr ^^^ 1#8 <<< bitAddr), 1)
  else if bitsperbyteAt b0 + bitsperbyteAt b1 + bitsperbyteAt b2 = 1 then (buf, 1)
  else (buf, -1)

def nandCorrectData (buf : ℕ → BitVec 8) (readEcc calcEcc : Ecc) (eccsize : ℕ) :
    (ℕ → BitVec 8) × ℤ :=
  let eccsizeMult := eccsize >>> 8
  let b0 := readEcc.code1 ^^^ calcEcc.code1
  let b1 := readEcc.code0 ^^^ calcEcc.code0
  let b2 := readEcc.code2 ^^^ calcEcc.code2
  correctBits buf b0 b1 b2 eccsizeMult

end Am335x.Mtd
