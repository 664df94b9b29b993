import Am335xKernel.Lib.Refinement
import Am335xKernel.Kernel.Idr

/-!
# Ids without pointers: `struct ida`

An ida is an idr of bitmaps, each for `IDA_BITMAP_BITS` ids. A bit of a layer is set only
when the bitmap in that slot has no zero left. `ida_remove` clears the bits of the layers on
its way down, and takes a bitmap that has become empty out with `idr_remove`, for which it
sets the bit again.
-/

namespace Am335x.Ids

open Function

/-- `IDA_BITMAP_BITS`: a chunk of 128 bytes, without the word for `nr_busy`. -/
abbrev idaBitmapBits : ℕ := (128 / 4 - 1) * 4 * 8

structure IdaBitmap where
  nrBusy : ℤ
  bitmap : Bitmap

def IdaBitmap.zero : IdaBitmap := { nrBusy := 0, bitmap := fun _ => false }

/-- `struct ida`. A bitmap that is kept for later is zeroed before it is used. -/
structure Ida where
  idr : Idr IdaBitmap
  freeBitmap : Bool

/-- `ida_init`. -/
def Ida.init : Ida := { idr := Idr.init, freeBitmap := false }

/-- `ida_pre_get`, with memory for `mem` layers, and for a bitmap or not. -/
def Ida.preGet (ida : Ida) (mem : ℕ) (memBitmap : Bool) : Ida × ℤ :=
  let r := ida.idr.preGet mem
  if r.2 = 0 then ({ ida with idr := r.1 }, 0)
  else if ida.freeBitmap then ({ ida with idr := r.1 }, 1)
  else if memBitmap then ({ idr := r.1, freeBitmap := true }, 1)
  else ({ ida with idr := r.1 }, 0)

/-- In `ida_get_new_above`: the bitmap of a slot, a new one if there is none. With the layer
that holds it, and whether there is still a bitmap left for later. -/
def Ida.bitmapAt (p : Layer (Ptr IdaBitmap)) (n : ℕ) (freeBitmap : Bool) :
    Option (Option (Layer (Ptr IdaBitmap) × IdaBitmap × Bool)) :=
  match p.ary n with
  | .item b => some (some (p, b, freeBitmap))
  | .null =>
    if freeBitmap then some (some (p.install n (.item .zero), .zero, false)) else some none
  | .layer _ => none

/-- In `ida_get_new_above`: the bit of an id is set, and what has become full is marked. -/
def Ida.take (p : Layer (Ptr IdaBitmap)) (path : List (Frame IdaBitmap)) (idrId t : ℕ)
    (b : IdaBitmap) : Layer (Ptr IdaBitmap) :=
  let b : IdaBitmap := { nrBusy := b.nrBusy + 1, bitmap := update b.bitmap t true }
  let p := { p with ary := update p.ary (idrId &&& (idrSize - 1)) (.item b) }
  if b.nrBusy = idaBitmapBits then markFull idrId p path else rebuild p path

/-- `ida_get_new_above` from `restart` on; the first argument bounds the number of these. -/
def Ida.newLoop : ℕ → Ida → ℕ → ℕ → Option (Ida × (ℤ ⊕ ℕ))
  | 0, _, _, _ => none
  | fuel + 1, ida, idrId, offset =>
    match getEmptySlot (maxLevel + 1) ida.idr idrId with
    | none => none
    | some (idr, .failed errno) => some ({ ida with idr := idr }, .inl errno)
    | some (idr, .found t p path) =>
      if maxIdBit ≤ t * idaBitmapBits % 2 ^ 32 then some ({ ida with idr := idr }, .inl enospc)
      else
        let offset := if t ≠ idrId then 0 else offset
        match bitmapAt p (t &&& (idrSize - 1)) ida.freeBitmap with
        | none => none
        | some none => some ({ ida with idr := idr }, .inl eagain)
        | some (some (p, b, freeBitmap)) =>
          let bit := b.bitmap.findNextZeroBit idaBitmapBits offset
          let idr := { idr with top := .layer (rebuild p path) }
          if bit = idaBitmapBits then
            -- no empty slot after offset, continue to the next chunk
            newLoop fuel { idr := idr, freeBitmap := freeBitmap } (t + 1) 0
          else
            let id := (t * idaBitmapBits + bit) % 2 ^ 32
            if maxIdBit ≤ id then
              some ({ idr := idr, freeBitmap := freeBitmap }, .inl enospc)
            else
              -- extra resources are thrown away one by one
              let idFree :=
                if idr.idFree.length ≠ 0 ∨ freeBitmap then idr.idFree.tail else idr.idFree
              some ({ idr := { idr with top := .layer (take p path t bit b), idFree := idFree }
                      freeBitmap := freeBitmap }, .inr id)

/-- `ida_get_new_above`: an id, or an error. The chunk after the one that `starting_id` is
in is searched from its first bit on, so there is at most one `restart`. -/
def Ida.getNewAbove (ida : Ida) (startingId : ℕ) : Option (Ida × (ℤ ⊕ ℕ)) :=
  newLoop 2 ida (startingId / idaBitmapBits) (startingId % idaBitmapBits)

/-- How `ida_remove` has left the bitmap. -/
inductive Cleared where
  | busy
  | empty
  | notAllocated
  deriving DecidableEq

/-- `ida_remove` at the lowest layer, in which the bit of the slot is cleared already. -/
def Ida.clearBit (p : Layer (Ptr IdaBitmap)) (n offset : ℕ) :
    Option (Layer (Ptr IdaBitmap) × Cleared) :=
  match p.ary n with
  | .item b =>
    if b.bitmap offset then
      let b : IdaBitmap := { nrBusy := b.nrBusy - 1, bitmap := update b.bitmap offset false }
      let p := { p with ary := update p.ary n (.item b) }
      if b.nrBusy = 0 then
        -- to please idr_remove()
        some ({ p with bitmap := update p.bitmap n true }, .empty)
      else some (p, .busy)
    else some (p, .notAllocated)
  | _ => none

/-- The way down in `ida_remove`, with `h` layers below. -/
def Ida.clearDown (idrId offset : ℕ) : ℕ → Ptr IdaBitmap → Option (Ptr IdaBitmap × Cleared)
  | _, .null => some (.null, .notAllocated)
  | 0, .layer p =>
    let n := idrId &&& (idrSize - 1)
    let p := { p with bitmap := update p.bitmap n false }
    (clearBit p n offset).map fun r => (.layer r.1, r.2)
  | h + 1, .layer p =>
    let n := DigitPath.digit idrBits (h + 1) idrId
    let p := { p with bitmap := update p.bitmap n false }
    (clearDown idrId offset h (p.ary n)).map fun r =>
      (.layer { p with ary := update p.ary n r.1 }, r.2)
  | _, .item _ => none

/-- `ida_remove`. -/
def Ida.remove (ida : Ida) (id : ℕ) : Option Ida := do
  let idrId := id / idaBitmapBits
  let (top, r) ← clearDown idrId (id % idaBitmapBits) (ida.idr.layers - 1) ida.idr.top
  let idr := { ida.idr with top := top }
  if r = .empty then
    let idr ← idr.remove idrId
    return { idr := idr, freeBitmap := true }
  else return { ida with idr := idr }

inductive IdaCall where
  | preGet (mem : ℕ) (memBitmap : Bool)
  | getNewAbove (startingId : ℕ)
  | remove (id : ℕ)

inductive IdaReply where
  | errno (e : ℤ)
  | id (k : ℕ)
  deriving DecidableEq

def Ida.call : Component Ida IdaCall IdaReply
  | ida, .preGet mem memBitmap =>
    some ((ida.preGet mem memBitmap).1, .errno (ida.preGet mem memBitmap).2)
  | ida, .getNewAbove startingId =>
    (ida.getNewAbove startingId).map fun r => (r.1, r.2.elim .errno .id)
  | ida, .remove id => (ida.remove id).map fun ida' => (ida', .errno 0)

end Am335x.Ids
