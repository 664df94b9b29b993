import Am335xKernel.Lib.CInt
import Am335xKernel.Lib.Tiling
import Am335xKernel.Lib.Refinement
import Am335xKernel.Kernel.Bitmap

/-!
# Area maps of `mm/percpu.c`

A chunk's `map[]` cuts a unit into areas: a positive entry is a free area, a negative one is
allocated, and an area begins behind all in front of it. The used entries are a list, and the
place `i` of a walk is what stands in front of it, the last entry first, with the rest.
`none` stands for a `BUG_ON`, and for an access outside the used entries.

The first chunk of a kernel without static per-cpu variables has an entry 0 in front.

Of a chunk its place in the list `pcpu_slot` and the pages behind it are not modelled.
-/

namespace Am335x.Percpu

/-- `struct pcpu_chunk`; `reserved` says that it is `pcpu_reserved_chunk`. -/
structure PcpuChunk where
  freeSize : ℤ
  contigHint : ℤ
  mapAlloc : ℕ
  map : List ℤ
  slot : ℕ
  reserved : Bool
deriving DecidableEq

def fls (x : ℤ) : ℕ := (CInt.toU32 x).size

/-- `__pcpu_size_to_slot`. -/
def sizeToSlot (size : ℤ) : ℕ := max (fls size + 2 - 5) 1

/-- `pcpu_nr_slots`, where `unit` is `pcpu_unit_size`. -/
def pcpuNrSlots (unit : ℕ) : ℕ := sizeToSlot unit + 2

def pcpuSizeToSlot (unit : ℕ) (size : ℤ) : ℕ :=
  if size = unit then pcpuNrSlots unit - 1 else sizeToSlot size

def pcpuChunkSlot (unit : ℕ) (chunk : PcpuChunk) : ℕ :=
  if CInt.toU32 chunk.freeSize < 4 ∨ CInt.toU32 chunk.contigHint < 4 then 0
  else pcpuSizeToSlot unit chunk.freeSize

def pcpuChunkRelocate (unit : ℕ) (chunk : PcpuChunk) (oslot : ℤ) : PcpuChunk :=
  let nslot := pcpuChunkSlot unit chunk
  if chunk.reserved = false ∧ oslot ≠ nslot then { chunk with slot := nslot } else chunk

/-- `pcpu_need_to_extend`; the loop that doubles `new_alloc`. -/
def doubleAlloc (want newAlloc : ℕ) : ℕ :=
  if newAlloc < want ∧ 0 < newAlloc then doubleAlloc want (newAlloc * 2) else newAlloc
termination_by want - newAlloc

def pcpuNeedToExtend (chunk : PcpuChunk) : ℕ :=
  if chunk.map.length + 2 ≤ chunk.mapAlloc then 0 else doubleAlloc (chunk.map.length + 2) 16

/-- `pcpu_extend_area_map` with the new map allocated. -/
def pcpuExtendAreaMap (chunk : PcpuChunk) (newAlloc : ℕ) : PcpuChunk :=
  if newAlloc ≤ chunk.mapAlloc then chunk else { chunk with mapAlloc := newAlloc }

/-- The walk stands at the entry `cur`. -/
structure Place where
  front : List ℤ
  cur : ℤ
  rest : List ℤ
deriving DecidableEq

def Place.toList (p : Place) : List ℤ := p.front.reverse ++ p.cur :: p.rest

/-- `pcpu_split_block`, that goes on to the target block. -/
def pcpuSplitBlock (mapAlloc : ℕ) (p : Place) (head tail : ℤ) : Option Place :=
  let nrExtra := (if head ≠ 0 then 1 else 0) + (if tail ≠ 0 then 1 else 0)
  if mapAlloc < p.toList.length + nrExtra then none
  else
    let p := if head ≠ 0 then ⟨head :: p.front, CInt.toInt (p.cur - head), p.rest⟩ else p
    some (if tail ≠ 0 then ⟨p.front, CInt.toInt (p.cur - tail), tail :: p.rest⟩ else p)

/-- `ALIGN` of `int`s. -/
def align (x a : ℤ) : ℤ := CInt.toInt (Bitmap.alignMask (CInt.toU32 x) (CInt.toU32 (a - 1)))

/-- What `pcpu_alloc_area` goes on with once it has given a head to the area in front. -/
structure Fit where
  freeSize : ℤ
  place : Place
  off : ℤ
  head : ℤ

def mergeHead (freeSize : ℤ) (p : Place) (off head : ℤ) : Option Fit :=
  if head = 0 then some ⟨freeSize, p, off, head⟩
  else match p.front with
  | [] => none
  | prev :: front =>
    if CInt.toU32 head < 4 ∨ 0 < prev then
      let cur := CInt.toInt (p.cur - head)
      let off := CInt.toInt (off + head)
      if 0 < prev then
        some ⟨freeSize, ⟨CInt.toInt (prev + head) :: front, cur, p.rest⟩, off, 0⟩
      else
        some ⟨CInt.toInt (freeSize - head),
          ⟨CInt.toInt (prev - head) :: front, cur, p.rest⟩, off, 0⟩
    else some ⟨freeSize, p, off, head⟩

def tailOf (fit : Fit) (size : ℤ) : ℤ :=
  let tail := CInt.toInt (fit.place.cur - fit.head - size)
  if CInt.toU32 tail < 4 then 0 else tail

def splitFit (mapAlloc : ℕ) (fit : Fit) (tail : ℤ) : Option Place :=
  if fit.head ≠ 0 ∨ tail ≠ 0 then pcpuSplitBlock mapAlloc fit.place fit.head tail
  else some fit.place

/-- `contig_hint` of a walk that has come to its end, or not. -/
def nextHint (old maxContig : ℤ) (isLast : Bool) : ℤ :=
  if isLast then maxContig else max old maxContig

def takeFit (unit : ℕ) (chunk : PcpuChunk) (size : ℤ) (isLast : Bool) (maxContig : ℤ) (fit : Fit) :
    Option (PcpuChunk × ℤ) :=
  let tail := tailOf fit size
  (splitFit chunk.mapAlloc fit tail).map fun place =>
    let off := if fit.head ≠ 0 then CInt.toInt (fit.off + fit.head) else fit.off
    let maxContig := if fit.head ≠ 0 then max fit.head maxContig else maxContig
    let maxContig := if tail ≠ 0 then max tail maxContig else maxContig
    let chunk' : PcpuChunk :=
      { chunk with
        contigHint := nextHint chunk.contigHint maxContig isLast
        freeSize := CInt.toInt (fit.freeSize - place.cur)
        map := Place.toList ⟨place.front, CInt.toInt (-place.cur), place.rest⟩ }
    (pcpuChunkRelocate unit chunk' (pcpuChunkSlot unit chunk), off)

/-- The rest of `pcpu_alloc_area`, with an entry that is large enough. -/
def takeArea (unit : ℕ) (chunk : PcpuChunk) (size : ℤ) (p : Place) (off head maxContig : ℤ) :
    Option (PcpuChunk × ℤ) :=
  (mergeHead chunk.freeSize p off head).bind
    (takeFit unit chunk size p.rest.isEmpty maxContig)

/-- The loop of `pcpu_alloc_area`. -/
def allocWalk (unit : ℕ) (chunk : PcpuChunk) (size al : ℤ) :
    List ℤ → List ℤ → ℤ → ℤ → Option (PcpuChunk × ℤ)
  | _, [], _, maxContig =>
    some (pcpuChunkRelocate unit { chunk with contigHint := maxContig }
      (pcpuChunkSlot unit chunk), -1)
  | front, cur :: rest, off, maxContig =>
    let head := CInt.toInt (align off al - off)
    let off' := CInt.toInt (off + |cur|)
    if front = [] ∧ head ≠ 0 then none
    else if cur < 0 then allocWalk unit chunk size al (cur :: front) rest off' maxContig
    else if cur < CInt.toInt (head + size) then
      allocWalk unit chunk size al (cur :: front) rest off' (max cur maxContig)
    else takeArea unit chunk size ⟨front, cur, rest⟩ off head maxContig

def pcpuAllocArea (unit : ℕ) (chunk : PcpuChunk) (size al : ℤ) : Option (PcpuChunk × ℤ) :=
  allocWalk unit chunk size al [] chunk.map 0 0

/-- The loop of `pcpu_free_area`. Behind the last used entry there is nothing to free. -/
def freeWalk (freeme : ℤ) : List ℤ → List ℤ → ℤ → Option Place
  | _, [], _ => none
  | front, cur :: rest, off =>
    if off = freeme then some ⟨front, cur, rest⟩
    else freeWalk freeme (cur :: front) rest (CInt.toInt (off + |cur|))

def mergePrev (p : Place) : Place :=
  match p.front with
  | [] => p
  | prev :: front => if 0 ≤ prev then ⟨front, CInt.toInt (prev + p.cur), p.rest⟩ else p

def mergeNext (p : Place) : Place :=
  match p.rest with
  | [] => p
  | next :: rest => if 0 ≤ next then ⟨p.front, CInt.toInt (p.cur + next), rest⟩ else p

def pcpuFreeArea (unit : ℕ) (chunk : PcpuChunk) (freeme : ℤ) : Option PcpuChunk := do
  let p ← freeWalk freeme [] chunk.map 0
  if 0 < p.cur then none
  else
    let cur := CInt.toInt (-p.cur)
    let place := mergeNext (mergePrev ⟨p.front, cur, p.rest⟩)
    let chunk' : PcpuChunk :=
      { chunk with
        freeSize := CInt.toInt (chunk.freeSize + cur)
        map := place.toList
        contigHint := max place.cur chunk.contigHint }
    return pcpuChunkRelocate unit chunk' (pcpuChunkSlot unit chunk)

def pcpuAllocChunk (unit : ℕ) : PcpuChunk := ⟨unit, unit, 16, [(unit : ℤ)], 0, false⟩

/-- A first chunk with an area `covered` that is not given out, and `free` bytes behind it. -/
def firstChunk (covered free : ℕ) (reserved : Bool) : PcpuChunk :=
  ⟨free, free, 128, -(covered : ℤ) :: if free ≠ 0 then [(free : ℤ)] else [], 0, reserved⟩

/-- The chunks of `pcpu_setup_first_chunk`: the static one, and the dynamic one if there is a
reserved area in between. The one that dynamic areas are taken from is put into a slot. -/
def pcpuSetupFirstChunk (unit staticSize reservedSize dynSize : ℕ) :
    PcpuChunk × Option PcpuChunk :=
  if reservedSize ≠ 0 then
    let schunk := firstChunk staticSize reservedSize true
    if dynSize ≠ 0 then
      (schunk, some (pcpuChunkRelocate unit
        (firstChunk (staticSize + reservedSize) dynSize false) (-1)))
    else (pcpuChunkRelocate unit schunk (-1), none)
  else (pcpuChunkRelocate unit (firstChunk staticSize dynSize false) (-1), none)

end Am335x.Percpu
