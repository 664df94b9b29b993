import Mathlib.Algebra.Order.Ring.Nat
import Mathlib.Order.Interval.Set.LinearOrder

/-!
# Logical memory blocks

`mm/memblock.c` keeps two arrays of regions, the memory of the machine and what of
it is reserved. An array is sorted by base; a range that is added is merged with the
regions it meets or touches, a range that is removed is cut out. An array that has
become full is doubled, and before the slab allocator is up its new place comes out
of the same arrays, by the functions that `memblock_double_array` is called from.

The regions of an array are a list here, whose length is `cnt`. `phys_addr_t` has 32
bits. `memblock_memory_can_coalesce` is the weak definition, which always agrees. The
functions that add and remove take the function that doubles as an argument
(`addRegionWith`, `memblockRemoveWith`); `doubleArray` ties the knot to a given depth.
-/

namespace Am335x.Memblock

/-- Sums and differences of type `phys_addr_t`. -/
def add32 (a b : ℕ) : ℕ := (a + b) % 2 ^ 32

def sub32 (a b : ℕ) : ℕ := (a + (2 ^ 32 - b)) % 2 ^ 32

structure Region where
  base : ℕ
  size : ℕ
deriving DecidableEq

/-- `rgn->base + rgn->size`. -/
def Region.rend (r : Region) : ℕ := add32 r.base r.size

def filler : Region := ⟨0, 0⟩

structure MemblockType where
  regions : List Region
  max     : ℕ
  /-- The physical address of the array, `none` for the initial one. -/
  array   : Option ℕ
deriving DecidableEq

/-- `memblock.memory` and `memblock.reserved`. -/
inductive Kind where
  | memory
  | reserved
deriving DecidableEq

structure State where
  type         : Kind → MemblockType
  currentLimit : ℕ
  /-- `memblock_can_resize`. -/
  canResize    : Bool
  /-- `slab_is_available()`. -/
  slab         : Bool

def State.setType (s : State) (k : Kind) (t : MemblockType) : State :=
  { s with type := Function.update s.type k t }

def State.setRegions (s : State) (k : Kind) (l : List Region) : State :=
  s.setType k { s.type k with regions := l }

def memblockRemoveRegion (l : List Region) (r : ℕ) : List Region :=
  match l.eraseIdx r with
  | [] => [filler]
  | l' => l'

/-- How the first loop of `memblock_add_region` is left. -/
inductive Coalesced where
  /-- The range is part of a region of the array: return 0. -/
  | covered (l : List Region)
  /-- The range that is left to put in, together with what it has swallowed. -/
  | rest (l : List Region) (base size : ℕ)
deriving DecidableEq

/-- The first loop of `memblock_add_region`, at the first region behind `pre`. -/
def coalesce (fin : ℕ) : ℕ → ℕ → List Region → List Region → Coalesced
  | base, size, pre, [] => .rest pre base size
  | base, size, pre, rgn :: suf =>
    -- no possible hits
    if fin < rgn.base ∨ rgn.size = 0 then .rest (pre ++ rgn :: suf) base size
    -- fully enclosed within an existing block
    else if rgn.base ≤ base ∧ fin ≤ rgn.rend then .covered (pre ++ rgn :: suf)
    -- the bottom of the block is extended down to our base
    else if base < rgn.base ∧ rgn.base ≤ fin ∧ fin ≤ rgn.rend then
      .covered (pre ++ ⟨base, sub32 rgn.rend base⟩ :: suf)
    else
      let low := base < rgn.base ∧ rgn.base ≤ fin
      let rgn' : Region := if low then ⟨base, sub32 rgn.rend base⟩ else rgn
      let size' := if low then sub32 fin rgn.rend else size
      let base' := if low then rgn.rend else base
      -- at the top of the block it becomes part of the new one
      if base' ≤ rgn.rend ∧ rgn.rend ≤ fin then
        let size'' := add32 size' (sub32 base' rgn'.base)
        -- an array without other regions gets the filler, which ends the loop
        if pre = [] ∧ suf = [] then .rest [filler] rgn'.base size''
        else coalesce fin rgn'.base size'' pre suf
      else coalesce fin base' size' (pre ++ [rgn']) suf

/-- Where the second loop of `memblock_add_region` stops: behind the last region that
does not begin after `base`. -/
def slotOf (base : ℕ) (l : List Region) : ℕ :=
  l.length - (l.reverse.takeWhile fun r => base < r.base).length

/-- The second loop of `memblock_add_region`: the array with the new region, and its
slot. -/
def insertRegion (r : Region) (l : List Region) : List Region × ℕ :=
  match l with
  | [] => ([r], 0)
  | first :: _ =>
    let k := slotOf r.base l
    let shifted := l.take k ++ (if k = 0 then first else r) :: l.drop k
    if r.base < first.base then (shifted.set 0 r, 0) else (shifted, k)

/-- How the loop of `__memblock_remove` is left. -/
inductive Removed where
  | done (l : List Region)
  /-- The range lies within `rgn`. -/
  | split (pre : List Region) (rgn : Region) (suf : List Region)
deriving DecidableEq

/-- The loop of `__memblock_remove`, at the first region behind `pre`. -/
def removeLoop (base fin : ℕ) : List Region → List Region → Removed
  | pre, [] => .done pre
  | pre, rgn :: suf =>
    if fin < rgn.base ∨ rgn.size = 0 then .done (pre ++ rgn :: suf)
    -- we fully enclose the block
    else if base ≤ rgn.base ∧ rgn.rend ≤ fin then
      if pre = [] ∧ suf = [] then .done [filler] else removeLoop base fin pre suf
    -- we are fully enclosed within a block
    else if rgn.base < base ∧ fin < rgn.rend then .split pre rgn suf
    -- the bottom of a block
    else if rgn.base < fin ∧ fin < rgn.rend then
      .done (pre ++ ⟨fin, sub32 rgn.size (sub32 fin rgn.base)⟩ :: suf)
    -- the top of a block
    else if base < rgn.rend then
      removeLoop base fin (pre ++ [⟨rgn.base, sub32 rgn.size (sub32 rgn.rend base)⟩]) suf
    else removeLoop base fin (pre ++ [rgn]) suf

inductive Grown where
  | ok (s : State)
  | fail
  | bug
  /-- Arrays are doubled within doublings more often than the depth allows. -/
  | deep

/-- What a call comes to: 0, -1 or a `BUG`. -/
inductive Result where
  | ok (s : State)
  | error (s : State)
  | bug
  | deep

/-- `memblock_add_region` after it has asked for a doubling; `s` is the state with the
region taken out again. -/
def afterGrow (s : State) : Grown → Result
  | .ok s' => .ok s'
  | .fail => .error s
  | .bug => .bug
  | .deep => .deep

section

variable (grow : Kind → State → Grown)

/-- `new_block:` of `memblock_add_region`. -/
def newBlock (k : Kind) (r : Region) (l : List Region) (s : State) : Result :=
  if (s.type k).max ≤ l.length then .error (s.setRegions k l)
  else
    let ins := insertRegion r l
    let s' := s.setRegions k ins.1
    if ins.1.length = (s.type k).max then
      afterGrow (s.setRegions k (memblockRemoveRegion ins.1 ins.2)) (grow k s')
    else .ok s'

def addRegionWith (k : Kind) (base size : ℕ) (s : State) : Result :=
  match coalesce (add32 base size) base size [] (s.type k).regions with
  | .covered l => .ok (s.setRegions k l)
  | .rest l base size =>
    -- only the filler is there
    if l.map Region.size = [0] then .ok (s.setRegions k [⟨base, size⟩])
    else newBlock grow k ⟨base, size⟩ l s

/-- `__memblock_remove`. -/
def memblockRemoveWith (k : Kind) (base size : ℕ) (s : State) : Result :=
  let fin := add32 base size
  match removeLoop base fin [] (s.type k).regions with
  | .done l => .ok (s.setRegions k l)
  | .split pre rgn suf =>
    let s' := s.setRegions k (pre ++ ⟨rgn.base, sub32 base rgn.base⟩ :: suf)
    match addRegionWith grow k fin (sub32 rgn.rend fin) s' with
    | .error s'' =>
      -- we at least restore the block before erroring
      .error (s''.setRegions k ((s''.type k).regions.modify pre.length fun r =>
        { r with size := sub32 rgn.rend r.base }))
    | r => r

end

/-- `memblock_overlaps_region`: the first region of the array that a range meets. -/
def memblockOverlapsRegion (l : List Region) (base size : ℕ) : Option Region :=
  l.find? fun r => base < r.rend ∧ r.base < add32 base size

def memblockAlignDown (addr size : ℕ) : ℕ := addr &&& (2 ^ 32 - size)

/-- The loop of `memblock_find_region`. It ends because the base moves down each time
(`findLoop_highest`). -/
def findLoop (reserved : List Region) (start size align base : ℕ) : Option ℕ :=
  if start ≤ base then
    match memblockOverlapsRegion reserved base size with
    | none => some base
    | some res =>
      if res.base < size then none
      else if _h : memblockAlignDown (res.base - size) align < base then
        findLoop reserved start size align (memblockAlignDown (res.base - size) align)
      else none
  else none
termination_by base

def memblockFindRegion (reserved : List Region) (start fin size align : ℕ) : Option ℕ :=
  if fin < size then none
  else findLoop reserved (if start = 0 then 4096 else start) size align
    (memblockAlignDown (fin - size) align)

/-- `memblock_find_base` from the region of memory that comes first in the list, which has the last
region of the array first. -/
def findBaseFrom (reserved : List Region) (start fin size align : ℕ) : List Region → Option ℕ
  | [] => none
  | rgn :: rest =>
    if rgn.size < size then findBaseFrom reserved start fin size align rest
    else if rgn.rend ≤ start then none
    else if min rgn.rend fin ≤ max rgn.base start then
      findBaseFrom reserved start fin size align rest
    else
      match memblockFindRegion reserved (max rgn.base start) (min rgn.rend fin) size align with
      | some found => some found
      | none => findBaseFrom reserved start fin size align rest

/-- `memblock_find_base`; an `end` of 0 is `MEMBLOCK_ALLOC_ACCESSIBLE`. -/
def memblockFindBase (s : State) (size align start fin : ℕ) : Option ℕ :=
  findBaseFrom (s.type .reserved).regions start (if fin = 0 then s.currentLimit else fin) size align
    (s.type .memory).regions.reverse

/-- `type->max * sizeof(struct memblock_region)`. -/
def MemblockType.bytes (t : MemblockType) : ℕ := (t.max * 8) % 2 ^ 32

/-- The last part of `memblock_double_array`, where the new place is reserved and the
old one freed. `memblock_free` may fail, which is ignored. -/
def moveArray (grow : Kind → State → Grown) (addr newSize : ℕ) (old : MemblockType)
    (s : State) : Grown :=
  match addRegionWith grow .reserved addr newSize s with
  | .ok s' =>
    match old.array with
    | none => .ok s'
    | some a =>
      match memblockRemoveWith grow .reserved a old.bytes s' with
      | .ok s'' => .ok s''
      | .error s'' => .ok s''
      | .bug => .bug
      | .deep => .deep
  | .error _ => .bug
  | .bug => .bug
  | .deep => .deep

/-- `memblock_double_array`. An array of 2^28 regions is doubled to one of no bytes:
`memblock_find_base` has a `BUG_ON` for that, and the pointer that `kmalloc` gives
faults in `memcpy`. -/
def doubleArrayWith (grow : Kind → State → Grown) (kmalloc : ℕ → Option ℕ) (k : Kind)
    (s : State) : Grown :=
  let old := s.type k
  let newSize := (old.bytes * 2) % 2 ^ 32
  if s.canResize = false then .fail
  else if newSize = 0 then .bug
  else
    match (if s.slab then kmalloc newSize else memblockFindBase s newSize 4 0 0) with
    | none => .fail
    | some addr =>
      let s' := s.setType k ⟨old.regions, (old.max * 2) % 2 ^ 32, some addr⟩
      if s.slab then .ok s' else moveArray grow addr newSize old s'

def doubleArray (kmalloc : ℕ → Option ℕ) : ℕ → Kind → State → Grown
  | 0 => fun _ _ => .deep
  | depth + 1 => doubleArrayWith (doubleArray kmalloc depth) kmalloc

def grow (kmalloc : ℕ → Option ℕ) : Kind → State → Grown := doubleArray kmalloc 2

def memblockAdd (kmalloc : ℕ → Option ℕ) (base size : ℕ) (s : State) : Result :=
  addRegionWith (grow kmalloc) .memory base size s

def memblockRemove (kmalloc : ℕ → Option ℕ) (base size : ℕ) (s : State) : Result :=
  memblockRemoveWith (grow kmalloc) .memory base size s

def memblockFree (kmalloc : ℕ → Option ℕ) (base size : ℕ) (s : State) : Result :=
  memblockRemoveWith (grow kmalloc) .reserved base size s

def memblockReserve (kmalloc : ℕ → Option ℕ) (base size : ℕ) (s : State) : Result :=
  if size = 0 then .bug else addRegionWith (grow kmalloc) .reserved base size s

def memblockInit (currentLimit : ℕ) : State where
  type _ := ⟨[filler], 128, none⟩
  currentLimit := currentLimit
  canResize := false
  slab := false

end Am335x.Memblock
