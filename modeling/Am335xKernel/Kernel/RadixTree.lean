import Am335xKernel.Kernel.Interface
import Am335xKernel.Lib.DigitPath

/-!
# The radix tree of `lib/radix-tree.c`

A tree of height `h` has `h` levels of nodes with 64 slots each; the slots of the
lowest level hold the items. Height 0 is a single item in the root, for index 0.
For each of three tags a node has a bit per slot, and the root has one bit.

A pointer is what it points to. `none` as the result of an operation says that it
has hit a `BUG_ON`, or has followed a pointer that is not what it was taken for.
The pointer in the root carries a bit that tells a node from an item (`indirect`).

Nodes come from a slab cache of zeroed objects, so that a node has to be zeroed
when it is given back: `zeroed` remembers whether all of them were. Allocation
succeeds.
-/

namespace Am335x.RadixTree

open Function

/-- `RADIX_TREE_MAP_SHIFT`. -/
abbrev mapShift : ℕ := 6

/-- `RADIX_TREE_MAP_SIZE`. -/
abbrev mapSize : ℕ := 2 ^ mapShift

/-- A tag is less than `RADIX_TREE_MAX_TAGS`. -/
abbrev Tag := Fin 3

scoped instance tag_neZero : NeZero 3 := ⟨by decide⟩

/-- `RADIX_TREE_MAX_PATH`. -/
abbrev maxPath : ℕ := 6

inductive Ptr (α : Type*) where
  | null
  | item (a : α)
  | node (height count : ℕ) (slots : ℕ → Ptr α) (tags : Tag → ℕ → Bool)

/-- `struct radix_tree_root`; the tags are bits of `gfp_mask`. -/
structure Root (α : Type*) where
  height : ℕ
  tags : Tag → Bool
  rnode : Ptr α
  indirect : Bool
  zeroed : Bool

variable {α : Type*}

/-- `INIT_RADIX_TREE`. -/
def Root.init : Root α :=
  { height := 0, tags := fun _ => false, rnode := .null, indirect := false, zeroed := true }

namespace Ptr

def isNull : Ptr α → Bool
  | null => true
  | _ => false

/-- `radix_tree_node_alloc`, of a cache whose objects are zeroed. -/
def alloc (zeroed : Bool) (height : ℕ) : Option (Ptr α) :=
  if zeroed then some (node height 0 (fun _ => null) (fun _ _ => false)) else none

/-- A node is zeroed after `radix_tree_node_rcu_free` has cleared its first slot
and its count. -/
def freeZeroed (slots : ℕ → Ptr α) (tags : Tag → ℕ → Bool) : Bool :=
  (List.range mapSize).all fun i =>
    i = 0 || (slots i).isNull && (List.finRange 3).all fun tag => !tags tag i

end Ptr

/-- `radix_tree_maxindex`, that is `height_to_maxindex`. -/
def maxindex (height : ℕ) : ℕ :=
  if 32 ≤ height * mapShift then 2 ^ 32 - 1 else 2 ^ (height * mapShift) - 1

/-- The slot for an index in a node with `h` levels below it:
`(index >> shift) & RADIX_TREE_MAP_MASK`. -/
abbrev offset (h index : ℕ) : ℕ := DigitPath.digit mapShift h index

/-- `__set_bit` and `__clear_bit` on the tags of a node. -/
def writeTag (tags : Tag → ℕ → Bool) (tag : Tag) (off : ℕ) (b : Bool) : Tag → ℕ → Bool :=
  update tags tag (update (tags tag) off b)

def anyTagSet (tags : Tag → ℕ → Bool) (tag : Tag) : Bool := (List.range mapSize).any (tags tag)

/-- The height that `radix_tree_extend` looks for, from `height` on. -/
def heightFor (index : ℕ) : ℕ → ℕ → ℕ
  | 0, height => height
  | fuel + 1, height =>
    if maxindex height < index then heightFor index fuel (height + 1) else height

/-- A pass of the loop of `radix_tree_extend`: a new root node above the tree. -/
def Root.grow (root : Root α) : Option (Root α) :=
  match Ptr.alloc root.zeroed (root.height + 1) with
  | some (.node height _ slots tags) =>
    some
      { root with
        rnode := .node height 1 (update slots 0 root.rnode) fun tag i =>
          if i = 0 ∧ root.tags tag then true else tags tag i
        indirect := true
        height := root.height + 1 }
  | _ => none

def Root.growTo : ℕ → Root α → Option (Root α)
  | 0, root => some root
  | n + 1, root => root.grow.bind (growTo n)

/-- `radix_tree_extend`. -/
def Root.extend (root : Root α) (index : ℕ) : Option (Root α) :=
  let height := heightFor index maxPath (root.height + 1)
  if root.rnode.isNull then some { root with height := height }
  else root.growTo (height - root.height)

/-- The loop of `radix_tree_insert` with `height` levels left, and what is done
with the slot it ends at. A count grows where an empty slot is filled. -/
def insertLoop (zeroed : Bool) (index : ℕ) (a : α) : ℕ → Ptr α → Option (Ptr α × ℤ)
  | 0, .null => some (.item a, 0)
  | 0, slot => some (slot, eexist)
  | h + 1, slot =>
    match if slot.isNull then Ptr.alloc zeroed (h + 1) else some slot with
    | some (.node height count slots tags) =>
      let off := offset h index
      match insertLoop zeroed index a h (slots off) with
      | some (child, err) =>
        -- the two BUG_ONs, at the slot of the item
        if h = 0 ∧ err = 0 ∧ (tags 0 off || tags 1 off) then none
        else
          some (.node height (if (slots off).isNull then count + 1 else count)
            (update slots off child) tags, err)
      | none => none
    | _ => none

/-- `radix_tree_insert`. -/
def Root.insert (root : Root α) (index : ℕ) (a : α) : Option (Root α × ℤ) :=
  match if maxindex root.height < index then root.extend index else some root with
  | some root =>
    match insertLoop root.zeroed index a root.height root.rnode with
    | some (rnode, err) =>
      if root.height = 0 ∧ err = 0 ∧ (root.tags 0 || root.tags 1) then none
      else
        some
          ({ root with
            rnode := rnode
            indirect := if root.rnode.isNull then 0 < root.height else root.indirect }, err)
    | none => none
  | none => none

/-- The loop of `radix_tree_lookup_element`. -/
def lookupLoop (index : ℕ) : ℕ → Ptr α → Option (Option α)
  | 0, .item a => some (some a)
  | h + 1, .node _ _ slots _ =>
    if (slots (offset h index)).isNull then some none
    else lookupLoop index h (slots (offset h index))
  | _, _ => none

/-- `radix_tree_lookup`. -/
def Root.lookup (root : Root α) (index : ℕ) : Option (Option α) :=
  match root.rnode with
  | .null => some none
  | .item a => if root.indirect then none else if 0 < index then some none else some (some a)
  | .node height count slots tags =>
    if !root.indirect then none
    else if maxindex height < index then some none
    else lookupLoop index height (.node height count slots tags)

/-- The loop of `radix_tree_tag_set`, with the slot it ends at. -/
def tagSetLoop (tag : Tag) (index : ℕ) : ℕ → Ptr α → Option (Ptr α × Ptr α)
  | 0, slot => some (slot, slot)
  | h + 1, .node height count slots tags =>
    let off := offset h index
    if (slots off).isNull then none
    else
      match tagSetLoop tag index h (slots off) with
      | some (child, slot) =>
        some (.node height count (update slots off child)
          (if !tags tag off then writeTag tags tag off true else tags), slot)
      | none => none
  | _ + 1, _ => none

/-- `radix_tree_tag_set`. -/
def Root.tagSet (root : Root α) (index : ℕ) (tag : Tag) : Option (Root α × Ptr α) :=
  if maxindex root.height < index then none
  else
    match tagSetLoop tag index root.height root.rnode with
    | some (rnode, slot) =>
      some
        ({ root with
          rnode := rnode
          tags := if slot.isNull then root.tags else update root.tags tag true }, slot)
    | none => none

/-- The two loops of `radix_tree_tag_clear`: the way down, and back up as long as
the third component says. The second is the slot at the end. -/
def tagClearLoop (tag : Tag) (index : ℕ) : ℕ → Ptr α → Option (Ptr α × Ptr α × Bool)
  | 0, slot => some (slot, slot, !slot.isNull)
  | _ + 1, .null => some (.null, .null, false)
  | h + 1, .node height count slots tags =>
    let off := offset h index
    match tagClearLoop tag index h (slots off) with
    | some (child, slot, up) =>
      let slots := update slots off child
      if !up || !tags tag off then some (.node height count slots tags, slot, false)
      else
        let tags := writeTag tags tag off false
        some (.node height count slots tags, slot, !anyTagSet tags tag)
    | none => none
  | _ + 1, .item _ => none

/-- `radix_tree_tag_clear`. -/
def Root.tagClear (root : Root α) (index : ℕ) (tag : Tag) : Option (Root α × Ptr α) :=
  if maxindex root.height < index then some (root, .null)
  else
    match tagClearLoop tag index root.height root.rnode with
    | some (rnode, slot, up) =>
      some
        ({ root with
          rnode := rnode
          tags := if up then update root.tags tag false else root.tags }, slot)
    | none => none

/-- The loop of `radix_tree_tag_get`. -/
def tagGetLoop (tag : Tag) (index : ℕ) : ℕ → Ptr α → Option Bool
  | _ + 1, .null => some false
  | h + 1, .node _ _ slots tags =>
    let off := offset h index
    if !tags tag off then some false
    else if h = 0 then some true
    else tagGetLoop tag index h (slots off)
  | _, _ => none

/-- `radix_tree_tag_get`. -/
def Root.tagGet (root : Root α) (index : ℕ) (tag : Tag) : Option Bool :=
  if !root.tags tag then some false
  else
    match root.rnode with
    | .null => some false
    | .item _ => if root.indirect then none else some (index = 0)
    | .node height count slots tags =>
      if !root.indirect then none
      else if maxindex height < index then some false
      else tagGetLoop tag index height (.node height count slots tags)

/-- The way down in `radix_tree_delete`: the slot at the end and its tag bits. -/
def deleteWalk (index : ℕ) : ℕ → Ptr α → (Tag → Bool) → Option (Ptr α × (Tag → Bool))
  | 0, slot, bits => some (slot, bits)
  | _ + 1, .null, _ => some (.null, fun _ => false)
  | h + 1, .node _ _ slots tags, _ =>
    deleteWalk index h (slots (offset h index)) fun tag => tags tag (offset h index)
  | _ + 1, .item _, _ => none

/-- How the way back up has ended: everything below was given back, or a node has
kept other slots; the bit says that this was the last node looked at. -/
inductive Removed where
  | gone
  | stopped (here : Bool)
  deriving DecidableEq

/-- The way back up in `radix_tree_delete`. The third component says whether the
nodes that are given back are zeroed. -/
def removeLoop (index : ℕ) : ℕ → Ptr α → Option (Ptr α × Removed × Bool)
  | 0, slot => some (slot, .gone, true)
  | h + 1, .node height count slots tags =>
    let off := offset h index
    match removeLoop index h (slots off) with
    | some (_, .gone, zeroed) =>
      let slots := update slots off .null
      let node := .node height (count - 1) slots tags
      if count - 1 ≠ 0 then some (node, .stopped true, zeroed)
      else some (node, .gone, zeroed && Ptr.freeZeroed slots tags)
    | some (child, .stopped _, zeroed) =>
      some (.node height count (update slots off child) tags, .stopped false, zeroed)
    | none => none
  | _ + 1, _ => none

/-- `radix_tree_shrink`; the first argument is the height. -/
def Root.shrink : ℕ → Root α → Option (Root α)
  | 0, root => some root
  | h + 1, root =>
    if !root.indirect then none
    else
      match root.rnode with
      | .node _ count slots tags =>
        if count ≠ 1 ∨ (slots 0).isNull then some root
        else
          shrink h
            { root with
              rnode := slots 0
              indirect := 1 < root.height
              height := root.height - 1
              zeroed := root.zeroed && Ptr.freeZeroed slots tags }
      | _ => none

/-- The loop over the tags in `radix_tree_delete`. -/
def Root.clearTags (index : ℕ) (bits : Tag → Bool) : List Tag → Root α → Option (Root α)
  | [], root => some root
  | tag :: tags, root =>
    if bits tag then (root.tagClear index tag).bind fun r => clearTags index bits tags r.1
    else clearTags index bits tags root

/-- `radix_tree_delete`. -/
def Root.delete (root : Root α) (index : ℕ) : Option (Root α × Ptr α) :=
  if maxindex root.height < index then some (root, .null)
  else if root.height = 0 then
    some ({ root with tags := fun _ => false, rnode := .null, indirect := false }, root.rnode)
  else
    match deleteWalk index root.height root.rnode root.tags with
    | some (slot, bits) =>
      if slot.isNull then some (root, .null)
      else
        match root.clearTags index bits (List.finRange 3) with
        | some root =>
          match removeLoop index root.height root.rnode with
          | some (_, .gone, zeroed) =>
            some
              ({ root with
                tags := fun _ => false
                height := 0
                rnode := .null
                indirect := false
                zeroed := root.zeroed && zeroed }, slot)
          | some (rnode, .stopped here, zeroed) =>
            let root := { root with rnode := rnode, zeroed := root.zeroed && zeroed }
            if here then (root.shrink root.height).map fun root => (root, slot)
            else some (root, slot)
          | none => none
        | none => none
    | none => none

end Am335x.RadixTree
