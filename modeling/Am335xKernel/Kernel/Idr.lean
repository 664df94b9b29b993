import Am335xKernel.Lib.CInt
import Am335xKernel.Lib.DigitPath
import Am335xKernel.Kernel.Bitmap
import Am335xKernel.Kernel.Interface

/-!
# Ids for pointers: `lib/idr.c`

A tree of layers with 32 slots each; the slots of the lowest layers hold the pointers. A set bit in
the bitmap of a layer says that there is no space below that slot.

A pointer is what it points to. `sub_alloc` has the layers from the one it is at up to the top in
`pa[]`: a path here is the list of these layers, from the lowest, each with the slot that the layer
below it hangs in. `none` as the result of an operation is a `BUG_ON` or a wild access.

An `int` id is the `ℕ` below `2 ^ 32` with the same bits. Layers come from a list that `idr_pre_get`
fills up, with zeroed ones.
-/

namespace Am335x.Ids

open Function

abbrev idrBits : ℕ := 5

abbrev idrSize : ℕ := 2 ^ idrBits

abbrev maxLevel : ℕ := 7

abbrev idrFreeMax : ℕ := maxLevel + maxLevel

abbrev maxIdBit : ℕ := 2 ^ 31

/-- `struct idr_layer`, with pointers of type `π`. -/
structure Layer (π : Type*) where
  bitmap : Bitmap
  ary : ℕ → π
  count : ℤ
  layer : ℕ

inductive Ptr (α : Type*) where
  | null
  | item (a : α)
  | layer (p : Layer (Ptr α))

variable {α : Type*}

namespace Ptr

def isNull : Ptr α → Bool
  | null => true
  | _ => false

def ofOption : Option α → Ptr α
  | none => null
  | some a => item a

end Ptr

/-- What `kmem_cache_zalloc` gives. -/
def Layer.zero : Layer (Ptr α) :=
  { bitmap := fun _ => false, ary := fun _ => .null, count := 0, layer := 0 }

/-- `bitmap == IDR_FULL`. -/
def Layer.isFull {π : Type*} (p : Layer π) : Bool := (List.range idrSize).all p.bitmap

/-- `struct idr`; `id_free_cnt` is the length of `idFree`. -/
structure Idr (α : Type*) where
  top : Ptr α
  layers : ℕ
  idFree : List (Layer (Ptr α))

/-- `idr_init`. -/
def Idr.init : Idr α := { top := .null, layers := 0, idFree := [] }

/-- `idr_pre_get`, with memory for `mem` layers. -/
def Idr.preGet (idp : Idr α) (mem : ℕ) : Idr α × ℤ :=
  let new := min mem (idrFreeMax - idp.idFree.length)
  ({ idp with idFree := List.replicate new Layer.zero ++ idp.idFree },
    if idp.idFree.length + new < idrFreeMax then 0 else 1)

abbrev Frame (α : Type*) := Layer (Ptr α) × ℕ

def Frame.plug (f : Frame α) (p : Layer (Ptr α)) : Layer (Ptr α) :=
  { f.1 with ary := update f.1.ary f.2 (.layer p) }

def rebuild : Layer (Ptr α) → List (Frame α) → Layer (Ptr α)
  | p, [] => p
  | p, f :: path => rebuild (f.plug p) path

/-- How `sub_alloc` ends: with an id and its path, or with a layer for `top`. -/
inductive Alloc (α : Type*) where
  | found (id : ℕ) (p : Layer (Ptr α)) (path : List (Frame α)) (idFree : List (Layer (Ptr α)))
  | needToGrow (id : ℕ) (top : Layer (Ptr α)) (idFree : List (Layer (Ptr α)))
  | noMoreSpace (top : Layer (Ptr α)) (idFree : List (Layer (Ptr α)))
  | noLayer (top : Layer (Ptr α))

/-- The id when slot `m` is taken instead of the one for `id`. -/
def chosen (l id m : ℕ) : ℕ :=
  let n := DigitPath.digit idrBits l id
  let sh := idrBits * l
  if m ≠ n then ((id >>> sh) ^^^ n ^^^ m) <<< sh else id

/-- The loop of `sub_alloc`, at layer `p` with `l` layers below it. -/
def subAllocLoop (layers : ℕ) : ℕ → ℕ → ℕ → Ptr α → List (Frame α) → List (Layer (Ptr α)) →
    Option (Alloc α)
  | 0, _, _, _, _, _ => none
  | fuel + 1, l, id, .layer p, path, idFree =>
    let n := DigitPath.digit idrBits l id
    let m := p.bitmap.findNextZeroBit idrSize n
    if m = idrSize then
      -- no space available, go back to previous layer
      let id' : ℕ := ((id ||| 2 ^ (idrBits * (l + 1)) - 1) + 1) % 2 ^ 32
      if 2 ^ (layers * idrBits) ≤ CInt.toInt id' then
        some (.needToGrow id' (rebuild p path) idFree)
      else
        match path with
        | [] => none
        | f :: path =>
          let sh := idrBits * (l + 2)
          if id >>> sh = id' >>> sh then
            subAllocLoop layers fuel (l + 1) id' (.layer (f.plug p)) path idFree
          else
            subAllocLoop layers fuel (layers - 1) id' (.layer (rebuild (f.plug p) path)) []
              idFree
    else
      let id' := chosen l id m
      if maxIdBit ≤ id' then some (.noMoreSpace (rebuild p path) idFree)
      else
        match l with
        | 0 => some (.found id' p path idFree)
        | l + 1 =>
          match p.ary m with
          | .null =>
            -- create the layer below
            match idFree with
            | [] => some (.noLayer (rebuild p path))
            | new :: idFree =>
              subAllocLoop layers fuel l id' (.layer { new with layer := l })
                (({ p with count := p.count + 1 }, m) :: path) idFree
          | child => subAllocLoop layers fuel l id' child ((p, m) :: path) idFree
  | _ + 1, _, _, _, _, _ => none

abbrev subAllocFuel : ℕ := 64

def subAlloc (layers id : ℕ) (top : Ptr α) (idFree : List (Layer (Ptr α))) : Option (Alloc α) :=
  subAllocLoop layers subAllocFuel (layers - 1) id top [] idFree

def tearDown : ℕ → Ptr α → List (Layer (Ptr α)) → Ptr α × List (Layer (Ptr α))
  | 0, top, idFree => (top, idFree)
  | built + 1, .layer p, idFree =>
    tearDown built (p.ary 0)
      ({ p with ary := update p.ary 0 .null, bitmap := fun _ => false, count := 0 } ::
        idFree)
  | _ + 1, top, idFree => (top, idFree)

/-- How the growing in `idr_get_empty_slot` ends. -/
inductive Grown (α : Type*) where
  | done (p : Layer (Ptr α)) (layers : ℕ) (idFree : List (Layer (Ptr α)))
  | noLayer (top : Ptr α) (idFree : List (Layer (Ptr α)))

def above (new p : Layer (Ptr α)) (layer : ℕ) : Layer (Ptr α) :=
  { ary := update new.ary 0 (.layer p)
    count := 1
    layer := layer
    bitmap := if p.isFull then update new.bitmap 0 true else new.bitmap }

/-- The loop of `idr_get_empty_slot` that adds layers at the top; `built` layers
have been taken so far. -/
def growLoop (id : ℕ) : ℕ → ℕ → ℕ → Layer (Ptr α) → List (Layer (Ptr α)) → Grown α
  | 0, _, layers, p, idFree => .done p layers idFree
  | fuel + 1, built, layers, p, idFree =>
    if layers < maxLevel - 1 ∧ 2 ^ (layers * idrBits) ≤ CInt.toInt id then
      if p.count = 0 then
        growLoop id fuel built (layers + 1) { p with layer := p.layer + 1 } idFree
      else
        match idFree with
        | [] =>
          let r := tearDown built (.layer p) []
          .noLayer r.1 r.2
        | new :: idFree =>
          growLoop id fuel (built + 1) (layers + 1) (above new p layers) idFree
    else .done p layers idFree

/-- `build_up` in `idr_get_empty_slot`, up to `sub_alloc`. -/
def buildUp (idp : Idr α) (id : ℕ) : Option (Grown α) :=
  match idp.top with
  | .null =>
    match idp.idFree with
    | [] => some (.noLayer .null [])
    | p :: idFree => some (growLoop id maxLevel 1 1 { p with layer := 0 } idFree)
  | .layer p => some (growLoop id maxLevel 0 idp.layers p idp.idFree)
  | .item _ => none

/-- What `idr_get_empty_slot` returns. -/
inductive Slot (α : Type*) where
  | found (id : ℕ) (p : Layer (Ptr α)) (path : List (Frame α))
  | failed (errno : ℤ)

/-- `idr_get_empty_slot`; the first argument bounds the number of `goto build_up`. -/
def getEmptySlot : ℕ → Idr α → ℕ → Option (Idr α × Slot α)
  | 0, _, _ => none
  | fuel + 1, idp, id =>
    match buildUp idp id with
    | none => none
    | some (.noLayer top idFree) => some ({ idp with top := top, idFree := idFree }, .failed eagain)
    | some (.done p layers idFree) =>
      match subAlloc layers id (.layer p) idFree with
      | none => none
      | some (.needToGrow id top idFree) =>
        getEmptySlot fuel { top := .layer top, layers := layers, idFree := idFree } id
      | some (.noMoreSpace top idFree) =>
        some ({ top := .layer top, layers := layers, idFree := idFree }, .failed enospc)
      | some (.noLayer top) =>
        some ({ top := .layer top, layers := layers, idFree := [] }, .failed eagain)
      | some (.found id p path idFree) =>
        some ({ top := .layer (rebuild p path), layers := layers, idFree := idFree },
          .found id p path)

/-- `idr_mark_full`, on the path. -/
def markFull : ℕ → Layer (Ptr α) → List (Frame α) → Layer (Ptr α)
  | id, p, [] => { p with bitmap := update p.bitmap (id &&& (idrSize - 1)) true }
  | id, p, f :: path =>
    let p := { p with bitmap := update p.bitmap (id &&& (idrSize - 1)) true }
    if p.isFull then markFull (id >>> idrBits) (f.plug p) path else rebuild (f.plug p) path

def Layer.install (p : Layer (Ptr α)) (n : ℕ) (ptr : Ptr α) : Layer (Ptr α) :=
  { p with ary := update p.ary n ptr, count := p.count + 1 }

/-- `idr_get_new_above`: an id, or an error. -/
def Idr.getNewAbove (idp : Idr α) (ptr : Option α) (startingId : ℕ) :
    Option (Idr α × (ℤ ⊕ ℕ)) :=
  match getEmptySlot (maxLevel + 1) idp startingId with
  | none => none
  | some (idp, .failed errno) => some (idp, .inl errno)
  | some (idp, .found id p path) =>
    let p := p.install (id &&& (idrSize - 1)) (.ofOption ptr)
    some ({ idp with top := .layer (markFull id p path) }, .inr id)

/-- How the way back up in `sub_remove` has ended. -/
inductive Removed where
  | gone
  | stopped
  | notAllocated
  deriving DecidableEq

def dropSlot (p : Layer (Ptr α)) (n : ℕ) : Ptr α × Removed :=
  let p := { p with ary := update p.ary n .null, count := p.count - 1 }
  if p.count = 0 then (.null, .gone) else (.layer p, .stopped)

/-- `sub_remove`, with `h` layers below; the bits are cleared on the way down. -/
def subRemove (id : ℕ) : ℕ → Ptr α → Option (Ptr α × Removed)
  | _, .null => some (.null, .notAllocated)
  | 0, .layer p =>
    let n := id &&& (idrSize - 1)
    if p.bitmap n then
      some (dropSlot { p with bitmap := update p.bitmap n false } n)
    else some (.layer p, .notAllocated)
  | h + 1, .layer p =>
    let n := DigitPath.digit idrBits (h + 1) id
    let p := { p with bitmap := update p.bitmap n false }
    match subRemove id h (p.ary n) with
    | none => none
    | some (_, .gone) => some (dropSlot p n)
    | some (child, r) => some (.layer { p with ary := update p.ary n child }, r)
  | _, .item _ => none

def Idr.shrink (idp : Idr α) : Idr α :=
  match idp.top with
  | .layer p =>
    if p.count = 1 ∧ 1 < idp.layers ∧ (p.ary 0).isNull = false then
      { idp with top := p.ary 0, layers := idp.layers - 1 }
    else idp
  | _ => idp

/-- `idr_remove`. -/
def Idr.remove (idp : Idr α) (id : ℕ) : Option (Idr α) :=
  match subRemove (id % maxIdBit) (idp.layers - 1) idp.top with
  | none => none
  | some (top, r) =>
    let layers := if r = Removed.gone then 0 else idp.layers
    let idp := { idp with top := top, layers := layers }.shrink
    some { idp with idFree := idp.idFree.drop (idp.idFree.length - (idrFreeMax - 1)) }

/-- The loop of `idr_find`, with its check of `layer`. -/
def findLoop (id : ℕ) : ℕ → Ptr α → Option (Option α)
  | _, .null => some none
  | 0, .item a => some (some a)
  | h + 1, .layer p =>
    if h ≠ p.layer then none else findLoop id h (p.ary (DigitPath.digit idrBits h id))
  | _, _ => none

/-- `idr_find`. -/
def Idr.find (idp : Idr α) (id : ℕ) : Option (Option α) :=
  match idp.top with
  | .null => some none
  | .layer p =>
    if 2 ^ ((p.layer + 1) * idrBits) ≤ id % maxIdBit then some none
    else findLoop (id % maxIdBit) (p.layer + 1) (.layer p)
  | .item _ => none

/-- The loop of `idr_replace`, with `h` layers below. -/
def replaceLoop (id : ℕ) (ptr : Option α) : ℕ → Ptr α → Option (Ptr α × (ℤ ⊕ Ptr α))
  | _, .null => some (.null, .inl enoent)
  | 0, .layer p =>
    let n := id &&& (idrSize - 1)
    if p.bitmap n then
      some (.layer { p with ary := update p.ary n (.ofOption ptr) }, .inr (p.ary n))
    else some (.layer p, .inl enoent)
  | h + 1, .layer p =>
    let n := DigitPath.digit idrBits (h + 1) id
    (replaceLoop id ptr h (p.ary n)).map fun r =>
      (.layer { p with ary := update p.ary n r.1 }, r.2)
  | _, .item _ => none

/-- `idr_replace`: the old pointer, or an error. -/
def Idr.replace (idp : Idr α) (ptr : Option α) (id : ℕ) : Option (Idr α × (ℤ ⊕ Ptr α)) :=
  match idp.top with
  | .null => some (idp, .inl einval)
  | .layer p =>
    if 2 ^ ((p.layer + 1) * idrBits) ≤ id % maxIdBit then some (idp, .inl einval)
    else
      (replaceLoop (id % maxIdBit) ptr p.layer (.layer p)).map fun r =>
        ({ idp with top := r.1 }, r.2)
  | .item _ => none

end Am335x.Ids
