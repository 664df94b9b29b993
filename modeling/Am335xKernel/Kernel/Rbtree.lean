import Am335xKernel.Lib.RedBlack

/-!
# Red-black trees in memory

`lib/rbtree.c` as it works on the nodes: each has its colour, and pointers to its parent
and its two children. The field `rb_parent_color` of the source, which holds the parent
and the colour, is two fields here. A pointer is `none` when it is NULL; where the source
follows it without looking, the functions here return `none`, as they do when a loop
makes more steps than it is given.

The source has two copies of most of its code, for the two sides. They are one definition
here, with a side `d`: what is written for `left` in the source is what this is for
`d = left`.
-/

namespace Am335x.Rbtree

open RedBlack
export RedBlack (Tree)

variable {ν : Type*}

structure RbNode (ν : Type*) where
  color : Color
  parent : Option ν
  left : Option ν
  right : Option ν

namespace RbNode

def child : Side → RbNode ν → Option ν
  | .left, n => n.left
  | .right, n => n.right

def setChild (p : Option ν) : Side → RbNode ν → RbNode ν
  | .left, n => { n with left := p }
  | .right, n => { n with right := p }

/-- `rb_set_parent` -/
def setParent (p : Option ν) (n : RbNode ν) : RbNode ν := { n with parent := p }

/-- `rb_set_color`, `rb_set_red` and `rb_set_black` -/
def setColor (c : Color) (n : RbNode ν) : RbNode ν := { n with color := c }

end RbNode

/-- The memory, with the `struct rb_root` of a tree. -/
structure Mem (ν : Type*) where
  node : ν → RbNode ν
  root : Option ν

variable [DecidableEq ν]

def Mem.modify (m : Mem ν) (x : ν) (f : RbNode ν → RbNode ν) : Mem ν :=
  { m with node := Function.update m.node x (f (m.node x)) }

/-- In a node, or in the root if there is none, `old` is replaced as a child. -/
def Mem.replaceChild (m : Mem ν) (d : Side) (parent : Option ν) (old : ν) (new : Option ν) :
    Mem ν :=
  match parent with
  | none => { m with root := new }
  | some p =>
    if (m.node p).child d = some old then m.modify p (RbNode.setChild new d)
    else m.modify p (RbNode.setChild new d.other)

/-- `__rb_rotate_left` for `d = left`, `__rb_rotate_right` for `d = right` -/
def rotate (d : Side) (m : Mem ν) (node : ν) : Option (Mem ν) := do
  let right ← (m.node node).child d.other
  let parent := (m.node node).parent
  let below := (m.node right).child d
  let m := m.modify node (RbNode.setChild below d.other)
  let m := below.elim m fun b => m.modify b (RbNode.setParent (some node))
  let m := m.modify right (RbNode.setChild (some node) d)
  let m := m.modify right (RbNode.setParent parent)
  let m := m.replaceChild d parent node (some right)
  return m.modify node (RbNode.setParent (some right))

def rbRotateLeft (m : Mem ν) (node : ν) : Option (Mem ν) := rotate .left m node

def rbRotateRight (m : Mem ν) (node : ν) : Option (Mem ν) := rotate .right m node

/-- `rb_link_node`, where the link is the child of `parent` on the side `d`, or the root. -/
def rbLinkNode (m : Mem ν) (node : ν) (parent : Option ν) (d : Side) : Mem ν :=
  let m := m.modify node fun _ => ⟨.red, parent, none, none⟩
  match parent with
  | none => { m with root := some node }
  | some p => m.modify p (RbNode.setChild (some node) d)

/-- The body of the loop of `rb_insert_color`, where the parent is the child of its parent
on the side `d`; with the node that is looked at next. -/
def insertStep (d : Side) (m : Mem ν) (node parent gparent : ν) : Option (Mem ν × ν) :=
  match (m.node gparent).child d.other with
  | none => rotated m
  | some uncle =>
    if (m.node uncle).color = .red then
      let m := m.modify uncle (RbNode.setColor .black)
      let m := m.modify parent (RbNode.setColor .black)
      let m := m.modify gparent (RbNode.setColor .red)
      some (m, gparent)
    else rotated m
where
  rotated (m : Mem ν) : Option (Mem ν × ν) := do
    let (m, node, parent) ←
      if (m.node parent).child d.other = some node then
        (rotate d m parent).map fun m => (m, parent, node)
      else some (m, node, parent)
    let m := m.modify parent (RbNode.setColor .black)
    let m := m.modify gparent (RbNode.setColor .red)
    let m ← rotate d.other m gparent
    return (m, node)

/-- The loop of `rb_insert_color`. -/
def insertLoop : ℕ → Mem ν → ν → Option (Mem ν)
  | 0, _, _ => none
  | fuel + 1, m, node =>
    match (m.node node).parent with
    | none => some m
    | some parent =>
      if (m.node parent).color = .black then some m
      else do
        let gparent ← (m.node parent).parent
        let d := if (m.node gparent).left = some parent then Side.left else Side.right
        let (m, node) ← insertStep d m node parent gparent
        insertLoop fuel m node

def rbInsertColor (fuel : ℕ) (m : Mem ν) (node : ν) : Option (Mem ν) := do
  let m ← insertLoop fuel m node
  let root ← m.root
  return m.modify root (RbNode.setColor .black)

/-- `!x || rb_is_black(x)` -/
def Mem.isBlack (m : Mem ν) : Option ν → Bool
  | none => true
  | some x => (m.node x).color = .black

/-- In the loop of `__rb_erase_color`: the last rotation, after which the loop ends. -/
def eraseLast (d : Side) (m : Mem ν) (parent other : ν) : Option (Mem ν × Bool) := do
  let m := m.modify other (RbNode.setColor (m.node parent).color)
  let m := m.modify parent (RbNode.setColor .black)
  let far ← (m.node other).child d.other
  let m := m.modify far (RbNode.setColor .black)
  let m ← rotate d m parent
  return (m, false)

/-- In the loop of `__rb_erase_color`, with a black `other`. -/
def eraseBlack (d : Side) (m : Mem ν) (parent other : ν) : Option (Mem ν × Bool) :=
  if m.isBlack (m.node other).left && m.isBlack (m.node other).right then
    some (m.modify other (RbNode.setColor .red), true)
  else if m.isBlack ((m.node other).child d.other) then do
    let near ← (m.node other).child d
    let m := m.modify near (RbNode.setColor .black)
    let m := m.modify other (RbNode.setColor .red)
    let m ← rotate d.other m other
    let other ← (m.node parent).child d.other
    eraseLast d m parent other
  else eraseLast d m parent other

/-- The body of the loop of `__rb_erase_color`, where the node is the child of its parent on
the side `d`; whether the loop goes on with the parent. -/
def eraseStep (d : Side) (m : Mem ν) (parent : ν) : Option (Mem ν × Bool) := do
  let other ← (m.node parent).child d.other
  if (m.node other).color = .red then
    let m := m.modify other (RbNode.setColor .black)
    let m := m.modify parent (RbNode.setColor .red)
    let m ← rotate d m parent
    let other ← (m.node parent).child d.other
    eraseBlack d m parent other
  else eraseBlack d m parent other

/-- The loop of `__rb_erase_color`. -/
def eraseLoop : ℕ → Mem ν → Option ν → Option ν → Option (Mem ν × Option ν)
  | 0, _, _, _ => none
  | fuel + 1, m, node, parent =>
    if m.isBlack node && decide (node ≠ m.root) then do
      let parent ← parent
      let d := if (m.node parent).left = node then Side.left else Side.right
      let (m, again) ← eraseStep d m parent
      if again then eraseLoop fuel m (some parent) (m.node parent).parent
      else some (m, m.root)
    else some (m, node)

def rbEraseColor (fuel : ℕ) (m : Mem ν) (node parent : Option ν) : Option (Mem ν) := do
  let (m, node) ← eraseLoop fuel m node parent
  return node.elim m fun x => m.modify x (RbNode.setColor .black)

/-- As far to the side `d` as possible. -/
def descend (d : Side) : ℕ → Mem ν → ν → Option ν
  | 0, _, _ => none
  | fuel + 1, m, x =>
    match (m.node x).child d with
    | none => some x
    | some y => descend d fuel m y

def unlink (m : Mem ν) (node : ν) (child : Option ν) : Mem ν :=
  let parent := (m.node node).parent
  let m := child.elim m fun x => m.modify x (RbNode.setParent parent)
  m.replaceChild .left parent node child

/-- The node that comes next leaves the place at the bottom of the subtree at `right`. -/
def detach (m : Mem ν) (parent node right : ν) (child : Option ν) : Mem ν :=
  let m := child.elim m fun x => m.modify x (RbNode.setParent (some parent))
  let m := m.modify parent (RbNode.setChild child .left)
  let m := m.modify node (RbNode.setChild (some right) .right)
  m.modify right (RbNode.setParent (some node))

def settle (m : Mem ν) (old node left : ν) : Mem ν :=
  let m := m.modify node fun n =>
    { n with parent := (m.node old).parent, color := (m.node old).color }
  let m := m.modify node (RbNode.setChild (some left) .left)
  m.modify left (RbNode.setParent (some node))

/-- A node that has two children is replaced by the one that comes next. With the child of
the latter, the parent that this child has then, and the colour that is missing there. -/
def splice (m : Mem ν) (old node left right : ν) :
    Option (Mem ν × Option ν × ν × Color) := do
  let m := m.replaceChild .left (m.node old).parent old (some node)
  let child := (m.node node).right
  let parent ← (m.node node).parent
  let color := (m.node node).color
  if parent = old then
    return (settle m old node left, child, node, color)
  else
    return (settle (detach m parent node right child) old node left, child, parent, color)

def rbErase (fuel : ℕ) (m : Mem ν) (node : ν) : Option (Mem ν) :=
  match (m.node node).left, (m.node node).right with
  | none, child => finish (unlink m node child) child (m.node node).parent (m.node node).color
  | child, none => finish (unlink m node child) child (m.node node).parent (m.node node).color
  | some left, some right => do
      let next ← descend .left fuel m right
      let (m, child, parent, color) ← splice m node next left right
      finish m child (some parent) color
where
  finish (m : Mem ν) (child parent : Option ν) (color : Color) : Option (Mem ν) :=
    if color = .black then rbEraseColor fuel m child parent else some m

/-- `rb_first` for `d = left`, `rb_last` for `d = right` -/
def extreme (d : Side) (fuel : ℕ) (m : Mem ν) : Option (Option ν) :=
  match m.root with
  | none => some none
  | some n => (descend d fuel m n).map some

/-- The loop of `rb_next` and `rb_prev`: up, as long as the node is the child on the side `d`. -/
def ascend (d : Side) : ℕ → Mem ν → ν → Option (Option ν)
  | 0, _, _ => none
  | fuel + 1, m, node =>
    match (m.node node).parent with
    | none => some none
    | some parent =>
      if (m.node parent).child d = some node then ascend d fuel m parent else some (some parent)

/-- `rb_prev` for `d = left`, `rb_next` for `d = right` -/
def neighbour (d : Side) (fuel : ℕ) (m : Mem ν) (node : ν) : Option (Option ν) :=
  if (m.node node).parent = some node then some none
  else
    match (m.node node).child d with
    | some child => (descend d.other fuel m child).map some
    | none => ascend d fuel m node

def rbFirst (fuel : ℕ) (m : Mem ν) : Option (Option ν) := extreme .left fuel m

def rbLast (fuel : ℕ) (m : Mem ν) : Option (Option ν) := extreme .right fuel m

def rbNext (fuel : ℕ) (m : Mem ν) (node : ν) : Option (Option ν) := neighbour .right fuel m node

def rbPrev (fuel : ℕ) (m : Mem ν) (node : ν) : Option (Option ν) := neighbour .left fuel m node

end Am335x.Rbtree
