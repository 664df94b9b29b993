import Am335xKernel.Kernel.Rbtree

/-!
# Trees held in memory

`Holds m t` says that the tree at the root of `m` is `t`, all of its pointers included. The
operations on single nodes are then operations on the tree: for a node somewhere in it, the
memory is taken apart into the subtree below (`Rep`) and the nodes above (`Around`), and
put together again.
-/

namespace Am335x.Rbtree

open RedBlack RedBlack.Tree List Mem RbNode

variable {ν : Type*}

/-- A node with its children on the side `d` and on the other side. -/
def RbNode.fork : Side → Color → Option ν → Option ν → Option ν → RbNode ν
  | .left, c, p, near, far => ⟨c, p, near, far⟩
  | .right, c, p, near, far => ⟨c, p, far, near⟩

section

variable (d : Side) (c c' : Color) (p near far q : Option ν)

@[simp] lemma RbNode.color_fork : (fork d c p near far).color = c := by cases d <;> rfl

@[simp] lemma RbNode.parent_fork : (fork d c p near far).parent = p := by cases d <;> rfl

@[simp] lemma RbNode.child_fork : (fork d c p near far).child d = near := by cases d <;> rfl

@[simp] lemma RbNode.child_other_fork : (fork d c p near far).child d.other = far := by
  cases d <;> rfl

@[simp] lemma RbNode.setColor_fork : (fork d c p near far).setColor c' = fork d c' p near far := by
  cases d <;> rfl

@[simp] lemma RbNode.setParent_fork : (fork d c p near far).setParent q = fork d c q near far := by
  cases d <;> rfl

@[simp] lemma RbNode.setChild_fork : (fork d c p near far).setChild q d = fork d c p q far := by
  cases d <;> rfl

@[simp] lemma RbNode.setChild_other_fork :
    (fork d c p near far).setChild q d.other = fork d c p near q := by
  cases d <;> rfl

lemma RbNode.fork_other : fork d.other c p near far = fork d c p far near := by
  cases d <;> rfl

end

/-- The subtree of the memory whose root has the parent `p`. -/
def Rep (m : Mem ν) : Option ν → Tree ν → Prop
  | _, .leaf => True
  | p, .node c l x r => m.node x = ⟨c, p, l.root, r.root⟩ ∧ Rep m (some x) l ∧ Rep m (some x) r

def parentOf (C : List (Frame ν)) : Option ν := C.head?.map Frame.node

/-- The nodes above a place, at which there is the pointer `q`. -/
def Around (m : Mem ν) : List (Frame ν) → Option ν → Prop
  | [], q => m.root = q
  | f :: C, q => m.node f.node = RbNode.fork f.side f.color (parentOf C) q f.sibling.root ∧
      Rep m (some f.node) f.sibling ∧ Around m C (some f.node)

structure Holds (m : Mem ν) (t : Tree ν) : Prop where
  root : m.root = t.root
  rep : Rep m none t
  nodup : t.inorder.Nodup

variable {m : Mem ν} {C : List (Frame ν)} {t : Tree ν} {f : RbNode ν → RbNode ν}
  {d : Side} {c : Color} {p q : Option ν} {s : Tree ν} {x y : ν}

lemma rep_fork : Rep m p (fork d c t x s) ↔ m.node x = RbNode.fork d c p t.root s.root ∧
      Rep m (some x) t ∧ Rep m (some x) s := by
  cases d
  · exact Iff.rfl
  · exact and_congr_right fun _ => and_comm

lemma rep_plug : (m.root = (plug C t).root ∧ Rep m none (plug C t)) ↔
      Rep m (parentOf C) t ∧ Around m C t.root := by
  induction C generalizing t with
  | nil => exact and_comm
  | cons f C ih =>
    rw [plug_cons, ih, Frame.plug, rep_fork, root_fork]
    constructor
    · rintro ⟨⟨hnode, ht, hs⟩, hC⟩
      exact ⟨ht, hnode, hs, hC⟩
    · rintro ⟨ht, hnode, hs, hC⟩
      exact ⟨⟨hnode, ht, hs⟩, hC⟩

lemma holds_plug : Holds m (plug C t) ↔
      Rep m (parentOf C) t ∧ Around m C t.root ∧ (plug C t).inorder.Nodup := by
  constructor
  · rintro ⟨hroot, hrep, hnodup⟩
    obtain ⟨ht, hC⟩ := rep_plug.mp ⟨hroot, hrep⟩
    exact ⟨ht, hC, hnodup⟩
  · rintro ⟨ht, hC, hnodup⟩
    obtain ⟨hroot, hrep⟩ := rep_plug.mpr ⟨ht, hC⟩
    exact ⟨hroot, hrep, hnodup⟩

lemma Holds.node (h : Holds m (plug C (fork d c t x s))) :
    m.node x = RbNode.fork d c (parentOf C) t.root s.root :=
  (rep_fork.mp (holds_plug.mp h).1).1

variable {m' : Mem ν}

lemma Rep.congr (h : Rep m p t) (heq : ∀ x ∈ t.inorder, m'.node x = m.node x) : Rep m' p t := by
  induction t generalizing p with
  | leaf => trivial
  | node c l x r ihl ihr =>
    obtain ⟨hx, hl, hr⟩ := h
    refine ⟨?_, ihl hl fun y hy => heq y (mem_append_left _ hy),
      ihr hr fun y hy => heq y (mem_append_right _ (mem_cons_of_mem x hy))⟩
    rw [heq x (mem_append_right _ mem_cons_self), hx]

def nodesOf : List (Frame ν) → List ν
  | [] => []
  | f :: C => f.node :: (f.sibling.inorder ++ nodesOf C)

lemma nodesOf_perm (C : List (Frame ν)) (t : Tree ν) :
    (plug C t).inorder.Perm (t.inorder ++ nodesOf C) := by
  induction C generalizing t with
  | nil => rw [nodesOf, append_nil]; exact List.Perm.refl _
  | cons f C ih =>
    refine (ih (f.plug t)).trans ?_
    obtain ⟨d, c, x, s⟩ := f
    have hfork : (fork d c t x s).inorder.Perm (t.inorder ++ (x :: s.inorder)) := by
      cases d
      · exact List.Perm.refl _
      · refine perm_middle.trans ?_
        refine List.Perm.trans ?_ perm_middle.symm
        exact List.Perm.cons x perm_append_comm
    have happend := hfork.append_right (nodesOf C)
    rw [append_assoc] at happend
    exact happend

lemma Around.congr (h : Around m C q) (hroot : m'.root = m.root)
    (heq : ∀ x ∈ nodesOf C, m'.node x = m.node x) : Around m' C q := by
  induction C generalizing q with
  | nil => exact hroot.trans h
  | cons f C ih =>
    obtain ⟨hf, hs, hC⟩ := h
    refine ⟨?_, hs.congr fun y hy => heq y ?_, ih hC fun y hy => heq y ?_⟩
    · rw [heq f.node mem_cons_self, hf]
    · exact mem_cons_of_mem _ (mem_append_left _ hy)
    · exact mem_cons_of_mem _ (mem_append_right _ hy)

variable [DecidableEq ν]

lemma Mem.modify_self (m : Mem ν) (x : ν) (f : RbNode ν → RbNode ν) :
    (m.modify x f).node x = f (m.node x) :=
  Function.update_self _ _ _

lemma Mem.modify_of_ne (h : y ≠ x) : (m.modify x f).node y = m.node y :=
  Function.update_of_ne h _ _

lemma Rep.setParent (h : Rep m p t) (hnodup : t.inorder.Nodup) :
    Rep (t.root.elim m fun x => m.modify x (RbNode.setParent q)) q t := by
  cases t with
  | leaf => trivial
  | node c l x r =>
    obtain ⟨hx, hl, hr⟩ := h
    obtain ⟨hxl, hxr, -⟩ := nodup_inorder_fork.mp
      (show (fork .left c l x r).inorder.Nodup from hnodup)
    refine ⟨?_, hl.congr fun y hy => modify_of_ne ?_, hr.congr fun y hy => modify_of_ne ?_⟩
    · show (m.modify x _).node x = _
      rw [modify_self, hx]
      rfl
    · rintro rfl
      exact hxl hy
    · rintro rfl
      exact hxr hy

lemma Holds.setColor (c : Color) (h : Holds m (plug C t)) (hroot : t.root = some x) :
    Holds (m.modify x (RbNode.setColor c)) (plug C (t.paint c)) := by
  obtain ⟨s, u, ht⟩ := exists_fork .left hroot
  obtain ⟨hrep, hC, hnodup⟩ := holds_plug.mp h
  have hnodup' := (nodesOf_perm C t).nodup_iff.mp hnodup
  obtain ⟨htree, -, hdisj⟩ := nodup_append.mp hnodup'
  refine holds_plug.mpr ⟨?_, ?_, ?_⟩
  · rw [ht] at hrep htree ⊢
    rw [paint_fork]
    obtain ⟨hx, hs, hu⟩ := rep_fork.mp hrep
    obtain ⟨hxs, hxu, -⟩ := nodup_inorder_fork.mp htree
    refine rep_fork.mpr ⟨?_, hs.congr fun y hy => modify_of_ne ?_,
      hu.congr fun y hy => modify_of_ne ?_⟩
    · rw [modify_self, hx, setColor_fork]
    · rintro rfl
      exact hxs hy
    · rintro rfl
      exact hxu hy
  · rw [root_paint]
    refine hC.congr rfl fun y hy => modify_of_ne ?_
    rintro rfl
    exact hdisj y (root_mem hroot) y hy rfl
  · rw [inorder_plug_congr C (inorder_paint c t)]
    exact hnodup

lemma elim_node (h : x ∉ t.inorder) : (t.root.elim m fun y => m.modify y f).node x = m.node x := by
  cases t with
  | leaf => rfl
  | node c l y r =>
    refine modify_of_ne ?_
    rintro rfl
    exact h (root_mem rfl)

lemma elim_root : (p.elim m fun y => m.modify y f).root = m.root := by
  cases p <;> rfl

lemma Around.replaceChild {old : ν} (d : Side) (new : Option ν) (h : Around m C (some old))
    (hold : old ∉ nodesOf C) (hnodup : (nodesOf C).Nodup) :
    Around (m.replaceChild d (parentOf C) old new) C new ∧
      ∀ x ∉ nodesOf C, (m.replaceChild d (parentOf C) old new).node x = m.node x := by
  cases C with
  | nil => exact ⟨rfl, fun _ _ => rfl⟩
  | cons f C =>
    obtain ⟨hf, hs, hC⟩ := h
    obtain ⟨hfs, hnodupC⟩ := nodup_cons.mp hnodup
    -- whichever way the pointer is found, it is the one on the side of the place
    have hmem : m.replaceChild d (parentOf (f :: C)) old new =
        m.modify f.node (setChild new f.side) := by
      show (if (m.node f.node).child d = some old then m.modify f.node (setChild new d)
        else m.modify f.node (setChild new d.other)) = _
      rcases Side.eq_or_eq_other f.side d with rfl | rfl
      · rw [hf, child_fork, if_pos rfl]
      · have hne : f.sibling.root ≠ some old := fun heq =>
          hold (mem_cons_of_mem _ (mem_append_left _ (root_mem heq)))
        rw [hf, child_other_fork, if_neg hne, Side.other_other]
    rw [hmem]
    refine ⟨⟨?_, hs.congr fun y hy => modify_of_ne ?_,
      hC.congr rfl fun y hy => modify_of_ne ?_⟩, fun y hy => modify_of_ne ?_⟩
    · rw [modify_self, hf, setChild_fork]
    · rintro rfl
      exact hfs (mem_append_left _ hy)
    · rintro rfl
      exact hfs (mem_append_right _ hy)
    · rintro rfl
      exact hy mem_cons_self

/-- **A rotation of the memory is one of the tree.** -/
lemma Holds.rotate {c' : Color} {u : Tree ν}
    (h : Holds m (plug C (fork d c t x (fork d c' s y u)))) : ∃ m', Rbtree.rotate d m x = some m' ∧
      Holds m' (plug C (fork d c' (fork d c t x s) y u)) := by
  obtain ⟨hrep, hC, hnodup⟩ := holds_plug.mp h
  obtain ⟨hx, ht, hrep'⟩ := rep_fork.mp hrep
  obtain ⟨hy, hs, hu⟩ := rep_fork.mp hrep'
  rw [root_fork] at hx hC
  -- all nodes are different
  have hnodup' := (nodesOf_perm C _).nodup_iff.mp hnodup
  obtain ⟨htree, hnodupC, hdisj⟩ := nodup_append.mp hnodup'
  obtain ⟨hxt, hxf, -, htree', htf⟩ := nodup_inorder_fork.mp htree
  obtain ⟨hys, hyu, hnodups, -, hsu⟩ := nodup_inorder_fork.mp htree'
  have hnotC : ∀ z, z ∈ (fork d c t x (fork d c' s y u)).inorder → z ∉ nodesOf C :=
    fun z hz hz' => hdisj z hz z hz' rfl
  simp only [mem_inorder_fork, not_or] at hxf htf hnotC
  have hxC : x ∉ nodesOf C := hnotC x (.inl rfl)
  have hyC : y ∉ nodesOf C := hnotC y (.inr (.inr (.inl rfl)))
  have hchild : (m.node x).child d.other = some y := by rw [hx, child_other_fork]
  have hparent : (m.node x).parent = parentOf C := by rw [hx, parent_fork]
  have hbelow : (m.node y).child d = s.root := by rw [hy, child_fork]
  unfold Rbtree.rotate
  simp only [hchild, Option.bind_eq_bind, Option.bind_some, hbelow, hparent]
  set m1 := m.modify x (setChild s.root d.other)
  set m2 := s.root.elim m1 fun b => m1.modify b (setParent (some x))
  set m3 := m2.modify y (setChild (some x) d)
  set m4 := m3.modify y (setParent (parentOf C))
  set m5 := m4.replaceChild d (parentOf C) x (some y)
  set m6 := m5.modify x (setParent (some y))
  -- what the steps leave as it is
  have h1 : ∀ z, z ≠ x → m1.node z = m.node z := fun z hz => modify_of_ne hz
  have h2 : ∀ z, z ∉ s.inorder → m2.node z = m1.node z := fun z hz => elim_node hz
  have h4 : ∀ z, z ≠ y → m4.node z = m2.node z :=
    fun z hz => (modify_of_ne hz).trans (modify_of_ne hz)
  have hAround4 : Around m4 C (some x) := by
    refine hC.congr ?_ fun z hz => ?_
    · exact (elim_root : m2.root = m1.root)
    · have hzx : z ≠ x := fun heq => hxC (heq ▸ hz)
      have hzy : z ≠ y := fun heq => hyC (heq ▸ hz)
      have hzs : z ∉ s.inorder := fun hmem => hnotC z (.inr (.inr (.inr (.inl hmem)))) hz
      rw [h4 z hzy, h2 z hzs, h1 z hzx]
  obtain ⟨hAround5, h5⟩ := hAround4.replaceChild d (some y) hxC hnodupC
  have h6 : ∀ z, z ≠ x → m6.node z = m5.node z := fun z hz => modify_of_ne hz
  have hkeep : ∀ z, z ≠ x → z ≠ y → z ∉ s.inorder → z ∉ nodesOf C → m6.node z = m.node z := by
    intro z hzx hzy hzs hzC
    rw [h6 z hzx, h5 z hzC, h4 z hzy, h2 z hzs, h1 z hzx]
  refine ⟨m6, rfl, holds_plug.mpr ⟨rep_fork.mpr ⟨?_, rep_fork.mpr ⟨?_, ?_, ?_⟩, ?_⟩, ?_, ?_⟩⟩
  · rw [root_fork, h6 y (Ne.symm hxf.1), h5 y hyC]
    rw [modify_self]
    rw [modify_self, h2 y hys, h1 y (Ne.symm hxf.1), hy, setChild_fork, setParent_fork]
  · rw [modify_self, h5 x hxC, h4 x hxf.1, h2 x hxf.2.1]
    rw [modify_self, hx, setChild_other_fork, setParent_fork]
  · refine ht.congr fun z hz => hkeep z ?_ (htf z hz).1 (htf z hz).2.1 (hnotC z (.inr (.inl hz)))
    exact fun heq => hxt (heq ▸ hz)
  · have hs1 : Rep m1 (some y) s := hs.congr fun z hz => h1 z fun heq => hxf.2.1 (heq ▸ hz)
    have hs2 : Rep m2 (some x) s := hs1.setParent hnodups
    refine hs2.congr fun z hz => ?_
    rw [h6 z fun heq => hxf.2.1 (heq ▸ hz),
      h5 z (hnotC z (.inr (.inr (.inr (.inl hz))))), h4 z fun heq => hys (heq ▸ hz)]
  · refine hu.congr fun z hz => hkeep z (fun heq => hxf.2.2 (heq ▸ hz)) (fun heq => hyu (heq ▸ hz))
      (fun hmem => hsu z hmem hz) (hnotC z (.inr (.inr (.inr (.inr hz)))))
  · rw [root_fork]
    exact hAround5.congr rfl fun z hz => h6 z fun heq => hxC (heq ▸ hz)
  · rw [inorder_plug_congr C (inorder_rotate d c c' c' c t s u x y)]
    exact hnodup

end Am335x.Rbtree
