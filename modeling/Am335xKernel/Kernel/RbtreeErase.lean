import Am335xKernel.Kernel.RbtreeEraseColor

/-!
# Deletion from red-black trees

`rb_erase` takes out a node that has at most one child: the node itself, or the next one,
which then takes its place.
-/

namespace Am335x.Rbtree

open RedBlack RedBlack.Tree List Option Mem RbNode

variable {ν : Type*}

section

variable {m m' : Mem ν} {C R : List (Frame ν)} {d : Side} {c : Color} {t t' s l r : Tree ν}
  {p : Option ν} {x y : ν}

lemma Rep.plug_congr (h : Rep m p (plug R t)) (hroot : t'.root = t.root)
    (hrep : ∀ q, Rep m q t → Rep m' q t') (heq : ∀ z ∈ nodesOf R, m'.node z = m.node z) :
    Rep m' p (plug R t') := by
  induction R generalizing t t' with
  | nil => exact hrep p h
  | cons f R ih =>
    refine ih h ((root_fork _ _ _ _ _).trans (root_fork _ _ _ _ _).symm) ?_ fun z hz =>
      heq z (mem_cons_of_mem _ (mem_append_right _ hz))
    intro q hq
    obtain ⟨hnode, ht, hs⟩ := rep_fork.mp hq
    refine rep_fork.mpr ⟨?_, hrep _ ht, hs.congr fun z hz => heq z ?_⟩
    · rw [heq f.node mem_cons_self, hnode, hroot]
    · exact mem_cons_of_mem _ (mem_append_left _ hz)

lemma root_plug_congr (f : Frame ν) (R : List (Frame ν)) (t t' : Tree ν) :
    (plug (f :: R) t).root = (plug (f :: R) t').root := by
  induction R generalizing f t t' with
  | nil => exact (root_fork _ _ _ _ _).trans (root_fork _ _ _ _ _).symm
  | cons g R ih => exact ih g (f.plug t) (f.plug t')

lemma Rep.of_plug (h : Rep m p (plug R t)) : ∃ q, Rep m q t := by
  induction R generalizing t with
  | nil => exact ⟨p, h⟩
  | cons f R ih =>
    obtain ⟨q, hq⟩ := ih h
    exact ⟨_, (rep_fork.mp hq).2.1⟩

lemma Rep.of_plug_cons (h : Rep m p (plug (f :: R) t)) : Rep m (some f.node) t := by
  obtain ⟨q, hq⟩ := Rep.of_plug (show Rep m p (plug R (f.plug t)) from h)
  exact (rep_fork.mp hq).2.1

lemma before_eq_nil (hR : ∀ f ∈ R, f.side = .left) : before R = [] := by
  induction R with
  | nil => rfl
  | cons f R ih =>
    rw [before, hR f mem_cons_self]
    exact ih fun g hg => hR g (mem_cons_of_mem _ hg)

lemma inorder_leftmost {cy : Color} (hR : ∀ f ∈ R, f.side = .left) :
    (plug R (node cy .leaf y s)).inorder = y :: (plug R s).inorder := by
  rw [inorder_plug, inorder_plug, before_eq_nil hR]
  rfl

variable [DecidableEq ν]

lemma Holds.unlink (h : Holds m (plug C (fork d c .leaf x s))) :
    Holds (Rbtree.unlink m x s.root) (plug C s) := by
  obtain ⟨hrep, hC, hnodup⟩ := holds_plug.mp h
  obtain ⟨hx, -, hs⟩ := rep_fork.mp hrep
  rw [root_fork] at hC
  have hnodup' := (nodesOf_perm C _).nodup_iff.mp hnodup
  obtain ⟨htree, hnodupC, hdisj⟩ := nodup_append.mp hnodup'
  obtain ⟨-, hxs, -, hnodups, -⟩ := nodup_inorder_fork.mp htree
  have hxC : x ∉ nodesOf C := fun hmem =>
    hdisj x (mem_inorder_fork.mpr (.inl rfl)) x hmem rfl
  have hsC : ∀ z ∈ s.inorder, z ∉ nodesOf C := fun z hz hmem =>
    hdisj z (mem_inorder_fork.mpr (.inr (.inr hz))) z hmem rfl
  have hparent : (m.node x).parent = parentOf C := by rw [hx, parent_fork]
  have hC1 : Around (s.root.elim m fun z => m.modify z (setParent (parentOf C))) C (some x) :=
    hC.congr elim_root fun z hz => elim_node fun hmem => hsC z hmem hz
  obtain ⟨hC2, hframe⟩ := hC1.replaceChild .left s.root hxC hnodupC
  rw [Rbtree.unlink, hparent]
  refine holds_plug.mpr ⟨(hs.setParent hnodups).congr fun z hz => hframe z (hsC z hz), hC2, ?_⟩
  exact (nodesOf_perm C s).nodup_iff.mpr (nodup_append.mpr
    ⟨hnodups, hnodupC, fun a ha b hb hab => hsC a ha (hab ▸ hb)⟩)

lemma settle_of_ne {left z : ν} (hzy : z ≠ y) (hzl : z ≠ left) :
    (settle m x y left).node z = m.node z := by
  rw [settle, modify_of_ne hzl, modify_of_ne hzy, modify_of_ne hzy]

lemma holds_settle {left : ν} (hx : (m.node x).parent = parentOf C) (hc : (m.node x).color = c)
    (hy : (m.node y).right = r.root) (hl : Rep m (some x) l) (hleft : l.root = some left)
    (hr : Rep m (some y) r) (hC : Around m C (some y))
    (hnodup : (plug C (node c l y r)).inorder.Nodup) :
    Holds (settle m x y left) (plug C (node c l y r)) := by
  have hnodup' := (nodesOf_perm C _).nodup_iff.mp hnodup
  obtain ⟨htree, -, hdisj⟩ := nodup_append.mp hnodup'
  obtain ⟨hyl, hyr, hnodupl, -, hlr⟩ :=
    nodup_inorder_fork.mp (show (fork .left c l y r).inorder.Nodup from htree)
  have hmem : left ∈ l.inorder := root_mem hleft
  refine holds_plug.mpr ⟨⟨?_, ?_, ?_⟩, ?_, hnodup⟩
  · have hne : y ≠ left := fun heq => hyl (heq ▸ hmem)
    rw [settle, modify_of_ne hne, modify_self, modify_self, hx, hc, hleft, ← hy]
    rfl
  · have hl' : Rep ((m.modify y fun n =>
        { n with parent := (m.node x).parent, color := (m.node x).color }).modify
        y (setChild (some left) .left)) (some x) l := by
      refine hl.congr fun z hz => ?_
      have hzy : z ≠ y := fun heq => hyl (heq ▸ hz)
      rw [modify_of_ne hzy, modify_of_ne hzy]
    have hset := hl'.setParent (q := some y) hnodupl
    rw [hleft] at hset
    exact hset
  · refine hr.congr fun z hz => settle_of_ne (fun heq => hyr (heq ▸ hz)) fun heq => ?_
    exact hlr left hmem (heq ▸ hz)
  · refine hC.congr rfl fun z hz => settle_of_ne (fun heq => ?_) fun heq => ?_
    · exact hdisj y (mem_append_right _ mem_cons_self) z hz heq.symm
    · exact hdisj left (mem_append_left _ hmem) z hz heq.symm

section

variable {f : Frame ν} {cy : Color} {right : ν}

lemma detach_root {g : ν} {child : Option ν} : (detach m g y right child).root = m.root := by
  cases child <;> rfl

lemma detach_frame {z : ν} (hright : (plug (f :: R) s).root = some right)
    (hz : z ∉ (plug (f :: R) (node cy .leaf y s)).inorder) :
    (detach m f.node y right s.root).node z = m.node z := by
  have hperm := nodesOf_perm (f :: R) (node cy .leaf y s)
  have hperm' := nodesOf_perm (f :: R) s
  have hzs : z ∉ s.inorder := fun hmem => hz (mem_inorder_plug (mem_cons_of_mem _ hmem))
  have hzf : z ≠ f.node := fun heq =>
    hz (hperm.mem_iff.mpr (mem_append_right _ (heq ▸ mem_cons_self)))
  have hzy : z ≠ y := fun heq => hz (mem_inorder_plug (heq ▸ mem_cons_self))
  have hzr : z ≠ right := by
    intro heq
    have hmem := hperm'.mem_iff.mp (root_mem hright)
    exact hz (hperm.mem_iff.mpr (heq ▸ mem_cons_of_mem _ hmem))
  rw [detach, modify_of_ne hzr, modify_of_ne hzy, modify_of_ne hzf, elim_node hzs]

lemma Rep.detach (hf : f.side = .left) (h : Rep m p (plug (f :: R) (node cy .leaf y s)))
    (hnodup : (plug (f :: R) (node cy .leaf y s)).inorder.Nodup)
    (hright : (plug (f :: R) s).root = some right) :
    Rep (Rbtree.detach m f.node y right s.root) (some y) (plug (f :: R) s) ∧
      ((Rbtree.detach m f.node y right s.root).node y).right = some right := by
  obtain ⟨d, cf, g, fs⟩ := f
  obtain rfl : d = .left := hf
  have hperm := (nodesOf_perm (⟨.left, cf, g, fs⟩ :: R) (node cy .leaf y s)).nodup_iff.mp hnodup
  obtain ⟨htree, hnodupR, hdisj⟩ := nodup_append.mp hperm
  obtain ⟨-, hnodups⟩ : y ∉ s.inorder ∧ s.inorder.Nodup := nodup_cons.mp htree
  have hsR : ∀ z ∈ s.inorder, z ∉ nodesOf (⟨.left, cf, g, fs⟩ :: R) := fun z hz hmem =>
    hdisj z (mem_cons_of_mem _ hz) z hmem rfl
  obtain ⟨hgR, -⟩ := nodup_cons.mp hnodupR
  have hgs : g ∉ s.inorder := fun hmem => hsR g hmem mem_cons_self
  have hrest : (plug (⟨.left, cf, g, fs⟩ :: R) s).inorder.Nodup ∧
      y ∉ (plug (⟨.left, cf, g, fs⟩ :: R) s).inorder := by
    have hperm' := nodesOf_perm (⟨.left, cf, g, fs⟩ :: R) s
    obtain ⟨hy, hnd⟩ := nodup_cons.mp hperm
    exact ⟨hperm'.nodup_iff.mpr hnd, fun hmem => hy (hperm'.mem_iff.mp hmem)⟩
  have hcut : Rep ((s.root.elim m fun z => m.modify z (RbNode.setParent (some g))).modify g
      (RbNode.setChild s.root .left)) p (plug (⟨.left, cf, g, fs⟩ :: R) s) := by
    have hfork : Rep m p (plug R (fork .left cf (node cy .leaf y s) g fs)) := h
    refine hfork.plug_congr rfl ?_ ?_
    · rintro q ⟨hg, ⟨-, -, hs⟩, hfs⟩
      refine ⟨?_, (hs.setParent hnodups).congr fun z hz => ?_, hfs.congr fun z hz => ?_⟩
      · rw [modify_self, elim_node hgs, hg]
        rfl
      · exact modify_of_ne fun heq => hgs (heq ▸ hz)
      · have hzg : z ≠ g := fun heq => hgR (heq ▸ mem_append_left _ hz)
        rw [modify_of_ne hzg]
        exact elim_node fun hmem =>
          hsR z hmem (mem_cons_of_mem _ (mem_append_left _ hz))
    · intro z hz
      have hzg : z ≠ g := fun heq => hgR (heq ▸ mem_append_right _ hz)
      rw [modify_of_ne hzg]
      exact elim_node fun hmem =>
        hsR z hmem (mem_cons_of_mem _ (mem_append_right _ hz))
  have hcut' : Rep (((s.root.elim m fun z => m.modify z (RbNode.setParent (some g))).modify g
      (RbNode.setChild s.root .left)).modify y (RbNode.setChild (some right) .right)) p
      (plug (⟨.left, cf, g, fs⟩ :: R) s) :=
    hcut.congr fun z hz => modify_of_ne fun heq => hrest.2 (heq ▸ hz)
  have hset := hcut'.setParent (q := some y) hrest.1
  rw [hright] at hset
  have hyr : y ≠ right := fun heq => hrest.2 (heq ▸ root_mem hright)
  refine ⟨hset, ?_⟩
  rw [Rbtree.detach, modify_of_ne hyr, modify_self]
  rfl

end

/-- **A node with two children** is replaced by the next one. -/
lemma splice_spec {cy : Color} {left right : ν}
    (h : Holds m (plug C (node c l x (plug R (node cy .leaf y s)))))
    (hR : ∀ f ∈ R, f.side = .left) (hleft : l.root = some left)
    (hright : (plug R (node cy .leaf y s)).root = some right) :
    ∃ m' parent, splice m x y left right = some (m', s.root, parent, cy) ∧
      Holds m' (plug (R ++ ⟨.right, c, y, l⟩ :: C) s) ∧
      parentOf (R ++ ⟨.right, c, y, l⟩ :: C) = some parent := by
  obtain ⟨⟨hx, hl, hr⟩, hC, hnodup⟩ := holds_plug.mp h
  obtain ⟨htree, hnodupC, hdisj⟩ := nodup_append.mp ((nodesOf_perm C _).nodup_iff.mp hnodup)
  obtain ⟨hxl, hxr, -, hnodupr, hlr⟩ := nodup_inorder_fork.mp
    (show (fork .left c l x (plug R (node cy .leaf y s))).inorder.Nodup from htree)
  have hnode : ∀ z ∈ (node c l x (plug R (node cy .leaf y s))).inorder, z ∉ nodesOf C :=
    fun z hz hmem => hdisj z hz z hmem rfl
  have hxC : x ∉ nodesOf C := hnode x (mem_append_right _ mem_cons_self)
  have hlC : ∀ z ∈ l.inorder, z ∉ nodesOf C := fun z hz => hnode z (mem_append_left _ hz)
  have hrC : ∀ z ∈ (plug R (node cy .leaf y s)).inorder, z ∉ nodesOf C := fun z hz =>
    hnode z (mem_append_right _ (mem_cons_of_mem _ hz))
  have hnew : (plug C (node c l y (plug R s))).inorder.Nodup := by
    refine hnodup.sublist ?_
    rw [inorder_plug, inorder_plug]
    refine (List.Sublist.refl _).append (List.Sublist.append ?_ (List.Sublist.refl _))
    show (l.inorder ++ y :: (plug R s).inorder).Sublist (l.inorder ++ x :: (plug R _).inorder)
    rw [inorder_leftmost hR]
    exact (List.Sublist.refl _).append (sublist_cons_self _ _)
  have hparent : (m.node x).parent = parentOf C := by rw [hx]
  obtain ⟨hC1, hframe⟩ := Around.replaceChild .left (some y) hC hxC hnodupC
  have hx1 := hframe x hxC
  rw [hx] at hx1
  have hl1 := hl.congr fun z hz => hframe z (hlC z hz)
  have hr1 := hr.congr fun z hz => hframe z (hrC z hz)
  have hplug : plug (R ++ ⟨.right, c, y, l⟩ :: C) s = plug C (node c l y (plug R s)) := by
    rw [plug_append]
    rfl
  rw [hplug]
  cases R with
  | nil =>
    obtain ⟨hy, -, hs⟩ := hr1
    refine ⟨_, y, ?_, holds_settle (congrArg RbNode.parent hx1) (congrArg RbNode.color hx1)
      (congrArg RbNode.right hy) hl1 hleft hs hC1 hnew, rfl⟩
    simp only [splice, hparent, hy, bind_eq_bind, bind_some, if_true]
    rfl
  | cons f R =>
    have hright' : (plug (f :: R) s).root = some right :=
      (root_plug_congr f R s (node cy .leaf y s)).trans hright
    obtain ⟨hr2, hyright⟩ := hr1.detach (hR f mem_cons_self) hnodupr hright'
    have hy := hr1.of_plug_cons.1
    have hfx : f.node ≠ x := fun heq => hxr
      (heq ▸ (nodesOf_perm (f :: R) _).mem_iff.mpr (mem_append_right _ mem_cons_self))
    have hx2 := (detach_frame hright' hxr).trans hx1
    have hl2 := hl1.congr fun z hz => detach_frame hright' (hlr z hz)
    have hC2 := hC1.congr detach_root fun z hz =>
      detach_frame hright' fun hmem => hrC z hmem hz
    refine ⟨_, f.node, ?_, holds_settle (congrArg RbNode.parent hx2) (congrArg RbNode.color hx2)
      (hyright.trans hright'.symm) hl2 hleft hr2 hC2 hnew, rfl⟩
    simp only [splice, hparent, hy, bind_eq_bind, bind_some, if_neg hfx]
    rfl

end

section

variable {m : Mem ν} {C R : List (Frame ν)} {d : Side} {c : Color} {t s l r : Tree ν}
  {p : Option ν} {x y : ν} {fuel : ℕ}

lemma descend_spec (h : Rep m p t) (hx : t.root = some x) (hfuel : t.inorder.length ≤ fuel) :
    ∃ R c y s, t = plug R (fork d c .leaf y s) ∧ (∀ f ∈ R, f.side = d) ∧
      descend d fuel m x = some y := by
  induction fuel generalizing t p x with
  | zero =>
    have hmem := root_mem hx
    rw [length_eq_zero_iff.mp (Nat.le_zero.mp hfuel)] at hmem
    cases hmem
  | succ fuel ih =>
    obtain ⟨near, far, hfork⟩ := exists_fork d hx
    rw [hfork] at h hfuel
    obtain ⟨hnode, hnear, -⟩ := rep_fork.mp h
    have hchild : (m.node x).child d = near.root := by rw [hnode, child_fork]
    cases hroot : near.root with
    | none =>
      have hleaf : near = .leaf := by
        cases near with
        | leaf => rfl
        | node c a z b => cases hroot
      refine ⟨[], t.color, x, far, ?_, forall_mem_nil _, ?_⟩
      · rw [← hleaf]
        exact hfork
      · rw [descend, hchild, hroot]
    | some z =>
      have hlen : near.inorder.length ≤ fuel := by
        have hle := length_inorder_fork d t.color near far x
        omega
      obtain ⟨R, c, y, s, hnear', hR, hdesc⟩ := ih hnear hroot hlen
      refine ⟨R ++ [⟨d, t.color, x, far⟩], c, y, s, ?_, ?_, ?_⟩
      · rw [plug_append, ← hnear']
        exact hfork
      · intro f hf
        rcases mem_append.mp hf with hf | hf
        · exact hR f hf
        · rw [mem_singleton.mp hf]
      · rw [descend, hchild, hroot]
        exact hdesc

lemma length_le_inorder (C : List (Frame ν)) (t : Tree ν) :
    C.length ≤ (plug C t).inorder.length := by
  rw [(nodesOf_perm C t).length_eq, length_append]
  refine Nat.le_add_left_of_le ?_
  induction C with
  | nil => exact Nat.le_refl 0
  | cons f C ih =>
    rw [nodesOf, length_cons, length_cons, length_append]
    omega

variable [DecidableEq ν]

lemma finish_spec (h : Holds m (plug C s)) (ht : Balanced (fork d c .leaf y s) c k)
    (hC : Fits C c k) (hfuel : C.length + 1 < fuel) :
    ∃ m', rbErase.finish fuel m s.root (parentOf C) c = some m' ∧ Lists m' (plug C s).inorder := by
  cases c with
  | red =>
    obtain ⟨-, hs⟩ := ht.of_fork_red
    exact ⟨m, if_neg nofun, _, h, hC.of_red.plug hs, rfl⟩
  | black =>
    obtain ⟨j, c1, c2, rfl, hleaf, hs⟩ := ht.of_fork_black
    cases hleaf
    have hshort : Short s 0 := by
      refine ⟨fun hblack => ?_, fun hred => ?_⟩
      · rw [← hs.color_eq, hblack] at hs
        exact hs
      · obtain ⟨k, hk, hkn⟩ := hs.blacken
        rw [hkn (hs.color_eq.symm.trans hred)] at hk
        exact hk
    obtain ⟨m', hm', hlists⟩ := rbEraseColor_spec ⟨h, hshort, hC, rfl⟩ hfuel
    exact ⟨m', (if_pos rfl).trans hm', hlists⟩

variable (h : Holds m (plug C (node c l x r))) (hrb : IsRedBlack (plug C (node c l x r)))
  (hfuel : (plug C (node c l x r)).inorder.length + 1 < fuel)

include h hrb hfuel in
lemma rbErase_two {left right : ν} (hleft : l.root = some left)
    (hright : r.root = some right) : ∃ m', rbErase fuel m x = some m' ∧
      Lists m' (before C ++ (l.inorder ++ r.inorder ++ behind C)) := by
  have hx : m.node x = ⟨c, parentOf C, l.root, r.root⟩ := h.node (d := .left)
  have hrlen : r.inorder.length ≤ fuel := by
    rw [inorder_plug, length_append, length_append] at hfuel
    have hlen := length_inorder_fork .left c l r x
    rw [show fork .left c l x r = node c l x r from rfl] at hlen
    omega
  obtain ⟨R, cy, y, s, hR, hside, hdesc⟩ :=
    descend_spec (d := .left) (holds_plug.mp h).1.2.2 hright hrlen
  rw [show fork .left cy .leaf y s = node cy .leaf y s from rfl] at hR
  subst hR
  -- The same tree, seen from the place of the next node.
  have hplace : plug C (node c l x (plug R (node cy .leaf y s))) =
      plug (R ++ ⟨.right, c, x, l⟩ :: C) (node cy .leaf y s) := by
    rw [plug_append]
    rfl
  rw [hplace] at hrb
  obtain ⟨c', k, hbal, hfits⟩ := fits_of_plug hrb
  obtain rfl : cy = c' := hbal.color_eq
  obtain ⟨m1, parent, hsplice, h1, hparent⟩ := splice_spec h hside hleft hright
  have hlen : (R ++ ⟨.right, c, y, l⟩ :: C).length + 1 < fuel := by
    have hle := length_le_inorder (R ++ ⟨.right, c, x, l⟩ :: C) (node cy .leaf y s)
    rw [hplace] at hfuel
    rw [length_append, length_cons] at hle ⊢
    omega
  obtain ⟨m', hm', hlists⟩ := finish_spec (d := .left) h1 hbal hfits.rename hlen
  refine ⟨m', ?_, ?_⟩
  · rw [hleft, hright] at hx
    rw [hparent] at hm'
    simp only [rbErase, hx, bind_eq_bind, hdesc, bind_some, hsplice]
    exact hm'
  · have hin : (plug (R ++ ⟨.right, c, y, l⟩ :: C) s).inorder =
        before C ++ (l.inorder ++ (plug R (node cy .leaf y s)).inorder ++ behind C) := by
      rw [plug_append, inorder_leftmost hside]
      exact inorder_plug C (node c l y (plug R s))
    rw [← hin]
    exact hlists

include h hrb hfuel in
/-- **`rb_erase`.** -/
lemma rbErase_spec : ∃ m', rbErase fuel m x = some m' ∧
      Lists m' (before C ++ (l.inorder ++ r.inorder ++ behind C)) := by
  have hx : m.node x = ⟨c, parentOf C, l.root, r.root⟩ := h.node (d := .left)
  have hCfuel : C.length + 1 < fuel := by
    have hle := length_le_inorder C (node c l x r)
    omega
  obtain ⟨c', k, hbal, hC⟩ := fits_of_plug hrb
  obtain rfl : c = c' := hbal.color_eq
  cases hl : l with
  | leaf =>
    subst hl
    have h1 : Holds (unlink m x r.root) (plug C r) := Holds.unlink (d := .left) h
    obtain ⟨m', hm', hlists⟩ := finish_spec (d := .left) h1 hbal hC hCfuel
    rw [inorder_plug] at hlists
    refine ⟨m', ?_, hlists⟩
    simp only [rbErase, hx]
    exact hm'
  | node cl ll left lr =>
    cases hr : r with
    | leaf =>
      subst hr
      rw [← hl]
      have h1 : Holds (unlink m x l.root) (plug C l) := Holds.unlink (d := .right) h
      obtain ⟨m', hm', hlists⟩ := finish_spec (d := .right) h1 hbal hC hCfuel
      rw [inorder_plug] at hlists
      refine ⟨m', ?_, ?_⟩
      · rw [hl] at hx hm'
        simp only [rbErase, hx]
        exact hm'
      · rw [inorder, append_nil]
        exact hlists
    | node cr rl right rr =>
      rw [← hl, ← hr]
      have hleft : l.root = some left := by rw [hl]; rfl
      have hright : r.root = some right := by rw [hr]; rfl
      exact rbErase_two h hrb hfuel hleft hright

end

end Am335x.Rbtree
