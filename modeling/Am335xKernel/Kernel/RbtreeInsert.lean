import Am335xKernel.Kernel.RbtreeMem

/-!
# Insertion into red-black trees

`rb_link_node` puts a red node at an empty place, and `rb_insert_color` goes up from there
as long as there is a red node with a red parent. The subtree at which it is has the right
number of black nodes all the time; only the colour of its root may be wrong.
-/

namespace Am335x.Rbtree

open RedBlack RedBlack.Tree Balanced List

variable {ν : Type*}

def LinkAt (C : List (Frame ν)) (d : Side) : Prop := ∀ f ∈ C.head?, f.side = d

variable {m : Mem ν} {C : List (Frame ν)} {f : Frame ν} {d : Side} {t : Tree ν} {x : ν}

lemma Holds.sibling_ne (h : Holds m (plug (f :: C) t)) (hx : t.root = some x)
    : f.sibling.root ≠ some x := by
  intro heq
  have hnodup := (nodesOf_perm C (f.plug t)).nodup_iff.mp h.nodup
  obtain ⟨-, -, -, -, hdisj⟩ := nodup_inorder_fork.mp (nodup_append.mp hnodup).1
  exact hdisj x (root_mem hx) (root_mem heq)

lemma Holds.parent (h : Holds m (plug (f :: C) t)) :
    m.node f.node = RbNode.fork f.side f.color (parentOf C) t.root f.sibling.root :=
  (holds_plug.mp h).2.1.1

lemma Holds.parent_eq (h : Holds m (plug C t)) (hx : t.root = some x)
    : (m.node x).parent = parentOf C := by
  obtain ⟨s, u, ht⟩ := exists_fork .left hx
  rw [ht] at h
  rw [h.node, RbNode.parent_fork]

lemma isRedBlack_paint (h : IsRedBlack t) : t.paint .black = t := by
  obtain ⟨n, hn⟩ := h
  rw [← hn.color_eq]
  exact paint_color t

variable [DecidableEq ν]

lemma Holds.link (h : Holds m (plug C .leaf)) (hx : x ∉ (plug C (.leaf : Tree ν)).inorder)
    (hd : LinkAt C d) :
    Holds (rbLinkNode m x (parentOf C) d) (plug C (fork .left .red .leaf x .leaf)) := by
  obtain ⟨-, hC, hnodup⟩ := holds_plug.mp h
  have hxC : x ∉ nodesOf C := fun hmem =>
    hx ((nodesOf_perm C .leaf).mem_iff.mpr (mem_append_right _ hmem))
  have hnodup' := (nodesOf_perm C .leaf).nodup_iff.mp hnodup
  have hnew : (plug C (fork .left .red .leaf x .leaf : Tree ν)).inorder.Nodup :=
    (nodesOf_perm C _).nodup_iff.mpr (nodup_cons.mpr ⟨hxC, hnodup'⟩)
  have hC1 : Around (m.modify x fun _ => ⟨.red, parentOf C, none, none⟩) C none :=
    hC.congr rfl fun y hy => Mem.modify_of_ne fun heq => hxC (heq ▸ hy)
  refine holds_plug.mpr ⟨?_, ?_, hnew⟩
  · refine rep_fork.mpr ⟨?_, trivial, trivial⟩
    cases C with
    | nil =>
      show (m.modify x fun _ => (⟨.red, none, none, none⟩ : RbNode ν)).node x = _
      rw [Mem.modify_self]
      rfl
    | cons f C =>
      have hne : x ≠ f.node := fun heq => hxC (heq ▸ mem_cons_self)
      exact (Mem.modify_of_ne hne).trans (Mem.modify_self _ _ _)
  · cases C with
    | nil => rfl
    | cons f C =>
      obtain ⟨hf, hs, hC'⟩ := hC1
      obtain rfl : f.side = d := hd f rfl
      obtain ⟨hfs, -⟩ := nodup_cons.mp (show (nodesOf (f :: C)).Nodup from hnodup')
      refine ⟨?_, hs.congr fun y hy => Mem.modify_of_ne ?_,
        hC'.congr rfl fun y hy => Mem.modify_of_ne ?_⟩
      · refine (Mem.modify_self _ _ _).trans ?_
        rw [hf, RbNode.setChild_fork, root_fork]
      · rintro rfl
        exact hfs (mem_append_left _ hy)
      · rintro rfl
        exact hfs (mem_append_right _ hy)

lemma side_eq {n : RbNode ν} {c : Color} {p near far : Option ν}
    (hn : n = RbNode.fork d c p near far) (hne : far ≠ near) :
    (if n.left = near then Side.left else Side.right) = d := by
  rw [hn]
  cases d
  · exact if_pos rfl
  · exact if_neg hne

variable {fuel : ℕ}

lemma insertLoop_black (h : Holds m (plug (f :: C) t)) (hx : t.root = some x)
    (hf : f.color = .black) : insertLoop (fuel + 1) m x = some m := by
  have hparent : (m.node x).parent = some f.node := h.parent_eq hx
  have hcolor : (m.node f.node).color = .black := by rw [h.parent, RbNode.color_fork, hf]
  simp [insertLoop, hparent, hcolor]

lemma insertLoop_red {g : Frame ν} (h : Holds m (plug (f :: g :: C) t)) (hx : t.root = some x)
    (hf : f.color = .red) : insertLoop (fuel + 1) m x =
      (insertStep g.side m x f.node g.node).bind fun p => insertLoop fuel p.1 p.2 := by
  have hup : Holds m (plug (g :: C) (f.plug t)) := h
  have hroot : (f.plug t).root = some f.node := root_fork _ _ _ _ _
  have hparent : (m.node x).parent = some f.node := h.parent_eq hx
  have hcolor : ¬ (m.node f.node).color = .black := by
    rw [h.parent, RbNode.color_fork, hf]
    decide
  have hgparent : (m.node f.node).parent = some g.node := hup.parent_eq hroot
  have hside : (if (m.node g.node).left = some f.node then Side.left else Side.right) = g.side := by
    have hg := hup.parent
    rw [hroot] at hg
    exact side_eq hg (hup.sibling_ne hroot)
  simp [insertLoop, hparent, hcolor, hgparent, hside]

section

variable {m : Mem ν} {C : List (Frame ν)} {d e : Side} {t s u : Tree ν} {x p q : ν} {n : ℕ}

omit [DecidableEq ν] in
lemma Holds.uncle {y : ν} (h : Holds m (plug C (fork d .black (fork e .red t p s) q u)))
    (hy : u.root = some y) : (m.node q).child d.other = some y ∧ (m.node y).color = u.color ∧
      Holds m (plug (⟨d.other, .black, q, fork e .red t p s⟩ :: C) u) := by
  have huncle : Holds m (plug (⟨d.other, .black, q, fork e .red t p s⟩ :: C) u) := by
    rw [plug_cons, Frame.plug, fork_other]
    exact h
  refine ⟨by rw [h.node, RbNode.child_other_fork, hy], ?_, huncle⟩
  obtain ⟨a, b, hab⟩ := exists_fork .left hy
  rw [hab] at huncle
  rw [huncle.node, RbNode.color_fork]

lemma insertStep_recolor (h : Holds m (plug C (fork d .black (fork e .red t p s) q u)))
    (hu : Balanced u .red n) : ∃ m', insertStep d m x p q = some (m', q) ∧
      Holds m' (plug C (fork d .red (fork e .black t p s) q (u.paint .black))) := by
  obtain ⟨y, hy⟩ := hu.exists_root_of_red
  obtain ⟨hchild, hcolor, huncle⟩ := h.uncle hy
  rw [hu.color_eq] at hcolor
  refine ⟨((m.modify y (RbNode.setColor .black)).modify p (RbNode.setColor .black)).modify q
    (RbNode.setColor .red), by simp only [insertStep, hchild, hcolor, if_true], ?_⟩
  have h1 := huncle.setColor .black hy
  rw [plug_cons, Frame.plug, fork_other] at h1
  have h2 : Holds _ (plug (⟨d, .black, q, u.paint .black⟩ :: C) (fork e .red t p s)) := h1
  have h3 := h2.setColor .black (root_fork _ _ _ _ _)
  rw [paint_fork] at h3
  have h4 := Holds.setColor (t := fork d .black (fork e .black t p s) q (u.paint .black)) .red h3
    (root_fork _ _ _ _ _)
  rw [paint_fork] at h4
  exact h4

lemma insertStep_of_black (hu : u.color = .black)
    (h : Holds m (plug C (fork d .black (fork e .red t p s) q u))) :
    insertStep d m x p q = insertStep.rotated d x p q m := by
  rcases hy : u.root with - | y
  · have hchild : (m.node q).child d.other = none := by rw [h.node, RbNode.child_other_fork, hy]
    simp [insertStep, hchild]
  · obtain ⟨hchild, hcolor, -⟩ := h.uncle hy
    simp [insertStep, hchild, hcolor, hu]

section

variable (h : Holds m (plug C (fork d .black (fork d .red t p s) q u)))
include h

lemma rotate_gparent :
    ∃ m', rotate d.other ((m.modify p (RbNode.setColor .black)).modify q (RbNode.setColor .red)) q =
        some m' ∧ Holds m' (plug C (fork d .black t p (fork d .red s q u))) := by
  have h1 : Holds m (plug (⟨d, .black, q, u⟩ :: C) (fork d .red t p s)) := h
  have h2 := h1.setColor .black (root_fork _ _ _ _ _)
  rw [paint_fork] at h2
  have h3 := Holds.setColor (t := fork d .black (fork d .black t p s) q u) .red h2
    (root_fork _ _ _ _ _)
  rw [paint_fork, ← fork_other d .red, ← fork_other d .black] at h3
  obtain ⟨m', hrot, h4⟩ := h3.rotate
  rw [fork_other, fork_other] at h4
  exact ⟨m', hrot, h4⟩

lemma insertStep_outer (hx : t.root = some x) (hu : u.color = .black) :
    ∃ m', insertStep d m x p q = some (m', x) ∧
      Holds m' (plug C (fork d .black t p (fork d .red s q u))) := by
  have hbelow : Holds m (plug (⟨d, .red, p, s⟩ :: ⟨d, .black, q, u⟩ :: C) t) := h
  have hinner : ¬ (m.node p).child d.other = some x := by
    rw [hbelow.parent, RbNode.child_other_fork]
    exact hbelow.sibling_ne hx
  obtain ⟨m', hrot, hm'⟩ := rotate_gparent h
  refine ⟨m', ?_, hm'⟩
  rw [insertStep_of_black hu h, insertStep.rotated, if_neg hinner]
  show ((rotate d.other _ q).bind fun m => some (m, x)) = _
  rw [hrot]
  rfl

end

lemma insertStep_inner {a b : Tree ν}
    (h : Holds m (plug C (fork d .black (fork d .red s p (fork d .red a x b)) q u)))
    (hu : u.color = .black) : ∃ m', insertStep d m x p q = some (m', p) ∧
      Holds m' (plug C (fork d .black (fork d .red s p a) x (fork d .red b q u))) := by
  have hup : Holds m (plug (⟨d, .black, q, u⟩ :: C) (fork d .red s p (fork d .red a x b))) := h
  have hinner : (m.node p).child d.other = some x := by
    rw [hup.node, RbNode.child_other_fork, root_fork]
  obtain ⟨m1, hrot1, h1⟩ := hup.rotate
  obtain ⟨m', hrot, hm'⟩ := rotate_gparent h1
  refine ⟨m', ?_, hm'⟩
  rw [insertStep_of_black hu h, insertStep.rotated, if_pos hinner, hrot1]
  show ((rotate d.other _ q).bind fun m => some (m, p)) = _
  rw [hrot]
  rfl

end

/-- **The loop of `rb_insert_color`.** -/
lemma insertLoop_spec {n : ℕ} (h : Holds m (plug C t)) (hx : t.root = some x)
    (ht : Balanced t .red n) (hC : Fits C .black n) (hfuel : C.length < fuel) :
    ∃ m' t', insertLoop fuel m x = some m' ∧ Holds m' t' ∧
      t'.inorder = (plug C t).inorder ∧ IsRedBlack (t'.paint .black) := by
  induction fuel generalizing m C t x n with
  | zero => cases hfuel
  | succ fuel ih =>
    cases hC with
    | root =>
      obtain ⟨k, hk, -⟩ := ht.blacken
      exact ⟨m, t, by simp [insertLoop, h.parent_eq hx, parentOf], h, rfl, k, hk⟩
    | @black d p s C _ c' _ hs hC =>
      have hrb : IsRedBlack (plug (⟨d, .black, p, s⟩ :: C) t) := (Fits.black hs hC).plug ht
      refine ⟨m, _, insertLoop_black h hx rfl, h, rfl, ?_⟩
      rw [isRedBlack_paint hrb]
      exact hrb
    | @red e p s C _ hs hC =>
      cases hC with
      | @black d q u C _ c' _ hu hC =>
        rw [insertLoop_red h hx rfl]
        have hstep : Holds m (plug C (fork d .black (fork e .red t p s) q u)) := h
        cases hcu : c' with
        | red =>
          rw [hcu] at hu
          obtain ⟨m1, hm1, h1⟩ := insertStep_recolor (x := x) hstep hu
          obtain ⟨k, hk, hk'⟩ := hu.blacken
          obtain rfl : k = n + 1 := hk' rfl
          rw [hm1]
          obtain ⟨m', t', hloop, hm', hin, hrb⟩ := ih h1 (root_fork _ _ _ _ _)
            (fork_red (fork_black ht hs) hk) hC
            (by simp only [length_cons] at hfuel; omega)
          refine ⟨m', t', hloop, hm', hin.trans ?_, hrb⟩
          exact inorder_plug_congr C (inorder_fork_congr
            (inorder_fork_congr rfl rfl) (inorder_paint _ _))
        | black =>
          rw [hcu] at hu
          obtain ⟨fuel, rfl⟩ : ∃ k, fuel = k + 1 :=
            ⟨fuel - 1, by simp only [length_cons] at hfuel; omega⟩
          rcases Side.eq_or_eq_other d e with rfl | rfl
          · obtain ⟨m', hm', h'⟩ := insertStep_outer hstep hx hu.color_eq
            have hrb : IsRedBlack (plug C (fork e .black t p (fork e .red s q u))) :=
              hC.plug (fork_black ht (fork_red hs hu))
            rw [hm']
            refine ⟨m', _, ?_, h', ?_, ?_⟩
            · exact insertLoop_black
                (C := C) (f := ⟨e, .black, p, fork e .red s q u⟩) h' hx rfl
            · refine inorder_plug_congr C ?_
              rw [← fork_other e .black, ← fork_other e .red, inorder_rotate _ .black .red,
                fork_other, fork_other]
              rfl
            · rw [isRedBlack_paint hrb]
              exact hrb
          · obtain ⟨a, b, hab⟩ := exists_fork d hx
            rw [ht.color_eq] at hab
            rw [hab, fork_other] at hstep
            rw [hab] at ht
            obtain ⟨ha, hb⟩ := of_fork_red ht
            obtain ⟨m', hm', h'⟩ := insertStep_inner hstep hu.color_eq
            have hrb : IsRedBlack
                (plug C (fork d .black (fork d .red s p a) x (fork d .red b q u))) :=
              hC.plug (fork_black (fork_red hs ha) (fork_red hb hu))
            rw [hm']
            refine ⟨m', _, ?_, h', ?_, ?_⟩
            · exact insertLoop_black
                (C := C) (f := ⟨d, .black, x, fork d .red b q u⟩) h' (root_fork _ _ _ _ _) rfl
            · refine inorder_plug_congr C ?_
              rw [hab, Frame.plug, Frame.plug, fork_other,
                ← inorder_rotate d .black .red .black .black]
              exact inorder_fork_congr (inorder_rotate d .red .red .black .red s a b p x) rfl
            · rw [isRedBlack_paint hrb]
              exact hrb

/-- **Insertion at an empty place.** -/
lemma rbInsert_spec (h : Holds m (plug C .leaf)) (hrb : IsRedBlack (plug C (.leaf : Tree ν)))
    (hx : x ∉ (plug C (.leaf : Tree ν)).inorder) (hd : LinkAt C d) (hfuel : C.length < fuel) :
    ∃ m' t', rbInsertColor fuel (rbLinkNode m x (parentOf C) d) x = some m' ∧ Holds m' t' ∧
      IsRedBlack t' ∧ t'.inorder = before C ++ x :: behind C := by
  obtain ⟨c, n, hleaf, hC⟩ := fits_of_plug hrb
  cases hleaf
  have hlink := h.link hx hd
  obtain ⟨m1, t1, hloop, h1, hin, hrb1⟩ :=
    insertLoop_spec hlink (root_fork _ _ _ _ _) (fork_red .leaf .leaf) hC hfuel
  have hin' : t1.inorder = before C ++ x :: behind C := by
    rw [hin, inorder_plug]
    rfl
  obtain ⟨y, hy⟩ : ∃ y, t1.root = some y := by
    cases t1 with
    | leaf => exact absurd hin'.symm (append_ne_nil_of_right_ne_nil _ nofun)
    | node c l y r => exact ⟨y, rfl⟩
  have hroot : Holds m1 (plug [] t1) := h1
  refine ⟨m1.modify y (RbNode.setColor .black), t1.paint .black, ?_, hroot.setColor .black hy, hrb1,
    ?_⟩
  · rw [rbInsertColor, hloop]
    show (m1.root.bind fun root => some (m1.modify root (RbNode.setColor .black))) = _
    rw [h1.root, hy]
    rfl
  · rw [inorder_paint, hin']

end Am335x.Rbtree
