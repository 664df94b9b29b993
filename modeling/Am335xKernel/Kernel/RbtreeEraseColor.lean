import Am335xKernel.Kernel.RbtreeInsert

/-!
# The colours after a deletion

When `rb_erase` has taken out a black node, a black node is missing on the paths through its
place, and `__rb_erase_color` goes up from there until one can be made up for.
-/

namespace Am335x.Rbtree

open RedBlack RedBlack.Tree List Option

variable {ν : Type*}

section

variable {m : Mem ν} {C : List (Frame ν)} {d : Side} {c c' : Color} {t s u v : Tree ν} {p y : ν}

lemma Holds.isBlack_eq (h : Holds m (plug C t)) : m.isBlack t.root = decide (t.color = .black) := by
  cases t with
  | leaf => rfl
  | node c l x r =>
    show decide ((m.node x).color = .black) = _
    have hx : m.node x = RbNode.fork .left c (parentOf C) l.root r.root := h.node (d := .left)
    rw [hx, RbNode.color_fork]
    rfl

lemma Holds.far (h : Holds m (plug C (fork d c t p s))) :
    Holds m (plug (⟨d.other, c, p, t⟩ :: C) s) := by
  rw [plug_cons, Frame.plug, fork_other]
  exact h

lemma Holds.of_far (h : Holds m (plug (⟨d.other, c, p, t⟩ :: C) s)) :
    Holds m (plug C (fork d c t p s)) := by
  rw [plug_cons, Frame.plug, fork_other] at h
  exact h

lemma not_both_black (h : Holds m (plug C (fork d c u y v)))
    (hred : u.color = .red ∨ v.color = .red) :
    ¬ (m.isBlack (m.node y).left && m.isBlack (m.node y).right) = true := by
  have hu : Holds m (plug (⟨d, c, y, v⟩ :: C) u) := h
  have hv : Holds m (plug (⟨d.other, c, y, u⟩ :: C) v) := by
    rw [plug_cons, Frame.plug, fork_other]
    exact h
  rw [Bool.and_eq_true, h.node]
  intro hboth
  have hcolors : u.color = .black ∧ v.color = .black := by
    cases d
    · exact ⟨of_decide_eq_true (hu.isBlack_eq ▸ hboth.1),
        of_decide_eq_true (hv.isBlack_eq ▸ hboth.2)⟩
    · exact ⟨of_decide_eq_true (hu.isBlack_eq ▸ hboth.2),
        of_decide_eq_true (hv.isBlack_eq ▸ hboth.1)⟩
  rcases hred with hred | hred
  · rw [hcolors.1] at hred
    cases hred
  · rw [hcolors.2] at hred
    cases hred

variable [DecidableEq ν] {w : ν}

lemma Holds.paintRoot (c' : Color) (h : Holds m (plug C (fork d c t p s))) :
    Holds (m.modify p (RbNode.setColor c')) (plug C (fork d c' t p s)) := by
  have hpaint := h.setColor c' (root_fork d c t s p)
  rw [paint_fork] at hpaint
  exact hpaint

lemma eraseLast_spec (h : Holds m (plug C (fork d c t p (fork d c' u y v))))
    (hw : v.root = some w) : ∃ m', eraseLast d m p y = some (m', false) ∧
      Holds m' (plug C (fork d c (fork d .black t p u) y (v.paint .black))) := by
  have hcolor : (m.node p).color = c := by rw [h.node, RbNode.color_fork]
  have h1 := (h.far.paintRoot c).of_far
  have h2 := h1.paintRoot .black
  have hfar : ((m.modify y (RbNode.setColor c)).modify p (RbNode.setColor .black)).node y =
      RbNode.fork d c (some p) u.root v.root := h2.far.node
  have h3 := (h2.far.far.setColor .black hw).of_far.of_far
  obtain ⟨m', hrot, h4⟩ := h3.rotate
  refine ⟨m', ?_, h4⟩
  simp only [eraseLast, hcolor, hfar, RbNode.child_other_fork, hw, bind_eq_bind, bind_some, hrot]
  rfl

lemma eraseBlack_both (h : Holds m (plug C (fork d c t p (fork d .black u y v))))
    (hu : u.color = .black) (hv : v.color = .black) : ∃ m', eraseBlack d m p y = some (m', true) ∧
      Holds m' (plug C (fork d c t p (fork d .red u y v))) := by
  have hnode := h.far.node
  have hblackv : m.isBlack v.root = true := h.far.far.isBlack_eq.trans (decide_eq_true hv)
  have hblacku : m.isBlack u.root = true := by
    have hleft : Holds m (plug (⟨d, .black, y, v⟩ :: ⟨d.other, c, p, t⟩ :: C) u) := h.far
    exact hleft.isBlack_eq.trans (decide_eq_true hu)
  have hboth : (m.isBlack (m.node y).left && m.isBlack (m.node y).right) = true := by
    rw [hnode]
    cases d
    · exact Bool.and_eq_true_iff.mpr ⟨hblacku, hblackv⟩
    · exact Bool.and_eq_true_iff.mpr ⟨hblackv, hblacku⟩
  refine ⟨m.modify y (RbNode.setColor .red), ?_, (h.far.paintRoot .red).of_far⟩
  rw [eraseBlack, if_pos hboth]

lemma eraseBlack_far (h : Holds m (plug C (fork d c t p (fork d c' u y v))))
    (hv : v.color = .red) (hw : v.root = some w) : ∃ m', eraseBlack d m p y = some (m', false) ∧
      Holds m' (plug C (fork d c (fork d .black t p u) y (v.paint .black))) := by
  have hfar : ¬ m.isBlack ((m.node y).child d.other) = true := by
    rw [h.far.node, RbNode.child_other_fork, h.far.far.isBlack_eq, hv]
    decide
  obtain ⟨m', hm', h'⟩ := eraseLast_spec h hw
  refine ⟨m', ?_, h'⟩
  rw [eraseBlack, if_neg (not_both_black h.far (.inr hv)), if_neg hfar, hm']

lemma eraseBlack_near {a b : Tree ν} {z : ν}
    (h : Holds m (plug C (fork d c t p (fork d .black (fork d .red a z b) y v))))
    (hv : v.color = .black) : ∃ m', eraseBlack d m p y = some (m', false) ∧
      Holds m' (plug C (fork d c (fork d .black t p a) z (fork d .black b y v))) := by
  have hfar : m.isBlack ((m.node y).child d.other) = true := by
    rw [h.far.node, RbNode.child_other_fork, h.far.far.isBlack_eq, hv]
    rfl
  have hnear : (m.node y).child d = some z := by
    rw [h.far.node, RbNode.child_fork, root_fork]
  have hz : Holds m (plug (⟨d, .black, y, v⟩ :: ⟨d.other, c, p, t⟩ :: C) (fork d .red a z b)) :=
    h.far
  have h1 : Holds (m.modify z (RbNode.setColor .black))
      (plug (⟨d.other, c, p, t⟩ :: C) (fork d .black (fork d .black a z b) y v)) :=
        hz.paintRoot .black
  have h2 := h1.paintRoot .red
  rw [← fork_other d .red, ← fork_other d .black] at h2
  obtain ⟨m3, hrot, h3⟩ := h2.rotate
  rw [fork_other, fork_other] at h3
  have hother : (m3.node p).child d.other = some z := by
    rw [h3.of_far.node, RbNode.child_other_fork, root_fork]
  obtain ⟨m', hm', h'⟩ := eraseLast_spec h3.of_far (root_fork d .red b v y)
  rw [paint_fork] at h'
  refine ⟨m', ?_, h'⟩
  rw [eraseBlack, if_neg (not_both_black h.far (.inl (color_fork d .red a b z))), if_pos hfar,
    hnear]
  simp [hrot, hother, hm']

lemma eraseStep_red (h : Holds m (plug C (fork d .black t p (fork d .red u y v)))) :
    ∃ m', eraseStep d m p = (u.root.bind fun other => eraseBlack d m' p other) ∧
      Holds m' (plug (⟨d, .black, y, v⟩ :: C) (fork d .red t p u)) := by
  have hother : (m.node p).child d.other = some y := by
    rw [h.node, RbNode.child_other_fork, root_fork]
  have hred : (m.node y).color = .red := by rw [h.far.node, RbNode.color_fork]
  have h1 := (h.far.paintRoot .black).of_far.paintRoot .red
  obtain ⟨m', hrot, h'⟩ := h1.rotate
  have h'' : Holds m' (plug (⟨d, .black, y, v⟩ :: C) (fork d .red t p u)) := h'
  refine ⟨m', ?_, h''⟩
  simp [eraseStep, hother, hred, hrot, h''.node, RbNode.child_other_fork]

lemma eraseStep_black (h : Holds m (plug C (fork d c t p (fork d .black u y v)))) :
    eraseStep d m p = eraseBlack d m p y := by
  have hother : (m.node p).child d.other = some y := by
    rw [h.node, RbNode.child_other_fork, root_fork]
  have hblack : ¬ (m.node y).color = .red := by
    rw [h.far.node, RbNode.color_fork]
    decide
  simp only [eraseStep, hother, bind_eq_bind, bind_some, hblack, if_false]

end

def Lists (m : Mem ν) (l : List ν) : Prop := ∃ t, Holds m t ∧ IsRedBlack t ∧ t.inorder = l

structure Missing (m : Mem ν) (C : List (Frame ν)) (t : Tree ν) (n : ℕ) (l : List ν) : Prop where
  holds : Holds m (plug C t)
  short : Short t n
  fits : Fits C .black (n + 1)
  inorder : (plug C t).inorder = l

section

variable {m : Mem ν} {C : List (Frame ν)} {d : Side} {c cu cv : Color} {t s s' u v : Tree ν}
  {p x y : ν} {n : ℕ} {l : List ν} {f : Frame ν}

lemma root_plug_cons (f : Frame ν) (C : List (Frame ν)) (t : Tree ν) :
    ∃ z ∈ nodesOf (f :: C), (plug (f :: C) t).root = some z := by
  induction C generalizing f t with
  | nil => exact ⟨f.node, mem_cons_self, root_fork _ _ _ _ _⟩
  | cons g C ih =>
    obtain ⟨z, hz, hroot⟩ := ih g (f.plug t)
    exact ⟨z, mem_cons_of_mem _ (mem_append_right _ hz), hroot⟩

lemma Holds.root_ne (h : Holds m (plug (f :: C) t)) : t.root ≠ m.root := by
  obtain ⟨z, hz, hroot⟩ := root_plug_cons f C t
  rw [h.root, hroot]
  intro ht
  have hnodup := (nodesOf_perm (f :: C) t).nodup_iff.mp h.nodup
  exact (nodup_append.mp hnodup).2.2 z (root_mem ht) z hz rfl

variable [DecidableEq ν] {fuel : ℕ}

lemma eraseBlack_spec (h : Holds m (plug C (fork d c t p (fork d .black u y v))))
    (ht : Balanced t .black n) (hu : Balanced u cu n) (hv : Balanced v cv n)
    (hC : Fits (⟨d, c, p, s⟩ :: C) .black (n + 1))
    (hl : (plug C (fork d c t p (fork d .black u y v))).inorder = l) :
    (∃ m' k, eraseBlack d m p y = some (m', true) ∧
      Missing m' C (fork d c t p (fork d .red u y v)) k l) ∨
    ∃ m', eraseBlack d m p y = some (m', false) ∧ Lists m' l := by
  cases cv with
  | red =>
    obtain ⟨w, hw⟩ := hv.exists_root_of_red
    obtain ⟨m', hm', h'⟩ := eraseBlack_far h hv.color_eq hw
    obtain ⟨k, hk, hkn⟩ := hv.blacken
    rw [hkn rfl] at hk
    refine .inr ⟨m', hm', _, h', fits_rebuild hC (Balanced.fork_black ht hu) hk, ?_⟩
    rw [← hl]
    refine inorder_plug_congr C ?_
    rw [inorder_rotate d c .black]
    exact inorder_fork_congr rfl (inorder_fork_congr rfl (inorder_paint .black v))
  | black =>
    cases cu with
    | black =>
      obtain ⟨m', hm', h'⟩ := eraseBlack_both h hu.color_eq hv.color_eq
      obtain ⟨k, hshort, hfits⟩ := Fits.short hC ht (Balanced.fork_red (x := y) (d := d) hu hv)
      refine .inl ⟨m', k, hm', h', hshort, hfits, ?_⟩
      rw [← hl]
      exact inorder_plug_congr C (inorder_fork_congr rfl (inorder_fork_congr rfl rfl))
    | red =>
      obtain ⟨z, hz⟩ := hu.exists_root_of_red
      obtain ⟨a, b, hab⟩ := exists_fork d hz
      rw [hu.color_eq] at hab
      rw [hab] at h hu hl
      obtain ⟨ha, hb⟩ := hu.of_fork_red
      obtain ⟨m', hm', h'⟩ := eraseBlack_near h hv.color_eq
      refine .inr ⟨m', hm', _, h',
        fits_rebuild hC (Balanced.fork_black ht ha) (Balanced.fork_black hb hv), ?_⟩
      rw [← hl]
      refine inorder_plug_congr C ?_
      rw [inorder_rotate d c .black]
      exact inorder_fork_congr rfl (inorder_rotate d .black .black .black .red a b v z y).symm

/-- **The body of the loop.** The loop goes on one place further up or ends at a red node,
or the tree is balanced again. -/
lemma eraseStep_spec (h : Missing m (f :: C) t n l) (ht : t.color = .black) :
    (∃ m' C' t' k, eraseStep f.side m f.node = some (m', true) ∧ Missing m' C' t' k l ∧
      t'.root = some f.node ∧ (t'.color = .red ∨ C' = C)) ∨
    ∃ m', eraseStep f.side m f.node = some (m', false) ∧ Lists m' l := by
  obtain ⟨d, c, p, s⟩ := f
  have hbal := h.short.black ht
  have hsib : ∃ c', Balanced s c' (n + 1) ∧ (c' = .red → c = .black) := by
    cases h.fits with
    | red hs hC => exact ⟨.black, hs, nofun⟩
    | black hs hC => exact ⟨_, hs, fun _ => rfl⟩
  obtain ⟨c', hs, hc⟩ := hsib
  obtain ⟨y, hy⟩ := hs.exists_root
  obtain ⟨u, v, huv⟩ := exists_fork d hy
  rw [hs.color_eq] at huv
  have hholds : Holds m (plug C (fork d c t p s)) := h.holds
  have hin : (plug C (fork d c t p s)).inorder = l := h.inorder
  have hfits := h.fits
  rw [huv] at hholds hin hs
  cases c' with
  | black =>
    obtain ⟨k, c1, c2, hk, hu, hv⟩ := hs.of_fork_black
    obtain rfl : n = k := Nat.succ.inj hk
    rw [show eraseStep d m p = _ from eraseStep_black hholds]
    rcases eraseBlack_spec hholds hbal hu hv hfits hin with ⟨m', k, hm', hmiss⟩ | hdone
    · exact .inl ⟨m', C, _, k, hm', hmiss, root_fork _ _ _ _ _, .inr rfl⟩
    · exact .inr hdone
  | red =>
    obtain rfl := hc rfl
    obtain ⟨hu, hv⟩ := hs.of_fork_red
    obtain ⟨m1, hm1, h1⟩ := eraseStep_red hholds
    obtain ⟨w, hw⟩ := hu.exists_root
    obtain ⟨a, b, hab⟩ := exists_fork d hw
    rw [hu.color_eq] at hab
    have hC : Fits C .black (n + 1 + 1) := by
      cases hfits with
      | black hs hC => exact hC
    have hfits1 : Fits (⟨d, .red, p, u⟩ :: ⟨d, .black, y, v⟩ :: C) .black (n + 1) :=
      .red hu (.black hv hC)
    have hin1 : (plug (⟨d, .black, y, v⟩ :: C) (fork d .red t p u)).inorder = l := by
      rw [← hin]
      exact inorder_plug_congr C (inorder_rotate d .black .red .black .red t u v p y)
    rw [hw] at hm1
    rw [show eraseStep d m p = _ from hm1, bind_some]
    rw [hab] at h1 hu hin1
    obtain ⟨k, c1, c2, hk, ha, hb⟩ := hu.of_fork_black
    obtain rfl : n = k := Nat.succ.inj hk
    rcases eraseBlack_spec h1 hbal ha hb hfits1 hin1 with ⟨m', k, hm', hmiss⟩ | hdone
    · exact .inl ⟨m', _, _, k, hm', hmiss, root_fork _ _ _ _ _, .inl (color_fork _ _ _ _ _)⟩
    · exact .inr hdone

lemma eraseLoop_step (h : Missing m (f :: C) t n l)
    (ht : t.color = .black) : eraseLoop (fuel + 1) m t.root (some f.node) =
      (eraseStep f.side m f.node).bind fun q =>
        if q.2 then eraseLoop fuel q.1 (some f.node) (q.1.node f.node).parent
        else some (q.1, q.1.root) := by
  have hcond : (m.isBlack t.root && decide (t.root ≠ m.root)) = true := by
    rw [h.holds.isBlack_eq, ht, decide_eq_true h.holds.root_ne]
    rfl
  have hne : f.sibling.root ≠ t.root := by
    have hsib : ∃ w, f.sibling.root = some w := by
      cases h.fits with
      | red hs hC | black hs hC => exact hs.exists_root
    obtain ⟨w, hw⟩ := hsib
    intro heq
    exact h.holds.sibling_ne (heq.symm.trans hw) hw
  have hside := side_eq h.holds.parent hne
  simp only [eraseLoop, hcond, if_true, bind_eq_bind, bind_some, hside]

/-- What the loop leaves, but for the color of the last node. -/
def Ended (l : List ν) (r : Option (Mem ν × Option ν)) : Prop :=
  ∃ m' C' t', r = some (m', t'.root) ∧ Holds m' (plug C' t') ∧
    IsRedBlack (plug C' (t'.paint .black)) ∧ (plug C' t').inorder = l

/-- **The loop of `__rb_erase_color`.** By induction on the fuel. A red node ends the loop at
once, so that the rotation at a red sibling, which puts the place one deeper, does no harm. -/
lemma eraseLoop_spec (h : Missing m C t n l) (hfuel : C.length + 1 < fuel) :
    Ended l (eraseLoop fuel m t.root (parentOf C)) := by
  have stop : ∀ {m : Mem ν} {C : List (Frame ν)} {t : Tree ν} {n fuel : ℕ}, Missing m C t n l →
      t.color = .red → Ended l (eraseLoop (fuel + 1) m t.root (parentOf C)) := by
    intro m C t n fuel h hred
    refine ⟨m, C, t, if_neg ?_, h.holds, h.fits.plug (h.short.red hred), h.inorder⟩
    rw [h.holds.isBlack_eq, hred]
    exact nofun
  induction fuel generalizing m C t n with
  | zero => cases hfuel
  | succ fuel ih =>
    cases hcolor : t.color with
    | red => exact stop h hcolor
    | black =>
      cases C with
      | nil =>
        have hbal := h.short.black hcolor
        have hroot : ¬ (m.isBlack t.root && decide (t.root ≠ m.root)) = true := by
          rw [show m.root = t.root from h.holds.root]
          simp
        have hpaint : t.paint .black = t := isRedBlack_paint ⟨n, hbal⟩
        refine ⟨m, [], t, if_neg hroot, h.holds, ?_, h.inorder⟩
        rw [hpaint]
        exact ⟨n, hbal⟩
      | cons f C =>
        show Ended l (eraseLoop (fuel + 1) m t.root (some f.node))
        rw [eraseLoop_step h hcolor]
        rcases eraseStep_spec h hcolor with
          ⟨m1, C1, t1, k, hstep, hmiss, hroot, hnext⟩ | ⟨m1, hstep, t1, h1, hrb, hin⟩
        · have hparent : (m1.node f.node).parent = parentOf C1 := by
            obtain ⟨a, b, hab⟩ := exists_fork .left hroot
            have hholds := hmiss.holds
            rw [hab] at hholds
            rw [hholds.node, RbNode.parent_fork]
          rw [hstep, bind_some]
          rw [hparent, ← hroot]
          rw [length_cons] at hfuel
          rcases hnext with hred | rfl
          · obtain ⟨fuel, rfl⟩ : ∃ k, fuel = k + 1 := Nat.exists_eq_add_one.mpr (by omega)
            exact stop hmiss hred
          · exact ih hmiss (by omega)
        · rw [hstep, bind_some]
          refine ⟨m1, [], t1, ?_, h1, ?_, hin⟩
          · rw [← h1.root]
            rfl
          · rw [isRedBlack_paint hrb]
            exact hrb

/-- **`__rb_erase_color`.** -/
lemma rbEraseColor_spec (h : Missing m C t n l) (hfuel : C.length + 1 < fuel) :
    ∃ m', rbEraseColor fuel m t.root (parentOf C) = some m' ∧ Lists m' l := by
  obtain ⟨m1, C1, t1, hloop, h1, hrb, hin⟩ := eraseLoop_spec h hfuel
  have hcolor : rbEraseColor fuel m t.root (parentOf C) =
      some (t1.root.elim m1 fun x => m1.modify x (RbNode.setColor .black)) := by
    rw [rbEraseColor, hloop]
    rfl
  refine ⟨_, hcolor, plug C1 (t1.paint .black), ?_, hrb, ?_⟩
  · cases hroot : t1.root with
    | none =>
      have hleaf : t1.paint .black = t1 := by
        cases t1 with
        | leaf => rfl
        | node c a x b => cases hroot
      rw [hleaf]
      exact h1
    | some x => exact h1.setColor .black hroot
  · rw [← hin]
    exact inorder_plug_congr C1 (inorder_paint .black t1)

end

end Am335x.Rbtree
