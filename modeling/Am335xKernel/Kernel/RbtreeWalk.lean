import Am335xKernel.Kernel.RbtreeErase

/-!
# Walking through a red-black tree

`rb_first` and `rb_last` go down on one side, `rb_next` and `rb_prev` go down on the one side
of a node, or up to the first node above it on the other side. With this the operations of
the tree are stated in terms of the sequence of its nodes.
-/

namespace Am335x.Rbtree

open RedBlack RedBlack.Tree List

variable {ν : Type*}

def endOn : Side → List ν → Option ν
  | .left, l => l.head?
  | .right, l => l.getLast?

def beyond : Side → List (Frame ν) → List ν
  | .left, C => before C
  | .right, C => behind C

section

variable {m : Mem ν} {C R : List (Frame ν)} {d : Side} {c : Color} {t s l r : Tree ν}
  {p : Option ν} {x y : ν} {fuel : ℕ}

lemma behind_eq_nil (hR : ∀ f ∈ R, f.side = .right) : behind R = [] := by
  induction R with
  | nil => rfl
  | cons f R ih =>
    rw [behind, hR f mem_cons_self]
    exact ih fun g hg => hR g (mem_cons_of_mem _ hg)

lemma endOn_plug (hR : ∀ f ∈ R, f.side = d) :
    endOn d (plug R (fork d c .leaf y s)).inorder = some y := by
  cases d with
  | left =>
    rw [show fork .left c .leaf y s = node c .leaf y s from rfl, inorder_leftmost hR]
    rfl
  | right =>
    have hin : (fork .right c .leaf y s).inorder = s.inorder ++ [y] := rfl
    rw [inorder_plug, behind_eq_nil hR, hin, append_nil, ← append_assoc]
    exact List.getLast?_concat

lemma descend_eq (h : Rep m p t) (hx : t.root = some x) (hfuel : t.inorder.length ≤ fuel) :
    (descend d fuel m x).map some = some (endOn d t.inorder) := by
  obtain ⟨R, c, y, s, hplug, hR, hdesc⟩ := descend_spec (d := d) h hx hfuel
  rw [hdesc, hplug, endOn_plug hR]
  rfl

/-- **`rb_first` and `rb_last`.** -/
lemma extreme_spec (h : Holds m t) (hfuel : t.inorder.length ≤ fuel) :
    extreme d fuel m = some (endOn d t.inorder) := by
  rw [extreme, h.root]
  cases hroot : t.root with
  | none =>
    obtain rfl : t = .leaf := by
      cases t with
      | leaf => rfl
      | node c a z b => cases hroot
    cases d <;> rfl
  | some x => exact descend_eq h.rep hroot hfuel

variable [DecidableEq ν]

lemma ascend_spec (h : Holds m (plug C t)) (hx : t.root = some x) (hfuel : C.length < fuel) :
    ascend d fuel m x = some (endOn d.other (beyond d C)) := by
  induction fuel generalizing C t x with
  | zero => cases hfuel
  | succ fuel ih =>
    have hparent : (m.node x).parent = parentOf C := by
      obtain ⟨a, b, hab⟩ := exists_fork .left hx
      rw [hab] at h
      rw [h.node, RbNode.parent_fork]
    cases C with
    | nil =>
      rw [ascend, hparent]
      cases d <;> rfl
    | cons f C =>
      have hstep : ascend d (fuel + 1) m x =
          if (m.node f.node).child d = some x then ascend d fuel m f.node
          else some (some f.node) := by
        rw [ascend, hparent]
        rfl
      have hup : Holds m (plug C (f.plug t)) := h
      rw [hstep, h.parent]
      obtain ⟨e, cf, g, fs⟩ := f
      rcases Side.eq_or_eq_other d e with rfl | rfl
      · rw [RbNode.child_fork, if_pos hx,
          ih hup (root_fork _ _ _ _ _) (Nat.lt_of_succ_lt_succ hfuel)]
        cases e <;> rfl
      · rw [RbNode.fork_other, RbNode.child_fork, if_neg (h.sibling_ne hx)]
        cases d with
        | left =>
          show some (some g) = some (before C ++ (fs.inorder ++ [g])).getLast?
          rw [← append_assoc, List.getLast?_concat]
        | right => rfl

/-- **`rb_next` and `rb_prev`.** -/
lemma neighbour_spec (h : Holds m (plug C (fork d c s x t)))
    (hfuel : (plug C (fork d c s x t)).inorder.length < fuel) : neighbour d fuel m x =
      some (if s.root = none then endOn d.other (beyond d C) else endOn d.other s.inorder) := by
  have hlen := length_le_inorder C (fork d c s x t)
  have hperm := (nodesOf_perm C (fork d c s x t)).length_eq
  rw [length_append, length_inorder_fork] at hperm
  have hself : ¬ (m.node x).parent = some x := by
    rw [h.node, RbNode.parent_fork]
    intro hparent
    cases C with
    | nil => cases hparent
    | cons f C =>
      cases hparent
      have hnodup := (nodesOf_perm (f :: C) _).nodup_iff.mp h.nodup
      exact (nodup_append.mp hnodup).2.2 f.node (mem_inorder_fork.mpr (.inl rfl)) f.node
        mem_cons_self rfl
  rw [neighbour, if_neg hself, h.node, RbNode.child_fork]
  cases hs : s.root with
  | none => exact ascend_spec h (root_fork _ _ _ _ _) (by omega)
  | some z =>
    rw [if_neg nofun]
    exact descend_eq (rep_fork.mp (holds_plug.mp h).1).2.1 hs (by omega)

variable (h : Holds m (plug C (node c l x r)))
  (hfuel : (plug C (node c l x r)).inorder.length < fuel)

include h hfuel in
lemma rbNext_spec : rbNext fuel m x = some (r.inorder ++ behind C).head? := by
  rw [rbNext, neighbour_spec (d := .right) (s := r) (t := l) (c := c) h hfuel]
  cases r with
  | leaf => rfl
  | node cr rl z rr =>
    show some ((node cr rl z rr).inorder.head?) = _
    rw [List.head?_append_of_ne_nil _ (ne_nil_of_mem (root_mem rfl))]

include h hfuel in
lemma rbPrev_spec : rbPrev fuel m x = some (before C ++ l.inorder).getLast? := by
  rw [rbPrev, neighbour_spec (d := .left) (s := l) (t := r) (c := c) h hfuel]
  cases l with
  | leaf =>
    rw [Tree.inorder, append_nil]
    rfl
  | node cl ll z lr =>
    show some ((node cl ll z lr).inorder.getLast?) = _
    rw [List.getLast?_append_of_ne_nil _ (ne_nil_of_mem (root_mem rfl))]

end

section

variable {m : Mem ν} {l a b : List ν} {x y : ν} {p : Option ν} {d : Side} {fuel : ℕ} {t : Tree ν}

lemma exists_place (hnodup : t.inorder.Nodup) (h : t.inorder = a ++ x :: b) :
    ∃ C c l r, t = plug C (node c l x r) ∧ a = before C ++ l.inorder ∧
      b = r.inorder ++ behind C := by
  have hx : x ∈ t.inorder := h ▸ mem_append_right _ mem_cons_self
  obtain ⟨C, c, l, r, rfl⟩ := exists_plug hx
  have hin : (plug C (node c l x r)).inorder =
      (before C ++ l.inorder) ++ x :: (r.inorder ++ behind C) := by
    rw [inorder_plug]
    simp only [Tree.inorder, append_assoc, cons_append]
  have hnot := hnodup
  rw [h, nodup_middle, nodup_cons, mem_append, not_or] at hnot
  obtain ⟨hxa, hxb⟩ := hnot.1
  rw [h] at hin
  obtain ⟨ha, -, hb⟩ := (append_cons_inj_of_notMem hxa hxb).mp hin
  exact ⟨C, c, l, r, rfl, ha, hb⟩

inductive NullAt (m : Mem ν) (l : List ν) : Option ν → Side → List ν → List ν → Prop
  | root (d : Side) (h : m.root = none) : NullAt m l none d [] []
  | left {p : ν} {a b : List ν} (hl : l = a ++ p :: b) (h : (m.node p).left = none) :
      NullAt m l (some p) .left a (p :: b)
  | right {p : ν} {a b : List ν} (hl : l = a ++ p :: b) (h : (m.node p).right = none) :
      NullAt m l (some p) .right (a ++ [p]) b

lemma eq_leaf_of_root (h : t.root = none) : t = .leaf := by
  cases t with
  | leaf => rfl
  | node c s z u => cases h

lemma NullAt.exists_place (ht : Holds m t) (h : NullAt m t.inorder p d a b) :
    ∃ C, t = plug C .leaf ∧ LinkAt C d ∧ parentOf C = p ∧ before C = a ∧ behind C = b := by
  cases h with
  | root d hroot =>
    have hleaf := eq_leaf_of_root (ht.root.symm.trans hroot)
    exact ⟨[], hleaf, fun f hf => (by cases hf), rfl, rfl, rfl⟩
  | @left p a b hl hnull =>
    obtain ⟨C, c, s, r, rfl, rfl, rfl⟩ := Rbtree.exists_place ht.nodup hl
    have hnode : m.node p = RbNode.fork .left c (parentOf C) s.root r.root := Holds.node ht
    rw [hnode] at hnull
    obtain rfl := eq_leaf_of_root hnull
    refine ⟨⟨.left, c, p, r⟩ :: C, rfl, ?_, rfl, (append_nil _).symm, rfl⟩
    intro f hf
    cases hf
    rfl
  | @right p a b hl hnull =>
    obtain ⟨C, c, s, r, rfl, rfl, rfl⟩ := Rbtree.exists_place ht.nodup hl
    have hnode : m.node p = RbNode.fork .left c (parentOf C) s.root r.root := Holds.node ht
    rw [hnode] at hnull
    obtain rfl := eq_leaf_of_root hnull
    refine ⟨⟨.right, c, p, s⟩ :: C, rfl, ?_, rfl, (append_assoc _ _ _).symm, rfl⟩
    intro f hf
    cases hf
    rfl

def enumerate (next : ν → Option (Option ν)) : ℕ → Option ν → Option (List ν)
  | 0, _ => none
  | _ + 1, none => some []
  | n + 1, some x => (next x).bind fun y => (enumerate next n y).map (x :: ·)

lemma enumerate_eq {next : ν → Option (Option ν)} {n : ℕ}
    (hnext : ∀ a x b, l = a ++ x :: b → next x = some b.head?) (hl : l = a ++ b)
    (hn : b.length < n) : enumerate next n b.head? = some b := by
  induction b generalizing a n with
  | nil =>
    obtain ⟨n, rfl⟩ : ∃ k, n = k + 1 := Nat.exists_eq_add_one.mpr hn
    rfl
  | cons x b ih =>
    obtain ⟨n, rfl⟩ : ∃ k, n = k + 1 := Nat.exists_eq_add_one.mpr (Nat.zero_lt_of_lt hn)
    have hrest : l = (a ++ [x]) ++ b := by rw [hl, append_assoc]; rfl
    show (next x).bind _ = _
    rw [hnext a x b hl, Option.bind_some, ih hrest (Nat.lt_of_succ_lt_succ hn)]
    rfl

variable [DecidableEq ν]

lemma Lists.insert (h : Lists m l) (hnull : NullAt m l p d a b) (hx : x ∉ l)
    (hfuel : l.length < fuel) :
    ∃ m', rbInsertColor fuel (rbLinkNode m x p d) x = some m' ∧ Lists m' (a ++ x :: b) := by
  obtain ⟨t, ht, hrb, rfl⟩ := h
  obtain ⟨C, rfl, hlink, rfl, rfl, rfl⟩ := hnull.exists_place ht
  have hlen := Nat.lt_of_le_of_lt (length_le_inorder C (.leaf : Tree ν)) hfuel
  obtain ⟨m', t', hm', ht', hrb', hin⟩ := rbInsert_spec ht hrb hx hlink hlen
  exact ⟨m', hm', t', ht', hrb', hin⟩

section

variable (h : Lists m (a ++ x :: b))
include h

lemma Lists.erase (hfuel : (a ++ x :: b).length + 1 < fuel) :
    ∃ m', rbErase fuel m x = some m' ∧ Lists m' (a ++ b) := by
  obtain ⟨t, ht, hrb, hin⟩ := h
  obtain ⟨C, c, s, r, rfl, rfl, rfl⟩ := exists_place ht.nodup hin
  rw [← hin] at hfuel
  obtain ⟨m', hm', hlists⟩ := rbErase_spec ht hrb hfuel
  refine ⟨m', hm', ?_⟩
  simp only [append_assoc] at hlists ⊢
  exact hlists

variable (hfuel : (a ++ x :: b).length < fuel)
include hfuel

lemma Lists.next : rbNext fuel m x = some b.head? := by
  obtain ⟨t, ht, hrb, hin⟩ := h
  obtain ⟨C, c, s, r, rfl, rfl, rfl⟩ := exists_place ht.nodup hin
  exact rbNext_spec ht (hin ▸ hfuel)

lemma Lists.prev : rbPrev fuel m x = some a.getLast? := by
  obtain ⟨t, ht, hrb, hin⟩ := h
  obtain ⟨C, c, s, r, rfl, rfl, rfl⟩ := exists_place ht.nodup hin
  exact rbPrev_spec ht (hin ▸ hfuel)

end

/-- Insertion at any NULL pointer and deletion of any node give a red-black tree again, with the
node inserted there and with the node removed; and the loops over the nodes visit them in order,
forwards and backwards. -/
theorem rbtree_right (h : Lists m l) (hfuel : l.length + 1 < fuel) :
    (∀ x p d a b, x ∉ l → NullAt m l p d a b →
      ∃ m', rbInsertColor fuel (rbLinkNode m x p d) x = some m' ∧ Lists m' (a ++ x :: b)) ∧
    (∀ x a b, l = a ++ x :: b → ∃ m', rbErase fuel m x = some m' ∧ Lists m' (a ++ b)) ∧
    (rbFirst fuel m).bind (enumerate (rbNext fuel m) fuel) = some l ∧
    (rbLast fuel m).bind (enumerate (rbPrev fuel m) fuel) = some l.reverse := by
  have hfuel' : l.length < fuel := Nat.lt_of_succ_lt hfuel
  refine ⟨?_, ?_, ?_, ?_⟩
  · intro x p d a b hx hnull
    exact h.insert hnull hx hfuel'
  · rintro x a b rfl
    exact h.erase hfuel
  · have hfirst : rbFirst fuel m = some l.head? := by
      obtain ⟨t, ht, hrb, rfl⟩ := h
      exact extreme_spec (d := .left) ht (Nat.le_of_lt hfuel')
    rw [hfirst, Option.bind_some]
    refine enumerate_eq (l := l) (a := []) ?_ rfl hfuel'
    rintro a x b rfl
    exact h.next hfuel'
  · have hlast : rbLast fuel m = some l.reverse.head? := by
      obtain ⟨t, ht, hrb, rfl⟩ := h
      rw [List.head?_reverse]
      exact extreme_spec (d := .right) ht (Nat.le_of_lt hfuel')
    rw [hlast, Option.bind_some]
    have hlen : l.reverse.length < fuel := by rwa [length_reverse]
    refine enumerate_eq (l := l.reverse) (a := []) ?_ rfl hlen
    intro a x b hl
    obtain rfl : l = b.reverse ++ x :: a.reverse := by
      rw [← reverse_reverse l, hl]
      simp
    rw [h.prev hfuel', List.getLast?_reverse]

def three : Mem ℕ where
  root := some 2
  node := fun
    | 1 => ⟨.red, some 2, none, none⟩
    | 2 => ⟨.black, none, some 1, some 3⟩
    | _ => ⟨.red, some 2, none, none⟩

lemma lists_three : Lists three [1, 2, 3] := by
  refine ⟨node .black (node .red .leaf 1 .leaf) 2 (node .red .leaf 3 .leaf), ⟨rfl, ?_, by decide⟩,
    ?_, rfl⟩
  · exact ⟨rfl, ⟨rfl, trivial, trivial⟩, rfl, trivial, trivial⟩
  · exact ⟨1, .black (.red .leaf .leaf) (.red .leaf .leaf)⟩

theorem rbtree_right_three :
    (∃ m', rbInsertColor 5 (rbLinkNode three 4 (some 3) .right) 4 = some m' ∧
      Lists m' [1, 2, 3, 4]) ∧ (∃ m', rbErase 5 three 2 = some m' ∧ Lists m' [1, 3]) ∧
    (rbFirst 5 three).bind (enumerate (rbNext 5 three) 5) = some [1, 2, 3] := by
  have hfuel : [1, 2, 3].length + 1 < 5 := by decide
  have h := rbtree_right lists_three hfuel
  refine ⟨?_, ?_, h.2.2.1⟩
  · exact h.1 4 (some 3) .right [1, 2, 3] [] (by decide)
      (.right (a := [1, 2]) (b := []) rfl rfl)
  · exact h.2.1 2 [1] [3] rfl

/-- **`rb_insert_color` takes few turns**: `2 * log (n + 1) + 1` are enough in a tree of `n`
nodes. -/
theorem insert_turns (h : Lists m l) (hnull : NullAt m l p d a b) (hx : x ∉ l)
    (hfuel : 2 * Nat.log 2 (l.length + 1) < fuel) :
    ∃ m', rbInsertColor fuel (rbLinkNode m x p d) x = some m' ∧ Lists m' (a ++ x :: b) := by
  obtain ⟨t, ht, hrb, rfl⟩ := h
  obtain ⟨C, rfl, hlink, rfl, rfl, rfl⟩ := hnull.exists_place ht
  obtain ⟨m', t', hm', ht', hrb', hin⟩ :=
    rbInsert_spec ht hrb hx hlink ((length_le_log hrb).trans_lt hfuel)
  exact ⟨m', hm', t', ht', hrb', hin⟩

theorem insert_turns_three : ∃ m',
    rbInsertColor 5 (rbLinkNode three 4 (some 3) .right) 4 = some m' ∧
    Lists m' [1, 2, 3, 4] :=
  insert_turns lists_three (.right (a := [1, 2]) rfl rfl) (by decide) (by decide)

end

end Am335x.Rbtree
