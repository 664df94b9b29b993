import Am335xKernel.Lib.Spans
import Mathlib.Data.List.Induction

/-!
# Shared memory policies

`mm/mempolicy.c` keeps the memory policies of a shared object in a tree of
`sp_node`s, each of them a range `[start, end)` of page indices and a policy.
`shared_policy_replace` clears a range of indices and, if it is given a node, puts
that node in its place. It holds `sp->lock`, except where an old node spans the
whole range: the remainder on the right then needs a node of its own, for which the
lock is dropped, and the search starts again.

A node is identified by `id`, which stands for its address. Of `rb_insert_color`
and `rb_erase` nothing is assumed but that they keep the other nodes in order
(`Shapes`).
-/

namespace Am335x.SharedPolicy

open Spans SearchTree List

/-- A `struct mempolicy *`. -/
abbrev Policy := ℕ

structure SpNode where
  id     : ℕ
  start  : ℕ
  stop   : ℕ
  policy : Policy
deriving DecidableEq

structure Shapes where
  insertColor : Rebalance
  erase       : Erasing

/-- The loop over `rb_prev` in `sp_lookup`; the second argument holds the nodes
before `n`, the nearest first. -/
def spBack (start : ℕ) : SpNode → List SpNode → SpNode
  | n, [] => n
  | n, w :: before => if w.stop ≤ start then n else spBack start w before

/-- The nodes before the one at the address of `n`. -/
def nodesBefore (n : SpNode) (t : SearchTree SpNode) : List SpNode :=
  t.inorder.takeWhile fun a => a.id ≠ n.id

/-- The node at the address of `n` and those after it. -/
def nodesFrom (n : SpNode) (t : SearchTree SpNode) : List SpNode :=
  t.inorder.dropWhile fun a => a.id ≠ n.id

def spLookup (t : SearchTree SpNode) (start stop : ℕ) : Option SpNode :=
  (t.hit SpNode.start SpNode.stop start stop).map fun n =>
    spBack start n (nodesBefore n t).reverse

/-- The turn that `sp_insert` takes at `nd`; `none` is its `BUG()`. -/
def insertSide (new nd : SpNode) : Option Bool :=
  if new.start < nd.start then some true
  else if nd.stop < new.stop then some false
  else none

def spInsert (sh : Shapes) (new : SpNode) (t : SearchTree SpNode) :
    Option (SearchTree SpNode) :=
  (t.linkBy (insertSide new) new).map sh.insertColor.run

def spDelete (sh : Shapes) (n : SpNode) (t : SearchTree SpNode) : SearchTree SpNode :=
  sh.erase.run (fun a => a.id = n.id) t

/-- Write to the node at the address of `n`. -/
def write (n : SpNode) (f : SpNode → SpNode) (t : SearchTree SpNode) : SearchTree SpNode :=
  t.map fun a => if a.id = n.id then f a else a

def mpolSharedPolicyLookup (t : SearchTree SpNode) (idx : ℕ) : Option Policy :=
  (spLookup t idx (idx + 1)).map SpNode.policy

inductive Outcome where
  /-- The lock is dropped for an allocation; `n` is the node that spans the range. -/
  | unlock (t : SearchTree SpNode) (n : SpNode)
  | done (t : SearchTree SpNode)
  | bug

def insertDone (sh : Shapes) (x : SpNode) (t : SearchTree SpNode) : Outcome :=
  match spInsert sh x t with
  | none => .bug
  | some t' => .done t'

/-- The branch for an old policy that spans the whole new range: with a node for
its right part at hand it is cut and the loop is left. -/
def replaceSpanning (sh : Shapes) (start : ℕ) (n : SpNode) (t : SearchTree SpNode) :
    Option SpNode → Outcome
  | none => .unlock t n
  | some x => insertDone sh x (write n (fun a => { a with stop := start }) t)

/-- The loop of `shared_policy_replace` from the first of the listed nodes on. -/
def replaceLoop (sh : Shapes) (start stop : ℕ) (new2 : Option SpNode) :
    List SpNode → SearchTree SpNode → Outcome
  | [], t => .done t
  | n :: rest, t =>
    if n.start < stop then
      if start ≤ n.start then
        if n.stop ≤ stop then
          replaceLoop sh start stop new2 rest (spDelete sh n t)
        else
          replaceLoop sh start stop new2 rest (write n (fun a => { a with start := stop }) t)
      else if stop < n.stop then
        replaceSpanning sh start n t new2
      else
        replaceLoop sh start stop new2 rest (write n (fun a => { a with stop := start }) t)
    else .done t

def found (t : SearchTree SpNode) (start stop : ℕ) : List SpNode :=
  match spLookup t start stop with
  | none => []
  | some n => nodesFrom n t

/-- From `restart` to the next `spin_unlock`. -/
def replaceSection (sh : Shapes) (start stop : ℕ) (new new2 : Option SpNode)
    (t : SearchTree SpNode) : Outcome :=
  match replaceLoop sh start stop new2 (found t start stop) t, new with
  | .done t', some x => insertDone sh x t'
  | r, _ => r

/-- The tree of one `shared_policy`: disjoint, non-empty ranges, each node once. -/
structure Wf (l : List SpNode) : Prop where
  ordered : Ordered SpNode.start SpNode.stop l
  nodup   : (l.map SpNode.id).Nodup

variable {l D rest : List SpNode} {t t' : SearchTree SpNode} {n a x : SpNode}
  {start stop i : ℕ} {p : Policy} {sh : Shapes}

def Gives (l : List SpNode) (i : ℕ) (p : Policy) : Prop :=
  ∃ n ∈ l, n.start ≤ i ∧ i < n.stop ∧ n.policy = p

lemma id_ne_of_split (h : ((D ++ n :: rest).map SpNode.id).Nodup) :
    (∀ a ∈ D, a.id ≠ n.id) ∧ ∀ a ∈ rest, a.id ≠ n.id := by
  rw [map_append, map_cons, nodup_middle, nodup_cons] at h
  constructor
  · intro a ha heq
    exact h.1 (mem_append_left _ (heq ▸ mem_map_of_mem ha))
  · intro a ha heq
    exact h.1 (mem_append_right _ (heq ▸ mem_map_of_mem ha))

lemma nodesBefore_eq (ht : t.inorder = D ++ n :: rest) (h : (t.inorder.map SpNode.id).Nodup) :
    nodesBefore n t = D := by
  rw [ht] at h
  rw [nodesBefore, ht, takeWhile_append_of_pos]
  · rw [takeWhile_cons_of_neg (by simp), append_nil]
  · intro a ha
    exact decide_eq_true ((id_ne_of_split h).1 a ha)

lemma nodesFrom_eq (ht : t.inorder = D ++ n :: rest) (h : (t.inorder.map SpNode.id).Nodup) :
    nodesFrom n t = n :: rest := by
  rw [ht] at h
  rw [nodesFrom, ht, dropWhile_append_of_pos]
  · exact dropWhile_cons_of_neg (by simp)
  · intro a ha
    exact decide_eq_true ((id_ne_of_split h).1 a ha)

lemma inorder_spDelete (sh : Shapes) (ht : t.inorder = D ++ n :: rest)
    (h : (t.inorder.map SpNode.id).Nodup) : (spDelete sh n t).inorder = D ++ rest := by
  rw [ht] at h
  obtain ⟨hD, hrest⟩ := id_ne_of_split h
  rw [spDelete, sh.erase.inorder_run, ht, filter_append, filter_cons_of_neg (by simp)]
  congr 1
  · exact filter_eq_self.mpr fun a ha => by simp [hD a ha]
  · exact filter_eq_self.mpr fun a ha => by simp [hrest a ha]

lemma inorder_write (f : SpNode → SpNode) (ht : t.inorder = D ++ n :: rest)
    (h : (t.inorder.map SpNode.id).Nodup) : (write n f t).inorder = D ++ f n :: rest := by
  rw [ht] at h
  obtain ⟨hD, hrest⟩ := id_ne_of_split h
  rw [write, inorder_map, ht, map_append, map_cons, if_pos rfl]
  congr 1
  · exact (map_congr_left fun a ha => if_neg (hD a ha)).trans (map_id D)
  · congr 1
    exact (map_congr_left fun a ha => if_neg (hrest a ha)).trans (map_id rest)

lemma spBack_spec {A B : List SpNode} (hord : Ordered SpNode.start SpNode.stop (A ++ n :: B))
    (hn : start < n.stop) (hstop : n.start < stop) :
    ∃ D m rest, spBack start n A.reverse = m ∧ A ++ n :: B = D ++ m :: rest ∧
      (∀ a ∈ D, a.stop ≤ start) ∧ start < m.stop ∧ m.start < stop := by
  induction A using List.reverseRecOn generalizing n B with
  | nil => exact ⟨[], n, B, rfl, rfl, nofun, hn, hstop⟩
  | append_singleton A w ih =>
    rw [append_assoc, singleton_append] at hord ⊢
    obtain ⟨hw, hA, -, hAw, hwn⟩ := ordered_middle.mp hord
    rw [reverse_append, reverse_singleton, singleton_append, spBack]
    split_ifs with hend
    · refine ⟨A ++ [w], n, B, rfl, (append_cons A w (n :: B)), ?_, hn, hstop⟩
      intro a ha
      rcases mem_append.mp ha with ha | ha
      · exact (hAw a ha).trans (hw.le.trans hend)
      · rwa [mem_singleton.mp ha]
    · have hwstop : w.start < stop :=
        hw.trans_le ((hwn n mem_cons_self).trans hstop.le)
      exact ih hord (not_le.mp hend) hwstop

/-- **`sp_lookup`** finds the first node that meets the range. -/
lemma spLookup_spec (h : Wf t.inorder) (start stop : ℕ) : (spLookup t start stop = none ∧
        ∀ a ∈ t.inorder, Clear SpNode.start SpNode.stop start stop a) ∨
      ∃ D n rest, spLookup t start stop = some n ∧ t.inorder = D ++ n :: rest ∧
        (∀ a ∈ D, a.stop ≤ start) ∧ start < n.stop ∧ n.start < stop := by
  unfold spLookup
  rcases hhit : t.hit SpNode.start SpNode.stop start stop with _ | m
  · exact .inl ⟨rfl, fun a ha => hit_eq_none h.ordered hhit ha⟩
  · obtain ⟨hm, hs, he⟩ := hit_eq_some hhit
    obtain ⟨A, B, hAB⟩ := append_of_mem hm
    rw [Option.map_some, nodesBefore_eq hAB h.nodup]
    obtain ⟨D, n, rest, hback, hsplit, hD, hn⟩ := spBack_spec (hAB ▸ h.ordered) hs he
    exact .inr ⟨D, n, rest, by rw [hback], hAB.trans hsplit, hD, hn⟩

/-- **`mpol_shared_policy_lookup`** reads the policy of the node that covers the
index. -/
lemma mpolSharedPolicyLookup_eq_some (h : Wf t.inorder) :
    mpolSharedPolicyLookup t i = some p ↔ Gives t.inorder i p := by
  unfold mpolSharedPolicyLookup
  rcases spLookup_spec h i (i + 1) with ⟨hnone, hclear⟩ | ⟨D, n, rest, hsome, hsplit, -, hs, he⟩
  · rw [hnone]
    constructor
    · intro hp
      cases hp
    · rintro ⟨a, ha, hai, hia, -⟩
      rcases hclear a ha with hc | hc
      · exact absurd hia hc.not_gt
      · exact absurd hai (Nat.lt_of_succ_le hc).not_ge
  · have hn : n ∈ t.inorder := by rw [hsplit]; simp
    rw [hsome, Option.map_some, Option.some.injEq]
    constructor
    · intro hp
      exact ⟨n, hn, Nat.lt_succ_iff.mp he, hs, hp⟩
    · rintro ⟨a, ha, hai, hia, hp⟩
      have han : a = n := h.ordered.eq_of_meet ha hn (hai.trans_lt hs)
        ((Nat.lt_succ_iff.mp he).trans_lt hia)
      rw [← han, hp]

/-- A node cut down to what lies outside `[start, stop)`, of the left part if there
is one on both sides. -/
def trim (start stop : ℕ) (n : SpNode) : Option SpNode :=
  if n.start < start then some { n with stop := min n.stop start }
  else if stop < n.stop then some { n with start := max n.start stop }
  else none

def Spanning (start stop : ℕ) (n : SpNode) : Prop := n.start < start ∧ stop < n.stop

lemma trim_right (h : start ≤ n.start) (hstop : stop < n.stop) :
    trim start stop n = some { n with start := max n.start stop } := by
  rw [trim, if_neg h.not_gt, if_pos hstop]

lemma filterMap_trim_clear (hlt : start < stop)
    (h : ∀ a ∈ l, a.start < a.stop ∧ Clear SpNode.start SpNode.stop start stop a) :
    l.filterMap (trim start stop) = l := by
  refine (filterMap_congr fun a ha => ?_).trans filterMap_some
  obtain ⟨hn, hclear | hclear⟩ := h a ha
  · rw [trim, if_pos (hn.trans_le hclear), min_eq_left hclear]
  · rw [trim_right (hlt.le.trans hclear) (hclear.trans_lt hn), max_eq_left hclear]

lemma trim_eq_some (hn : n.start < n.stop) (h : trim start stop n = some x) :
    n.start ≤ x.start ∧ x.start < x.stop ∧ x.stop ≤ n.stop ∧ x.id = n.id ∧ x.policy = n.policy ∧
      Clear SpNode.start SpNode.stop start stop x := by
  unfold trim at h
  split_ifs at h with h1 h2
  · cases h
    exact ⟨le_rfl, lt_min hn h1, min_le_left _ _, rfl, rfl, .inl (min_le_right _ _)⟩
  · cases h
    exact ⟨le_max_left _ _, max_lt hn h2, le_rfl, rfl, rfl, .inr (le_max_right _ _)⟩

lemma wf_trim (h : Wf l) : Wf (l.filterMap (trim start stop)) := by
  constructor
  · apply h.ordered.filterMap
    intro a ha b hb
    obtain ⟨h1, h2, h3, -⟩ := trim_eq_some (h.ordered.valid a ha) hb
    exact ⟨h1, h2, h3⟩
  · have hnodup := pairwise_map.mp h.nodup
    rw [List.Nodup, pairwise_map, pairwise_filterMap]
    refine hnodup.imp_of_mem ?_
    intro a a' ha ha' hne b hb b' hb'
    rw [(trim_eq_some (h.ordered.valid a ha) hb).2.2.2.1,
      (trim_eq_some (h.ordered.valid a' ha') hb').2.2.2.1]
    exact hne

lemma clear_of_mem_trim (h : Wf l) (hx : x ∈ l.filterMap (trim start stop)) :
    Clear SpNode.start SpNode.stop start stop x := by
  obtain ⟨a, ha, hax⟩ := mem_filterMap.mp hx
  exact (trim_eq_some (h.ordered.valid a ha) hax).2.2.2.2.2

/-- The trimmed nodes give what the old ones gave outside the range, but for the
right part of a node that spans it. -/
lemma gives_trim (h : Wf l) : Gives (l.filterMap (trim start stop)) i p ↔
      ∃ n ∈ l, n.start ≤ i ∧ i < n.stop ∧ n.policy = p ∧
        (i < start ∨ stop ≤ i ∧ start ≤ n.start) := by
  constructor
  · rintro ⟨x, hx, hxi, hix, hp⟩
    obtain ⟨a, ha, hax⟩ := mem_filterMap.mp hx
    obtain ⟨h1, -, h3, -, hpol, -⟩ := trim_eq_some (h.ordered.valid a ha) hax
    refine ⟨a, ha, h1.trans hxi, hix.trans_le h3, hpol ▸ hp, ?_⟩
    unfold trim at hax
    split_ifs at hax with hl hr
    · cases hax
      exact .inl (hix.trans_le (min_le_right _ _))
    · cases hax
      exact .inr ⟨(le_max_right _ _).trans hxi, not_lt.mp hl⟩
  · rintro ⟨a, ha, hai, hia, hp, hout⟩
    rcases hout with hout | ⟨hout, hstart⟩
    · exact ⟨_, mem_filterMap.mpr ⟨a, ha, if_pos (hai.trans_lt hout)⟩, hai, lt_min hia hout, hp⟩
    · exact ⟨_, mem_filterMap.mpr ⟨a, ha, trim_right hstart (hout.trans_lt hia)⟩,
        max_le hai hout, hia, hp⟩

lemma replaceLoop_tail (sh : Shapes) (new2 : Option SpNode) (hlt : start < stop)
    (ht : t.inorder = D ++ rest) (h : Wf t.inorder) (hrest : ∀ a ∈ rest, start ≤ a.start) :
    ∃ t', replaceLoop sh start stop new2 rest t = .done t' ∧
      t'.inorder = D ++ rest.filterMap (trim start stop) := by
  induction rest generalizing D t with
  | nil => exact ⟨t, rfl, ht⟩
  | cons n rest ih =>
    have hord := h.ordered
    have hnodup := h.nodup
    rw [ht] at hord
    obtain ⟨hn, hD, hr, hDn, hnr⟩ := ordered_middle.mp hord
    have hstart : start ≤ n.start := hrest n mem_cons_self
    have hrest' : ∀ a ∈ rest, start ≤ a.start := fun a ha => hrest a (mem_cons_of_mem n ha)
    rw [replaceLoop]
    by_cases hin : n.start < stop
    · rw [if_pos hin, if_pos hstart]
      by_cases hend : n.stop ≤ stop
      · -- the node lies in the range
        have hdel := inorder_spDelete sh ht hnodup
        have hsub : (D ++ rest).Sublist t.inorder := by
          rw [ht]
          exact List.Sublist.append_left (sublist_cons_self n rest) D
        have hwf : Wf (spDelete sh n t).inorder := by
          rw [hdel]
          refine ⟨?_, hnodup.sublist (hsub.map _)⟩
          exact ⟨fun a ha => h.ordered.valid a (hsub.mem ha), h.ordered.apart.sublist hsub⟩
        rw [if_pos hend,
          filterMap_cons_none (by rw [trim, if_neg hstart.not_gt, if_neg hend.not_gt])]
        exact ih hdel hwf hrest'
      · -- the node begins in the range and goes on after it
        have hend' : stop < n.stop := not_le.mp hend
        have hwr := inorder_write (fun a => { a with start := stop }) ht hnodup
        have hwf : Wf (write n (fun a => { a with start := stop }) t).inorder := by
          rw [hwr]
          constructor
          · exact ordered_middle.mpr
              ⟨hend', hD, hr, fun b hb => (hDn b hb).trans hin.le, hnr⟩
          · rw [ht] at hnodup
            simpa only [map_append, map_cons] using hnodup
        have hwr' : (write n (fun a => { a with start := stop }) t).inorder =
            (D ++ [{ n with start := stop }]) ++ rest := by
          rw [hwr, append_assoc, singleton_append]
        obtain ⟨t', hrun, hin'⟩ := ih hwr' hwf hrest'
        rw [if_neg hend, filterMap_cons_some (trim_right hstart hend'), max_eq_right hin.le]
        exact ⟨t', hrun, by rw [hin', append_assoc, singleton_append]⟩
    · -- all that follows lies after the range
      rw [if_neg hin]
      refine ⟨t, rfl, ?_⟩
      rw [ht, filterMap_trim_clear hlt]
      exact forall_mem_cons.mpr ⟨⟨hn, .inr (not_lt.mp hin)⟩, fun a ha => ⟨hr.valid a ha,
        .inr ((not_lt.mp hin).trans (hn.le.trans (hnr a ha)))⟩⟩

/-- **The loop.** Either a node spans the range, and the loop stops at it with the
tree as it was or with its right part cut off and the prepared node put in; or it
trims all nodes. -/
lemma replaceLoop_spec (sh : Shapes) (new2 : Option SpNode) (hlt : start < stop)
    (h : Wf t.inorder) : (∃ n ∈ t.inorder, Spanning start stop n ∧
        ∃ t1, t1.inorder = t.inorder.filterMap (trim start stop) ∧
          replaceLoop sh start stop new2 (found t start stop) t = match new2 with
            | none => .unlock t n
            | some x => insertDone sh x t1) ∨
      (∀ n ∈ t.inorder, ¬ Spanning start stop n) ∧
        ∃ t1, t1.inorder = t.inorder.filterMap (trim start stop) ∧
          replaceLoop sh start stop new2 (found t start stop) t = .done t1 := by
  unfold found
  rcases spLookup_spec h start stop with ⟨hnone, hclear⟩ | ⟨D, n, rest, hsome, hsplit, hD, hs, he⟩
  · rw [hnone]
    refine .inr ⟨?_, t, ?_, rfl⟩
    · rintro a ha ⟨h1, h2⟩
      rcases hclear a ha with hc | hc
      · exact absurd (hlt.trans h2) hc.not_gt
      · exact absurd (h1.trans hlt) hc.not_gt
    · exact (filterMap_trim_clear hlt fun a ha => ⟨h.ordered.valid a ha, hclear a ha⟩).symm
  · rw [hsome]
    dsimp only
    rw [nodesFrom_eq hsplit h.nodup]
    have hn : n ∈ t.inorder := by rw [hsplit]; simp
    have hord := h.ordered
    rw [hsplit] at hord
    obtain ⟨hval, hDord, hr, hDn, hnr⟩ := ordered_middle.mp hord
    have hrest : ∀ a ∈ rest, start ≤ a.start := fun a ha => hs.le.trans (hnr a ha)
    have hDtrim : D.filterMap (trim start stop) = D :=
      filterMap_trim_clear hlt fun a ha => ⟨hDord.valid a ha, .inl (hD a ha)⟩
    by_cases hstart : start ≤ n.start
    · -- no node begins before the range and reaches into it
      obtain ⟨t', hrun, hin⟩ := replaceLoop_tail sh new2 hlt hsplit h (by
        intro a ha
        rcases mem_cons.mp ha with rfl | ha
        · exact hstart
        · exact hrest a ha)
      refine .inr ⟨?_, t', ?_, hrun⟩
      · rintro a ha ⟨h1, h2⟩
        rw [hsplit] at ha
        rcases mem_append.mp ha with ha | ha
        · exact absurd (hlt.trans h2) (hD a ha).not_gt
        · rcases mem_cons.mp ha with rfl | ha
          · exact absurd h1 hstart.not_gt
          · exact absurd h1 (hrest a ha).not_gt
      · rw [hin, hsplit, filterMap_append, hDtrim]
    · have hbefore : n.start < start := not_le.mp hstart
      have hwr := inorder_write (fun a => { a with stop := start }) hsplit h.nodup
      have htrim : trim start stop n = some { n with stop := start } := by
        rw [trim, if_pos hbefore, min_eq_right hs.le]
      have hwf : Wf (write n (fun a => { a with stop := start }) t).inorder := by
        rw [hwr]
        constructor
        · exact ordered_middle.mpr ⟨hbefore, hDord, hr, hDn, hrest⟩
        · have hnodup := h.nodup
          rw [hsplit] at hnodup
          simpa only [map_append, map_cons] using hnodup
      rw [replaceLoop, if_pos he, if_neg hstart]
      split_ifs with hspan
      · refine .inl ⟨n, hn, ⟨hbefore, hspan⟩, _, ?_, by cases new2 <;> rfl⟩
        rw [hwr, hsplit, filterMap_append, hDtrim, filterMap_cons_some htrim,
          filterMap_trim_clear hlt fun a ha => ⟨hr.valid a ha, .inr (hspan.le.trans (hnr a ha))⟩]
      · have hwr' : (write n (fun a => { a with stop := start }) t).inorder =
            (D ++ [{ n with stop := start }]) ++ rest := by
          rw [hwr, append_assoc, singleton_append]
        obtain ⟨t', hrun, hin⟩ := replaceLoop_tail sh new2 hlt hwr' hwf hrest
        refine .inr ⟨?_, t', ?_, hrun⟩
        · rintro a ha ⟨h1, h2⟩
          have han : a = n := h.ordered.eq_of_meet ha hn (h1.trans hs) (he.trans h2)
          exact hspan (han ▸ h2)
        · rw [hin, hsplit, filterMap_append, hDtrim, filterMap_cons_some htrim,
            append_assoc, singleton_append]

lemma perm_spInsert (h : spInsert sh x t = some t') : t'.inorder.Perm (x :: t.inorder) := by
  obtain ⟨u, hu, rfl⟩ := Option.map_eq_some_iff.mp h
  rw [sh.insertColor.inorder_run]
  exact inorder_linkBy hu

/-- **`sp_insert`** has a place for a range that meets none of the old ones. -/
lemma spInsert_clear (sh : Shapes) (h : Wf t.inorder) (hx : x.start < x.stop)
    (hclear : ∀ a ∈ t.inorder, Clear SpNode.start SpNode.stop x.start x.stop a)
    (hid : ∀ a ∈ t.inorder, a.id ≠ x.id) : ∃ t', spInsert sh x t = some t' ∧ Wf t'.inorder := by
  have hside : ∀ a ∈ t.inorder, (x.stop ≤ a.start ∧ insertSide x a = some true) ∨
        (a.stop ≤ x.start ∧ insertSide x a = some false) := by
    intro a ha
    have hval := h.ordered.valid a ha
    unfold insertSide
    rcases hclear a ha with hc | hc
    · right
      rw [if_neg (hval.trans_le hc).not_gt, if_pos (hc.trans_lt hx)]
      exact ⟨hc, rfl⟩
    · left
      rw [if_pos (hx.trans_le hc)]
      exact ⟨hc, rfl⟩
  obtain ⟨u, hu, hord⟩ := ordered_linkBy h.ordered hx hside
  have hinsert : spInsert sh x t = some (sh.insertColor.run u) := by
    rw [spInsert, hu, Option.map_some]
  refine ⟨_, hinsert, ?_, ?_⟩
  · rw [sh.insertColor.inorder_run]
    exact hord
  · rw [((perm_spInsert hinsert).map SpNode.id).nodup_iff, map_cons, nodup_cons]
    refine ⟨?_, h.nodup⟩
    rintro hmem
    obtain ⟨a, ha, heq⟩ := mem_map.mp hmem
    exact hid a ha heq

end Am335x.SharedPolicy
