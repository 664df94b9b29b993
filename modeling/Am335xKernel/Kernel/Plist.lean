import Mathlib.Data.Int.Order.Basic
import Mathlib.Data.List.Nodup
import Mathlib.Data.Option.Basic
import Am335xKernel.Lib.Refinement
import Am335xKernel.Lib.Ring

/-!
# Lists sorted by priority

`lib/plist.c` keeps nodes in a list that is sorted by priority (`node_list`). To find the
place for a new node, `plist_add` does not look at all nodes: those that are the first of
their priority are linked in a second list (`prio_list`), which has no head of its own but
starts at the first node.

The entries of the first list are the nodes and the head of the list (`none`), those of
the second one are the nodes.
-/

namespace Am335x.PrioList

open Function Nat Links

variable {ν : Type*}

/-- A `struct plist_head` with all the nodes there are. -/
structure Plist (ν : Type*) where
  prio : ν → ℤ
  prioList : Links ν
  nodeList : Links (Option ν)

/-- After `plist_head_init` and a `plist_node_init` for each of the nodes. -/
def Plist.init (prio : ν → ℤ) : Plist ν := ⟨prio, Links.alone, Links.alone⟩

/-- The `do` loop of `plist_add`: `iter`, `prev` and `node_next` as it leaves them. -/
def addLoop [DecidableEq ν] (t : Plist ν) (node first : ν) :
    ℕ → ν → Option ν → Option (ν × Option ν × Option ν)
  | 0, _, _ => none
  | fuel + 1, iter, prev =>
    if t.prio node < t.prio iter then some (iter, prev, some iter)
    else if t.prioList.next iter = first then some (t.prioList.next iter, some iter, none)
    else addLoop t node first fuel (t.prioList.next iter) (some iter)

def plistAdd [DecidableEq ν] (fuel : ℕ) (t : Plist ν) (node : ν) : Option (Plist ν) :=
  match t.nodeList.next none with
  | none => some { t with nodeList := t.nodeList.addTail (some node) none }
  | some first =>
    (addLoop t node first fuel first none).map fun (iter, prev, nodeNext) =>
      { t with
        prioList :=
          if prev.map t.prio = some (t.prio node) then t.prioList
          else t.prioList.addTail node iter
        nodeList := t.nodeList.addTail (some node) nodeNext }

def plistDelPrio [DecidableEq ν] (t : Plist ν) (node : ν) : Links ν :=
  if t.prioList.isEmpty node then t.prioList
  else
    match t.nodeList.next (some node) with
    | none => t.prioList.delInit node
    | some next =>
      if t.prioList.isEmpty next then (t.prioList.add next node).delInit node
      else t.prioList.delInit node

def plistDel [DecidableEq ν] (t : Plist ν) (node : ν) : Plist ν :=
  { t with
    prioList := plistDelPrio t node
    nodeList := t.nodeList.delInit (some node) }

inductive Call (ν : Type*) where
  /-- The priority is set before the node is added. -/
  | add (node : ν) (prio : ℤ)
  | del (node : ν)

def Plist.call [DecidableEq ν] (fuel : ℕ) : Component (Plist ν) (Call ν) Unit
  | t, .add node prio =>
    (plistAdd fuel { t with prio := update t.prio node prio } node).map (·, ())
  | t, .del node => some (plistDel t node, ())

open List

abbrev Group (ν : Type*) := ν × List ν

def nodesOf (gs : List (Group ν)) : List ν := gs.flatMap fun g => g.1 :: g.2

def firstsOf (gs : List (Group ν)) : List ν := gs.map Prod.fst

lemma nodesOf_append (gs hs : List (Group ν)) : nodesOf (gs ++ hs) = nodesOf gs ++ nodesOf hs :=
  flatMap_append

lemma nodesOf_cons (g : Group ν) (gs : List (Group ν)) :
    nodesOf (g :: gs) = g.1 :: (g.2 ++ nodesOf gs) := rfl

lemma firstsOf_append (gs hs : List (Group ν)) : firstsOf (gs ++ hs) = firstsOf gs ++ firstsOf hs :=
  map_append

lemma firstsOf_cons (g : Group ν) (gs : List (Group ν)) :
    firstsOf (g :: gs) = g.1 :: firstsOf gs := rfl

lemma nodesOf_split (lo hi : List (Group ν)) (r : ν) (os ps : List ν) :
    nodesOf (lo ++ (r, os ++ ps) :: hi) = (nodesOf lo ++ r :: os) ++ (ps ++ nodesOf hi) := by
  simp [nodesOf]

lemma not_mem_middle {α : Type*} {l m : List α} {a b : α} :
    a ∉ l ++ b :: m ↔ a ≠ b ∧ a ∉ l ++ m := by
  rw [perm_middle.mem_iff, mem_cons, not_or]

lemma some_not_mem {l : List ν} {a : ν} (h : a ∉ l) : some a ∉ none :: l.map some := by
  simpa using h

lemma firstsOf_sublist (gs : List (Group ν)) : (firstsOf gs).Sublist (nodesOf gs) := by
  induction gs with
  | nil => exact List.Sublist.refl []
  | cons g gs ih =>
    rw [firstsOf_cons, nodesOf_cons]
    exact (ih.trans (sublist_append_right g.2 _)).cons_cons g.1

structure Shape (t : Plist ν) (gs : List (Group ν)) : Prop where
  nodes : t.nodeList.Ring none ((nodesOf gs).map some)
  off : ∀ a ∉ nodesOf gs, t.nodeList.Ring (some a) []
  firsts : t.prioList.Cycle (firstsOf gs)
  others : ∀ a ∉ firstsOf gs, t.prioList.Ring a []
  same : ∀ g ∈ gs, ∀ a ∈ g.2, t.prio a = t.prio g.1
  ascending : ((firstsOf gs).map t.prio).Pairwise (· < ·)

lemma Shape.init (prio : ν → ℤ) : Shape (Plist.init prio) [] where
  nodes := ring_alone none
  off a _ := ring_alone (some a)
  firsts := trivial
  others a _ := ring_alone a
  same _ h := nomatch h
  ascending := List.Pairwise.nil

variable {t : Plist ν} {gs post pre : List (Group ν)}

lemma Shape.nodup (h : Shape t gs) : (nodesOf gs).Nodup :=
  List.Nodup.of_map some (nodup_cons.mp h.nodes.1).2

variable {g : Group ν} {p : ℤ} {a : ν}

lemma mem_firstsOf (hg : g ∈ gs) : g.1 ∈ firstsOf gs := mem_map.mpr ⟨g, hg, rfl⟩

section

variable (h : Shape t gs)
include h

lemma high_of_head (hsplit : gs = pre ++ g :: post)
    (hlt : p < t.prio g.1) : ∀ x ∈ g :: post, p < t.prio x.1 := by
  have hasc := h.ascending
  rw [hsplit, firstsOf_append, firstsOf_cons, map_append, map_cons] at hasc
  have hpost := (pairwise_cons.mp (pairwise_append.mp hasc).2.1).1
  exact forall_mem_cons.mpr ⟨hlt,
    fun x hx => lt_trans hlt (hpost _ (mem_map_of_mem (mem_firstsOf hx)))⟩

lemma Shape.mem_same (hg : g ∈ gs) (ha : a ∈ g.1 :: g.2) : t.prio a = t.prio g.1 := by
  rcases mem_cons.mp ha with rfl | ha
  · rfl
  · exact h.same g hg a ha

lemma Shape.lt_of_before {lo hi : List (Group ν)} (hsplit : gs = lo ++ g :: hi)
    {b : ν} (hb : b ∈ nodesOf lo) : t.prio b < t.prio g.1 := by
  obtain ⟨x, hx, hbx⟩ := mem_flatMap.mp hb
  have hasc := h.ascending
  rw [hsplit, firstsOf_append, firstsOf_cons, map_append, map_cons] at hasc
  rw [h.mem_same (hsplit ▸ mem_append_left _ hx) hbx]
  exact (pairwise_append.mp hasc).2.2 _ (mem_map_of_mem (mem_firstsOf hx)) _
    mem_cons_self

lemma Shape.sorted : (nodesOf gs).Pairwise fun a b => t.prio a ≤ t.prio b := by
  rw [nodesOf, pairwise_flatMap]
  refine ⟨fun g hg => ?_, ?_⟩
  · refine pairwise_of_forall_mem_list fun a ha b hb => ?_
    rw [h.mem_same hg ha, h.mem_same hg hb]
  · have hasc := h.ascending
    rw [firstsOf, map_map, pairwise_map] at hasc
    refine hasc.imp_of_mem fun {x y} hx hy hlt a ha b hb => ?_
    rw [h.mem_same hx ha, h.mem_same hy hb]
    exact le_of_lt hlt

lemma Shape.mem_firsts_iff (a : ν) : a ∈ firstsOf gs ↔
    ∃ l m, nodesOf gs = l ++ a :: m ∧ ∀ b ∈ l, t.prio b ≠ t.prio a := by
  constructor
  · intro ha
    obtain ⟨g, hg, rfl⟩ := mem_map.mp ha
    obtain ⟨lo, hi, hsplit⟩ := append_of_mem hg
    refine ⟨nodesOf lo, g.2 ++ nodesOf hi, ?_, fun b hb => ne_of_lt (h.lt_of_before hsplit hb)⟩
    rw [hsplit]
    exact nodesOf_append _ _
  · rintro ⟨l, m, hnodes, hfirst⟩
    have ha : a ∈ nodesOf gs := hnodes ▸ mem_append_right l mem_cons_self
    obtain ⟨⟨r, os⟩, hg, hmem⟩ := mem_flatMap.mp ha
    rcases mem_cons.mp hmem with rfl | hmem
    · exact mem_firstsOf hg
    -- otherwise the first one of the group would stand before it
    · exfalso
      obtain ⟨lo, hi, hsplit⟩ := append_of_mem hg
      obtain ⟨os, ps, rfl⟩ := append_of_mem hmem
      have hnodes' := nodesOf_split lo hi r os (a :: ps)
      have hnodup := h.nodup
      rw [← hsplit, hnodes] at hnodes'
      rw [hnodes, nodup_middle, nodup_cons, mem_append, not_or] at hnodup
      obtain ⟨rfl, -⟩ := (append_cons_inj_of_notMem hnodup.1.1 hnodup.1.2).mp hnodes'
      have hrl : r ∈ nodesOf lo ++ r :: os := mem_append_right _ mem_cons_self
      exact hfirst r hrl (h.same _ hg a (mem_append_right os mem_cons_self)).symm

end

variable [DecidableEq ν] {node first : ν} {α : Type*} {P : α → Prop}

lemma Shape.setPrio (h : Shape t gs) (hnode : node ∉ nodesOf gs) (prio : ℤ) :
    Shape { t with prio := update t.prio node prio } gs := by
  have hkeep : ∀ a ∈ nodesOf gs, update t.prio node prio a = t.prio a := by
    intro a ha
    have hne : a ≠ node := fun heq => hnode (heq ▸ ha)
    exact update_of_ne hne _ _
  have hfirsts : (firstsOf gs).map (update t.prio node prio) = (firstsOf gs).map t.prio :=
    map_congr_left fun a ha => hkeep a ((firstsOf_sublist gs).subset ha)
  refine ⟨h.nodes, h.off, h.firsts, h.others, ?_, ?_⟩
  · intro g hg a ha
    have hmem : a ∈ nodesOf gs := mem_flatMap.mpr ⟨g, hg, mem_cons_of_mem g.1 ha⟩
    have hmem' : g.1 ∈ nodesOf gs := mem_flatMap.mpr ⟨g, hg, mem_cons_self⟩
    calc update t.prio node prio a = t.prio a := hkeep a hmem
      _ = t.prio g.1 := h.same g hg a ha
      _ = update t.prio node prio g.1 := (hkeep g.1 hmem').symm
  · have hasc := h.ascending
    rw [← hfirsts] at hasc
    exact hasc

structure Between (t : Plist ν) (node first : ν) (gs lo hi : List (Group ν))
    (r : ν × Option ν × Option ν) : Prop where
  split : gs = lo ++ hi
  low : ∀ g ∈ lo, t.prio g.1 ≤ t.prio node
  high : ∀ g ∈ hi, t.prio node < t.prio g.1
  iter : r.1 = (hi.head?.map Prod.fst).getD first
  prev : r.2.1 = lo.getLast?.map Prod.fst
  next : r.2.2 = hi.head?.map Prod.fst

lemma forall_mem_insert {l m : List α} {a : α}
    (h : ∀ x ∈ l ++ m, P x) (ha : P a) : ∀ x ∈ l ++ a :: m, P x := by
  exact forall_mem_append.mpr ⟨fun x hx => h x (mem_append_left m hx), forall_mem_cons.mpr ⟨ha,
    fun x hx => h x (mem_append_right l hx)⟩⟩

lemma sublist_middle (l m : List α) (a : α) : (l ++ m).Sublist (l ++ a :: m) :=
  (List.Sublist.refl l).append (sublist_cons_self a m)

lemma forall_mem_concat {l : List α} {a : α} (hl : ∀ x ∈ l, P x)
    (ha : P a) : ∀ x ∈ l ++ [a], P x := by
  exact forall_mem_append.mpr ⟨hl, fun x hx => mem_singleton.mp hx ▸ ha⟩

variable {fuel : ℕ}

lemma addLoop_spec (h : Shape t gs) (hfirst : (firstsOf gs).head? = some first)
    (hsplit : gs = pre ++ g :: post) (hlow : ∀ x ∈ pre, t.prio x.1 ≤ t.prio node)
    (hfuel : post.length < fuel) :
    ∃ r lo hi, addLoop t node first fuel g.1 (pre.getLast?.map Prod.fst) = some r ∧
      Between t node first gs lo hi r := by
  induction post generalizing fuel pre g with
  | nil =>
    obtain ⟨fuel, rfl⟩ := Nat.exists_eq_succ_of_ne_zero (Nat.ne_zero_of_lt hfuel)
    unfold addLoop
    by_cases hlt : t.prio node < t.prio g.1
    · rw [if_pos hlt]
      exact ⟨_, pre, [g], rfl, hsplit, hlow, high_of_head h hsplit hlt, rfl, rfl, rfl⟩
    · obtain ⟨m, hm⟩ := List.head?_eq_some_iff.mp hfirst
      have hcycle := h.firsts
      rw [hsplit, firstsOf_append] at hm hcycle
      have hnext : t.prioList.next g.1 = first := Cycle.next_last hm hcycle
      rw [if_neg hlt, if_pos hnext, hnext]
      refine ⟨_, pre ++ [g], [], rfl, ?_, ?_, ?_, rfl, ?_, rfl⟩
      · rw [append_nil, hsplit]
      · exact forall_mem_concat hlow (not_lt.mp hlt)
      · exact nofun
      · rw [List.getLast?_concat, Option.map_some]
  | cons g' post ih =>
    obtain ⟨fuel, rfl⟩ := Nat.exists_eq_succ_of_ne_zero (Nat.ne_zero_of_lt hfuel)
    unfold addLoop
    by_cases hlt : t.prio node < t.prio g.1
    · rw [if_pos hlt]
      exact ⟨_, pre, g :: g' :: post, rfl, hsplit, hlow, high_of_head h hsplit hlt, rfl, rfl, rfl⟩
    · obtain ⟨m, hm⟩ := List.head?_eq_some_iff.mp hfirst
      have hcycle := h.firsts
      rw [hsplit, firstsOf_append, firstsOf_cons, firstsOf_cons] at hm hcycle
      have hnext : t.prioList.next g.1 = g'.1 := hcycle.next_at
      -- the next one is not the first again, as there is one before it
      have hne : g'.1 ≠ first := by
        rintro rfl
        have hnodup := hcycle.nodup
        rw [hm] at hnodup
        refine (nodup_cons.mp hnodup).1 ?_
        cases pre with
        | nil =>
          obtain ⟨-, rfl⟩ := List.cons.inj hm
          exact mem_cons_self
        | cons x pre =>
          obtain ⟨-, rfl⟩ := List.cons.inj hm
          exact mem_append_right _ (mem_cons_of_mem _ mem_cons_self)
      rw [if_neg hlt, hnext, if_neg hne]
      have hprev : some g.1 = (pre ++ [g]).getLast?.map Prod.fst := by
        rw [List.getLast?_concat, Option.map_some]
      rw [hprev]
      refine ih ?_ (forall_mem_concat hlow (not_lt.mp hlt)) (lt_of_succ_lt_succ hfuel)
      rw [append_assoc]
      exact hsplit

section

variable {t : Plist ν} {gs lo hi : List (Group ν)} {node : ν}

lemma Shape.addNode (h : Shape t gs) (hsplit : gs = lo ++ hi) (hnode : node ∉ nodesOf gs) :
    (t.nodeList.addTail (some node) (hi.head?.map Prod.fst)).Ring none
      ((nodesOf lo ++ node :: nodesOf hi).map some) := by
  have hring := h.nodes
  have hnew := some_not_mem hnode
  rw [hsplit, nodesOf_append, map_append] at hring hnew
  rw [map_append, map_cons]
  cases hi with
  | nil =>
    have hadd := hring.addTail hnew
    rw [append_assoc] at hadd
    exact hadd
  | cons g hi =>
    exact hring.addTail_at hnew

lemma Shape.addNode_off (h : Shape t gs) (hsplit : gs = lo ++ hi) :
    ∀ a ∉ nodesOf lo ++ node :: nodesOf hi,
      (t.nodeList.addTail (some node) (hi.head?.map Prod.fst)).Ring (some a) [] := by
  intro a ha
  obtain ⟨hne, hoff⟩ := not_mem_middle.mp ha
  rw [← nodesOf_append, ← hsplit] at hoff
  have hnext : hi.head?.map Prod.fst ∈ none :: (nodesOf gs).map some := by
    cases hi with
    | nil => exact mem_cons_self
    | cons g hi =>
      refine mem_cons_of_mem none (mem_map.mpr ⟨g.1, ?_, rfl⟩)
      rw [hsplit, nodesOf_append]
      exact mem_append_right _ mem_cons_self
  exact addTail_frame h.nodes hnext (some_not_mem hoff) (fun heq => hne (Option.some.inj heq))
    (h.off a hoff)

variable {g : Group ν}

lemma Shape.joinGroup (h : Shape t gs) (hsplit : gs = lo ++ g :: hi) (hnode : node ∉ nodesOf gs)
    (hprio : t.prio g.1 = t.prio node) :
    Shape { t with nodeList := t.nodeList.addTail (some node) (hi.head?.map Prod.fst) }
      (lo ++ (g.1, g.2 ++ [node]) :: hi) := by
  have hsplit' : gs = (lo ++ [g]) ++ hi := by
    rw [append_assoc]
    exact hsplit
  have hnodes : nodesOf (lo ++ (g.1, g.2 ++ [node]) :: hi) =
      nodesOf (lo ++ [g]) ++ node :: nodesOf hi := by
    simp [nodesOf]
  have hfirsts : firstsOf (lo ++ (g.1, g.2 ++ [node]) :: hi) = firstsOf gs := by
    rw [hsplit, firstsOf_append, firstsOf_append]
    rfl
  refine ⟨?_, ?_, ?_, ?_, ?_, ?_⟩
  · rw [hnodes]
    exact h.addNode hsplit' hnode
  · rw [hnodes]
    exact h.addNode_off hsplit'
  · rw [hfirsts]
    exact h.firsts
  · rw [hfirsts]
    exact h.others
  · have hsame := h.same
    rw [hsplit] at hsame
    refine forall_mem_insert (fun x hx => hsame x ((sublist_middle lo hi g).subset hx)) ?_
    exact forall_mem_concat (hsame g (mem_append_right lo mem_cons_self)) hprio.symm
  · rw [hfirsts]
    exact h.ascending

lemma Shape.newGroup {first : ν} (h : Shape t gs) (hsplit : gs = lo ++ hi)
    (hnode : node ∉ nodesOf gs) (hfirst : (firstsOf gs).head? = some first)
    (hlow : ∀ g ∈ lo, t.prio g.1 < t.prio node) (hhigh : ∀ g ∈ hi, t.prio node < t.prio g.1) : Shape
      { t with
        prioList := t.prioList.addTail node ((hi.head?.map Prod.fst).getD first)
        nodeList := t.nodeList.addTail (some node) (hi.head?.map Prod.fst) }
      (lo ++ (node, []) :: hi) := by
  have hnodes : nodesOf (lo ++ (node, []) :: hi) = nodesOf lo ++ node :: nodesOf hi :=
    nodesOf_append _ _
  have hfirsts : firstsOf (lo ++ (node, []) :: hi) = firstsOf lo ++ node :: firstsOf hi :=
    firstsOf_append _ _
  have hnew : node ∉ firstsOf gs := fun hmem => hnode ((firstsOf_sublist gs).subset hmem)
  refine ⟨?_, ?_, ?_, ?_, ?_, ?_⟩
  · rw [hnodes]
    exact h.addNode hsplit hnode
  · rw [hnodes]
    exact h.addNode_off hsplit
  · have hcycle := h.firsts
    rw [hfirsts]
    cases hi with
    | nil =>
      -- behind all others, which is before the first one of the ring
      obtain ⟨m, hm⟩ := List.head?_eq_some_iff.mp hfirst
      rw [hm] at hcycle hnew
      have hadd : (t.prioList.addTail node first).Cycle (first :: (m ++ [node])) :=
        Ring.addTail hcycle hnew
      rw [hsplit, append_nil] at hm
      rw [hm]
      exact hadd
    | cons g hi =>
      rw [hsplit, firstsOf_append, firstsOf_cons] at hcycle hnew
      exact hcycle.addTail_at hnew
  · intro a ha
    rw [hfirsts] at ha
    obtain ⟨hne, hoff⟩ := not_mem_middle.mp ha
    rw [← firstsOf_append, ← hsplit] at hoff
    refine h.firsts.addTail_frame ?_ hoff hne (h.others a hoff)
    cases hi with
    | nil => exact mem_of_head? hfirst
    | cons g hi =>
      rw [hsplit, firstsOf_append]
      exact mem_append_right _ mem_cons_self
  · have hsame := h.same
    rw [hsplit] at hsame
    exact forall_mem_insert hsame nofun
  · have hasc := h.ascending
    rw [hsplit, firstsOf_append, map_append, pairwise_append] at hasc
    rw [hfirsts, map_append, map_cons]
    have hlow' : ∀ q ∈ (firstsOf lo).map t.prio, q < t.prio node :=
      forall_mem_map.mpr (forall_mem_map.mpr hlow)
    have hhigh' : ∀ q ∈ (firstsOf hi).map t.prio, t.prio node < q :=
      forall_mem_map.mpr (forall_mem_map.mpr hhigh)
    refine pairwise_append.mpr ⟨hasc.1, pairwise_cons.mpr ⟨hhigh', hasc.2.1⟩, ?_⟩
    intro q hq r hr
    rcases mem_cons.mp hr with rfl | hr
    · exact hlow' q hq
    · exact hasc.2.2 q hq r hr

lemma Shape.addFirst (h : Shape t []) :
    Shape { t with nodeList := t.nodeList.addTail (some node) none } [(node, [])] := by
  have halone : t.prioList.Ring node [] := h.others node not_mem_nil
  have hsplit : ([] : List (Group ν)) = [] ++ [] := rfl
  refine ⟨?_, ?_, halone, fun a _ => h.others a not_mem_nil, ?_, pairwise_singleton _ _⟩
  · exact h.addNode hsplit not_mem_nil
  · exact h.addNode_off hsplit
  · intro g hg a ha
    obtain rfl := mem_singleton.mp hg
    cases ha

structure Added (t t' : Plist ν) (gs gs' lo hi : List (Group ν)) (node : ν) : Prop where
  shape : Shape t' gs'
  prio : t'.prio = t.prio
  split : gs = lo ++ hi
  nodes : nodesOf gs' = nodesOf lo ++ node :: nodesOf hi
  low : ∀ g ∈ lo, t.prio g.1 ≤ t.prio node
  high : ∀ g ∈ hi, t.prio node < t.prio g.1
  length : gs'.length ≤ gs.length + 1

omit [DecidableEq ν] in
lemma lt_of_last (h : Shape t gs) (hsplit : gs = (lo ++ [g]) ++ hi) (hlt : t.prio g.1 < p)
    : ∀ x ∈ lo ++ [g], t.prio x.1 < p := by
  have hasc := h.ascending
  rw [hsplit, firstsOf_append, firstsOf_append, map_append, map_append] at hasc
  have hlast := (pairwise_append.mp (pairwise_append.mp hasc).1).2.2
  refine forall_mem_concat (fun x hx => ?_) hlt
  exact lt_trans (hlast _ (mem_map_of_mem (mem_firstsOf hx)) _ mem_cons_self) hlt

lemma Shape.add (h : Shape t gs) (hnode : node ∉ nodesOf gs) {fuel : ℕ} (hfuel : gs.length ≤ fuel) :
    ∃ t' gs' lo hi, plistAdd fuel t node = some t' ∧ Added t t' gs gs' lo hi node := by
  have hring := h.nodes
  have hnone : ∀ g ∈ ([] : List (Group ν)), t.prio g.1 ≤ t.prio node :=
    nofun
  cases gs with
  | nil =>
    rw [plistAdd, (ring_nil.mp hring).1]
    exact ⟨_, _, [], [], rfl, h.addFirst, rfl, rfl, rfl, hnone, nofun, Nat.le_refl _⟩
  | cons g0 gs =>
    have hhead : t.nodeList.next none = some g0.1 := hring.next_head
    obtain ⟨⟨iter, prev, next⟩, lo, hi, hloop, hsplit, hlow, hhigh, hiter, hprev, hnext⟩ :=
      addLoop_spec h rfl (nil_append _).symm hnone (lt_of_succ_le hfuel)
    dsimp only at hiter hprev hnext
    rw [getLast?_nil, Option.map_none] at hloop
    unfold plistAdd
    rw [hhead]
    dsimp only
    rw [hloop, hiter, hprev, hnext, Option.map_some]
    have hcount : (g0 :: gs).length = lo.length + hi.length := by
      rw [hsplit, length_append]
    -- whether the last group that is not too high is the one of the priority
    rcases eq_nil_or_concat' lo with rfl | ⟨lo, g, rfl⟩
    · refine ⟨_, _, [], hi, rfl, ?_, rfl, hsplit, nodesOf_append [] ((node, []) :: hi), hlow, hhigh,
        ?_⟩
      · exact h.newGroup hsplit hnode rfl nofun hhigh
      · rw [hcount]
        simp
    · have hlast : ((lo ++ [g]).getLast?.map Prod.fst).map t.prio = some (t.prio g.1) := by
        rw [List.getLast?_concat]
        rfl
      rcases Int.lt_or_eq_of_le (hlow g (mem_append_right lo mem_cons_self)) with hlt | heq
      · refine ⟨_, lo ++ [g] ++ (node, []) :: hi, lo ++ [g], hi, rfl, ?_, rfl, hsplit,
          nodesOf_append _ _, hlow, hhigh, ?_⟩
        · rw [hlast, if_neg (fun hsome => ne_of_lt hlt (Option.some.inj hsome))]
          exact h.newGroup hsplit hnode rfl (lt_of_last h hsplit hlt) hhigh
        · rw [hcount]
          simp
          omega
      · have hsplit' : g0 :: gs = lo ++ g :: hi := by
          rw [hsplit, append_assoc]
          rfl
        refine ⟨_, lo ++ (g.1, g.2 ++ [node]) :: hi, lo ++ [g], hi, rfl, ?_, rfl, hsplit, ?_,
          hlow, hhigh, ?_⟩
        · rw [hlast, if_pos (congrArg some heq)]
          exact h.joinGroup hsplit' hnode heq
        · simp [nodesOf]
        · rw [hcount]
          simp
          omega

end

section

variable {t : Plist ν} {gs lo hi : List (Group ν)} {node : ν} {l m os ps bs : List ν}

lemma Shape.delNode (h : Shape t gs) (hsplit : nodesOf gs = l ++ node :: m) :
    (t.nodeList.delInit (some node)).Ring none ((l ++ m).map some) := by
  have hring := h.nodes
  rw [hsplit, map_append, map_cons] at hring
  rw [map_append]
  exact hring.delInit_at

lemma Shape.delNode_off (h : Shape t gs) (hsplit : nodesOf gs = l ++ node :: m) :
    ∀ a ∉ l ++ m, (t.nodeList.delInit (some node)).Ring (some a) [] := by
  intro a ha
  by_cases hne : a = node
  · rw [hne]
    exact ring_delInit_self _ _
  · have hoff : a ∉ nodesOf gs := by
      rw [hsplit]
      exact not_mem_middle.mpr ⟨hne, ha⟩
    refine delInit_frame h.nodes ?_ (some_not_mem hoff) (h.off a hoff)
    refine mem_cons_of_mem none (mem_map.mpr ⟨node, ?_, rfl⟩)
    rw [hsplit]
    exact mem_append_right l mem_cons_self

variable {r b : ν}

omit [DecidableEq ν] in
lemma firstsOf_other (lo hi : List (Group ν)) (r : ν) (os ps : List ν) :
    firstsOf (lo ++ (r, os) :: hi) = firstsOf (lo ++ (r, ps) :: hi) := by
  rw [firstsOf_append, firstsOf_append]
  rfl

omit [DecidableEq ν] in
lemma Shape.not_first (h : Shape t (lo ++ (r, os ++ a :: ps) :: hi)) :
    a ∉ firstsOf (lo ++ (r, os ++ a :: ps) :: hi) := by
  have hnodup := h.nodup
  rw [nodesOf_split, cons_append, nodup_middle, ← nodesOf_split] at hnodup
  rw [firstsOf_other lo hi r _ (os ++ ps)]
  exact fun hmem => (nodup_cons.mp hnodup).1 ((firstsOf_sublist _).subset hmem)

lemma Shape.delOther (h : Shape t (lo ++ (r, os ++ node :: ps) :: hi)) :
    Shape (plistDel t node) (lo ++ (r, os ++ ps) :: hi) := by
  have hnodes := nodesOf_split lo hi r os (node :: ps)
  have hfirsts := firstsOf_other lo hi r (os ++ ps) (os ++ node :: ps)
  have hprio : plistDelPrio t node = t.prioList := by
    rw [plistDelPrio, if_pos (isEmpty_of_ring_nil (h.others node h.not_first))]
  refine ⟨?_, ?_, ?_, ?_, ?_, ?_⟩
  · rw [nodesOf_split]
    exact h.delNode hnodes
  · rw [nodesOf_split]
    exact h.delNode_off hnodes
  · rw [hfirsts, plistDel, hprio]
    exact h.firsts
  · rw [hfirsts, plistDel, hprio]
    exact h.others
  · refine forall_mem_insert (fun x hx => h.same x ((sublist_middle lo hi _).subset hx)) ?_
    intro a ha
    exact h.same _ (mem_append_right lo mem_cons_self) a
      ((sublist_middle os ps node).subset ha)
  · rw [hfirsts]
    exact h.ascending

lemma plistDelPrio_only (h : Shape t (lo ++ (node, []) :: hi)) :
    plistDelPrio t node = t.prioList.delInit node := by
  have hcycle := h.firsts
  have hring := h.nodes
  rw [firstsOf_append, firstsOf_cons] at hcycle
  rw [nodesOf_append, nodesOf_cons, nil_append, map_append, map_cons] at hring
  have hat : t.prioList.Ring node (firstsOf hi ++ firstsOf lo) := hcycle.ring_at
  rw [plistDelPrio]
  rcases hlist : firstsOf hi ++ firstsOf lo with - | ⟨x, l⟩
  · rw [hlist] at hat
    rw [if_pos (isEmpty_of_ring_nil hat), delInit_of_alone hat]
  · rw [hlist] at hat
    rw [isEmpty_of_ring_cons hat, if_neg nofun]
    cases hi with
    | nil =>
      have hnext : t.nodeList.next (some node) = none := hring.next_last
      simp [hnext]
    | cons g hi =>
      have hnext : t.nodeList.next (some node) = some g.1 := hring.next_at
      -- the next node is the first one of its priority, and not the only such node
      have hat' : t.prioList.Ring g.1 (firstsOf hi ++ (firstsOf lo ++ [node])) := by
        refine Cycle.ring_at ?_
        rw [append_assoc]
        exact hcycle
      have hempty : t.prioList.isEmpty g.1 = false := by
        rcases hlist' : firstsOf hi ++ (firstsOf lo ++ [node]) with - | ⟨y, m⟩
        · rw [← append_assoc] at hlist'
          exact absurd hlist' (append_ne_nil_of_right_ne_nil _ nofun)
        · rw [hlist'] at hat'
          exact isEmpty_of_ring_cons hat'
      simp [hnext, hempty]

lemma Shape.delOnly (h : Shape t (lo ++ (node, []) :: hi)) :
    Shape (plistDel t node) (lo ++ hi) := by
  have hnodes := nodesOf_append lo ((node, []) :: hi)
  have hfirsts := firstsOf_append lo ((node, []) :: hi)
  rw [firstsOf_cons] at hfirsts
  have hprio := plistDelPrio_only h
  refine ⟨?_, ?_, ?_, ?_, ?_, ?_⟩
  · rw [nodesOf_append]
    exact h.delNode hnodes
  · rw [nodesOf_append]
    exact h.delNode_off hnodes
  · have hcycle := h.firsts
    rw [hfirsts] at hcycle
    rw [firstsOf_append, plistDel, hprio]
    exact hcycle.delInit_at
  · intro a ha
    rw [firstsOf_append] at ha
    rw [plistDel, hprio]
    by_cases hne : a = node
    · rw [hne]
      exact ring_delInit_self _ _
    · have hoff : a ∉ firstsOf (lo ++ (node, []) :: hi) := by
        rw [hfirsts]
        exact not_mem_middle.mpr ⟨hne, ha⟩
      refine h.firsts.delInit_frame ?_ hoff (h.others a hoff)
      rw [hfirsts]
      exact mem_append_right _ mem_cons_self
  · exact fun x hx => h.same x ((sublist_middle lo hi _).subset hx)
  · have hasc := h.ascending
    rw [hfirsts] at hasc
    rw [firstsOf_append]
    exact hasc.sublist ((sublist_middle _ _ node).map t.prio)

lemma plistDelPrio_promote (h : Shape t (lo ++ (node, b :: bs) :: hi)) :
    (plistDelPrio t node).Cycle (firstsOf lo ++ b :: firstsOf hi) ∧
      ∀ a ∉ firstsOf lo ++ b :: firstsOf hi, (plistDelPrio t node).Ring a [] := by
  have hfirsts := firstsOf_append lo ((node, b :: bs) :: hi)
  rw [firstsOf_cons] at hfirsts
  have hcycle := h.firsts
  have hring := h.nodes
  rw [hfirsts] at hcycle
  rw [nodesOf_append, nodesOf_cons, map_append] at hring
  have hat : t.prioList.Ring node (firstsOf hi ++ firstsOf lo) := hcycle.ring_at
  have hnext : t.nodeList.next (some node) = some b := hring.next_at
  -- the next node is not the first one of any priority
  have hb : b ∉ firstsOf (lo ++ (node, [] ++ b :: bs) :: hi) := Shape.not_first h
  rw [nil_append] at hb
  have hbalone : t.prioList.Ring b [] := h.others b hb
  rcases hlist : firstsOf hi ++ firstsOf lo with - | ⟨x, l⟩
  · rw [hlist] at hat
    obtain ⟨hhi, hlo⟩ := append_eq_nil_iff.mp hlist
    rw [plistDelPrio, if_pos (isEmpty_of_ring_nil hat), hlo, hhi]
    refine ⟨hbalone, fun a _ => ?_⟩
    by_cases hne : a = node
    · rw [hne]
      exact hat
    · refine h.others a ?_
      rw [hfirsts, hlo, hhi]
      exact fun hmem => hne (mem_singleton.mp hmem)
  · have hmem : ∀ a, a ∈ firstsOf (lo ++ (node, b :: bs) :: hi) ↔ a ∈ node :: x :: l := by
      intro a
      rw [hfirsts, ← hlist]
      exact perm_append_comm.mem_iff
    have hprio : plistDelPrio t node = (t.prioList.add b node).delInit node := by
      rw [hlist] at hat
      rw [plistDelPrio, isEmpty_of_ring_cons hat]
      simp [hnext, isEmpty_of_ring_nil hbalone]
    have hat' : t.prioList.Ring node ([] ++ x :: l) := hlist ▸ hat
    have hadd : (t.prioList.add b node).Ring node (b :: x :: l) := by
      rw [hat'.add_eq_addTail]
      exact hat'.addTail_at fun hin => hb ((hmem b).mpr hin)
    rw [hprio]
    refine ⟨?_, fun a ha => ?_⟩
    · refine Ring.cycle ?_
      rw [hlist]
      exact hadd.delInit
    · by_cases hne : a = node
      · rw [hne]
        exact ring_delInit_self _ _
      · obtain ⟨hab, hrest⟩ := not_mem_middle.mp ha
        have hoff : a ∉ firstsOf (lo ++ (node, b :: bs) :: hi) := by
          rw [hfirsts]
          exact not_mem_middle.mpr ⟨hne, hrest⟩
        have hoff' : a ∉ node :: x :: l := fun hin => hoff ((hmem a).mpr hin)
        refine delInit_frame hadd mem_cons_self ?_ ?_
        · exact not_mem_middle (l := [node]).mpr ⟨hab, hoff'⟩
        · rw [hat'.add_eq_addTail]
          exact addTail_frame hat' (mem_cons_of_mem node mem_cons_self) hoff' hab
            (h.others a hoff)

lemma Shape.delPromote (h : Shape t (lo ++ (node, b :: bs) :: hi)) :
    Shape (plistDel t node) (lo ++ (b, bs) :: hi) := by
  have hnodes := nodesOf_append lo ((node, b :: bs) :: hi)
  have hfirsts : firstsOf (lo ++ (b, bs) :: hi) = firstsOf lo ++ b :: firstsOf hi :=
    firstsOf_append _ _
  obtain ⟨hcycle, halone⟩ := plistDelPrio_promote h
  have hgroup := h.same _ (mem_append_right lo mem_cons_self)
  have hprio : t.prio b = t.prio node := hgroup b mem_cons_self
  refine ⟨?_, ?_, ?_, ?_, ?_, ?_⟩
  · rw [nodesOf_append]
    exact h.delNode hnodes
  · rw [nodesOf_append]
    exact h.delNode_off hnodes
  · rw [hfirsts]
    exact hcycle
  · rw [hfirsts]
    exact halone
  · refine forall_mem_insert (fun x hx => h.same x ((sublist_middle lo hi _).subset hx)) ?_
    intro a ha
    exact (hgroup a (mem_cons_of_mem b ha)).trans hprio.symm
  · have hasc := h.ascending
    rw [firstsOf_append, firstsOf_cons, map_append, map_cons] at hasc
    rw [hfirsts, map_append, map_cons]
    show (_ ++ t.prio b :: _).Pairwise _
    rw [hprio]
    exact hasc

/-- **Deleting.** The node is taken out of the order, and nothing else changes. -/
lemma Shape.del (h : Shape t gs) (hnode : node ∈ nodesOf gs) :
    ∃ gs' l m, Shape (plistDel t node) gs' ∧ nodesOf gs = l ++ node :: m ∧
      nodesOf gs' = l ++ m ∧ gs'.length ≤ gs.length := by
  obtain ⟨⟨r, os⟩, hg, hmem⟩ := mem_flatMap.mp hnode
  obtain ⟨lo, hi, rfl⟩ := append_of_mem hg
  rcases mem_cons.mp hmem with rfl | hmem
  · cases os with
    | nil =>
      exact ⟨_, nodesOf lo, nodesOf hi, h.delOnly, nodesOf_append _ _, nodesOf_append _ _,
        (sublist_middle lo hi _).length_le⟩
    | cons b bs =>
      refine ⟨_, nodesOf lo, b :: (bs ++ nodesOf hi), h.delPromote, nodesOf_append _ _,
        nodesOf_append _ _, ?_⟩
      rw [length_append, length_append]
      exact Nat.le_refl _
  · obtain ⟨os, ps, rfl⟩ := append_of_mem hmem
    refine ⟨_, nodesOf lo ++ r :: os, ps ++ nodesOf hi, h.delOther,
      nodesOf_split lo hi r os (node :: ps), nodesOf_split lo hi r os ps, ?_⟩
    rw [length_append, length_append]
    exact Nat.le_refl _

end

abbrev Present (ν : Type*) := List (ν × ℤ)

def Present.Allowed (s : Present ν) : Call ν → Prop
  | .add node _ => node ∉ s.map Prod.fst
  | .del node => node ∈ s.map Prod.fst

def Present.next (s : Present ν) : Call ν → Present ν
  | .add node prio => s ++ [(node, prio)]
  | .del node => s.filter fun x => x.1 ≠ node

def contract : Contract (Present ν) (Call ν) Unit where
  allowed := Present.Allowed
  ok _ _ _ := True
  next s c _ := s.next c

/-- The nodes in the order of `node_list`, and those linked by `prio_list`. -/
structure Lists (s : Present ν) (t : Plist ν) (nodes firsts : List ν) : Prop where
  nodeList : t.nodeList.Ring none (nodes.map some)
  sorted : nodes.Pairwise fun a b => t.prio a ≤ t.prio b
  /-- Those of one priority are the ones that are present, in the order of insertion. -/
  stable : ∀ p, (nodes.map fun a => (a, t.prio a)).filter (fun x => x.2 = p) =
    s.filter fun x => x.2 = p
  /-- The nodes that are not on the list pass the `WARN_ON` of `plist_add`. -/
  off : ∀ a ∉ nodes, t.nodeList.isEmpty (some a)
  prioList : t.prioList.Cycle firsts
  start : firsts.head? = nodes.head?
  ascending : firsts.Pairwise fun a b => t.prio a < t.prio b
  mem_firsts : ∀ a, a ∈ firsts ↔
    ∃ l m, nodes = l ++ a :: m ∧ ∀ b ∈ l, t.prio b ≠ t.prio a
  others : ∀ a ∉ firsts, t.prioList.isEmpty a

def Right (s : Present ν) (t : Plist ν) : Prop := ∃ nodes firsts, Lists s t nodes firsts

def Stable (s : Present ν) (prio : ν → ℤ) (nodes : List ν) : Prop :=
  ∀ p, (nodes.map fun a => (a, prio a)).filter (fun x => x.2 = p) = s.filter fun x => x.2 = p

section

variable {s : Present ν} {t : Plist ν} {gs : List (Group ν)} {g : Group ν}

lemma Shape.lists (h : Shape t gs) (hstable : Stable s t.prio (nodesOf gs)) :
    Lists s t (nodesOf gs) (firstsOf gs) where
  nodeList := h.nodes
  sorted := h.sorted
  stable := hstable
  off a ha := isEmpty_of_ring_nil (h.off a ha)
  prioList := h.firsts
  start := by
    cases gs <;> rfl
  ascending := pairwise_map.mp h.ascending
  mem_firsts := h.mem_firsts_iff
  others a ha := isEmpty_of_ring_nil (h.others a ha)

variable {prio : ν → ℤ} {nodes l m : List ν}

omit [DecidableEq ν] in
lemma Stable.mem_iff (h : Stable s prio nodes) (a : ν) : a ∈ nodes ↔ a ∈ s.map Prod.fst := by
  constructor
  · intro ha
    have hmem : (a, prio a) ∈ (nodes.map fun a => (a, prio a)).filter (fun x => x.2 = prio a) :=
      mem_filter.mpr ⟨mem_map.mpr ⟨a, ha, rfl⟩, decide_eq_true rfl⟩
    rw [h (prio a)] at hmem
    exact mem_map.mpr ⟨_, (mem_filter.mp hmem).1, rfl⟩
  · intro ha
    obtain ⟨⟨a, p⟩, hmem, rfl⟩ := mem_map.mp ha
    have hmem' : (a, p) ∈ s.filter fun x => x.2 = p :=
      mem_filter.mpr ⟨hmem, decide_eq_true rfl⟩
    rw [← h p] at hmem'
    obtain ⟨b, hb, heq⟩ := mem_map.mp (mem_filter.mp hmem').1
    cases heq
    exact hb

variable {node : ν}

lemma Stable.setPrio (h : Stable s prio nodes) (hnode : node ∉ nodes) (p : ℤ)
    : Stable s (update prio node p) nodes := by
  intro q
  rw [← h q]
  refine congrArg _ (map_congr_left fun a ha => ?_)
  have hne : a ≠ node := fun heq => hnode (heq ▸ ha)
  rw [update_of_ne hne]

omit [DecidableEq ν] in
lemma Stable.insert (h : Stable s prio (l ++ m)) (hhigh : ∀ b ∈ m, prio node < prio b) :
    Stable (s ++ [(node, prio node)]) prio (l ++ node :: m) := by
  intro p
  rw [filter_append, ← h p, map_append, map_cons, filter_append,
    map_append, filter_append, append_assoc]
  refine congrArg _ ?_
  by_cases hp : prio node = p
  · have hnone : (m.map fun a => (a, prio a)).filter (fun x => x.2 = p) = [] := by
      refine filter_eq_nil_iff.mpr fun x hx => ?_
      obtain ⟨b, hb, rfl⟩ := mem_map.mp hx
      rw [decide_eq_true_eq, ← hp]
      exact (ne_of_lt (hhigh b hb)).symm
    rw [filter_cons, hnone, nil_append, filter_cons, filter_nil]
  · rw [filter_cons, filter_cons, filter_nil, if_neg (mt of_decide_eq_true hp),
      if_neg (mt of_decide_eq_true hp), append_nil]

lemma Stable.delete (h : Stable s prio (l ++ node :: m)) (hnodup : (l ++ node :: m).Nodup) :
    Stable (s.filter fun x => x.1 ≠ node) prio (l ++ m) := by
  have hnot : node ∉ l ++ m := (nodup_cons.mp (nodup_middle.mp hnodup)).1
  have hkeep : ((l ++ node :: m).map fun a => (a, prio a)).filter (fun x => x.1 ≠ node) =
      (l ++ m).map fun a => (a, prio a) := by
    have hself : ((l ++ m).map fun a => (a, prio a)).filter (fun x => x.1 ≠ node) =
        (l ++ m).map fun a => (a, prio a) := by
      refine filter_eq_self.mpr fun x hx => ?_
      obtain ⟨b, hb, rfl⟩ := mem_map.mp hx
      exact decide_eq_true fun heq => hnot (heq ▸ hb)
    rw [← hself, map_append, map_cons, filter_append, map_append, filter_append, filter_cons_of_neg]
    rw [decide_eq_true_eq]
    exact not_not_intro rfl
  intro p
  rw [← hkeep, filter_comm, h p, filter_comm]

def Holds (fuel n : ℕ) (s : Present ν) (t : Plist ν) : Prop :=
  ∃ gs, Shape t gs ∧ Stable s t.prio (nodesOf gs) ∧ gs.length + n ≤ fuel

variable {fuel n : ℕ}

lemma Holds.right (h : Holds fuel n s t) : Right s t := by
  obtain ⟨gs, hshape, hstable, -⟩ := h
  exact ⟨_, _, hshape.lists hstable⟩

variable (h : Holds fuel (n + 1) s t)
include h

lemma Holds.add {prio : ℤ} (hnode : node ∉ s.map Prod.fst)
    : ∃ t', Plist.call fuel t (.add node prio) = some (t', ()) ∧
      Holds fuel n (s ++ [(node, prio)]) t' := by
  obtain ⟨gs, hshape, hstable, hfuel⟩ := h
  have hnot : node ∉ nodesOf gs := fun hmem => hnode ((hstable.mem_iff node).mp hmem)
  obtain ⟨t', gs', lo, hi, hadd, hadded⟩ :=
    (hshape.setPrio hnot prio).add hnot (Nat.le_trans (by omega) hfuel)
  refine ⟨t', ?_, gs', hadded.shape, ?_, ?_⟩
  · rw [Plist.call, hadd]
    rfl
  · have hstable' := hstable.setPrio hnot prio
    rw [hadded.split, nodesOf_append] at hstable'
    have hhigh : ∀ b ∈ nodesOf hi, update t.prio node prio node < update t.prio node prio b := by
      intro b hb
      obtain ⟨g, hg, hbg⟩ := mem_flatMap.mp hb
      have hsame := (hshape.setPrio hnot prio).mem_same
        (hadded.split ▸ mem_append_right lo hg) hbg
      exact lt_of_lt_of_eq (hadded.high g hg) hsame.symm
    have hinsert := hstable'.insert hhigh
    rw [update_self] at hinsert
    rw [hadded.nodes, hadded.prio]
    exact hinsert
  · have hlength := hadded.length
    omega

lemma Holds.del (hnode : node ∈ s.map Prod.fst) :
    Holds fuel n (s.filter fun x => x.1 ≠ node) (plistDel t node) := by
  obtain ⟨gs, hshape, hstable, hfuel⟩ := h
  obtain ⟨gs', l, m, hshape', hnodes, hnodes', hlength⟩ :=
    hshape.del ((hstable.mem_iff node).mpr hnode)
  refine ⟨gs', hshape', ?_, by omega⟩
  have hnodup := hshape.nodup
  rw [hnodes] at hstable hnodup
  rw [hnodes']
  exact hstable.delete hnodup

end

/-- **The list is sorted, and the nodes of one priority stand in the order in which they
were added.** For any nodes that are added and deleted, where the loop of `plist_add` may
make as many steps as there are calls. -/
theorem plist_sorted (prio : ν → ℤ) (calls : List (Call ν)) (n : ℕ) :
    (Plist.call (calls.length + n)).Keeps contract Right [] (Plist.init prio) calls := by
  refine Component.keeps_of_countdown (I := Holds (calls.length + n)) (fun _ _ _ h => h.right) ?_
    calls ⟨[], Shape.init prio, fun _ => rfl, by simp⟩
  intro k s t c h hallowed
  cases c with
  | add node prio =>
    obtain ⟨t', hcall, h'⟩ := h.add hallowed
    exact ⟨t', (), hcall, trivial, h'⟩
  | del node => exact ⟨_, (), rfl, trivial, h.del hallowed⟩

theorem plist_sorted_three : ∃ s t rs, (Plist.call 3).run (Plist.init fun _ => 0)
    [.add 'a' 2, .add 'b' 1, .del 'a'] = some (t, rs) ∧ Right s t := by
  refine (plist_sorted (fun _ => 0) [.add 'a' 2, .add 'b' 1, .del 'a'] 0).run ?_
  simp [Contract.Allows, contract, Present.Allowed, Present.next]

end Am335x.PrioList
