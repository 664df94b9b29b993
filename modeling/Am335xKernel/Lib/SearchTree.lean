import Mathlib.Data.List.Sort

/-!
# Binary search trees with an unknown rebalancing

A search tree as kernel code uses it: the user walks down by comparing keys,
hangs a new element in at the empty link where the walk has ended, and then
calls a function that rebalances. Of that function only one thing is known, that
it keeps the elements in their order (`Rebalance`).

The elements in order are strictly ascending (`Sorted`); under that a walk finds
what is there.
-/

inductive SearchTree (α : Type*) where
  | nil
  | node (left : SearchTree α) (elem : α) (right : SearchTree α)

namespace SearchTree

open List

variable {α κ : Type*}

def inorder : SearchTree α → List α
  | nil => []
  | node l a r => l.inorder ++ a :: r.inorder

structure Rebalance where
  run : {α : Type} → SearchTree α → SearchTree α
  inorder_run : ∀ {α : Type} (t : SearchTree α), (run t).inorder = t.inorder

def Rebalance.none : Rebalance where
  run := id
  inorder_run _ := rfl

variable [LinearOrder κ] (key : α → κ)

def find (k : κ) : SearchTree α → Option α
  | nil => none
  | node l a r => if k = key a then some a else if k < key a then l.find k else r.find k

def link (x : α) : SearchTree α → SearchTree α
  | nil => node nil x nil
  | node l a r => if key x < key a then node (l.link x) a r else node l a (r.link x)

def modify (k : κ) (f : α → α) : SearchTree α → SearchTree α
  | nil => nil
  | node l a r =>
    if k = key a then node l (f a) r
    else if k < key a then node (l.modify k f) a r
    else node l a (r.modify k f)

def Sorted (t : SearchTree α) : Prop := (t.inorder.map key).Pairwise (· < ·)

variable {key} {k : κ} {x a : α} {l r t : SearchTree α}

lemma sorted_nil : Sorted key (nil : SearchTree α) := List.Pairwise.nil

lemma sorted_node : Sorted key (node l a r) ↔ Sorted key l ∧ Sorted key r ∧
      (∀ b ∈ l.inorder, key b < key a) ∧ ∀ b ∈ r.inorder, key a < key b := by
  simp only [Sorted, inorder, map_append, map_cons, pairwise_append,
    pairwise_cons, mem_map, mem_cons, forall_exists_index, and_imp,
    forall_apply_eq_imp_iff₂, forall_eq_or_imp]
  constructor
  · rintro ⟨hl, ⟨har, hr⟩, hlr⟩
    exact ⟨hl, hr, fun b hb => (hlr b hb).1, har⟩
  · rintro ⟨hl, hr, hla, har⟩
    exact ⟨hl, ⟨har, hr⟩, fun b hb => ⟨hla b hb, fun c hc => (hla b hb).trans (har c hc)⟩⟩

lemma mem_inorder_node : x ∈ (node l a r).inorder ↔ x = a ∨ x ∈ l.inorder ∨ x ∈ r.inorder := by
  simp only [inorder, mem_append, mem_cons]
  tauto

lemma find_eq_some (h : Sorted key t) : t.find key k = some x ↔ x ∈ t.inorder ∧ key x = k := by
  induction t with
  | nil => simp [find, inorder]
  | node l a r ihl ihr =>
    obtain ⟨hl, hr, hla, har⟩ := sorted_node.mp h
    rw [mem_inorder_node]
    unfold find
    rcases lt_trichotomy k (key a) with hlt | rfl | hgt
    · rw [if_neg hlt.ne, if_pos hlt, ihl hl]
      constructor
      · rintro ⟨hx, hk⟩
        exact ⟨.inr (.inl hx), hk⟩
      · rintro ⟨rfl | hx | hx, rfl⟩
        · exact absurd hlt (lt_irrefl _)
        · exact ⟨hx, rfl⟩
        · exact absurd hlt (har x hx).not_gt
    · rw [if_pos rfl, Option.some.injEq]
      constructor
      · rintro rfl
        exact ⟨.inl rfl, rfl⟩
      · rintro ⟨rfl | hx | hx, hk⟩
        · rfl
        · exact absurd hk (hla x hx).ne
        · exact absurd hk (har x hx).ne'
    · rw [if_neg hgt.ne', if_neg hgt.not_gt, ihr hr]
      constructor
      · rintro ⟨hx, hk⟩
        exact ⟨.inr (.inr hx), hk⟩
      · rintro ⟨rfl | hx | hx, rfl⟩
        · exact absurd hgt (lt_irrefl _)
        · exact absurd hgt (hla x hx).not_gt
        · exact ⟨hx, rfl⟩

lemma find_eq_none (h : Sorted key t) : t.find key k = none ↔ ∀ x ∈ t.inorder, key x ≠ k := by
  constructor
  · intro hnone x hx hk
    rw [(find_eq_some h).mpr ⟨hx, hk⟩] at hnone
    cases hnone
  · intro hall
    rcases hfind : t.find key k with _ | x
    · rfl
    · obtain ⟨hx, hk⟩ := (find_eq_some h).mp hfind
      exact absurd hk (hall x hx)

variable {u : SearchTree α}

/-- Two trees in which all walks find the same, as far as `g` can see, have the
same elements in the same order, as far as `g` can see. -/
lemma map_inorder_eq_of_find {β : Type*} {g : α → β} {gkey : β → κ} (hg : ∀ a, gkey (g a) = key a)
    (ht : Sorted key t) (hu : Sorted key u) (h : ∀ k, (t.find key k).map g = (u.find key k).map g) :
    t.inorder.map g = u.inorder.map g := by
  have hmem : ∀ {t u : SearchTree α}, Sorted key t → Sorted key u →
      (∀ k, (t.find key k).map g = (u.find key k).map g) →
      ∀ b ∈ t.inorder.map g, b ∈ u.inorder.map g := by
    intro t u ht hu h b hb
    obtain ⟨a, ha, rfl⟩ := mem_map.mp hb
    have hfind := h (key a)
    rw [(find_eq_some ht).mpr ⟨ha, rfl⟩, Option.map_some] at hfind
    obtain ⟨a', ha', hga⟩ := Option.map_eq_some_iff.mp hfind.symm
    exact mem_map.mpr ⟨a', ((find_eq_some hu).mp ha').1, hga⟩
  have hlt : ∀ {t : SearchTree α}, Sorted key t →
      (t.inorder.map g).Pairwise (fun b c => gkey b < gkey c) := by
    intro t h
    rw [pairwise_map]
    simp only [hg]
    exact pairwise_map.mp h
  have hnodup : ∀ {t : SearchTree α}, Sorted key t → (t.inorder.map g).Nodup :=
    fun h => (hlt h).imp fun hab heq => (heq ▸ hab).ne rfl
  refine List.Perm.eq_of_pairwise ?_ (hlt ht) (hlt hu)
    ((perm_ext_iff_of_nodup (hnodup ht) (hnodup hu)).mpr fun b => ?_)
  · intro a b _ _ hab hba
    exact absurd hab hba.not_gt
  · exact ⟨hmem ht hu h b, hmem hu ht (fun k => (h k).symm) b⟩

lemma inorder_eq_of_find (ht : Sorted key t) (hu : Sorted key u)
    (h : ∀ k, t.find key k = u.find key k) : t.inorder = u.inorder := by
  have hid : ∀ a, key (id a) = key a := fun _ => rfl
  have hmap := map_inorder_eq_of_find hid ht hu fun k => congrArg (Option.map id) (h k)
  rwa [map_id, map_id] at hmap

lemma mem_link : a ∈ (t.link key x).inorder ↔ a = x ∨ a ∈ t.inorder := by
  induction t with
  | nil => simp [link, inorder]
  | node l b r ihl ihr =>
    unfold link
    split
    · rw [mem_inorder_node, mem_inorder_node, ihl]
      tauto
    · rw [mem_inorder_node, mem_inorder_node, ihr]
      tauto

lemma sorted_link (h : Sorted key t) (hnew : ∀ a ∈ t.inorder, key a ≠ key x) :
    Sorted key (t.link key x) := by
  induction t with
  | nil => simp [link, Sorted, inorder]
  | node l b r ihl ihr =>
    obtain ⟨hl, hr, hlb, hbr⟩ := sorted_node.mp h
    have hb : key b ≠ key x := hnew b (mem_inorder_node.mpr (.inl rfl))
    have hnewl : ∀ a ∈ l.inorder, key a ≠ key x :=
      fun a ha => hnew a (mem_inorder_node.mpr (.inr (.inl ha)))
    have hnewr : ∀ a ∈ r.inorder, key a ≠ key x :=
      fun a ha => hnew a (mem_inorder_node.mpr (.inr (.inr ha)))
    unfold link
    split
    · rename_i hlt
      refine sorted_node.mpr ⟨ihl hl hnewl, hr, ?_, hbr⟩
      intro a ha
      rcases mem_link.mp ha with rfl | ha
      · exact hlt
      · exact hlb a ha
    · rename_i hge
      refine sorted_node.mpr ⟨hl, ihr hr hnewr, hlb, ?_⟩
      intro a ha
      rcases mem_link.mp ha with rfl | ha
      · exact lt_of_le_of_ne (not_lt.mp hge) hb
      · exact hbr a ha

lemma length_link : (t.link key x).inorder.length = t.inorder.length + 1 := by
  induction t with
  | nil => rfl
  | node l b r ihl ihr =>
    unfold link
    split
    · simp only [inorder, length_append, length_cons, ihl]
      omega
    · simp only [inorder, length_append, length_cons, ihr]
      omega

lemma sorted_congr (h : u.inorder = t.inorder) (ht : Sorted key t) : Sorted key u := by
  unfold Sorted
  rw [h]
  exact ht

/-- **A new element.** `u` is the tree after the rebalancing. -/
lemma find_insert (x : α) (h : Sorted key t) (hnew : t.find key (key x) = none)
    (hu : u.inorder = (t.link key x).inorder) (k : κ) :
    u.find key k = if k = key x then some x else t.find key k := by
  have hsorted : Sorted key u := sorted_congr hu (sorted_link h ((find_eq_none h).mp hnew))
  have hmem : ∀ a, a ∈ u.inorder ↔ a = x ∨ a ∈ t.inorder := by
    intro a
    rw [hu, mem_link]
  split
  · rename_i hk
    exact (find_eq_some hsorted).mpr ⟨(hmem x).mpr (.inl rfl), hk.symm⟩
  · rename_i hk
    apply Option.ext
    intro a
    rw [find_eq_some hsorted, find_eq_some h, hmem]
    constructor
    · rintro ⟨rfl | ha, rfl⟩
      · exact absurd rfl hk
      · exact ⟨ha, rfl⟩
    · rintro ⟨ha, rfl⟩
      exact ⟨.inr ha, rfl⟩

variable {f : α → α}

section

variable (hf : ∀ a, key (f a) = key a)
include hf

lemma map_key_modify : (t.modify key k f).inorder.map key = t.inorder.map key := by
  induction t with
  | nil => rfl
  | node l a r ihl ihr =>
    unfold modify
    split_ifs <;> simp only [inorder, map_append, map_cons, ihl, ihr, hf]

lemma length_modify : (t.modify key k f).inorder.length = t.inorder.length := by
  have hlen := congrArg List.length (map_key_modify (t := t) (k := k) hf)
  rwa [length_map, length_map] at hlen

lemma sorted_modify (h : Sorted key t) : Sorted key (t.modify key k f) := by
  unfold Sorted
  rw [map_key_modify hf]
  exact h

end

lemma find_node_self (h : k = key a) : (node l a r).find key k = some a := if_pos h

lemma find_node_left (h : k < key a) : (node l a r).find key k = l.find key k := by
  rw [find, if_neg h.ne, if_pos h]

lemma find_node_right (h : key a < k) : (node l a r).find key k = r.find key k := by
  rw [find, if_neg h.ne', if_neg h.not_gt]

/-- **An element changed.** -/
lemma find_modify (hf : ∀ a, key (f a) = key a) (k' : κ) : (t.modify key k f).find key k' =
      if k' = k then (t.find key k).map f else t.find key k' := by
  induction t with
  | nil => simp [modify, find]
  | node l a r ihl ihr =>
    rcases lt_trichotomy k (key a) with hk | hk | hk
    · rw [modify, if_neg hk.ne, if_pos hk, find_node_left hk]
      rcases lt_trichotomy k' (key a) with hk' | hk' | hk'
      · rw [find_node_left hk', find_node_left hk', ihl]
      · rw [find_node_self hk', find_node_self hk', if_neg (hk.trans_eq hk'.symm).ne']
      · rw [find_node_right hk', find_node_right hk', if_neg (hk.trans hk').ne']
    · rw [modify, if_pos hk, find_node_self hk]
      rcases lt_trichotomy k' (key a) with hk' | hk' | hk'
      · rw [find_node_left (by rwa [hf]), find_node_left hk', if_neg (hk'.trans_eq hk.symm).ne]
      · rw [find_node_self (by rwa [hf]), if_pos (hk'.trans hk.symm), Option.map_some]
      · rw [find_node_right (by rwa [hf]), find_node_right hk', if_neg (hk.trans_lt hk').ne']
    · rw [modify, if_neg hk.ne', if_neg hk.not_gt, find_node_right hk]
      rcases lt_trichotomy k' (key a) with hk' | hk' | hk'
      · rw [find_node_left hk', find_node_left hk', if_neg (hk'.trans hk).ne]
      · rw [find_node_self hk', find_node_self hk', if_neg (hk'.trans_lt hk).ne]
      · rw [find_node_right hk', find_node_right hk', ihr]

end SearchTree
