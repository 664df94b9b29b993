import Am335xKernel.Lib.SearchTree

/-!
# Disjoint ranges in a search tree

Half-open ranges `[lo a, hi a)` over a linear order, kept as a list in ascending
order without empty ranges and without overlaps (`Ordered`), or in a search tree
whose elements from left to right are such a list.
-/

namespace Spans

variable {α κ : Type*} [LinearOrder κ] (lo hi : α → κ)

structure Ordered (l : List α) : Prop where
  valid : ∀ a ∈ l, lo a < hi a
  apart : l.Pairwise fun a b => hi a ≤ lo b

/-- The range of `a` has no point in `[s, e)`. -/
def Clear (s e : κ) (a : α) : Prop := hi a ≤ s ∨ e ≤ lo a

variable {lo hi} {l l1 l2 : List α} {a b : α} {s e : κ}

lemma ordered_nil : Ordered lo hi ([] : List α) := ⟨nofun, List.Pairwise.nil⟩

lemma ordered_cons :
    Ordered lo hi (a :: l) ↔ lo a < hi a ∧ Ordered lo hi l ∧ ∀ b ∈ l, hi a ≤ lo b := by
  constructor
  · rintro ⟨hv, hp⟩
    obtain ⟨ha, hl⟩ := List.pairwise_cons.mp hp
    exact ⟨hv a List.mem_cons_self, ⟨fun b hb => hv b (List.mem_cons_of_mem a hb), hl⟩, ha⟩
  · rintro ⟨ha, ⟨hv, hp⟩, hal⟩
    refine ⟨?_, List.pairwise_cons.mpr ⟨hal, hp⟩⟩
    exact List.forall_mem_cons.mpr ⟨ha, hv⟩

lemma ordered_append : Ordered lo hi (l1 ++ l2) ↔
      Ordered lo hi l1 ∧ Ordered lo hi l2 ∧ ∀ a ∈ l1, ∀ b ∈ l2, hi a ≤ lo b := by
  constructor
  · rintro ⟨hv, hp⟩
    obtain ⟨h1, h2, h12⟩ := List.pairwise_append.mp hp
    exact ⟨⟨fun a ha => hv a (List.mem_append_left l2 ha), h1⟩,
      ⟨fun a ha => hv a (List.mem_append_right l1 ha), h2⟩, h12⟩
  · rintro ⟨h1, h2, h12⟩
    refine ⟨?_, List.pairwise_append.mpr ⟨h1.apart, h2.apart, h12⟩⟩
    exact List.forall_mem_append.mpr ⟨h1.valid, h2.valid⟩

lemma ordered_middle : Ordered lo hi (l1 ++ a :: l2) ↔
      lo a < hi a ∧ Ordered lo hi l1 ∧ Ordered lo hi l2 ∧
        (∀ b ∈ l1, hi b ≤ lo a) ∧ ∀ b ∈ l2, hi a ≤ lo b := by
  rw [ordered_append, ordered_cons]
  constructor
  · rintro ⟨h1, ⟨ha, h2, ha2⟩, h12⟩
    exact ⟨ha, h1, h2, fun b hb => h12 b hb a List.mem_cons_self, ha2⟩
  · rintro ⟨ha, h1, h2, h₁a, ha2⟩
    refine ⟨h1, ⟨ha, h2, ha2⟩, ?_⟩
    intro b hb c hc
    rcases List.mem_cons.mp hc with rfl | hc
    · exact h₁a b hb
    · exact (h₁a b hb).trans (ha.le.trans (ha2 c hc))

lemma Ordered.eq_of_meet (h : Ordered lo hi l) (ha : a ∈ l) (hb : b ∈ l)
    (hab : lo a < hi b) (hba : lo b < hi a) : a = b := by
  induction l with
  | nil => cases ha
  | cons c l ih =>
    obtain ⟨hc, hl, hcl⟩ := ordered_cons.mp h
    rcases List.mem_cons.mp ha with rfl | ha' <;> rcases List.mem_cons.mp hb with rfl | hb'
    · rfl
    · exact absurd hba (hcl b hb').not_gt
    · exact absurd hab (hcl a ha').not_gt
    · exact ih hl ha' hb'

lemma Ordered.filterMap {f : α → Option α} (h : Ordered lo hi l)
    (hf : ∀ a ∈ l, ∀ b, f a = some b → lo a ≤ lo b ∧ lo b < hi b ∧ hi b ≤ hi a) :
    Ordered lo hi (l.filterMap f) := by
  constructor
  · intro b hb
    obtain ⟨a, ha, hab⟩ := List.mem_filterMap.mp hb
    exact (hf a ha b hab).2.1
  · rw [List.pairwise_filterMap]
    refine h.apart.imp_of_mem ?_
    intro a a' ha ha' haa b hb b' hb'
    exact (hf a ha b hb).2.2.trans (haa.trans (hf a' ha' b' hb').1)

end Spans

namespace SearchTree

open Spans List

variable {α κ : Type*} [LinearOrder κ] (lo hi : α → κ)

/-- The walk to an element whose range meets `[s, e)`. -/
def hit (s e : κ) : SearchTree α → Option α
  | nil => none
  | node l a r => if hi a ≤ s then r.hit s e else if e ≤ lo a then l.hit s e else some a

/-- Hang `x` in where the walk ends. `side` says at each element on the way
whether to go on to the left (`true`), to the right, or to give up. -/
def linkBy (side : α → Option Bool) (x : α) : SearchTree α → Option (SearchTree α)
  | nil => some (node nil x nil)
  | node l a r =>
    match side a with
    | some true => (l.linkBy side x).map fun l' => node l' a r
    | some false => (r.linkBy side x).map fun r' => node l a r'
    | none => none

variable {lo hi} {t t' l r : SearchTree α} {s e : κ} {a x : α} {side : α → Option Bool}

lemma hit_eq_some (h : t.hit lo hi s e = some a) : a ∈ t.inorder ∧ s < hi a ∧ lo a < e := by
  induction t with
  | nil => cases h
  | node l b r ihl ihr =>
    rw [hit] at h
    rw [mem_inorder_node]
    split_ifs at h with h1 h2
    · exact ⟨.inr (.inr (ihr h).1), (ihr h).2⟩
    · exact ⟨.inr (.inl (ihl h).1), (ihl h).2⟩
    · cases h
      exact ⟨.inl rfl, not_le.mp h1, not_le.mp h2⟩

lemma hit_eq_none (hord : Ordered lo hi t.inorder) (h : t.hit lo hi s e = none)
    (ha : a ∈ t.inorder) : Clear lo hi s e a := by
  induction t with
  | nil => cases ha
  | node l b r ihl ihr =>
    obtain ⟨hb, hl, hr, hlb, hbr⟩ := ordered_middle.mp hord
    rw [hit] at h
    split_ifs at h with h1 h2
    · rcases mem_inorder_node.mp ha with rfl | ha | ha
      · exact .inl h1
      · exact .inl ((hlb a ha).trans (hb.le.trans h1))
      · exact ihr hr h ha
    · rcases mem_inorder_node.mp ha with rfl | ha | ha
      · exact .inr h2
      · exact ihl hl h ha
      · exact .inr (h2.trans (hb.le.trans (hbr a ha)))

lemma inorder_linkBy (h : t.linkBy side x = some t') : t'.inorder.Perm (x :: t.inorder) := by
  induction t generalizing t' with
  | nil =>
    cases h
    exact List.Perm.refl _
  | node l b r ihl ihr =>
    rw [linkBy] at h
    split at h
    · obtain ⟨l', hl', rfl⟩ := Option.map_eq_some_iff.mp h
      exact (ihl hl').append_right (b :: r.inorder)
    · obtain ⟨r', hr', rfl⟩ := Option.map_eq_some_iff.mp h
      have hcons : (b :: r'.inorder).Perm (x :: b :: r.inorder) :=
        ((ihr hr').cons b).trans (List.Perm.swap x b r.inorder)
      exact (hcons.append_left l.inorder).trans perm_middle
    · cases h

/-- **A new range.** It lies to one side of each old range and the walk turns to
that side. -/
lemma ordered_linkBy (hord : Ordered lo hi t.inorder) (hx : lo x < hi x) (hside : ∀ a ∈ t.inorder,
      (hi x ≤ lo a ∧ side a = some true) ∨ (hi a ≤ lo x ∧ side a = some false)) :
    ∃ t', t.linkBy side x = some t' ∧ Ordered lo hi t'.inorder := by
  induction t with
  | nil => exact ⟨node nil x nil, rfl, ordered_cons.mpr ⟨hx, ordered_nil, nofun⟩⟩
  | node l b r ihl ihr =>
    obtain ⟨hb, hl, hr, hlb, hbr⟩ := ordered_middle.mp hord
    rcases hside b (mem_inorder_node.mpr (.inl rfl)) with ⟨hxb, hs⟩ | ⟨hbx, hs⟩
    · obtain ⟨l', hl', hord'⟩ := ihl hl fun a ha =>
        hside a (mem_inorder_node.mpr (.inr (.inl ha)))
      refine ⟨node l' b r, by rw [linkBy, hs, hl']; rfl, ?_⟩
      refine ordered_middle.mpr ⟨hb, hord', hr, ?_, hbr⟩
      simp only [(inorder_linkBy hl').mem_iff]
      exact forall_mem_cons.mpr ⟨hxb, hlb⟩
    · obtain ⟨r', hr', hord'⟩ := ihr hr fun a ha =>
        hside a (mem_inorder_node.mpr (.inr (.inr ha)))
      refine ⟨node l b r', by rw [linkBy, hs, hr']; rfl, ?_⟩
      refine ordered_middle.mpr ⟨hb, hl, hord', hlb, ?_⟩
      simp only [(inorder_linkBy hr').mem_iff]
      exact forall_mem_cons.mpr ⟨hbx, hbr⟩

structure Erasing where
  run : {α : Type} → (α → Bool) → SearchTree α → SearchTree α
  inorder_run : ∀ {α : Type} (p : α → Bool) (t : SearchTree α),
    (run p t).inorder = t.inorder.filter fun a => !p a

def spine : List α → SearchTree α
  | [] => nil
  | a :: l => node nil a (spine l)

lemma inorder_spine (l : List α) : (spine l).inorder = l := by
  induction l with
  | nil => rfl
  | cons a l ih => rw [spine, inorder, ih, inorder, nil_append]

def Erasing.spine : Erasing where
  run p t := SearchTree.spine (t.inorder.filter fun a => !p a)
  inorder_run _ _ := inorder_spine _

def map (f : α → α) : SearchTree α → SearchTree α
  | nil => nil
  | node l a r => node (l.map f) (f a) (r.map f)

lemma inorder_map (f : α → α) (t : SearchTree α) : (t.map f).inorder = t.inorder.map f := by
  induction t with
  | nil => rfl
  | node l a r ihl ihr => rw [map, inorder, inorder, ihl, ihr, map_append, map_cons]

end SearchTree
