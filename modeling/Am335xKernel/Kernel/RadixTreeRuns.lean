import Am335xKernel.Lib.Refinement
import Am335xKernel.Kernel.RadixTreeMap

/-!
# The radix tree is a map with tags

What the tree is for: a map from `unsigned long` to items, with a set of tags for
each index (`Store`). `Root.store` reads this off a tree. Each operation does on the
tree what the call does on the store, and keeps `Root.Inv`; growing and shrinking
the tree leave the store alone.
-/

namespace Am335x.RadixTree

open Function Option Nat Bool

open DigitPath Ptr

/-- An `unsigned long`. -/
abbrev Index := Fin (2 ^ 32)

/-- A map, with the tags of each index. -/
@[ext]
structure Store (α : Type*) where
  items : Index → Option α
  marks : Index → Tag → Bool

inductive Call (α : Type*) where
  | insert (i : Index) (a : α)
  | delete (i : Index)
  | tagSet (i : Index) (tag : Tag)
  | tagClear (i : Index) (tag : Tag)
  | lookup (i : Index)
  | tagGet (i : Index) (tag : Tag)

inductive Reply (α : Type*) where
  | err (e : ℤ)
  | item (a : Option α)
  | bit (b : Bool)

variable {α : Type*} {root root' : Root α} {i : Index} {entry : Option α} {marks : Tag → Bool}
  {a : α} {tag : Tag}

namespace Store

def empty : Store α := ⟨fun _ => none, fun _ _ => false⟩

def put (s : Store α) (i : Index) (entry : Option α) (marks : Tag → Bool) : Store α :=
  ⟨update s.items i entry, update s.marks i marks⟩

def call : Component (Store α) (Call α) (Reply α)
  | s, .insert i a =>
    if (s.items i).isSome then some (s, .err eexist)
    else some (s.put i (some a) fun _ => false, .err 0)
  | s, .delete i => some (s.put i none fun _ => false, .item (s.items i))
  | s, .tagSet i tag =>
    if (s.items i).isSome then
      some (s.put i (s.items i) (update (s.marks i) tag true), .item (s.items i))
    else none
  | s, .tagClear i tag =>
    some (s.put i (s.items i) (update (s.marks i) tag false), .item (s.items i))
  | s, .lookup i => some (s, .item (s.items i))
  | s, .tagGet i tag => some (s, .bit ((s.items i).isSome && s.marks i tag))

section

variable (s : Store α) (i : Index)

lemma put_self : s.put i (s.items i) (s.marks i) = s := by
  unfold put
  rw [update_eq_self, update_eq_self]

lemma items_put (entry : Option α) (marks : Tag → Bool) :
    (s.put i entry marks).items i = entry := update_self ..

lemma marks_put (entry : Option α) (marks : Tag → Bool) :
    (s.put i entry marks).marks i = marks := update_self ..

lemma put_put (entry entry' : Option α) (marks marks' : Tag → Bool) :
    (s.put i entry marks).put i entry' marks' = s.put i entry' marks' := by
  unfold put
  rw [update_idem, update_idem]

end

end Store

namespace Root

def get (root : Root α) (index : ℕ) : Option α :=
  if index < mapSize ^ root.height then root.rnode.get root.height index else none

def tagAt (root : Root α) (index : ℕ) : Tag → Bool :=
  if index < mapSize ^ root.height then root.rnode.tagAt root.height root.tags index
  else fun _ => false

def store (root : Root α) : Store α := ⟨fun i => root.get i, fun i => root.tagAt i⟩

structure Inv (root : Root α) : Prop where
  wf : root.rnode.Wf root.height root.tags
  height_le : root.height ≤ maxPath
  indirect_eq : root.rnode.isNull = false → root.indirect = decide (0 < root.height)
  zeroed : root.zeroed = true

variable {h index count height : ℕ}

lemma maxindex_lt_iff (hindex : index < 2 ^ 32) : maxindex h < index ↔ mapSize ^ h ≤ index := by
  unfold maxindex
  rw [← pow_mul, mul_comm mapShift h]
  have hpos : 0 < 2 ^ (h * mapShift) := Nat.two_pow_pos _
  split_ifs with hw
  · have hle : 2 ^ 32 ≤ 2 ^ (h * mapShift) := Nat.pow_le_pow_right (by decide) hw
    omega
  · omega

lemma items_of_lt (hi : i < mapSize ^ root.height) :
    root.store.items i = root.rnode.get root.height i := if_pos hi

lemma marks_of_lt (hi : i < mapSize ^ root.height) :
    root.store.marks i = root.rnode.tagAt root.height root.tags i := if_pos hi

lemma items_of_le (hi : mapSize ^ root.height ≤ i) : root.store.items i = none :=
  if_neg (not_lt.mpr hi)

lemma marks_of_le (hi : mapSize ^ root.height ≤ i) : root.store.marks i = fun _ => false :=
  if_neg (not_lt.mpr hi)

lemma Inv.marks_of_none (hinv : root.Inv) (hitem : root.store.items i = none) :
    root.store.marks i = fun _ => false := by
  rcases lt_or_ge (i : ℕ) (mapSize ^ root.height) with hi | hi
  · rw [items_of_lt hi] at hitem
    rw [marks_of_lt hi, hinv.wf.tagAt_of_get_none hitem]
  · exact marks_of_le hi

lemma Inv.put_absent (hinv : root.Inv) (hitem : root.store.items i = none) :
    root.store.put i none (fun _ => false) = root.store := by
  have hput := root.store.put_self i
  rwa [hitem, hinv.marks_of_none hitem] at hput

open Store

lemma Inv.store_of_null (hinv : root.Inv) (hnull : root.rnode = .null) :
    root.store = Store.empty := by
  have hitems : ∀ i, root.store.items i = none := by
    intro i
    rcases lt_or_ge (i : ℕ) (mapSize ^ root.height) with hi | hi
    · rw [items_of_lt hi, hnull, get_null]
    · exact items_of_le hi
  exact Store.ext (funext hitems) (funext fun i => hinv.marks_of_none (hitems i))

lemma store_of_sets (hheight : root'.height = root.height) (hi : i < mapSize ^ root.height)
    (hsets : Sets root.height i root.rnode root.tags root'.rnode root'.tags entry marks) :
    root'.store = root.store.put i entry marks := by
  have hiff : ∀ j : Index, (j : ℕ) < mapSize ^ root.height →
      (Agree mapShift root.height i j ↔ j = i) := by
    intro j hj
    rw [agree_iff_eq hi hj, Fin.val_inj, eq_comm]
  apply Store.ext
  · funext j
    show root'.get j = update root.store.items i entry j
    unfold get
    rw [hheight]
    split_ifs with hj
    · rw [hsets.get_eq, update_apply]
      exact if_congr (hiff j hj) rfl (items_of_lt hj).symm
    · have hne : j ≠ i := fun heq => hj (heq ▸ hi)
      rw [update_of_ne hne, items_of_le (le_of_not_gt hj)]
  · funext j
    show root'.tagAt j = update root.store.marks i marks j
    unfold tagAt
    rw [hheight]
    split_ifs with hj
    · rw [hsets.tagAt_eq, update_apply]
      exact if_congr (hiff j hj) rfl (marks_of_lt hj).symm
    · have hne : j ≠ i := fun heq => hj (heq ▸ hi)
      rw [update_of_ne hne, marks_of_le (le_of_not_gt hj)]

variable {slots : ℕ → Ptr α} {tags : Tag → ℕ → Bool}

lemma store_of_first (hheight : root.height = h + 1)
    (hnode : root.rnode = .node height count slots tags)
    (hnull : ∀ j < mapSize, j ≠ 0 → slots j = .null ∧ ∀ tag, tags tag j = false)
    (hheight' : root'.height = h) (hrnode : root'.rnode = slots 0)
    (htags : root'.tags = fun tag => tags tag 0) : root.store = root'.store := by
  have hle : mapSize ^ h ≤ mapSize ^ (h + 1) := Nat.pow_le_pow_right (by decide) h.le_succ
  have hoff : ∀ j : Index, (j : ℕ) < mapSize ^ (h + 1) → ¬ (j : ℕ) < mapSize ^ h →
      offset h j ≠ 0 := fun j hj hlow hzero => hlow (lt_of_digit_eq_zero hj hzero)
  apply Store.ext
  · funext j
    show root.get j = root'.get j
    unfold get
    rw [hheight, hheight', hnode, hrnode, get_node]
    by_cases hlow : (j : ℕ) < mapSize ^ h
    · rw [if_pos hlow, if_pos (hlow.trans_le hle)]
      have hzero : offset h j = 0 := digit_eq_zero hlow
      rw [hzero]
    · rw [if_neg hlow]
      split_ifs with hj
      · rw [(hnull _ digit_lt (hoff j hj hlow)).1, get_null]
      · rfl
  · funext j
    show root.tagAt j = root'.tagAt j
    unfold tagAt
    rw [hheight, hheight', hnode, hrnode, htags, tagAt_node]
    by_cases hlow : (j : ℕ) < mapSize ^ h
    · rw [if_pos hlow, if_pos (hlow.trans_le hle)]
      have hzero : offset h j = 0 := digit_eq_zero hlow
      rw [hzero]
    · rw [if_neg hlow]
      split_ifs with hj
      · obtain ⟨hslot, hrow⟩ := hnull _ digit_lt (hoff j hj hlow)
        rw [hslot, funext hrow, tagAt_null]
      · rfl

lemma heightFor_spec {fuel : ℕ} (hindex : index < 2 ^ 32) (hle : height ≤ maxPath)
    (hfuel : maxPath ≤ height + fuel) :
    height ≤ heightFor index fuel height ∧ heightFor index fuel height ≤ maxPath ∧
      index < mapSize ^ heightFor index fuel height := by
  -- the last height is enough for every index
  have hmax : index < mapSize ^ maxPath := hindex.trans (by decide)
  induction fuel generalizing height with
  | zero =>
    obtain rfl : height = maxPath := by omega
    exact ⟨le_rfl, le_rfl, hmax⟩
  | succ fuel ih =>
    unfold heightFor
    split_ifs with hlow
    · rw [maxindex_lt_iff hindex] at hlow
      have hlt : height + 1 ≤ maxPath := by
        by_contra hge
        obtain rfl : height = maxPath := by omega
        omega
      obtain ⟨h1, h2, h3⟩ := ih hlt (by omega)
      exact ⟨by omega, h2, h3⟩
    · rw [maxindex_lt_iff hindex, not_le] at hlow
      exact ⟨le_rfl, hle, hlow⟩

lemma Inv.grow (hinv : root.Inv) (hused : root.rnode.isNull = false)
    (hlt : root.height < maxPath) : ∃ root', root.grow = some root' ∧ root'.Inv ∧
      root'.rnode.isNull = false ∧ root'.height = root.height + 1 ∧ root'.store = root.store := by
  have hrow : (fun tag => if (0 : ℕ) = 0 ∧ root.tags tag = true then true else false) =
      root.tags := by
    funext tag
    cases root.tags tag <;> rfl
  have hnode : Node (Wf root.height) 1 (update (fun _ => .null) 0 root.rnode)
      (fun tag j => if j = 0 ∧ root.tags tag then true else false) root.tags := by
    refine (node_zero rfl).update ?_ ?_ ?_ ?_
    · rw [hrow]
      exact hinv.wf
    · intro tag j hj
      exact if_neg fun h => hj h.1
    · intro tag
      cases hbit : root.tags tag with
      | false => exact (anyTagSet_eq_false.mpr (by simp [hbit])).symm
      | true => exact (anyTagSet_eq_true.mpr ⟨0, by decide, by simp [hbit]⟩).symm
    · rw [count_update (by decide) hused]
      simp [isNull]
  refine ⟨{ root with
    rnode := .node (root.height + 1) 1 (update (fun _ => .null) 0 root.rnode)
      fun tag j => if j = 0 ∧ root.tags tag then true else false
    indirect := true
    height := root.height + 1 }, ?_, ⟨⟨rfl, one_pos, hnode⟩, hlt, ?_, hinv.zeroed⟩,
    rfl, rfl, ?_⟩
  · unfold Root.grow Ptr.alloc
    rw [if_pos hinv.zeroed]
  · exact fun _ => (decide_eq_true (succ_pos _)).symm
  · refine store_of_first rfl rfl ?_ rfl rfl hrow.symm
    intro j _ hj
    exact ⟨update_of_ne hj _ _, fun tag => if_neg fun h => hj h.1⟩

lemma Inv.growTo (n : ℕ) (hinv : root.Inv) (hused : root.rnode.isNull = false)
    (hle : root.height + n ≤ maxPath) : ∃ root', root.growTo n = some root' ∧ root'.Inv ∧
      root'.height = root.height + n ∧ root'.store = root.store := by
  induction n generalizing root with
  | zero => exact ⟨root, rfl, hinv, rfl, rfl⟩
  | succ n ih =>
    obtain ⟨root1, hgrow, hinv1, hused1, hheight1, hstore1⟩ := hinv.grow hused (by omega)
    obtain ⟨root2, hgrow2, hinv2, hheight2, hstore2⟩ := ih hinv1 hused1 (by omega)
    refine ⟨root2, ?_, hinv2, by omega, hstore2.trans hstore1⟩
    show root.grow.bind (Root.growTo n) = some root2
    rw [hgrow]
    exact hgrow2

lemma Inv.reach (hinv : root.Inv) (i : Index) : ∃ root',
    (if maxindex root.height < i then root.extend i else some root) = some root' ∧ root'.Inv ∧
      root'.store = root.store ∧ (i : ℕ) < mapSize ^ root'.height := by
  split_ifs with hlow
  · rw [maxindex_lt_iff i.isLt] at hlow
    have hlt : root.height + 1 ≤ maxPath := by
      refine lt_of_le_of_ne hinv.height_le fun heq => ?_
      rw [heq] at hlow
      exact absurd (i.isLt.trans_le (by decide)) (not_lt.mpr hlow)
    obtain ⟨hge, hle, hreach⟩ := heightFor_spec i.isLt hlt
      (le_add_left maxPath (root.height + 1))
    unfold Root.extend
    split_ifs with hnull
    · rw [isNull_iff] at hnull
      have hinv' : Inv { root with height := heightFor i maxPath (root.height + 1) } := by
        refine ⟨?_, hle, fun hused => ?_, hinv.zeroed⟩
        · have hwf := hinv.wf
          rw [hnull, wf_null] at hwf
          simpa only [hnull, wf_null] using hwf
        · simp [hnull, isNull] at hused
      exact ⟨_, rfl, hinv', (hinv'.store_of_null hnull).trans (hinv.store_of_null hnull).symm,
        hreach⟩
    · obtain ⟨root', hgrow, hinv', hheight, hstore⟩ :=
        hinv.growTo (heightFor i maxPath (root.height + 1) - root.height)
          (eq_false_iff.mpr hnull) (by omega)
      refine ⟨root', hgrow, hinv', hstore, ?_⟩
      rwa [hheight, Nat.add_sub_cancel' (by omega)]
  · rw [maxindex_lt_iff i.isLt, not_le] at hlow
    exact ⟨root, rfl, hinv, rfl, hlow⟩

lemma only_first {bits : Tag → Bool} (hnode : Node (Wf h) 1 slots tags bits)
    (hused : (slots 0).isNull = false) :
    ∀ j < mapSize, j ≠ 0 → slots j = .null ∧ ∀ tag, tags tag j = false := by
  intro j hj hne
  have hnull : slots j = .null := by
    by_contra hother
    have hused' : (slots j).isNull = false :=
      eq_false_iff.mpr fun h => hother (isNull_iff.mp h)
    exact hne (SlotCount.eq_of_count_eq_one hnode.count_eq.symm (by decide) hused hj hused')
  exact ⟨hnull, fun tag => hnode.tags_of_null hj hnull⟩

lemma Inv.shrink (hinv : root.Inv) (hheight : root.height = h) (hused : root.rnode.isNull = false)
    : ∃ root', root.shrink h = some root' ∧ root'.Inv ∧ root'.store = root.store := by
  induction h generalizing root with
  | zero => exact ⟨root, rfl, hinv, rfl⟩
  | succ h ih =>
    have hwf := hinv.wf
    rw [hheight] at hwf
    obtain hnull | ⟨count, slots, tags, hrnode, -, hnode⟩ := hwf.node_of_succ
    · simp [hnull, isNull] at hused
    · have hindirect : root.indirect = true := by
        rw [hinv.indirect_eq hused, hheight]
        exact decide_eq_true (succ_pos h)
      unfold Root.shrink
      rw [hindirect, Bool.not_true, if_neg Bool.false_ne_true]
      simp only [hrnode]
      split_ifs with hkeep
      · exact ⟨root, rfl, hinv, rfl⟩
      · obtain ⟨rfl, hfirst⟩ : count = 1 ∧ (slots 0).isNull = false := by
          simpa using hkeep
        have honly := only_first hnode hfirst
        have htags : root.tags = fun tag => tags tag 0 := by
          funext tag
          rw [hnode.bits_eq]
          cases hbit : tags tag 0 with
          | true => exact anyTagSet_eq_true.mpr ⟨0, by decide, hbit⟩
          | false =>
            refine anyTagSet_eq_false.mpr fun j hj => ?_
            rcases eq_or_ne j 0 with rfl | hne
            · exact hbit
            · exact (honly j hj hne).2 tag
        have hpred : root.height - 1 = h := by omega
        have hslot := hnode.slot 0 (by decide)
        rw [← htags] at hslot
        have hzeroed := hnode.freeZeroed fun j hj hne => (honly j hj hne).1
        have hinv' : Inv { root with
            rnode := slots 0
            indirect := decide (1 < root.height)
            height := root.height - 1
            zeroed := root.zeroed && Ptr.freeZeroed slots tags } := by
          refine ⟨?_, (sub_le _ _).trans hinv.height_le, fun _ => ?_, ?_⟩
          · simpa only [hpred] using hslot
          · show decide (1 < root.height) = decide (0 < root.height - 1)
            exact decide_eq_decide.mpr (by omega)
          · simp [hinv.zeroed, hzeroed]
        obtain ⟨root', hshrink, hinv'', hstore⟩ := ih hinv' hpred hfirst
        refine ⟨root', hshrink, hinv'', hstore.trans (Eq.symm ?_)⟩
        exact store_of_first hheight hrnode honly hpred rfl htags

lemma not_maxindex_lt (hi : (i : ℕ) < mapSize ^ root.height) : ¬ maxindex root.height < i := by
  rwa [maxindex_lt_iff i.isLt, not_le]

section

variable (hinv : root.Inv)
include hinv

lemma Inv.insert_present {b : α} (hitem : root.store.items i = some b) :
    root.insert i a = some (root, eexist) := by
  rcases lt_or_ge (i : ℕ) (mapSize ^ root.height) with hi | hi
  · rw [items_of_lt hi] at hitem
    unfold Root.insert
    rw [if_neg (not_maxindex_lt hi)]
    have hused := isNull_eq_false_of_get hitem
    simp [insertLoop_present hinv.wf hitem, hused, eexist]
  · rw [items_of_le hi] at hitem
    cases hitem

lemma Inv.insert_absent (hitem : root.store.items i = none) :
    ∃ root', root.insert i a = some (root', 0) ∧ root'.Inv ∧
      root'.store = root.store.put i (some a) fun _ => false := by
  obtain ⟨root1, hreach, hinv1, hstore, hi⟩ := hinv.reach i
  rw [← hstore] at hitem
  rw [items_of_lt hi] at hitem
  obtain ⟨rnode, hinsert, hused, hwf, hsets⟩ := insertLoop_absent (a := a) hinv1.wf hitem
  have hclear : ¬ (root1.height = 0 ∧ (0 : ℤ) = 0 ∧ (root1.tags 0 || root1.tags 1) = true) := by
    rintro ⟨hzero, -, hbug⟩
    have hmarks := hinv1.wf.tagAt_of_get_none hitem
    rw [hzero] at hmarks
    have h0 : root1.tags 0 = false := congrFun hmarks 0
    have h1 : root1.tags 1 = false := congrFun hmarks 1
    simp [h0, h1] at hbug
  refine ⟨{ root1 with
    rnode := rnode
    indirect := if root1.rnode.isNull then 0 < root1.height else root1.indirect }, ?_,
    ⟨hwf, hinv1.height_le, ?_, hinv1.zeroed⟩, ?_⟩
  · rw [← hinv1.zeroed] at hinsert
    unfold Root.insert
    rw [hreach]
    dsimp only
    rw [hinsert]
    exact if_neg hclear
  · intro _
    split_ifs with hnull
    · rfl
    · exact hinv1.indirect_eq (eq_false_iff.mpr hnull)
  · rw [← hstore]
    exact store_of_sets rfl hi hsets

lemma Inv.indirect_of_item (hrnode : root.rnode = .item a) :
    root.height = 0 ∧ root.indirect = false := by
  have hwf := hinv.wf
  rw [hrnode] at hwf
  have hzero := hwf.height_of_item
  refine ⟨hzero, ?_⟩
  rw [hinv.indirect_eq (hrnode ▸ rfl), hzero]
  rfl

lemma Inv.indirect_of_node (hrnode : root.rnode = .node height count slots tags) :
    height = root.height ∧ 0 < root.height ∧ root.indirect = true := by
  have hwf := hinv.wf
  rw [hrnode] at hwf
  obtain ⟨heq, hpos⟩ := hwf.height_of_node
  refine ⟨heq, hpos, ?_⟩
  rw [hinv.indirect_eq (hrnode ▸ rfl)]
  exact decide_eq_true hpos

lemma Inv.lookup (i : Index) : root.lookup i = some (root.store.items i) := by
  unfold Root.lookup
  cases hrnode : root.rnode with
  | null =>
    rw [hinv.store_of_null hrnode]
    rfl
  | item b =>
    obtain ⟨hzero, hindirect⟩ := hinv.indirect_of_item hrnode
    simp only [hindirect, if_neg Bool.false_ne_true]
    split_ifs with hpos
    · rw [items_of_le (by rw [hzero]; exact hpos)]
    · rw [items_of_lt (by rw [hzero, pow_zero]; omega), hrnode, hzero]
      rfl
  | node height count slots tags =>
    obtain ⟨rfl, hpos, hindirect⟩ := hinv.indirect_of_node hrnode
    simp only [hindirect, Bool.not_true, if_neg Bool.false_ne_true]
    rw [← hrnode]
    split_ifs with hi
    · rw [items_of_le ((maxindex_lt_iff i.isLt).mp hi)]
    · rw [maxindex_lt_iff i.isLt, not_le] at hi
      rw [items_of_lt hi, lookupLoop_eq hinv.wf (hrnode ▸ rfl)]

end

lemma Inv.tagSet (tag : Tag) (hinv : root.Inv) (hitem : root.store.items i = some a) :
    ∃ root', root.tagSet i tag = some (root', .item a) ∧ root'.Inv ∧
      root'.store = root.store.put i (some a) (update (root.store.marks i) tag true) := by
  rcases lt_or_ge (i : ℕ) (mapSize ^ root.height) with hi | hi
  · rw [items_of_lt hi] at hitem
    obtain ⟨rnode, hset, hused, hwf, hsets⟩ := tagSetLoop_present tag hinv.wf hitem
    refine ⟨{ root with rnode := rnode, tags := update root.tags tag true }, ?_,
      ⟨hwf, hinv.height_le, ?_, hinv.zeroed⟩, ?_⟩
    · unfold Root.tagSet
      rw [if_neg (not_maxindex_lt hi), hset]
      rfl
    · exact fun _ => hinv.indirect_eq (isNull_eq_false_of_get hitem)
    · rw [marks_of_lt hi]
      exact store_of_sets rfl hi hsets
  · rw [items_of_le hi] at hitem
    cases hitem

section

variable (hinv : root.Inv)
include hinv

section

variable (i : Index)

lemma Inv.tagClear (tag : Tag) :
    ∃ root', root.tagClear i tag = some (root', ofOption (root.store.items i)) ∧ root'.Inv ∧
      root'.height = root.height ∧ root'.store = root.store.put i (root.store.items i)
        (update (root.store.marks i) tag false) := by
  rcases lt_or_ge (i : ℕ) (mapSize ^ root.height) with hi | hi
  · obtain ⟨rnode, up, hclear, hnull, hwf, hsets⟩ :=
      tagClearLoop_spec tag (i : ℕ) hinv.wf
    refine ⟨{ root with
      rnode := rnode
      tags := if up then update root.tags tag false else root.tags }, ?_,
      ⟨hwf, hinv.height_le, ?_, hinv.zeroed⟩, rfl, ?_⟩
    · unfold Root.tagClear
      rw [if_neg (not_maxindex_lt hi), hclear, items_of_lt hi]
    · intro hused
      exact hinv.indirect_eq (hnull.symm.trans hused)
    · rw [items_of_lt hi, marks_of_lt hi]
      exact store_of_sets rfl hi hsets
  · have hitem := items_of_le hi
    have hmarks := marks_of_le hi
    refine ⟨root, ?_, hinv, rfl, ?_⟩
    · unfold Root.tagClear
      rw [if_pos ((maxindex_lt_iff i.isLt).mpr hi), hitem]
      rfl
    · rw [update_false_of_eq (congrFun hmarks tag), put_self]

lemma Inv.present_and_marks (tag : Tag) :
    ((root.store.items i).isSome && root.store.marks i tag) = root.store.marks i tag := by
  cases hitem : root.store.items i with
  | none => rw [hinv.marks_of_none hitem, Bool.and_false]
  | some a => rfl

lemma Inv.tagGet (tag : Tag) :
    root.tagGet i tag = some ((root.store.items i).isSome && root.store.marks i tag) := by
  rw [hinv.present_and_marks]
  unfold Root.tagGet
  cases hbit : root.tags tag with
  | false =>
    rcases lt_or_ge (i : ℕ) (mapSize ^ root.height) with hi | hi
    · rw [marks_of_lt hi, hinv.wf.tagAt_of_bit hbit]
      rfl
    · rw [marks_of_le hi]
      rfl
  | true =>
    rw [Bool.not_true, if_neg nofun]
    cases hrnode : root.rnode with
    | null =>
      rw [hinv.store_of_null hrnode]
      rfl
    | item b =>
      obtain ⟨hzero, hindirect⟩ := hinv.indirect_of_item hrnode
      simp only [hindirect, if_neg Bool.false_ne_true]
      rcases Nat.eq_zero_or_pos (i : ℕ) with hi | hi
      · rw [marks_of_lt (by rw [hzero, hi]; decide), hzero, decide_eq_true hi]
        exact congrArg some hbit.symm
      · rw [marks_of_le (by rw [hzero]; exact hi), decide_eq_false hi.ne']
    | node height count slots tags =>
      obtain ⟨rfl, hpos, hindirect⟩ := hinv.indirect_of_node hrnode
      simp only [hindirect, Bool.not_true, if_neg Bool.false_ne_true]
      rw [← hrnode]
      split_ifs with hi
      · rw [marks_of_le ((maxindex_lt_iff i.isLt).mp hi)]
      · rw [maxindex_lt_iff i.isLt, not_le] at hi
        obtain ⟨h, hheight⟩ : ∃ h, root.height = h + 1 := ⟨_, (succ_pred hpos.ne').symm⟩
        have hwf := hinv.wf
        rw [hheight] at hwf
        rw [marks_of_lt hi, hheight, tagGetLoop_eq hwf]

lemma Inv.clearTags (bits : Tag → Bool) (tags : List Tag) :
    ∃ root', root.clearTags i bits tags = some root' ∧ root'.Inv ∧ root'.height = root.height ∧
      root'.store = root.store.put i (root.store.items i) fun tag =>
        if tag ∈ tags ∧ bits tag then false else root.store.marks i tag := by
  induction tags generalizing root with
  | nil =>
    refine ⟨root, rfl, hinv, rfl, ?_⟩
    simpa using (root.store.put_self i).symm
  | cons tag tags ih =>
    cases hbit : bits tag with
    | false =>
      obtain ⟨root', hclear, hinv', hheight, hstore⟩ := ih hinv
      refine ⟨root', ?_, hinv', hheight, ?_⟩
      · show (if bits tag then _ else _) = _
        rw [hbit, if_neg nofun]
        exact hclear
      · rw [hstore]
        congr 1
        funext tag'
        rcases eq_or_ne tag' tag with rfl | hne
        · simp [hbit]
        · simp [hne]
    | true =>
      obtain ⟨root1, hclear1, hinv1, hheight1, hstore1⟩ := hinv.tagClear i tag
      obtain ⟨root', hclear, hinv', hheight, hstore⟩ := ih hinv1
      refine ⟨root', ?_, hinv', hheight.trans hheight1, ?_⟩
      · show (if bits tag then _ else _) = _
        rw [hbit, if_pos rfl, hclear1]
        exact hclear
      · rw [hstore, hstore1, put_put, items_put, marks_put]
        congr 1
        funext tag'
        rcases eq_or_ne tag' tag with rfl | hne
        · simp [hbit]
        · simp [hne]

end

lemma Inv.remove (hi : (i : ℕ) < mapSize ^ root.height)
    (hitem : root.store.items i = some a) (hmarks : root.store.marks i = fun _ => false) :
    ∃ rnode r, removeLoop i root.height root.rnode = some (rnode, r, true) ∧
      (r = .gone ∨ rnode.isNull = false) ∧ Inv { root with rnode := r.left rnode } ∧
      Root.store { root with rnode := r.left rnode } = root.store.put i none fun _ => false := by
  rw [items_of_lt hi] at hitem
  rw [marks_of_lt hi] at hmarks
  obtain ⟨rnode, r, hremove, hused, hwf, hsets⟩ := removeLoop_spec hinv.wf hitem hmarks
  refine ⟨rnode, r, hremove, hused, ⟨hwf, hinv.height_le, ?_, hinv.zeroed⟩, ?_⟩
  · exact fun _ => hinv.indirect_eq (isNull_eq_false_of_get hitem)
  · exact store_of_sets rfl hi hsets

lemma Inv.delete_low (hzero : root.height = 0) (hi : (i : ℕ) < mapSize ^ root.height) : ∃ root',
    root.delete i = some (root', ofOption (root.store.items i)) ∧ root'.Inv ∧
      root'.store = root.store.put i none fun _ => false := by
  refine ⟨{ root with tags := fun _ => false, rnode := .null, indirect := false }, ?_,
    ⟨wf_null.mpr fun _ => rfl, hinv.height_le, fun hused => ?_, hinv.zeroed⟩, ?_⟩
  · have hwf := hinv.wf
    unfold Root.delete
    rw [if_neg (not_maxindex_lt hi), if_pos hzero, items_of_lt hi]
    rw [hzero] at hwf ⊢
    rw [← hwf.item_of_zero]
  · simp [isNull] at hused
  · refine store_of_sets rfl hi ?_
    rw [hzero]
    exact ⟨fun _ => rfl, fun _ => rfl⟩

lemma Inv.delete (i : Index) : ∃ root',
    root.delete i = some (root', ofOption (root.store.items i)) ∧ root'.Inv ∧
      root'.store = root.store.put i none fun _ => false := by
  rcases lt_or_ge (i : ℕ) (mapSize ^ root.height) with hi | hi
  swap
  · refine ⟨root, ?_, hinv, (hinv.put_absent (items_of_le hi)).symm⟩
    unfold Root.delete
    rw [if_pos ((maxindex_lt_iff i.isLt).mpr hi), items_of_le hi]
    rfl
  by_cases hzero : root.height = 0
  · exact hinv.delete_low hzero hi
  unfold Root.delete
  rw [if_neg (not_maxindex_lt hi), if_neg hzero, deleteWalk_eq hinv.wf, ← items_of_lt hi,
    ← marks_of_lt hi]
  cases hitem : root.store.items i with
  | none => exact ⟨root, rfl, hinv, (hinv.put_absent hitem).symm⟩
  | some a =>
    -- the tags first, then the nodes
    obtain ⟨root1, hclear, hinv1, hheight1, hstore1⟩ :=
      hinv.clearTags i (root.store.marks i) (List.finRange 3)
    have hmarks1 : root1.store.marks i = fun _ => false := by
      rw [hstore1, marks_put]
      funext tag
      cases hbit : root.store.marks i tag with
      | false => simp
      | true => simp [List.mem_finRange]
    have hitem1 : root1.store.items i = some a := by
      rw [hstore1, items_put, hitem]
    rw [← hheight1] at hi
    obtain ⟨rnode, r, hremove, hused, hinv2, hstore2⟩ := hinv1.remove hi hitem1 hmarks1
    rw [hstore1, put_put] at hstore2
    dsimp only
    rw [if_neg (show ¬ (ofOption (some a)).isNull = true from nofun), hclear]
    dsimp only
    rw [hremove]
    cases r with
    | gone =>
      have hinv' : Inv ({ root1 with
          tags := fun _ => false
          height := 0
          rnode := .null
          indirect := false
          zeroed := root1.zeroed && true } : Root α) := by
        refine ⟨wf_null.mpr fun _ => rfl, zero_le _, fun hnull => ?_, ?_⟩
        · simp [isNull] at hnull
        · rw [Bool.and_true, hinv1.zeroed]
      refine ⟨_, rfl, hinv', ?_⟩
      rw [← hstore2, hinv'.store_of_null rfl, hinv2.store_of_null rfl]
    | stopped here =>
      have hused' : rnode.isNull = false := hused.resolve_left (by simp)
      simp only [Bool.and_true]
      cases here with
      | false => exact ⟨_, rfl, hinv2, hstore2⟩
      | true =>
        obtain ⟨root', hshrink, hinv', hstore'⟩ := hinv2.shrink rfl hused'
        refine ⟨root', ?_, hinv', hstore'.trans hstore2⟩
        exact map_eq_some_iff.mpr ⟨root', hshrink, rfl⟩

end

def toItem : Ptr α → Option (Option α)
  | .null => some none
  | .item a => some (some a)
  | .node .. => none

lemma toItem_ofOption (entry : Option α) : toItem (ofOption entry) = some entry := by
  cases entry <;> rfl

def call : Component (Root α) (Call α) (Reply α)
  | root, .insert i a => (root.insert i a).map fun p => (p.1, .err p.2)
  | root, .delete i =>
    (root.delete i).bind fun p => (toItem p.2).map fun a => (p.1, .item a)
  | root, .tagSet i tag =>
    (root.tagSet i tag).bind fun p => (toItem p.2).map fun a => (p.1, .item a)
  | root, .tagClear i tag =>
    (root.tagClear i tag).bind fun p => (toItem p.2).map fun a => (p.1, .item a)
  | root, .lookup i => (root.lookup i).map fun a => (root, .item a)
  | root, .tagGet i tag => (root.tagGet i tag).map fun b => (root, .bit b)

def Holds (s : Store α) (root : Root α) : Prop := root.Inv ∧ root.store = s

lemma call_refines : Component.Refines (Holds : Store α → Root α → Prop) Store.call call := by
  rintro _ root c s' r ⟨hinv, rfl⟩ hcall
  cases c with
  | insert i a =>
    dsimp only [Store.call] at hcall
    cases hitem : root.store.items i with
    | none =>
      obtain ⟨root', hinsert, hinv', hstore⟩ := hinv.insert_absent (a := a) hitem
      rw [hitem] at hcall
      cases hcall
      exact ⟨root', by simp only [call, hinsert]; rfl, hinv', hstore⟩
    | some b =>
      rw [hitem] at hcall
      cases hcall
      exact ⟨root, by simp only [call, hinv.insert_present hitem]; rfl, hinv, rfl⟩
  | delete i =>
    cases hcall
    obtain ⟨root', hdelete, hinv', hstore⟩ := hinv.delete i
    exact ⟨root', by simp [call, hdelete, toItem_ofOption], hinv', hstore⟩
  | tagSet i tag =>
    dsimp only [Store.call] at hcall
    cases hitem : root.store.items i with
    | none => rw [hitem] at hcall; cases hcall
    | some b =>
      obtain ⟨root', hset, hinv', hstore⟩ := hinv.tagSet tag hitem
      rw [hitem] at hcall
      cases hcall
      exact ⟨root', by simp only [call, hset]; rfl, hinv', hstore⟩
  | tagClear i tag =>
    cases hcall
    obtain ⟨root', hclear, hinv', -, hstore⟩ := hinv.tagClear i tag
    exact ⟨root', by simp [call, hclear, toItem_ofOption], hinv', hstore⟩
  | lookup i =>
    cases hcall
    exact ⟨root, by simp [call, hinv.lookup], hinv, rfl⟩
  | tagGet i tag =>
    cases hcall
    exact ⟨root, by simp [call, hinv.tagGet], hinv, rfl⟩

lemma init_inv : (Root.init : Root α).Inv :=
  ⟨wf_null.mpr fun _ => rfl, zero_le _, fun hused => by simp [init, isNull] at hused, rfl⟩

end Root

namespace Ptr

def Gathers (h : ℕ) (p : Ptr α) (bits : Tag → Bool) : Prop :=
  ∀ tag, bits tag = true ↔
    ∃ index a, p.get h index = some a ∧ p.tagAt h bits index tag = true

/-- All the nodes of a tree with `h` levels: their heights, counts and tag bits. -/
def Right : ℕ → Ptr α → (Tag → Bool) → Prop
  | 0, p, bits => Gathers 0 p bits
  | h + 1, p, bits => Gathers (h + 1) p bits ∧
      match p with
      | null => True
      | item _ => False
      | node height count slots tags =>
        height = h + 1 ∧ count = Nat.count (fun i => (slots i).isNull = false) mapSize ∧
          ∀ i < mapSize, Right h (slots i) fun tag => tags tag i

variable {h : ℕ} {p : Ptr α} {bits : Tag → Bool}

lemma Wf.gathers (hwf : p.Wf h bits) : Gathers h p bits := by
  intro tag
  constructor
  · intro hbit
    induction h generalizing p bits with
    | zero =>
      cases p with
      | null => exact absurd (wf_null.mp hwf tag) (by simp [hbit])
      | item a => exact ⟨0, a, rfl, hbit⟩
      | node => exact hwf.elim
    | succ h ih =>
      obtain rfl | ⟨count, slots, tags, rfl, -, hnode⟩ := hwf.node_of_succ
      · exact absurd (wf_null.mp hwf tag) (by simp [hbit])
      · rw [hnode.bits_eq, anyTagSet_eq_true] at hbit
        obtain ⟨d, hd, hset⟩ := hbit
        obtain ⟨index, a, hget, htag⟩ := ih (hnode.slot d hd) hset
        -- the index below, with the digit of this slot in front
        obtain ⟨j, hdigit, hagree⟩ := exists_digit (w := mapShift) (h := h) index hd
        have hoff : offset h j = d := hdigit
        refine ⟨j, a, ?_, ?_⟩
        · rw [get_node, hoff, ← get_congr hagree, hget]
        · rw [tagAt_node, hoff, ← tagAt_congr hagree, htag]
  · rintro ⟨index, a, -, htag⟩
    by_contra hbit
    rw [hwf.tagAt_of_bit (eq_false_iff.mpr hbit)] at htag
    cases htag

lemma Wf.right (hwf : p.Wf h bits) : Right h p bits := by
  induction h generalizing p bits with
  | zero => exact hwf.gathers
  | succ h ih =>
    refine ⟨hwf.gathers, ?_⟩
    obtain rfl | ⟨count, slots, tags, rfl, -, hnode⟩ := hwf.node_of_succ
    · trivial
    · exact ⟨rfl, hnode.count_eq, fun i hi => ih (hnode.slot i hi)⟩

end Ptr

/-- Any sequence of calls that sets tags on present items only runs to its end, with the replies of
the store; and the tree then has right nodes, and is high enough for all that it holds. -/
theorem calls_as_store (calls : List (Call α))
    (hcalls : (Store.call.run Store.empty calls).isSome) :
    ∃ (s : Store α) (root : Root α) (replies : List (Reply α)),
      Store.call.run Store.empty calls = some (s, replies) ∧
      Root.call.run Root.init calls = some (root, replies) ∧
      root.rnode.Right root.height root.tags ∧
      (∀ i, root.store.items i = s.items i ∧ root.store.marks i = s.marks i) ∧
      ∀ (i : Index) (a : α), s.items i = some a → (i : ℕ) ≤ maxindex root.height := by
  obtain ⟨⟨s, replies⟩, hrun⟩ := isSome_iff_exists.mp hcalls
  have hinit : Root.Holds Store.empty (Root.init : Root α) :=
    ⟨Root.init_inv, Root.init_inv.store_of_null rfl⟩
  obtain ⟨root, hroot, hinv, rfl⟩ := Root.call_refines.run hinit hrun
  refine ⟨_, root, replies, hrun, hroot, hinv.wf.right, fun i => ⟨rfl, rfl⟩, ?_⟩
  intro i a hitem
  by_contra hlow
  rw [not_le, Root.maxindex_lt_iff i.isLt] at hlow
  rw [Root.items_of_le hlow] at hitem
  cases hitem

/-- A tree that grows, is tagged and shrinks again. -/
theorem calls_as_store_grown : (Store.call.run Store.empty
      [.insert 0 'a', .tagSet 0 2, .insert 4096 'b', .tagSet 4096 1, .insert 0 'c', .delete 4096,
        .tagGet 0 2, .lookup 0]).isSome ∧ ∃ root replies, Root.call.run Root.init
      [.insert 0 'a', .tagSet 0 2, .insert 4096 'b', .tagSet 4096 1, .insert 0 'c', .delete 4096,
        .tagGet 0 2, .lookup 0] = some (root, replies) ∧
      root.rnode.Right root.height root.tags := by
  refine ⟨by decide +kernel, ?_⟩
  obtain ⟨-, root, replies, -, hrun, hright, -⟩ := calls_as_store
    [.insert 0 'a', .tagSet 0 2, .insert 4096 'b', .tagSet 4096 1, .insert 0 'c', .delete 4096,
      .tagGet 0 2, .lookup 0] (by decide +kernel)
  exact ⟨root, replies, hrun, hright⟩

end Am335x.RadixTree
