import Am335xKernel.Lib.SlotCount
import Am335xKernel.Kernel.RadixTree

/-!
# What the loops of the radix tree do to a tree

`Ptr.get` and `Ptr.tagAt` read a tree as a map: the item and the tag bits that an
index ends at. `Ptr.Wf` is the invariant of a tree with `h` levels under tag bits
`bits`: counts are exact and positive, and a tag bit is set where one is set below.

Each loop goes down the path of one index, and rewrites the nodes on it. `Sets`
says what that comes to: the tree holds for this index the given item and tags,
and is as before for all others.
-/

namespace Am335x.RadixTree

open DigitPath Function SlotCount

variable {α : Type*} {h index j off count count' height height' : ℕ} {tag : Tag} {a : α}
  {p p' child : Ptr α} {bits bits' marks : Tag → Bool} {slots : ℕ → Ptr α}
  {tags tags' : Tag → ℕ → Bool} {entry : Option α}

namespace Ptr

/-- The item for an index, with `h` levels left. -/
def get : ℕ → Ptr α → ℕ → Option α
  | 0, item a, _ => some a
  | h + 1, node _ _ slots _, index => get h (slots (offset h index)) index
  | _, _, _ => none

/-- The tag bits for an index, where `bits` are those for the whole tree. -/
def tagAt : ℕ → Ptr α → (Tag → Bool) → ℕ → Tag → Bool
  | 0, _, bits, _ => bits
  | h + 1, node _ _ slots tags, _, index =>
    tagAt h (slots (offset h index)) (fun tag => tags tag (offset h index)) index
  | _ + 1, _, _, _ => fun _ => false

def ofOption : Option α → Ptr α
  | none => null
  | some a => item a

@[simp] lemma get_null : (null : Ptr α).get h index = none := by
  cases h <;> rfl

lemma get_node : (node height count slots tags).get (h + 1) index =
    (slots (offset h index)).get h index := rfl

lemma tagAt_node : (node height count slots tags).tagAt (h + 1) bits index =
    (slots (offset h index)).tagAt h (fun tag => tags tag (offset h index)) index := rfl

lemma tagAt_null : (null : Ptr α).tagAt h (fun _ => false) index = fun _ => false := by
  cases h <;> rfl

lemma isNull_eq_false_of_get (hget : p.get h index = some a) : p.isNull = false := by
  cases p with
  | null => simp at hget
  | _ => rfl

lemma get_congr (hagree : Agree mapShift h index j) : p.get h j = p.get h index := by
  induction h generalizing p with
  | zero => cases p <;> rfl
  | succ h ih =>
    cases p with
    | node _ _ slots tags =>
      have hoff : offset h index = offset h j := hagree.1
      rw [get_node, get_node, ← hoff]
      exact ih hagree.2
    | _ => rfl

lemma tagAt_congr (hagree : Agree mapShift h index j) :
    p.tagAt h bits j = p.tagAt h bits index := by
  induction h generalizing p bits with
  | zero => rfl
  | succ h ih =>
    cases p with
    | node _ _ slots tags =>
      have hoff : offset h index = offset h j := hagree.1
      rw [tagAt_node, tagAt_node, ← hoff]
      exact ih hagree.2
    | _ => rfl

/-- The tree is as before, but holds `entry` with the tags `marks` for `index`. -/
structure Sets (h index : ℕ) (p : Ptr α) (bits : Tag → Bool) (p' : Ptr α) (bits' : Tag → Bool)
    (entry : Option α) (marks : Tag → Bool) : Prop where
  get_eq : ∀ j, p'.get h j = if Agree mapShift h index j then entry else p.get h j
  tagAt_eq : ∀ j, p'.tagAt h bits' j =
    if Agree mapShift h index j then marks else p.tagAt h bits j

lemma Sets.refl (h index : ℕ) (p : Ptr α) (bits : Tag → Bool) :
    Sets h index p bits p bits (p.get h index) (p.tagAt h bits index) := by
  constructor
  · intro j
    split_ifs with hagree
    · exact get_congr hagree
    · rfl
  · intro j
    split_ifs with hagree
    · exact tagAt_congr hagree
    · rfl

lemma Sets.node (hs : Sets h index (slots (offset h index))
      (fun tag => tags tag (offset h index)) child (fun tag => tags' tag (offset h index))
      entry marks) (htags : ∀ tag i, i ≠ offset h index → tags' tag i = tags tag i) :
    Sets (h + 1) index (node height count slots tags) bits
      (.node height' count' (update slots (offset h index) child) tags') bits' entry marks := by
  constructor
  · intro j
    rw [get_node, get_node]
    by_cases hoff : offset h index = offset h j
    · rw [← hoff, update_self, hs.get_eq j]
      exact if_congr (and_iff_right hoff).symm rfl rfl
    · rw [update_of_ne (Ne.symm hoff), if_neg fun hagree => hoff hagree.1]
  · intro j
    rw [tagAt_node, tagAt_node]
    by_cases hoff : offset h index = offset h j
    · rw [← hoff, update_self, hs.tagAt_eq j]
      exact if_congr (and_iff_right hoff).symm rfl rfl
    · rw [update_of_ne (Ne.symm hoff), if_neg fun hagree => hoff hagree.1]
      congr 1
      funext tag
      exact htags tag _ (Ne.symm hoff)

/-- A node whose count and tag bits are right, with `P` for its slots. -/
structure Node (P : Ptr α → (Tag → Bool) → Prop) (count : ℕ) (slots : ℕ → Ptr α)
    (tags : Tag → ℕ → Bool) (bits : Tag → Bool) : Prop where
  count_eq : count = Nat.count (fun i => (slots i).isNull = false) mapSize
  bits_eq : ∀ tag, bits tag = anyTagSet tags tag
  slot : ∀ i < mapSize, P (slots i) fun tag => tags tag i

/-- The invariant of a tree with `h` levels, under the tag bits `bits`. -/
def Wf : ℕ → Ptr α → (Tag → Bool) → Prop
  | _, null, bits => ∀ tag, bits tag = false
  | 0, item _, _ => True
  | h + 1, node height count slots tags, bits =>
    height = h + 1 ∧ 0 < count ∧ Node (Wf h) count slots tags bits
  | _, _, _ => False

lemma wf_null : (null : Ptr α).Wf h bits ↔ ∀ tag, bits tag = false := by
  cases h <;> rfl

lemma Wf.node_of_succ (hwf : p.Wf (h + 1) bits) :
    p = null ∨ ∃ count slots tags, p = node (h + 1) count slots tags ∧ 0 < count ∧
      Node (Wf h) count slots tags bits := by
  cases p with
  | null => exact .inl rfl
  | item _ => exact hwf.elim
  | node height count slots tags =>
    obtain ⟨rfl, hpos, hnode⟩ := hwf
    exact .inr ⟨count, slots, tags, rfl, hpos, hnode⟩

lemma Wf.item_of_zero (hwf : p.Wf 0 bits) (index : ℕ) : p = ofOption (p.get 0 index) := by
  cases p with
  | node => exact hwf.elim
  | _ => rfl

lemma Wf.height_of_item (hwf : (item a).Wf h bits) : h = 0 := by
  cases h with
  | zero => rfl
  | succ h => exact hwf.elim

lemma Wf.height_of_node (hwf : (node height count slots tags).Wf h bits) : height = h ∧ 0 < h := by
  cases h with
  | zero => exact hwf.elim
  | succ h => exact ⟨hwf.1, Nat.succ_pos h⟩

lemma Node.slot_offset {P : Ptr α → (Tag → Bool) → Prop} (hnode : Node P count slots tags bits)
    (h index : ℕ) : P (slots (offset h index)) fun tag => tags tag (offset h index) :=
  hnode.slot _ digit_lt

lemma Wf.tagAt_of_get_none (hwf : p.Wf h bits) (hget : p.get h index = none) :
    p.tagAt h bits index = fun _ => false := by
  induction h generalizing p bits with
  | zero =>
    have hp := hwf.item_of_zero index
    rw [hget] at hp
    subst hp
    exact funext (wf_null.mp hwf)
  | succ h ih =>
    obtain rfl | ⟨count, slots, tags, rfl, -, hnode⟩ := hwf.node_of_succ
    · rfl
    · exact ih (hnode.slot_offset h index) hget

lemma anyTagSet_eq_true : anyTagSet tags tag = true ↔ ∃ i < mapSize, tags tag i = true := by
  simp [anyTagSet]

lemma anyTagSet_eq_false : anyTagSet tags tag = false ↔ ∀ i < mapSize, tags tag i = false := by
  simp [anyTagSet]

lemma Wf.tagAt_of_bit (hwf : p.Wf h bits) (hbit : bits tag = false) :
    p.tagAt h bits index tag = false := by
  induction h generalizing p bits with
  | zero => exact hbit
  | succ h ih =>
    obtain rfl | ⟨count, slots, tags, rfl, -, hnode⟩ := hwf.node_of_succ
    · rfl
    · rw [hnode.bits_eq, anyTagSet_eq_false] at hbit
      exact ih (hnode.slot_offset h index) (hbit _ digit_lt)

lemma count_update (hoff : off < mapSize) (hchild : child.isNull = false) :
    Nat.count (fun i => (update slots off child i).isNull = false) mapSize =
      if (slots off).isNull then Nat.count (fun i => (slots i).isNull = false) mapSize + 1
      else Nat.count (fun i => (slots i).isNull = false) mapSize := by
  split_ifs with hnull
  · refine count_add_one hoff (by simp [hnull]) (by simpa using hchild) ?_
    intro i _ hi
    rw [update_of_ne hi]
  · refine count_congr fun i _ => ?_
    rcases eq_or_ne i off with rfl | hi
    · simpa [hchild] using hnull
    · rw [update_of_ne hi]

section

variable {P : Ptr α → (Tag → Bool) → Prop} (hnode : Node P count slots tags bits)
  (hchild : P child fun tag => tags' tag off) (htags : ∀ tag i, i ≠ off → tags' tag i = tags tag i)
  (hbits : ∀ tag, bits' tag = anyTagSet tags' tag)
include hnode hchild htags hbits

lemma Node.update (hcount : count' =
      Nat.count (fun i => (Function.update slots off child i).isNull = false) mapSize) :
    Node P count' (Function.update slots off child) tags' bits' := by
  refine ⟨hcount, hbits, ?_⟩
  intro i hi
  rcases eq_or_ne i off with rfl | hne
  · rw [update_self]
    exact hchild
  · rw [update_of_ne hne]
    simp only [htags _ i hne]
    exact hnode.slot i hi

lemma Node.update_same (hnull : child.isNull = (slots off).isNull) :
    Node P count (Function.update slots off child) tags' bits' := by
  refine hnode.update hchild htags hbits ?_
  rw [hnode.count_eq]
  refine count_congr fun i _ => ?_
  rcases eq_or_ne i off with rfl | hi
  · rw [update_self, hnull]
  · rw [update_of_ne hi]

end

end Ptr

open Ptr

variable {zeroed : Bool}

lemma insertLoop_present {b : α} (hwf : p.Wf h bits)
    (hget : p.get h index = some b) : insertLoop zeroed index a h p = some (p, eexist) := by
  induction h generalizing p bits with
  | zero =>
    rw [hwf.item_of_zero index, hget]
    rfl
  | succ h ih =>
    obtain rfl | ⟨count, slots, tags, rfl, -, hnode⟩ := hwf.node_of_succ
    · simp at hget
    · rw [get_node] at hget
      unfold insertLoop
      rw [if_neg (nofun : ¬ (node (h + 1) count slots tags).isNull = true)]
      dsimp only
      rw [ih (hnode.slot_offset h index) hget]
      have hused := isNull_eq_false_of_get hget
      simp [hused, eexist]

def Inserted (index : ℕ) (a : α) (h : ℕ) (p : Ptr α) (bits : Tag → Bool) : Prop :=
  ∃ p', insertLoop true index a h p = some (p', 0) ∧ p'.isNull = false ∧ p'.Wf h bits ∧
    Sets h index p bits p' bits (some a) fun _ => false

lemma insertLoop_node_absent
    (ih : ∀ {p : Ptr α} {bits}, p.Wf h bits → p.get h index = none → Inserted index a h p bits)
    (hnode : Node (Wf h) count slots tags bits)
    (hget : (slots (offset h index)).get h index = none) :
    Inserted index a (h + 1) (.node (h + 1) count slots tags) bits := by
  have hslot := hnode.slot_offset h index
  obtain ⟨child, hinsert, hused, hwf, hsets⟩ := ih hslot hget
  -- no tag is set at the slot of the item, which was empty
  have hclear : ¬ (h = 0 ∧ (0 : ℤ) = 0 ∧
      (tags 0 (offset h index) || tags 1 (offset h index)) = true) := by
    rintro ⟨rfl, -, hbug⟩
    have htag := hslot.tagAt_of_get_none hget
    have h0 : tags 0 (offset 0 index) = false := congrFun htag 0
    have h1 : tags 1 (offset 0 index) = false := congrFun htag 1
    simp [h0, h1] at hbug
  have hcount : (if (slots (offset h index)).isNull then count + 1 else count) =
      Nat.count (fun i => (update slots (offset h index) child i).isNull = false)
        mapSize := by
    rw [count_update digit_lt hused, ← hnode.count_eq]
  refine ⟨.node (h + 1) (if (slots (offset h index)).isNull then count + 1 else count)
    (update slots (offset h index) child) tags, ?_, rfl, ⟨rfl, ?_, ?_⟩, ?_⟩
  · unfold insertLoop
    rw [if_neg (nofun : ¬ (node (h + 1) count slots tags).isNull = true)]
    dsimp only
    rw [hinsert]
    exact if_neg hclear
  · rw [hcount]
    refine count_pos (i := offset h index) digit_lt ?_
    rw [update_self]
    exact hused
  · exact hnode.update hwf (fun _ _ _ => rfl) hnode.bits_eq hcount
  · exact hsets.node fun _ _ _ => rfl

lemma node_zero (hbits : bits = fun _ => false) :
    Node (Wf h) 0 (fun _ => (.null : Ptr α)) (fun _ _ => false) bits := by
  subst hbits
  refine ⟨?_, ?_, fun i _ => wf_null.mpr fun _ => rfl⟩
  · simp [isNull]
  · intro tag
    exact (anyTagSet_eq_false.mpr fun _ _ => rfl).symm

lemma insertLoop_absent (hwf : p.Wf h bits) (hget : p.get h index = none) :
    Inserted index a h p bits := by
  induction h generalizing p bits with
  | zero =>
    have hp := hwf.item_of_zero index
    rw [hget] at hp
    subst hp
    refine ⟨.item a, rfl, rfl, trivial, fun j => rfl, fun j => ?_⟩
    exact funext (wf_null.mp hwf)
  | succ h ih =>
    obtain rfl | ⟨count, slots, tags, rfl, -, hnode⟩ := hwf.node_of_succ
    · have hbits := funext (wf_null.mp hwf)
      obtain ⟨p', hinsert, hused, hwf', hsets⟩ :=
        insertLoop_node_absent ih (node_zero hbits) get_null
      refine ⟨p', hinsert, hused, hwf', ?_, ?_⟩
      · intro j
        rw [hsets.get_eq j, get_node, get_null, get_null]
      · intro j
        rw [hsets.tagAt_eq j, tagAt_node, tagAt_null]
        rfl
    · exact insertLoop_node_absent ih hnode hget

lemma lookupLoop_eq (hwf : p.Wf h bits) (hused : p.isNull = false) :
    lookupLoop index h p = some (p.get h index) := by
  induction h generalizing p bits with
  | zero =>
    cases p with
    | null => simp [isNull] at hused
    | item _ => rfl
    | node => exact hwf.elim
  | succ h ih =>
    obtain rfl | ⟨count, slots, tags, rfl, -, hnode⟩ := hwf.node_of_succ
    · simp [isNull] at hused
    · rw [lookupLoop, get_node]
      split_ifs with hnull
      · cases hslot : slots (offset h index) with
        | null => rw [get_null]
        | _ => simp [hslot, isNull] at hnull
      · exact ih (hnode.slot_offset h index) (Bool.eq_false_iff.mpr hnull)

lemma deleteWalk_eq (hwf : p.Wf h bits) : deleteWalk index h p bits =
    some (ofOption (p.get h index), p.tagAt h bits index) := by
  induction h generalizing p bits with
  | zero =>
    rw [← hwf.item_of_zero index]
    rfl
  | succ h ih =>
    obtain rfl | ⟨count, slots, tags, rfl, -, hnode⟩ := hwf.node_of_succ
    · rfl
    · exact ih (hnode.slot_offset h index)

lemma tagGetLoop_eq (hwf : p.Wf (h + 1) bits) :
    tagGetLoop tag index (h + 1) p = some (p.tagAt (h + 1) bits index tag) := by
  induction h generalizing p bits with
  | zero =>
    obtain rfl | ⟨count, slots, tags, rfl, -, hnode⟩ := hwf.node_of_succ
    · rfl
    · rw [tagGetLoop, tagAt_node]
      cases hbit : tags tag (offset 0 index) <;> simp [tagAt, hbit]
  | succ h ih =>
    obtain rfl | ⟨count, slots, tags, rfl, -, hnode⟩ := hwf.node_of_succ
    · rfl
    · have hslot := hnode.slot_offset (h + 1) index
      rw [tagGetLoop, tagAt_node]
      cases hbit : tags tag (offset (h + 1) index) with
      | false => rw [hslot.tagAt_of_bit hbit, Bool.not_false, if_pos rfl]
      | true => rw [ih hslot, Bool.not_true, if_neg nofun, if_neg h.succ_ne_zero]

variable {b : Bool} {i : ℕ}

lemma writeTag_other (tag' : Tag) (i : ℕ) (hi : i ≠ off) :
    writeTag tags tag off b tag' i = tags tag' i := by
  unfold writeTag
  rcases eq_or_ne tag' tag with rfl | htag
  · rw [update_self, update_of_ne hi]
  · rw [update_of_ne htag]

lemma writeTag_slot : (fun tag' => writeTag tags tag off b tag' off) =
    update (fun tag' => tags tag' off) tag b := by
  funext tag'
  unfold writeTag
  rcases eq_or_ne tag' tag with rfl | htag
  · rw [update_self, update_self, update_self]
  · rw [update_of_ne htag, update_of_ne htag]

lemma anyTagSet_writeTag_ne {tag' : Tag} (htag : tag' ≠ tag) :
    anyTagSet (writeTag tags tag off b) tag' = anyTagSet tags tag' := by
  unfold anyTagSet writeTag
  rw [update_of_ne htag]

lemma writeTag_set : (if !tags tag off then writeTag tags tag off true else tags) =
    writeTag tags tag off true := by
  cases hbit : tags tag off with
  | false => rfl
  | true =>
    have hrow : update (tags tag) off true = tags tag := by
      rw [← hbit, update_eq_self]
    unfold writeTag
    rw [hrow, update_eq_self]
    rfl

lemma tagSetLoop_present (tag : Tag) (hwf : p.Wf h bits) (hget : p.get h index = some a) :
    ∃ p', tagSetLoop tag index h p = some (p', .item a) ∧ p'.isNull = false ∧
      p'.Wf h (Function.update bits tag true) ∧
      Sets h index p bits p' (Function.update bits tag true) (some a)
        (Function.update (p.tagAt h bits index) tag true) := by
  induction h generalizing p bits with
  | zero =>
    have hp := hwf.item_of_zero index
    rw [hget] at hp
    subst hp
    exact ⟨.item a, rfl, rfl, trivial, fun _ => rfl, fun _ => rfl⟩
  | succ h ih =>
    obtain rfl | ⟨count, slots, tags, rfl, hpos, hnode⟩ := hwf.node_of_succ
    · simp at hget
    · have hused := isNull_eq_false_of_get (p := slots (offset h index)) hget
      obtain ⟨child, hset, hchild, hwf', hsets⟩ := ih (hnode.slot_offset h index) hget
      rw [← writeTag_slot] at hwf' hsets
      refine ⟨.node (h + 1) count (update slots (offset h index) child)
        (writeTag tags tag (offset h index) true), ?_, rfl, ⟨rfl, hpos, ?_⟩, ?_⟩
      · unfold tagSetLoop
        dsimp only
        rw [hused, if_neg nofun, hset, writeTag_set]
      · refine hnode.update_same hwf' writeTag_other ?_ (hchild.trans hused.symm)
        intro tag'
        rcases eq_or_ne tag' tag with rfl | htag
        · rw [update_self]
          refine (anyTagSet_eq_true.mpr ⟨offset h index, digit_lt, ?_⟩).symm
          simp [writeTag]
        · rw [update_of_ne htag, anyTagSet_writeTag_ne htag, hnode.bits_eq]
      · exact hsets.node writeTag_other

def Cleared (tag : Tag) (index h : ℕ) (p : Ptr α) (bits : Tag → Bool) : Prop :=
  ∃ p' up, tagClearLoop tag index h p = some (p', ofOption (p.get h index), up) ∧
    p'.isNull = p.isNull ∧
    p'.Wf h (if up then update bits tag false else bits) ∧
    Sets h index p bits p' (if up then update bits tag false else bits)
      (p.get h index) (update (p.tagAt h bits index) tag false)

lemma update_false_of_eq (hbit : bits tag = false) : update bits tag false = bits := by
  rw [← hbit, update_eq_self]

lemma cleared_null (hwf : (.null : Ptr α).Wf h bits)
    (heq : tagClearLoop tag index h .null = some ((.null : Ptr α), .null, false)) :
    Cleared tag index h (.null : Ptr α) bits := by
  have hsets := Sets.refl h index (.null : Ptr α) bits
  have hmarks : (null : Ptr α).tagAt h bits index = fun _ => false :=
    hwf.tagAt_of_get_none get_null
  refine ⟨.null, false, ?_, rfl, hwf, ?_⟩
  · rw [heq, get_null]
    rfl
  · rwa [update_false_of_eq (congrFun hmarks tag)]

lemma Ptr.Node.bits_clear {P : Ptr α → (Tag → Bool) → Prop}
    (hnode : Node P count slots tags bits) (hoff : off < mapSize) (hbit : tags tag off = true)
    (tag' : Tag) :
    (if !anyTagSet (writeTag tags tag off false) tag then Function.update bits tag false
      else bits) tag' = anyTagSet (writeTag tags tag off false) tag' := by
  rcases eq_or_ne tag' tag with rfl | htag
  · cases hany : anyTagSet (writeTag tags tag' off false) tag' with
    | false => simp
    | true =>
      rw [Bool.not_true, if_neg nofun, hnode.bits_eq]
      exact anyTagSet_eq_true.mpr ⟨off, hoff, hbit⟩
  · rw [anyTagSet_writeTag_ne htag, ← hnode.bits_eq]
    split_ifs
    · exact update_of_ne htag _ _
    · rfl

lemma tagClearLoop_spec (tag : Tag) (index : ℕ) (hwf : p.Wf h bits) :
    Cleared tag index h p bits := by
  induction h generalizing p bits with
  | zero =>
    cases p with
    | null => exact cleared_null hwf rfl
    | item a => exact ⟨.item a, true, rfl, rfl, trivial, fun _ => rfl, fun _ => rfl⟩
    | node => exact hwf.elim
  | succ h ih =>
    obtain rfl | ⟨count, slots, tags, rfl, hpos, hnode⟩ := hwf.node_of_succ
    · exact cleared_null hwf rfl
    · obtain ⟨child, up, hclear, hnull, hwf', hsets⟩ := ih (hnode.slot_offset h index)
      by_cases hstay : (!up || !tags tag (offset h index)) = true
      · -- the bits of the slot are as before
        have hbits : (if up then update (fun tag => tags tag (offset h index)) tag false
            else fun tag => tags tag (offset h index)) = fun tag => tags tag (offset h index) := by
          cases up with
          | false => rfl
          | true => exact update_false_of_eq (by simpa using hstay)
        rw [hbits] at hwf' hsets
        refine ⟨.node (h + 1) count (update slots (offset h index) child) tags, false,
          ?_, rfl, ⟨rfl, hpos, ?_⟩, ?_⟩
        · unfold tagClearLoop
          dsimp only
          rw [hclear]
          exact if_pos hstay
        · exact hnode.update_same hwf' (fun _ _ _ => rfl) hnode.bits_eq hnull
        · exact hsets.node fun _ _ _ => rfl
      · obtain ⟨rfl, hbit⟩ : up = true ∧ tags tag (offset h index) = true := by
          simpa using hstay
        rw [if_pos rfl, ← writeTag_slot] at hwf' hsets
        refine ⟨.node (h + 1) count (update slots (offset h index) child)
          (writeTag tags tag (offset h index) false),
          !anyTagSet (writeTag tags tag (offset h index) false) tag,
          ?_, rfl, ⟨rfl, hpos, ?_⟩, ?_⟩
        · unfold tagClearLoop
          dsimp only
          rw [hclear]
          exact if_neg hstay
        · exact hnode.update_same hwf' writeTag_other (hnode.bits_clear digit_lt hbit) hnull
        · exact hsets.node writeTag_other

lemma Ptr.isNull_iff : p.isNull = true ↔ p = .null := by
  cases p <;> simp [isNull]

lemma Ptr.Node.tags_of_null (hnode : Node (Wf h) count slots tags bits)
    (hi : i < mapSize) (hnull : slots i = .null) : tags tag i = false := by
  have hslot := hnode.slot i hi
  rw [hnull] at hslot
  exact wf_null.mp hslot tag

lemma Ptr.Node.freeZeroed (hnode : Node (Wf h) count slots tags bits)
    (hnull : ∀ i < mapSize, i ≠ 0 → slots i = .null) : Ptr.freeZeroed slots tags = true := by
  refine List.all_eq_true.mpr fun i hi => ?_
  rw [List.mem_range] at hi
  rcases eq_or_ne i 0 with rfl | hne
  · rfl
  · have htags : ∀ tag, tags tag i = false := fun tag => hnode.tags_of_null hi (hnull i hi hne)
    simp [hnull i hi hne, isNull, htags]

lemma Ptr.Node.null_of_count_zero (hnode : Node (Wf h) 0 slots tags bits)
    (hi : i < mapSize) : slots i = .null := by
  by_contra hne
  have hused : (slots i).isNull = false := Bool.eq_false_iff.mpr fun h => hne (isNull_iff.mp h)
  have hpos := count_pos (p := fun i => (slots i).isNull = false) hi hused
  rw [← hnode.count_eq] at hpos
  omega

def Removed.left : Removed → Ptr α → Ptr α
  | .gone, _ => .null
  | .stopped _, p => p

def Taken (index h : ℕ) (p : Ptr α) (bits : Tag → Bool) : Prop :=
  ∃ p' r, removeLoop index h p = some (p', r, true) ∧ (r = .gone ∨ p'.isNull = false) ∧
    (r.left p').Wf h bits ∧ Sets h index p bits (r.left p') bits none fun _ => false

lemma taken_node_gone (hpos : 0 < count) (hnode : Node (Wf h) count slots tags bits)
    (hused : (slots (offset h index)).isNull = false)
    (hremove : removeLoop index h (slots (offset h index)) = some (child, .gone, true))
    (hwf : (.null : Ptr α).Wf h fun tag => tags tag (offset h index))
    (hsets : Sets h index (slots (offset h index)) (fun tag => tags tag (offset h index)) .null
      (fun tag => tags tag (offset h index)) none fun _ => false) :
    Taken index (h + 1) (.node (h + 1) count slots tags) bits := by
  have hcount : count =
      Nat.count (fun i => (update slots (offset h index) .null i).isNull = false) mapSize + 1 := by
    rw [hnode.count_eq]
    refine count_add_one digit_lt (by simp [isNull]) hused ?_
    intro i _ hi
    rw [update_of_ne hi]
  have hnode' : Node (Wf h) (count - 1) (update slots (offset h index) .null) tags bits :=
    hnode.update hwf (fun _ _ _ => rfl) hnode.bits_eq (by omega)
  have hsets' : Sets (h + 1) index (.node (h + 1) count slots tags) bits
      (.node (h + 1) (count - 1) (update slots (offset h index) .null) tags) bits none
      fun _ => false := hsets.node fun _ _ _ => rfl
  by_cases hlast : count - 1 = 0
  · rw [hlast] at hnode'
    have hnull : ∀ i < mapSize, update slots (offset h index) .null i = .null :=
      fun i hi => hnode'.null_of_count_zero hi
    have hbits : ∀ tag, bits tag = false := by
      intro tag
      rw [hnode'.bits_eq, anyTagSet_eq_false]
      exact fun i hi => hnode'.tags_of_null hi (hnull i hi)
    refine ⟨.node (h + 1) (count - 1) (update slots (offset h index) .null) tags, .gone,
      ?_, .inl rfl, wf_null.mpr hbits, ?_, ?_⟩
    · unfold removeLoop
      dsimp only
      rw [hremove]
      simp only [hlast, ne_eq, not_true_eq_false, if_false]
      rw [hnode'.freeZeroed fun i hi _ => hnull i hi, Bool.and_true]
    · intro j
      rw [← hsets'.get_eq j, get_node, hnull _ digit_lt, get_null]
      exact get_null
    · intro j
      rw [← hsets'.tagAt_eq j, tagAt_node, hnull _ digit_lt]
      have hrow : (fun tag => tags tag (offset h j)) = fun _ => false :=
        funext fun _ => hnode'.tags_of_null digit_lt (hnull _ digit_lt)
      rw [hrow, tagAt_null]
      rfl
  · refine ⟨.node (h + 1) (count - 1) (update slots (offset h index) .null) tags,
      .stopped true, ?_, .inr rfl, ⟨rfl, Nat.pos_of_ne_zero hlast, hnode'⟩, hsets'⟩
    unfold removeLoop
    dsimp only
    rw [hremove]
    exact if_pos hlast

lemma removeLoop_spec (hwf : p.Wf h bits) (hget : p.get h index = some a)
    (hmarks : p.tagAt h bits index = fun _ => false) : Taken index h p bits := by
  induction h generalizing p bits with
  | zero =>
    refine ⟨p, .gone, rfl, .inl rfl, wf_null.mpr (congrFun hmarks), fun _ => get_null, ?_⟩
    exact fun _ => hmarks
  | succ h ih =>
    obtain rfl | ⟨count, slots, tags, rfl, hpos, hnode⟩ := hwf.node_of_succ
    · simp at hget
    · have hused := isNull_eq_false_of_get (p := slots (offset h index)) hget
      obtain ⟨child, r, hremove, hchild, hwf', hsets⟩ :=
        ih (hnode.slot_offset h index) hget hmarks
      cases r with
      | gone => exact taken_node_gone hpos hnode hused hremove hwf' hsets
      | stopped here =>
        have hchild' : child.isNull = false := hchild.resolve_left (by simp)
        refine ⟨.node (h + 1) count (update slots (offset h index) child) tags,
          .stopped false, ?_, .inr rfl, ⟨rfl, hpos, ?_⟩, ?_⟩
        · unfold removeLoop
          dsimp only
          rw [hremove]
        · exact hnode.update_same hwf' (fun _ _ _ => rfl) hnode.bits_eq
            (hchild'.trans hused.symm)
        · exact hsets.node fun _ _ _ => rfl

end Am335x.RadixTree
