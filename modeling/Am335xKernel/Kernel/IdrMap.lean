import Am335xKernel.Lib.SlotCount
import Am335xKernel.Kernel.Idr

/-!
# Layers as maps

`Ptr.get` reads a tree as a map from ids to items, and `Ptr.Wf` is its invariant:
a bit is set exactly where all ids below are allocated, counts are exact, and layers
know their distance from the leaves. Layers may be empty.

A path is a tree with a hole. `pathGet` is the map of the tree when the hole holds
a given map, and `PathOk` says that the tree is right as long as what is put into
the hole is not full.
-/

namespace Am335x.Ids

open DigitPath Function List

variable {α : Type*} {h l id j m n : ℕ} {a : α} {p q : Layer (Ptr α)} {c : Ptr α}
  {f : Frame α} {path : List (Frame α)} {g g' : ℕ → Option α} {x : Option α} {F : α → Prop}

/-- The slot for an id in a layer with `h` layers below it. -/
abbrev slotOf (h id : ℕ) : ℕ := digit idrBits h id

lemma and_mask : id &&& (idrSize - 1) = slotOf 0 id := by
  unfold slotOf digit
  rw [Nat.zero_mul, Nat.shiftRight_zero]

namespace Ptr

/-- The item for an id; `h` counts the layers that are left. -/
def get : ℕ → Ptr α → ℕ → Option α
  | 0, item a, _ => some a
  | h + 1, layer p, id => get h (p.ary (slotOf h id)) id
  | _, _, _ => none

@[simp] lemma get_null : (null : Ptr α).get h id = none := by
  cases h <;> rfl

lemma get_layer : (layer p).get (h + 1) id = (p.ary (slotOf h id)).get h id := rfl

lemma isNull_iff : c.isNull = true ↔ c = null := by
  cases c <;> simp [isNull]

lemma isNull_eq_false : c.isNull = false ↔ c ≠ null := by
  rw [← Bool.not_eq_true, isNull_iff]

lemma ne_null_of_get (hget : c.get h id = some a) : c ≠ null := by
  rintro rfl
  simp at hget

lemma get_congr (hagree : Agree idrBits h id j) : c.get h j = c.get h id := by
  induction h generalizing c with
  | zero => cases c <;> rfl
  | succ h ih =>
    cases c with
    | layer p =>
      have hslot : slotOf h id = slotOf h j := hagree.1
      rw [get_layer, get_layer, ← hslot]
      exact ih hagree.2
    | _ => rfl

def Full (h : ℕ) (c : Ptr α) : Prop := ∀ id, c.get h id ≠ none

def used (ary : ℕ → Ptr α) : ℕ := Nat.count (fun i => (ary i).isNull = false) idrSize

/-- A layer whose count and bits are right, with `P` for its slots; `F` are the full ones. -/
structure Slots (P F : Ptr α → Prop) (p : Layer (Ptr α)) : Prop where
  count_eq : p.count = used p.ary
  bit_iff : ∀ i < idrSize, p.bitmap i = true ↔ F (p.ary i)
  slot : ∀ i < idrSize, P (p.ary i)

/-- The invariant of a tree with `h` layers. -/
def Wf : ℕ → Ptr α → Prop
  | _, null => True
  | 0, item _ => True
  | h + 1, layer p => p.layer = h ∧ Slots (Wf h) (Full h) p
  | _, _ => False

/-! The same for items that may have space left in them: `F` says that an item has none. -/

def Takes (F : α → Prop) (x : Option α) : Prop := ∃ a, x = some a ∧ F a

def FullBy (F : α → Prop) (h : ℕ) (c : Ptr α) : Prop := ∀ id, Takes F (c.get h id)

def WfBy (F : α → Prop) : ℕ → Ptr α → Prop
  | _, null => True
  | 0, item _ => True
  | h + 1, layer p => p.layer = h ∧ Slots (WfBy F h) (FullBy F h) p
  | _, _ => False

lemma not_takes_none : ¬ Takes F (none : Option α) := fun ⟨_, hx, _⟩ => by cases hx

lemma takes_every : Takes (fun _ => True) x ↔ x ≠ none := by
  cases x with
  | none => exact iff_of_false not_takes_none fun hne => hne rfl
  | some a => exact iff_of_true ⟨a, rfl, trivial⟩ nofun

lemma fullBy_every : FullBy (fun _ => True) h c ↔ Full h c := forall_congr' fun _ => takes_every

lemma wfBy_every : c.WfBy (fun _ => True) h ↔ c.Wf h := by
  induction h generalizing c with
  | zero => cases c <;> exact Iff.rfl
  | succ h ih =>
    cases c with
    | layer p =>
      refine and_congr_right fun _ => ⟨fun hs => ?_, fun hs => ?_⟩
      · exact ⟨hs.count_eq, fun i hi => (hs.bit_iff i hi).trans fullBy_every,
          fun i hi => ih.mp (hs.slot i hi)⟩
      · exact ⟨hs.count_eq, fun i hi => (hs.bit_iff i hi).trans fullBy_every.symm,
          fun i hi => ih.mpr (hs.slot i hi)⟩
    | _ => exact Iff.rfl

lemma wf_null : (null : Ptr α).WfBy F h := by
  cases h <;> trivial

lemma WfBy.slots (hwf : (layer p).WfBy F (h + 1)) : Slots (WfBy F h) (FullBy F h) p := hwf.2

lemma WfBy.slot (hwf : (layer p).WfBy F (h + 1)) (id : ℕ) : (p.ary (slotOf h id)).WfBy F h :=
  hwf.2.slot _ digit_lt

lemma WfBy.null_or_layer (hwf : c.WfBy F (h + 1)) : c = null ∨ ∃ p, c = layer p := by
  cases c with
  | null => exact Or.inl rfl
  | item _ => exact hwf.elim
  | layer p => exact Or.inr ⟨p, rfl⟩

lemma WfBy.layer_of_get (hwf : c.WfBy F (h + 1)) (hget : c.get (h + 1) id = some a) :
    ∃ p, c = layer p ∧ (p.ary (slotOf h id)).get h id = some a := by
  obtain rfl | ⟨p, rfl⟩ := hwf.null_or_layer
  · cases hget
  · exact ⟨p, rfl, hget⟩

lemma WfBy.item_of_zero (hwf : c.WfBy F 0) (id : ℕ) : c = ofOption (c.get 0 id) := by
  cases c with
  | layer _ => exact hwf.elim
  | _ => rfl

lemma WfBy.eq_item (hwf : c.WfBy F 0) (hget : c.get 0 id = some a) : c = item a := by
  rw [hwf.item_of_zero id, hget]
  rfl

lemma not_full_null : ¬ FullBy F h (null : Ptr α) := fun hfull =>
  not_takes_none (get_null ▸ hfull 0)

lemma full_layer : FullBy F (h + 1) (layer p) ↔ ∀ i < idrSize, FullBy F h (p.ary i) := by
  constructor
  · intro hfull i hi id
    obtain ⟨j, hdigit, hagree⟩ := exists_digit (w := idrBits) (h := h) id hi
    have hslot : slotOf h j = i := hdigit
    have hget := hfull j
    rwa [get_layer, hslot, ← get_congr hagree] at hget
  · intro hslots id
    exact hslots _ digit_lt id

lemma Slots.isFull_iff (hs : Slots (WfBy F h) (FullBy F h) p) :
    p.isFull = true ↔ FullBy F (h + 1) (layer p) := by
  rw [full_layer, Layer.isFull, all_eq_true]
  simp only [mem_range]
  exact forall₂_congr hs.bit_iff

lemma Slots.not_full (hs : Slots (WfBy F h) (FullBy F h) p) (hm : m < idrSize)
    (hbit : p.bitmap m = false) : ¬ FullBy F (h + 1) (layer p) := by
  intro hfull
  have htrue := (hs.bit_iff m hm).mpr (full_layer.mp hfull m hm)
  rw [hbit] at htrue
  cases htrue

lemma used_update_same (hsame : c.isNull = (p.ary m).isNull) :
    used (update p.ary m c) = used p.ary := by
  refine SlotCount.count_congr fun i _ => ?_
  rcases eq_or_ne i m with rfl | hi
  · rw [update_self, hsame]
  · rw [update_of_ne hi]

lemma used_update_add (hm : m < idrSize) (hnull : p.ary m = null) (hc : c.isNull = false) :
    used (update p.ary m c) = used p.ary + 1 := by
  refine SlotCount.count_add_one hm (by simp [hnull, isNull]) (by simpa using hc) ?_
  intro i _ hi
  rw [update_of_ne hi]

lemma used_update_null (hm : m < idrSize) (hslot : (p.ary m).isNull = false) :
    used p.ary = used (update p.ary m null) + 1 := by
  refine SlotCount.count_add_one hm (by simp [isNull]) hslot ?_
  intro i _ hi
  rw [update_of_ne hi]

lemma Slots.update {P F : Ptr α → Prop} {bitmap : Bitmap} {count : ℤ} (hs : Slots P F p)
    (hc : P c) (hbit : bitmap m = true ↔ F c) (hother : ∀ i, i ≠ m → bitmap i = p.bitmap i)
    (hcount : count = used (Function.update p.ary m c)) (lay : ℕ) :
    Slots P F ⟨bitmap, Function.update p.ary m c, count, lay⟩ := by
  refine ⟨hcount, ?_, ?_⟩
  · intro i hi
    show bitmap i = true ↔ F (Function.update p.ary m c i)
    rcases eq_or_ne i m with rfl | hne
    · rw [update_self]
      exact hbit
    · rw [update_of_ne hne, hother i hne]
      exact hs.bit_iff i hi
  · intro i hi
    show P (Function.update p.ary m c i)
    rcases eq_or_ne i m with rfl | hne
    · rw [update_self]
      exact hc
    · rw [update_of_ne hne]
      exact hs.slot i hi

lemma bit_false_iff {F : Prop} {b : Bool} (hb : b = false) (hF : ¬ F) : b = true ↔ F := by
  simp [hb, hF]

lemma get_update (hslot : m = slotOf h id) (bitmap : Bitmap) (count : ℤ) (lay : ℕ) (j : ℕ) :
    (layer ⟨bitmap, update p.ary m c, count, lay⟩).get (h + 1) j =
      if slotOf h id = slotOf h j then c.get h j else (layer p).get (h + 1) j := by
  rw [get_layer, get_layer]
  subst hslot
  by_cases heq : slotOf h id = slotOf h j
  · rw [if_pos heq]
    show (update p.ary (slotOf h id) c (slotOf h j)).get h j = c.get h j
    rw [← heq, update_self]
  · rw [if_neg heq]
    show (update p.ary (slotOf h id) c (slotOf h j)).get h j = _
    rw [update_of_ne (Ne.symm heq)]

lemma get_update_of_agree (hslot : m = slotOf h id) (bitmap : Bitmap) (count : ℤ) (lay : ℕ)
    (hc : ∀ j, c.get h j = if Agree idrBits h id j then x else (p.ary m).get h j) (j : ℕ) :
    (layer ⟨bitmap, update p.ary m c, count, lay⟩).get (h + 1) j =
      if Agree idrBits (h + 1) id j then x else (layer p).get (h + 1) j := by
  rw [get_update hslot, hc]
  by_cases heq : slotOf h id = slotOf h j
  · rw [if_pos heq, get_layer, ← heq, hslot]
    exact if_congr (and_iff_right heq).symm rfl rfl
  · rw [if_neg heq, if_neg fun hagree => heq hagree.1]

end Ptr

open Ptr

/-- A layer as it is taken from the free list; `layer` is still to be set. -/
def Layer.Blank (p : Layer (Ptr α)) : Prop :=
  p.bitmap = (fun _ => false) ∧ p.ary = (fun _ => .null) ∧ p.count = 0

lemma Layer.blank_zero : (Layer.zero : Layer (Ptr α)).Blank := ⟨rfl, rfl, rfl⟩

lemma Layer.Blank.get (hp : p.Blank) (lay : ℕ) :
    (Ptr.layer { p with layer := lay }).get h id = none := by
  cases h with
  | zero => rfl
  | succ h => rw [get_layer, hp.2.1, get_null]

lemma Layer.Blank.wf (hp : p.Blank) (h : ℕ) : (Ptr.layer { p with layer := h }).WfBy F (h + 1) := by
  refine ⟨rfl, ?_, ?_, ?_⟩
  · rw [hp.2.1, hp.2.2]
    simp [used, isNull]
  · intro i _
    rw [hp.1, hp.2.1]
    exact bit_false_iff rfl not_full_null
  · intro i _
    rw [hp.2.1]
    exact wf_null

lemma Layer.Blank.not_full (hp : p.Blank) (h lay : ℕ) :
    ¬ FullBy F h (Ptr.layer { p with layer := lay }) := fun hfull =>
  not_takes_none (hp.get lay ▸ hfull 0)

/-- A layer of a path, `l` layers above the leaf: it is right with a blank layer in
its slot, which is not marked as full. -/
structure Frame.Ok (F : α → Prop) (l : ℕ) (f : Frame α) : Prop where
  slot_lt : f.2 < idrSize
  bit : f.1.bitmap f.2 = false
  wf : (Ptr.layer (f.plug { Layer.zero with layer := l })).WfBy F (l + 2)

/-- The path from a layer with `l` layers below it, in a tree with `N` layers. -/
def PathOk (F : α → Prop) (N : ℕ) : ℕ → List (Frame α) → Prop
  | l, [] => l + 1 = N
  | l, f :: path => f.Ok F l ∧ PathOk F N (l + 1) path

/-- The slots of the path are those of `id`. -/
def Follows (id : ℕ) : ℕ → List (Frame α) → Prop
  | _, [] => True
  | l, f :: path => f.2 = slotOf (l + 1) id ∧ Follows id (l + 1) path

/-- The map of a tree whose hole holds the map `g`. -/
def pathGet : ℕ → List (Frame α) → (ℕ → Option α) → ℕ → Option α
  | _, [], g => g
  | l, f :: path, g => pathGet (l + 1) path fun j =>
    if f.2 = slotOf (l + 1) j then g j else (f.1.ary (slotOf (l + 1) j)).get (l + 1) j

lemma Follows.congr {i : ℕ} (hf : Follows i l path)
    (hdiv : i / idrSize ^ (l + 1) = j / idrSize ^ (l + 1)) : Follows j l path := by
  induction path generalizing l with
  | nil => trivial
  | cons f path ih =>
    refine ⟨?_, ih hf.2 ?_⟩
    · rw [hf.1, slotOf, slotOf, digit_eq, digit_eq, hdiv]
    · rw [div_pow_succ, hdiv, ← div_pow_succ]

lemma pathGet_of_follows (hf : Follows j l path) : pathGet l path g j = g j := by
  induction path generalizing l g with
  | nil => rfl
  | cons f path ih =>
    show pathGet (l + 1) path _ j = g j
    rw [ih hf.2, if_pos hf.1]

lemma pathGet_set (hf : Follows id l path)
    (hg : ∀ j, g' j = if Agree idrBits (l + 1) id j then x else g j) (j : ℕ) : pathGet l path g' j =
      if Agree idrBits (l + 1 + path.length) id j then x else pathGet l path g j := by
  induction path generalizing l g g' with
  | nil => exact hg j
  | cons f path ih =>
    have hlen : l + 1 + (f :: path).length = l + 1 + 1 + path.length := by
      rw [length_cons]
      omega
    rw [hlen]
    refine ih hf.2 fun j => ?_
    rw [hf.1, hg j]
    by_cases heq : slotOf (l + 1) id = slotOf (l + 1) j
    · rw [if_pos heq, if_pos heq]
      exact if_congr (and_iff_right heq).symm rfl rfl
    · rw [if_neg heq, if_neg heq, if_neg fun hagree => heq hagree.1]

lemma Frame.get_plug (f : Frame α) (p : Layer (Ptr α)) (l j : ℕ) :
    (Ptr.layer (f.plug p)).get (l + 2) j =
      if f.2 = slotOf (l + 1) j then (Ptr.layer p).get (l + 1) j
      else (f.1.ary (slotOf (l + 1) j)).get (l + 1) j := by
  rw [get_layer]
  show (update f.1.ary f.2 (.layer p) (slotOf (l + 1) j)).get (l + 1) j = _
  split_ifs with heq
  · rw [← heq, update_self]
  · rw [update_of_ne (Ne.symm heq)]

lemma get_rebuild (p : Layer (Ptr α)) (l : ℕ) (path : List (Frame α)) :
    (Ptr.layer (rebuild p path)).get (l + 1 + path.length) =
      pathGet l path ((Ptr.layer p).get (l + 1)) := by
  induction path generalizing p l with
  | nil => rfl
  | cons f path ih =>
    have hlen : l + 1 + (f :: path).length = l + 1 + 1 + path.length := by
      rw [length_cons]
      omega
    rw [hlen]
    show (layer (rebuild (f.plug p) path)).get (l + 1 + 1 + path.length) = _
    rw [ih]
    exact congrArg (pathGet (l + 1) path) (funext fun j => f.get_plug p l j)

lemma PathOk.length {N : ℕ} (hpath : PathOk F N l path) : l + 1 + path.length = N := by
  induction path generalizing l with
  | nil => exact hpath
  | cons f path ih =>
    have hlen := ih hpath.2
    rw [length_cons]
    omega

lemma Frame.Ok.plug (hf : f.Ok F l) (hp : (Ptr.layer p).WfBy F (l + 1)) {bitmap : Bitmap}
    (hbit : bitmap f.2 = true ↔ FullBy F (l + 1) (Ptr.layer p))
    (hother : ∀ i, i ≠ f.2 → bitmap i = f.1.bitmap i) :
    (Ptr.layer { f.plug p with bitmap := bitmap }).WfBy F (l + 2) := by
  obtain ⟨hlayer, hs⟩ := hf.wf
  have hused := used_update_same (p := f.plug { Layer.zero with layer := l }) (m := f.2)
    (c := .layer p) (by simp [Frame.plug, isNull])
  have hcount : f.1.count = used (update (f.plug { Layer.zero with layer := l }).ary f.2
      (.layer p)) := by
    rw [hused]
    exact hs.count_eq
  have hs' := hs.update hp hbit hother hcount f.1.layer
  rw [show update (f.plug { Layer.zero with layer := l }).ary f.2 (.layer p) =
    (f.plug p).ary from update_idem ..] at hs'
  exact ⟨hlayer, hs'⟩

lemma Frame.Ok.plug_wf (hf : f.Ok F l) (hp : (Ptr.layer p).WfBy F (l + 1))
    (hfull : ¬ FullBy F (l + 1) (Ptr.layer p)) : (Ptr.layer (f.plug p)).WfBy F (l + 2) :=
  hf.plug hp (bit_false_iff hf.bit hfull) fun _ _ => rfl

lemma Frame.Ok.not_full (hf : f.Ok F l) (hp : (Ptr.layer p).WfBy F (l + 1))
    (hfull : ¬ FullBy F (l + 1) (Ptr.layer p)) : ¬ FullBy F (l + 2) (Ptr.layer (f.plug p)) :=
  (hf.plug_wf hp hfull).slots.not_full hf.slot_lt hf.bit

lemma PathOk.rebuild_wf {N : ℕ} (hpath : PathOk F N l path) (hp : (Ptr.layer p).WfBy F (l + 1))
    (hfull : path ≠ [] → ¬ FullBy F (l + 1) (Ptr.layer p)) :
    (Ptr.layer (rebuild p path)).WfBy F N := by
  induction path generalizing p l with
  | nil =>
    obtain rfl : l + 1 = N := hpath
    exact hp
  | cons f path ih =>
    have hnot := hfull nofun
    exact ih hpath.2 (hpath.1.plug_wf hp hnot) fun _ => hpath.1.not_full hp hnot

variable (hp : (Ptr.layer p).WfBy F (l + 2))
include hp

lemma Frame.ok_of_used (hm : m < idrSize)
    (hbit : p.bitmap m = false) (hused : (p.ary m).isNull = false) : Frame.Ok F l (p, m) := by
  refine ⟨hm, hbit, hp.1, ?_⟩
  refine hp.slots.update (Layer.blank_zero.wf l)
    (bit_false_iff hbit (Layer.blank_zero.not_full (l + 1) l)) (fun _ _ => rfl) ?_ _
  rw [used_update_same (by rw [hused]; rfl)]
  exact hp.slots.count_eq

lemma Frame.ok_of_new (hm : m < idrSize) (hbit : p.bitmap m = false) (hnull : p.ary m = .null) :
    Frame.Ok F l ({ p with count := p.count + 1 }, m) := by
  refine ⟨hm, hbit, hp.1, ?_⟩
  refine hp.slots.update (Layer.blank_zero.wf l)
    (bit_false_iff hbit (Layer.blank_zero.not_full (l + 1) l)) (fun _ _ => rfl) ?_ _
  rw [used_update_add hm hnull rfl]
  push_cast
  exact congrArg (· + 1) hp.slots.count_eq

end Am335x.Ids
