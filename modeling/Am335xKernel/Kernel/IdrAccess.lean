import Am335xKernel.Kernel.IdrNew

/-!
# Removing, replacing and finding ids

`sub_remove` clears the bits of the path on its way down: with the id gone nothing
on the path is full. On the way up it gives back the layers that are left without
slots in use.
-/

namespace Am335x.Ids

open Function Nat

open DigitPath Ptr

variable {α : Type*} {h l id j m : ℕ} {p q : Layer (Ptr α)} {c c1 : Ptr α} {a b : α} {F : α → Prop}

lemma Ptr.WfBy.leaf_bit (hwf : (Ptr.layer p).WfBy F 1) (id : ℕ) :
    p.bitmap (slotOf 0 id) = true ↔ Takes F ((Ptr.layer p).get 1 id) := by
  rw [hwf.slots.bit_iff _ digit_lt, get_layer]
  refine ⟨fun hfull => hfull id, fun hne j => ?_⟩
  have hagree : Agree idrBits 0 id j := trivial
  rwa [get_congr hagree]

/-- A slot in use gets another item or layer. -/
lemma Ptr.WfBy.set_slot (hwf : (Ptr.layer p).WfBy F (h + 1)) (hused : p.ary (slotOf h id) ≠ .null)
    (hc : c.WfBy F h) (hnull : c ≠ .null) {bitmap : Bitmap} {x : Option α}
    (hbit : bitmap (slotOf h id) = true ↔ FullBy F h c)
    (hother : ∀ i, i ≠ slotOf h id → bitmap i = p.bitmap i)
    (hget : ∀ j, c.get h j = if Agree idrBits h id j then x else (p.ary (slotOf h id)).get h j) :
    (Ptr.layer ⟨bitmap, update p.ary (slotOf h id) c, p.count, p.layer⟩).WfBy F (h + 1) ∧
      ∀ j, (Ptr.layer ⟨bitmap, update p.ary (slotOf h id) c, p.count, p.layer⟩).get (h + 1) j =
        if Agree idrBits (h + 1) id j then x else (Ptr.layer p).get (h + 1) j := by
  refine ⟨⟨hwf.1, hwf.slots.update hc hbit hother ?_ p.layer⟩, get_update_of_agree rfl _ _ _ hget⟩
  rw [used_update_same]
  · exact hwf.slots.count_eq
  · rw [isNull_eq_false.mpr hnull, isNull_eq_false.mpr hused]

lemma dropSlot_spec (id : ℕ) (hwf : (Ptr.layer p).WfBy F (h + 1))
    (hused : p.ary (slotOf h id) ≠ .null)
    (hlast : ∀ j, none = if Agree idrBits h id j then none else (p.ary (slotOf h id)).get h j) :
    ∃ c r, dropSlot { p with bitmap := update p.bitmap (slotOf h id) false }
        (slotOf h id) = (c, r) ∧
      r ≠ .notAllocated ∧ (r = .gone ↔ c = .null) ∧ c.WfBy F (h + 1) ∧
      ∀ j, c.get (h + 1) j =
        if Agree idrBits (h + 1) id j then none else (Ptr.layer p).get (h + 1) j := by
  obtain ⟨q, hq⟩ : ∃ q : Layer (Ptr α), q = ⟨update p.bitmap (slotOf h id) false,
      update p.ary (slotOf h id) .null, p.count - 1, p.layer⟩ := ⟨_, rfl⟩
  have hwf' : (layer q).WfBy F (h + 1) := by
    rw [hq]
    refine ⟨hwf.1, hwf.slots.update wf_null ?_ ?_ ?_ p.layer⟩
    · rw [update_self]
      exact iff_of_false nofun not_full_null
    · exact fun i hi => update_of_ne hi _ _
    · have hcount := hwf.slots.count_eq
      have hsub := used_update_null (p := p) (m := slotOf h id) digit_lt (isNull_eq_false.mpr hused)
      omega
  have hget : ∀ j, (layer q).get (h + 1) j =
      if Agree idrBits (h + 1) id j then none else (layer p).get (h + 1) j := by
    rw [hq]
    exact get_update_of_agree rfl _ _ _ fun j => get_null.trans (hlast j)
  have hdrop : dropSlot { p with bitmap := update p.bitmap (slotOf h id) false }
      (slotOf h id) = if q.count = 0 then (.null, .gone) else (.layer q, .stopped) := by
    rw [hq]
    rfl
  rw [hdrop]
  split_ifs with hcount
  · refine ⟨_, _, rfl, by decide, iff_of_true rfl rfl, wf_null, fun j => ?_⟩
    rw [← hget j, get_layer, hwf'.null_of_count hcount digit_lt]
    exact get_null.trans get_null.symm
  · exact ⟨_, _, rfl, by decide, iff_of_false (by decide) (by simp), hwf', hget⟩

/-- The tree `c1` is `c` with other bits on the path of an id, of which the lowest is set,
and with any item for it. -/
def Marked (id : ℕ) : ℕ → Ptr α → Ptr α → Prop
  | 0, .layer p1, .layer p =>
    p1.bitmap (slotOf 0 id) = true ∧ p1.count = p.count ∧ p1.layer = p.layer ∧
      ∀ i, i ≠ slotOf 0 id → p1.bitmap i = p.bitmap i ∧ p1.ary i = p.ary i
  | h + 1, .layer p1, .layer p =>
    Marked id h (p1.ary (slotOf (h + 1) id)) (p.ary (slotOf (h + 1) id)) ∧
      p1.count = p.count ∧ p1.layer = p.layer ∧
      ∀ i, i ≠ slotOf (h + 1) id → p1.bitmap i = p.bitmap i ∧ p1.ary i = p.ary i
  | _, _, _ => False

lemma Marked.layers (hmarked : Marked id h c1 c) : ∃ p1 p, c1 = .layer p1 ∧ c = .layer p := by
  cases h <;> cases c1 <;> cases c <;> first | exact hmarked.elim | exact ⟨_, _, rfl, rfl⟩

lemma update_congr {β : Type*} {f g : ℕ → β} {n : ℕ} {x : β} (heq : ∀ i, i ≠ n → f i = g i) :
    update f n x = update g n x := by
  funext i
  rcases eq_or_ne i n with rfl | hi
  · rw [update_self, update_self]
  · rw [update_of_ne hi, update_of_ne hi, heq i hi]

section
variable {p1 p : Layer (Ptr α)} {n : ℕ} (hcount : p1.count = p.count) (hlayer : p1.layer = p.layer)
  (hsame : ∀ i, i ≠ n → p1.bitmap i = p.bitmap i ∧ p1.ary i = p.ary i)
include hcount hlayer hsame

lemma rewrite_slot {x : Ptr α} : ({ p1 with
        bitmap := update p1.bitmap n false
        ary := update p1.ary n x } : Layer (Ptr α)) =
      { p with
        bitmap := update p.bitmap n false
        ary := update p.ary n x } := by
  have hbitmap : update p1.bitmap n false = update p.bitmap n false :=
    update_congr fun i hi => (hsame i hi).1
  have hary : update p1.ary n x = update p.ary n x :=
    update_congr fun i hi => (hsame i hi).2
  rw [hbitmap, hary, hcount, hlayer]

lemma dropSlot_congr : dropSlot { p1 with bitmap := update p1.bitmap n false } n =
      dropSlot { p with bitmap := update p.bitmap n false } n := by
  have heq := rewrite_slot (x := .null) hcount hlayer hsame
  simp only [Layer.mk.injEq] at heq
  simp [dropSlot, heq.1, heq.2.1, heq.2.2.1, heq.2.2.2]

end

def Taken (F : α → Prop) (id h : ℕ) (c1 c : Ptr α) : Prop :=
  ∃ c' r, subRemove id h c1 = some (c', r) ∧ r ≠ .notAllocated ∧ (r = .gone ↔ c' = .null) ∧
    c'.WfBy F (h + 1) ∧
    ∀ j, c'.get (h + 1) j = if Agree idrBits (h + 1) id j then none else c.get (h + 1) j

lemma subRemove_spec (hwf : c.WfBy F (h + 1)) (hget : c.get (h + 1) id = some a)
    (hmarked : Marked id h c1 c) : Taken F id h c1 c := by
  induction h generalizing c c1 with
  | zero =>
    obtain ⟨p1, p, rfl, rfl⟩ := hmarked.layers
    obtain ⟨hbit, hcount, hlayer, hsame⟩ := hmarked
    rw [get_layer] at hget
    obtain ⟨c, r, hdrop, hrest⟩ := dropSlot_spec id hwf (ne_null_of_get hget) fun j => rfl
    refine ⟨c, r, ?_, hrest⟩
    unfold subRemove
    rw [and_mask, if_pos hbit, dropSlot_congr hcount hlayer hsame, hdrop]
  | succ h ih =>
    obtain ⟨p1, p, rfl, rfl⟩ := hmarked.layers
    obtain ⟨hchild, hcount, hlayer, hsame⟩ := hmarked
    rw [get_layer] at hget
    have hused := ne_null_of_get hget
    obtain ⟨c', r, hremove, halloc, hgone, hwf', hget'⟩ := ih (hwf.slot id) hget hchild
    unfold Taken subRemove
    dsimp only
    rw [hremove]
    cases r with
    | notAllocated => exact absurd rfl halloc
    | gone =>
      obtain rfl := hgone.mp rfl
      obtain ⟨c, r, hdrop, hrest⟩ := dropSlot_spec id hwf hused
        fun j => get_null.symm.trans (hget' j)
      exact ⟨c, r, congrArg some ((dropSlot_congr hcount hlayer hsame).trans hdrop), hrest⟩
    | stopped =>
      have hnull : c' ≠ .null := fun heq => by simpa using hgone.mpr heq
      refine ⟨_, _, congrArg (fun p => some (layer p, Removed.stopped))
        (rewrite_slot hcount hlayer hsame), by decide, iff_of_false (by decide) (by simp),
        hwf.set_slot hused hwf' hnull ?_ (fun i hi => update_of_ne hi _ _) hget'⟩
      rw [update_self]
      refine iff_of_false nofun fun hfull => not_takes_none (F := F) ?_
      have hnone := hget' id
      rw [if_pos (Agree.refl idrBits (h + 1) id)] at hnone
      exact hnone ▸ hfull id

lemma Ptr.WfBy.marked (hwf : c.WfBy (fun _ => True) (h + 1)) (hget : c.get (h + 1) id = some a) :
    Marked id h c c := by
  induction h generalizing c with
  | zero =>
    obtain ⟨p, rfl, hget⟩ := hwf.layer_of_get hget
    exact ⟨(hwf.leaf_bit id).mpr ⟨a, hget, trivial⟩, rfl, rfl, fun _ _ => ⟨rfl, rfl⟩⟩
  | succ h ih =>
    obtain ⟨p, rfl, hget⟩ := hwf.layer_of_get hget
    exact ⟨ih (hwf.slot id) hget, rfl, rfl, fun _ _ => ⟨rfl, rfl⟩⟩

/-- Only the digits for the layers there are count. -/
lemma subRemove_congr (hagree : Agree idrBits (h + 1) id j) (c : Ptr α) :
    subRemove id h c = subRemove j h c := by
  induction h generalizing c with
  | zero =>
    cases c with
    | layer p => rw [subRemove, subRemove, and_mask, and_mask, slotOf, hagree.1]
    | _ => rfl
  | succ h ih =>
    cases c with
    | layer p => simp only [subRemove, hagree.1, ih hagree.2]
    | _ => rfl

lemma Ptr.WfBy.bit_of_absent (hwf : (Ptr.layer p).WfBy F (h + 1))
    (hget : (Ptr.layer p).get (h + 1) id = none) : p.bitmap (slotOf h id) = false := by
  rw [← Bool.not_eq_true, hwf.slots.bit_iff _ digit_lt]
  exact fun hfull => not_takes_none (hget ▸ hfull id)

lemma subRemove_absent (hwf : c.WfBy F (h + 1)) (hget : c.get (h + 1) id = none) :
    subRemove id h c = some (c, .notAllocated) := by
  induction h generalizing c with
  | zero =>
    obtain rfl | ⟨p, rfl⟩ := hwf.null_or_layer
    · rfl
    · rw [subRemove, and_mask, hwf.bit_of_absent hget, if_neg nofun]
  | succ h ih =>
    obtain rfl | ⟨p, rfl⟩ := hwf.null_or_layer
    · rfl
    · have hbit := hwf.bit_of_absent hget
      unfold slotOf at hbit
      rw [subRemove, ← hbit, update_eq_self]
      rw [ih (hwf.slot id) hget]
      dsimp only
      rw [update_eq_self]

namespace Idr

variable {idp idp' : Idr α}

lemma InvBy.shrink (hinv : idp.InvBy F) : idp.shrink.InvBy F ∧ idp.shrink.get = idp.get := by
  unfold Idr.shrink
  cases htop : idp.top with
  | layer p =>
    dsimp only
    split_ifs with hfirst
    · obtain ⟨hcount, hlayers, hused⟩ := hfirst
      obtain ⟨l, hl⟩ : ∃ l, idp.layers = l + 2 := ⟨idp.layers - 2, by omega⟩
      have hpred : idp.layers - 1 = l + 1 := by omega
      have hwf := hinv.wf
      rw [htop, hl] at hwf
      have hslot := hwf.slots.slot 0 (by decide)
      have hone : used p.ary = 1 := by
        have hcount' := hwf.slots.count_eq
        omega
      have honly : ∀ i < idrSize, i ≠ 0 → p.ary i = .null := by
        intro i hi hne
        by_contra hother
        exact hne (SlotCount.eq_of_count_eq_one hone (by decide) hused hi
          (isNull_eq_false.mpr hother))
      refine ⟨⟨?_, ?_, ?_, hinv.blank⟩, ?_⟩
      · simpa only [hpred] using hslot
      · exact (sub_le _ _).trans hinv.layers_le
      · refine iff_of_false (isNull_eq_false.mp hused) ?_
        simp only [hpred]
        exact l.succ_ne_zero
      · unfold get
        simp only [hpred]
        rw [htop, hl, held_of_first honly]
    · exact ⟨hinv, rfl⟩
  | _ => exact ⟨hinv, rfl⟩

lemma InvBy.layers_of_get (hinv : idp.InvBy F) (hget : idp.get id = some a) :
    ∃ l, idp.layers = l + 1 ∧ id < idrSize ^ (l + 1) ∧ idp.top.WfBy F (l + 1) ∧
      idp.top.get (l + 1) id = some a := by
  have hlt : id < idrSize ^ idp.layers := by
    by_contra hge
    rw [Idr.get, held_of_le (Nat.le_of_not_lt hge)] at hget
    cases hget
  rw [Idr.get, held_of_lt hlt] at hget
  obtain ⟨l, hl⟩ : ∃ l, idp.layers = l + 1 := by
    refine exists_eq_succ_of_ne_zero fun hzero => ?_
    exact ne_null_of_get hget (hinv.top_iff.mpr hzero)
  have hwf := hinv.wf
  rw [hl] at hwf hget hlt
  exact ⟨l, hl, hlt, hwf, hget⟩

lemma InvBy.remove (hinv : idp.InvBy F) (hget : idp.get (id % maxIdBit) = some a)
    (hmarked : Marked (id % maxIdBit) (idp.layers - 1) c1 idp.top) :
    ∃ idp', { idp with top := c1 }.remove id = some idp' ∧ idp'.InvBy F ∧
      idp'.get = update idp.get (id % maxIdBit) none := by
  obtain ⟨i, hi⟩ : ∃ i, id % maxIdBit = i := ⟨_, rfl⟩
  unfold Idr.remove
  rw [hi] at hget hmarked ⊢
  obtain ⟨l, hl, hlt, hwf, hget⟩ := hinv.layers_of_get hget
  rw [hl, Nat.add_sub_cancel] at hmarked
  obtain ⟨c, r, hremove, halloc, hgone, hwf', hget'⟩ := subRemove_spec hwf hget hmarked
  obtain ⟨idp1, hidp1⟩ : ∃ idp1 : Idr α,
    idp1 = { idp with top := c, layers := if r = .gone then 0 else idp.layers } := ⟨_, rfl⟩
  have hheld : held (l + 1) c = update idp.get i none := by
    rw [Idr.get, hl]
    exact held_set hlt hget'
  have hmiddle : idp1.InvBy F ∧ idp1.get = update idp.get i none := by
    rw [hidp1]
    by_cases hr : r = .gone
    · obtain rfl := hgone.mp hr
      rw [if_pos hr]
      exact ⟨⟨wf_null, zero_le _, iff_of_true rfl rfl, hinv.blank⟩,
        (held_null.trans held_null.symm).trans hheld⟩
    · rw [if_neg hr, hl]
      refine ⟨⟨hwf', hl ▸ hinv.layers_le, ?_, hinv.blank⟩, hheld⟩
      exact iff_of_false (fun hnull => hr (hgone.mpr hnull)) l.succ_ne_zero
  obtain ⟨hinv2, hget2⟩ := hmiddle.1.shrink
  rw [hl, Nat.add_sub_cancel, hremove]
  refine ⟨_, rfl, ?_, ?_⟩
  · rw [← hl, ← hidp1]
    exact { hinv2 with blank := fun q hq => hinv2.blank q (List.mem_of_mem_drop hq) }
  · rw [← hl, ← hidp1]
    exact hget2.trans hmiddle.2

lemma Inv.remove (hinv : idp.Inv) (hget : idp.get (id % maxIdBit) = some a) :
    ∃ idp', idp.remove id = some idp' ∧ idp'.Inv ∧
      idp'.get = update idp.get (id % maxIdBit) none := by
  have hby := invBy_every.mpr hinv
  have hmarked : Marked (id % maxIdBit) (idp.layers - 1) idp.top idp.top := by
    obtain ⟨l, hl, -, hwf, hget'⟩ := hby.layers_of_get hget
    rw [hl, Nat.add_sub_cancel]
    exact hwf.marked hget'
  obtain ⟨idp', hremove, hinv', hget'⟩ := hby.remove hget hmarked
  exact ⟨idp', hremove, invBy_every.mp hinv', hget'⟩

/-- **Any id may be removed**: it is cut down to the ids that the layers reach. -/
lemma Inv.remove_any (hinv : idp.Inv) (id : ℕ) : ∃ idp', idp.remove id = some idp' ∧ idp'.Inv ∧
    idp'.get = update idp.get (id % maxIdBit % idrSize ^ idp.layers) none := by
  obtain ⟨i, hi⟩ : ∃ i, id % maxIdBit % idrSize ^ idp.layers = i := ⟨_, rfl⟩
  have hlt : i % maxIdBit = i :=
    Nat.mod_eq_of_lt ((hi ▸ mod_le _ _).trans_lt (mod_lt id (by decide)))
  have hcut : subRemove (id % maxIdBit) (idp.layers - 1) idp.top =
      subRemove i (idp.layers - 1) idp.top := by
    cases hl : idp.layers with
    | zero =>
      rw [hinv.top_iff.mpr hl]
      rfl
    | succ l =>
      refine subRemove_congr (agree_iff_mod.mpr ?_) _
      rw [← hi, hl]
      exact (mod_mod _ _).symm
  rw [hi]
  cases hget : idp.get i with
  | some a =>
    rw [← hlt] at hget
    obtain ⟨idp', hremove, hinv', hget'⟩ := hinv.remove hget
    unfold Idr.remove at hremove ⊢
    rw [hlt] at hremove hget'
    exact ⟨idp', hcut ▸ hremove, hinv', hget'⟩
  | none =>
    have habsent : subRemove i (idp.layers - 1) idp.top = some (idp.top, .notAllocated) := by
      cases hl : idp.layers with
      | zero =>
        rw [hinv.top_iff.mpr hl]
        rfl
      | succ l =>
        have hwf := (invBy_every.mpr hinv).wf
        rw [Idr.get, hl, held_of_lt (hi ▸ hl ▸ mod_lt _ base_pow_pos)] at hget
        rw [hl] at hwf
        exact subRemove_absent hwf hget
    obtain ⟨hinv', hget'⟩ := (invBy_every.mpr hinv).shrink
    rw [Idr.remove, hcut, habsent]
    refine ⟨_, rfl, invBy_every.mp { hinv' with blank := fun q hq => ?_ }, ?_⟩
    · exact hinv'.blank q (List.mem_of_mem_drop hq)
    · rw [← hget, update_eq_self]
      exact hget'

lemma findLoop_eq (hwf : c.WfBy F h) : findLoop id h c = some (c.get h id) := by
  induction h generalizing c with
  | zero =>
    cases c with
    | layer _ => exact hwf.elim
    | _ => rfl
  | succ h ih =>
    obtain rfl | ⟨p, rfl⟩ := hwf.null_or_layer
    · rfl
    · unfold findLoop
      rw [if_neg (not_not.mpr hwf.1.symm), ih (hwf.slot id), get_layer]

lemma Inv.top_cases (hinv : idp.Inv) : idp.top = .null ∨ ∃ p, idp.top = .layer p ∧
    idp.layers = p.layer + 1 ∧ (Ptr.layer p).WfBy (fun _ => True) (p.layer + 1) := by
  have hby := invBy_every.mpr hinv
  have hwf := hby.wf
  cases htop : idp.top with
  | null => exact .inl rfl
  | item _ => exact absurd htop hby.ne_item
  | layer p =>
    obtain ⟨l, hl⟩ := hby.layers_of_layer htop
    rw [htop, hl] at hwf
    obtain rfl : p.layer = l := hwf.1
    exact .inr ⟨p, rfl, hl, hwf⟩

lemma Inv.find (hinv : idp.Inv) (id : ℕ) : idp.find id = some (idp.get (id % maxIdBit)) := by
  unfold Idr.find Idr.get
  obtain htop | ⟨p, htop, hl, hwf⟩ := hinv.top_cases
  · rw [htop, held_null]
  · rw [htop, hl]
    dsimp only
    rw [mul_comm, pow_mul]
    split_ifs with hi
    · rw [held_of_le hi]
    · rw [findLoop_eq hwf, held_of_lt (Nat.lt_of_not_le hi)]

lemma replaceLoop_absent (ptr : Option α) (hwf : c.WfBy (fun _ => True) (h + 1))
    (hget : c.get (h + 1) id = none) : replaceLoop id ptr h c = some (c, .inl enoent) := by
  induction h generalizing c with
  | zero =>
    obtain rfl | ⟨p, rfl⟩ := hwf.null_or_layer
    · rfl
    · rw [replaceLoop, and_mask, hwf.bit_of_absent hget, if_neg nofun]
  | succ h ih =>
    obtain rfl | ⟨p, rfl⟩ := hwf.null_or_layer
    · rfl
    · unfold replaceLoop
      dsimp only
      rw [ih (hwf.slot id) hget, Option.map_some, update_eq_self]

lemma replaceLoop_present (a : α) (hwf : c.WfBy (fun _ => True) (h + 1))
    (hget : c.get (h + 1) id = some b) :
    ∃ c', replaceLoop id (some a) h c = some (c', .inr (.item b)) ∧ c' ≠ .null ∧
      c'.WfBy (fun _ => True) (h + 1) ∧
      ∀ j, c'.get (h + 1) j = if Agree idrBits (h + 1) id j then some a else c.get (h + 1) j := by
  induction h generalizing c with
  | zero =>
    obtain ⟨p, rfl, hget⟩ := hwf.layer_of_get hget
    have hbit : p.bitmap (slotOf 0 id) = true := (hwf.leaf_bit id).mpr ⟨b, hget, trivial⟩
    have hslot : p.ary (slotOf 0 id) = .item b := (hwf.slot id).eq_item hget
    have hitem : (item a).WfBy (fun _ => True) 0 := trivial
    unfold replaceLoop
    rw [and_mask, if_pos hbit, hslot]
    refine ⟨_, rfl, by simp, hwf.set_slot (by simp [hslot]) hitem (by simp) ?_ (fun _ _ => rfl)
      fun _ => rfl⟩
    exact iff_of_true hbit fun _ => ⟨a, rfl, trivial⟩
  | succ h ih =>
    obtain ⟨p, rfl, hchild⟩ := hwf.layer_of_get hget
    have hused := ne_null_of_get hchild
    obtain ⟨c', hreplace, hnull, hwf', hget'⟩ := ih (hwf.slot id) hchild
    unfold replaceLoop
    dsimp only
    rw [hreplace]
    refine ⟨_, rfl, by simp, hwf.set_slot hused hwf' hnull ?_ (fun _ _ => rfl) hget'⟩
    rw [hwf.slots.bit_iff _ digit_lt]
    refine forall_congr' fun j => takes_every.trans (Iff.trans (not_congr ?_) takes_every.symm)
    rw [hget' j]
    split_ifs with hagree
    · rw [get_congr hagree, hchild]
      simp
    · rfl

lemma Inv.replace_present (hinv : idp.Inv) (a : α) (hget : idp.get (id % maxIdBit) = some b) :
    ∃ idp', idp.replace (some a) id = some (idp', .inr (.item b)) ∧ idp'.Inv ∧
      idp'.get = update idp.get (id % maxIdBit) (some a) := by
  unfold Idr.replace
  obtain htop | ⟨p, htop, hl, hwf⟩ := hinv.top_cases
  · rw [Idr.get, htop, held_null] at hget
    cases hget
  · rw [Idr.get, htop, hl] at hget ⊢
    dsimp only
    rw [mul_comm, pow_mul]
    by_cases hi : idrSize ^ (p.layer + 1) ≤ id % maxIdBit
    · rw [held_of_le hi] at hget
      cases hget
    · rw [if_neg hi]
      rw [not_le] at hi
      rw [held_of_lt hi] at hget
      obtain ⟨c, hreplace, hnull, hwf', hget'⟩ := replaceLoop_present a hwf hget
      rw [hreplace]
      refine ⟨_, rfl, invBy_every.mp ⟨hwf', hl ▸ hinv.layers_le, ?_, hinv.blank⟩, held_set hi hget'⟩
      exact iff_of_false hnull p.layer.succ_ne_zero

lemma Inv.replace_absent (hinv : idp.Inv) (ptr : Option α) (hget : idp.get (id % maxIdBit) = none) :
    ∃ errno < 0, idp.replace ptr id = some (idp, .inl errno) := by
  unfold Idr.replace
  obtain htop | ⟨p, htop, hl, hwf⟩ := hinv.top_cases
  · rw [htop]
    exact ⟨einval, by decide, rfl⟩
  · rw [Idr.get, hl] at hget
    rw [htop] at hget ⊢
    dsimp only
    rw [mul_comm, pow_mul]
    by_cases hi : idrSize ^ (p.layer + 1) ≤ id % maxIdBit
    · exact ⟨einval, by decide, if_pos hi⟩
    · rw [if_neg hi]
      rw [held_of_lt (Nat.lt_of_not_le hi)] at hget
      rw [replaceLoop_absent ptr hwf hget, Option.map_some, ← htop]
      exact ⟨enoent, by decide, rfl⟩

lemma InvBy.preGet (hinv : idp.InvBy F) (mem : ℕ) :
    (idp.preGet mem).1.InvBy F ∧ (idp.preGet mem).1.get = idp.get := by
  refine ⟨{ hinv with blank := fun q hq => ?_ }, rfl⟩
  rcases List.mem_append.mp hq with hq | hq
  · rw [List.eq_of_mem_replicate hq]
    exact Layer.blank_zero
  · exact hinv.blank q hq

end Idr

end Am335x.Ids
