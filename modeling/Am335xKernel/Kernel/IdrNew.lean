import Am335xKernel.Kernel.IdrAlloc

/-!
# A new id

`idr_get_empty_slot` adds layers at the top until there is room for the id that is
looked for, searches, and starts over when the search needs another layer. Then
`idr_get_new_above` puts the pointer into the slot and marks what has become full.

`held` is the map of a tree, for all ids: those behind its layers are free.
-/

namespace Am335x.Ids

open Function List Nat

open DigitPath Ptr

variable {α : Type*} {N l id j m built fuel layers : ℕ} {p q : Layer (Ptr α)} {c t : Ptr α}
  {path : List (Frame α)} {g : ℕ → Option α} {idFree : List (Layer (Ptr α))} {a : α} {F : α → Prop}
  {x : Option α}

lemma markFull_spec (hpath : PathOk F N l path) (hf : Follows id l path)
    (hp : (Ptr.layer { p with bitmap := update p.bitmap (slotOf l id) true }).WfBy F (l + 1)) :
    (Ptr.layer (markFull (id >>> (l * idrBits)) p path)).WfBy F N ∧
      (Ptr.layer (markFull (id >>> (l * idrBits)) p path)).get N =
        pathGet l path ((Ptr.layer p).get (l + 1)) := by
  induction path generalizing l p with
  | nil =>
    obtain rfl : l + 1 = N := hpath
    exact ⟨hp, rfl⟩
  | cons f path ih =>
    obtain ⟨p', hp'⟩ : ∃ p',
      p' = { p with bitmap := update p.bitmap (slotOf l id) true } := ⟨_, rfl⟩
    have hget : (layer p').get (l + 1) = (layer p).get (l + 1) := by
      rw [hp']
      rfl
    have hplug : pathGet (l + 1) path ((layer (f.plug p')).get (l + 2)) =
        pathGet l (f :: path) ((layer p).get (l + 1)) := by
      refine congrArg (pathGet (l + 1) path) (funext fun j => ?_)
      rw [f.get_plug, hget]
    have hmark : markFull (id >>> (l * idrBits)) p (f :: path) =
        if p'.isFull then markFull (id >>> ((l + 1) * idrBits)) (f.plug p') path
        else rebuild (f.plug p') path := by
      rw [succ_mul, shiftRight_add, hp']
      rfl
    rw [hmark]
    rw [← hp'] at hp
    split_ifs with hfull
    · rw [hp.slots.isFull_iff] at hfull
      rw [← hplug]
      refine ih hpath.2 hf.2 (hpath.1.plug hp ?_ ?_)
      · rw [hf.1, update_self]
        exact iff_of_true rfl hfull
      · intro i hi
        rw [hf.1] at hi
        exact update_of_ne hi _ _
    · rw [hp.slots.isFull_iff] at hfull
      refine ⟨hpath.2.rebuild_wf (hpath.1.plug_wf hp hfull) fun _ => hpath.1.not_full hp hfull, ?_⟩
      rw [← hplug, ← get_rebuild, hpath.2.length]

abbrev Layer.put (p : Layer (Ptr α)) (id : ℕ) (a : α) (count : ℤ) : Layer (Ptr α) :=
  ⟨p.bitmap, update p.ary (slotOf 0 id) (.item a), count, p.layer⟩

/-- What has become full is marked, or there is nothing to mark. -/
def Stored (F : α → Prop) (id : ℕ) (a : α) (p : Layer (Ptr α)) (path : List (Frame α))
    (T : Layer (Ptr α)) : Prop :=
  F a ∧ T = markFull id p path ∨ ¬ F a ∧ T = rebuild p path

/-- An item is put into the slot of an id that is not taken. -/
lemma store_spec (hat : At F N g 0 id p path) (hspace : ¬ Takes F (g id)) (a : α) {count : ℤ}
    (hcount : count = used (update p.ary (slotOf 0 id) (.item a))) {T : Layer (Ptr α)}
    (hT : Stored F id a (p.put id a count) path T) : (Ptr.layer T).WfBy F N ∧
      ∀ j, (Ptr.layer T).get N j = if Agree idrBits N id j then some a else g j := by
  have hitem : (item a).WfBy F 0 := trivial
  have hmap : ∀ j, pathGet 0 path ((layer (p.put id a count)).get 1) j =
      if Agree idrBits N id j then some a else g j := by
    intro j
    rw [← hat.get_eq, ← hat.path_ok.length]
    refine pathGet_set hat.follows (fun j => ?_) j
    exact get_update_of_agree rfl _ _ _ (fun _ => rfl) j
  rcases hT with ⟨ha, rfl⟩ | ⟨ha, rfl⟩
  · have hwf : (layer ⟨update p.bitmap (slotOf 0 id) true,
        update p.ary (slotOf 0 id) (.item a), count, p.layer⟩).WfBy F 1 := by
      refine ⟨hat.wf.1, hat.wf.slots.update hitem ?_ ?_ hcount p.layer⟩
      · rw [update_self]
        exact iff_of_true rfl fun _ => ⟨a, rfl, ha⟩
      · exact fun i hi => update_of_ne hi _ _
    obtain ⟨hwf', hget⟩ :=
      markFull_spec (p := p.put id a count) hat.path_ok hat.follows hwf
    rw [zero_mul, shiftRight_zero] at hwf' hget
    exact ⟨hwf', fun j => (congrFun hget j).trans (hmap j)⟩
  · have hbit : p.bitmap (slotOf 0 id) = false := by
      rw [← Bool.not_eq_true, hat.wf.slots.bit_iff _ digit_lt]
      intro hfull
      rw [hat.get_of_div rfl, get_layer] at hspace
      exact hspace (hfull id)
    have hnot : ¬ FullBy F 0 (item a) := by
      intro hfull
      obtain ⟨a', ha', hF⟩ := hfull 0
      exact ha (Option.some.inj ha' ▸ hF)
    have hwf : (layer (p.put id a count)).WfBy F 1 :=
      ⟨hat.wf.1, hat.wf.slots.update hitem (bit_false_iff hbit hnot) (fun _ _ => rfl) hcount
        p.layer⟩
    refine ⟨hat.path_ok.rebuild_wf hwf fun _ => hwf.slots.not_full digit_lt hbit, fun j => ?_⟩
    rw [← hmap j, ← get_rebuild, hat.path_ok.length]

def held (layers : ℕ) (c : Ptr α) (j : ℕ) : Option α :=
  if j < idrSize ^ layers then c.get layers j else none

lemma held_of_lt (hj : j < idrSize ^ layers) : held layers c j = c.get layers j := if_pos hj

lemma held_of_le (hj : idrSize ^ layers ≤ j) : held layers c j = none := if_neg (not_lt.mpr hj)

lemma held_null : held layers (.null : Ptr α) = fun _ => none := by
  funext j
  unfold held
  rw [get_null, ite_self]

lemma held_store {f : ℕ → Option α} (hid : id < idrSize ^ layers)
    (hlow : ∀ j < idrSize ^ layers, g j = f j) (hhigh : ∀ j, idrSize ^ layers ≤ j → f j = none)
    (hget : ∀ j, c.get layers j = if Agree idrBits layers id j then x else g j) :
    held layers c = update f id x := by
  funext j
  rw [update_apply]
  rcases lt_or_ge j (idrSize ^ layers) with hj | hj
  · rw [held_of_lt hj, hget j, hlow j hj]
    exact if_congr ((agree_iff_eq hid hj).trans eq_comm) rfl rfl
  · rw [held_of_le hj, if_neg (hid.trans_le hj).ne', hhigh j hj]

lemma held_set {c' : Ptr α} (hid : id < idrSize ^ layers)
    (hget : ∀ j, c'.get layers j = if Agree idrBits layers id j then x else c.get layers j) :
    held layers c' = update (held layers c) id x :=
  held_store hid (fun _ hj => (held_of_lt hj).symm) (fun _ hj => held_of_le hj) hget

lemma Ptr.WfBy.null_of_count (hwf : (Ptr.layer p).WfBy F (l + 1)) (hcount : p.count = 0)
    (hm : m < idrSize) : p.ary m = .null := by
  by_contra hne
  have hused : 0 < used p.ary := SlotCount.count_pos hm (isNull_eq_false.mpr hne)
  have hcount' := hwf.slots.count_eq
  omega

lemma Ptr.WfBy.of_count_zero (hwf : (Ptr.layer p).WfBy F (l + 1)) (hcount : p.count = 0) (h : ℕ) :
    (Ptr.layer { p with layer := h }).WfBy F (h + 1) ∧
      held (h + 1) (Ptr.layer { p with layer := h }) = fun _ => none := by
  have hnull : ∀ i < idrSize, p.ary i = .null := fun i hi => hwf.null_of_count hcount hi
  refine ⟨⟨rfl, hwf.slots.count_eq, fun i hi => ?_, fun i hi => ?_⟩, funext fun j => ?_⟩
  · rw [hwf.slots.bit_iff i hi, hnull i hi]
    exact iff_of_false not_full_null not_full_null
  · rw [hnull i hi]
    exact wf_null
  · unfold held
    rw [get_layer]
    rw [hnull _ digit_lt, get_null, ite_self]

lemma held_of_first (honly : ∀ i < idrSize, i ≠ 0 → p.ary i = .null) :
    held (l + 2) (.layer p) = held (l + 1) (p.ary 0) := by
  funext j
  have hle : idrSize ^ (l + 1) ≤ idrSize ^ (l + 2) :=
    Nat.pow_le_pow_right (by decide) (l + 1).le_succ
  unfold held
  rw [get_layer]
  by_cases hlow : j < idrSize ^ (l + 1)
  · have hslot : slotOf (l + 1) j = 0 := digit_eq_zero hlow
    rw [if_pos (hlow.trans_le hle), if_pos hlow, hslot]
  · rw [if_neg hlow]
    split_ifs with hj
    · have hslot : slotOf (l + 1) j ≠ 0 := fun hzero => hlow (lt_of_digit_eq_zero hj hzero)
      rw [honly _ digit_lt hslot, get_null]
    · rfl

lemma above_spec (hq : q.Blank) (hwf : (Ptr.layer p).WfBy F (l + 1)) :
    (Ptr.layer (above q p (l + 1))).WfBy F (l + 2) ∧
      held (l + 2) (Ptr.layer (above q p (l + 1))) = held (l + 1) (.layer p) := by
  constructor
  · refine ⟨rfl, (hq.wf (l + 1)).slots.update hwf ?_ ?_ ?_ (l + 1)⟩
    · rw [← hwf.slots.isFull_iff]
      split_ifs with hfull
      · rw [update_self]
        exact iff_of_true rfl hfull
      · rw [hq.1]
        exact iff_of_false nofun hfull
    · intro i hi
      split_ifs
      · exact update_of_ne hi _ _
      · rfl
    · have hcount := (hq.wf (F := F) (l + 1)).slots.count_eq
      rw [used_update_add (by decide) (by rw [hq.2.1]) rfl]
      push_cast
      rw [← hcount]
      rw [hq.2.2, zero_add]
  · rw [held_of_first]
    · show held (l + 1) (update q.ary 0 (.layer p) 0) = _
      rw [update_self]
    · intro i _ hi
      show update q.ary 0 (.layer p) i = .null
      rw [update_of_ne hi, hq.2.1]

/-- The top `c` stands on `built` layers that were put above `t`. -/
def Tower : ℕ → Ptr α → Ptr α → Prop
  | 0, t, c => c = t
  | built + 1, t, .layer p => Tower built t (p.ary 0) ∧ ∀ i, i ≠ 0 → p.ary i = .null
  | _ + 1, _, _ => False

lemma tearDown_spec (htower : Tower built t c) (hfree : ∀ q ∈ idFree, q.Blank) :
    (tearDown built c idFree).1 = t ∧ ∀ q ∈ (tearDown built c idFree).2, q.Blank := by
  induction built generalizing c idFree with
  | zero => exact ⟨htower, hfree⟩
  | succ built ih =>
    cases c with
    | layer p =>
      refine ih htower.1 fun q hq => ?_
      rcases mem_cons.mp hq with rfl | hq
      · refine ⟨rfl, funext fun i => ?_, rfl⟩
        show update p.ary 0 .null i = .null
        rcases eq_or_ne i 0 with rfl | hi
        · rw [update_self]
        · rw [update_of_ne hi, htower.2 i hi]
      · exact hfree q hq
    | _ => exact htower.elim

/-- Growing for `id` has ended as it should: the map is the same, and there is room,
or there were not enough layers and everything is as before. -/
inductive Grows (F : α → Prop) (id : ℕ) (g : ℕ → Option α) (t : Ptr α) : Grown α → Prop where
  | done {p : Layer (Ptr α)} {layers : ℕ} {idFree : List (Layer (Ptr α))}
      (wf : (Ptr.layer p).WfBy F layers) (layers_le : layers ≤ maxLevel - 1)
      (room : id < idrSize ^ layers) (held_eq : held layers (.layer p) = g)
      (blank : ∀ q ∈ idFree, q.Blank) : Grows F id g t (.done p layers idFree)
  | noLayer {top : Ptr α} {idFree : List (Layer (Ptr α))} (top_eq : top = t)
      (blank : ∀ q ∈ idFree, q.Blank) : Grows F id g t (.noLayer top idFree)

lemma room_iff (hid : id < 2 ^ 30) :
    (layers < maxLevel - 1 ∧ (2 ^ (layers * idrBits) : ℤ) ≤ CInt.toInt id) ↔
      idrSize ^ layers ≤ id := by
  rw [CInt.toInt_of_lt (Int.natCast_nonneg id) (by exact_mod_cast hid.trans (by decide)),
    limit_le_iff, and_iff_right_iff_imp]
  intro hle
  by_contra hge
  have hpow : idrSize ^ (maxLevel - 1) ≤ idrSize ^ layers :=
    Nat.pow_le_pow_right (by decide) (le_of_not_gt hge)
  exact absurd (hpow.trans hle) (not_le.mpr hid)

section

variable (hid : id < 2 ^ 30) (hwf : (Ptr.layer p).WfBy F (l + 1)) (hle : l + 1 ≤ maxLevel - 1)
  (hfuel : maxLevel ≤ l + fuel) (hfree : ∀ q ∈ idFree, q.Blank)
include hid hwf hle hfuel hfree

lemma growLoop_empty (built : ℕ) (hcount : p.count = 0) :
    Grows F id (fun _ => none) t (growLoop id fuel built (l + 1) p idFree) := by
  have hlayer : { p with layer := l } = p := by rw [← hwf.1]
  induction fuel generalizing p l with
  | zero => omega
  | succ fuel ih =>
    unfold growLoop
    split_ifs with hroom
    · have hlt : l + 2 ≤ maxLevel - 1 := hroom.1
      have hnext := (hwf.of_count_zero hcount (l + 1)).1
      rw [hwf.1]
      exact ih hnext hlt (by omega) hcount rfl
    · rw [room_iff hid, not_le] at hroom
      have hheld := (hwf.of_count_zero hcount l).2
      rw [hlayer] at hheld
      exact .done hwf hle hroom hheld hfree

lemma growLoop_used (hcount : p.count ≠ 0) (htower : Tower built t (.layer p)) :
    Grows F id (held (l + 1) (.layer p)) t (growLoop id fuel built (l + 1) p idFree) := by
  induction fuel generalizing p l built idFree with
  | zero => omega
  | succ fuel ih =>
    unfold growLoop
    split_ifs with hroom
    · have hlt : l + 2 ≤ maxLevel - 1 := hroom.1
      cases idFree with
      | nil =>
        obtain ⟨htop, hblank⟩ := tearDown_spec htower hfree
        exact .noLayer htop hblank
      | cons q idFree =>
        have hq : q.Blank := hfree q mem_cons_self
        obtain ⟨hwf', hheld⟩ := above_spec hq hwf
        rw [← hheld]
        refine ih hwf' hlt (by omega) (fun q hq => hfree q (mem_cons_of_mem _ hq)) one_ne_zero
          ⟨?_, fun i hi => ?_⟩
        · show Tower _ t (update q.ary 0 (.layer p) 0)
          rwa [update_self]
        · show update q.ary 0 (.layer p) i = .null
          rw [update_of_ne hi, hq.2.1]
    · rw [room_iff hid, not_le] at hroom
      exact .done hwf hle hroom rfl hfree

end

namespace Idr

variable {idp idp' : Idr α}

structure Inv (idp : Idr α) : Prop where
  wf : idp.top.Wf idp.layers
  layers_le : idp.layers ≤ maxLevel - 1
  top_iff : idp.top = .null ↔ idp.layers = 0
  blank : ∀ q ∈ idp.idFree, q.Blank

structure InvBy (F : α → Prop) (idp : Idr α) : Prop where
  wf : idp.top.WfBy F idp.layers
  layers_le : idp.layers ≤ maxLevel - 1
  top_iff : idp.top = .null ↔ idp.layers = 0
  blank : ∀ q ∈ idp.idFree, q.Blank

lemma invBy_every : idp.InvBy (fun _ => True) ↔ idp.Inv :=
  ⟨fun h => ⟨wfBy_every.mp h.wf, h.layers_le, h.top_iff, h.blank⟩,
    fun h => ⟨wfBy_every.mpr h.wf, h.layers_le, h.top_iff, h.blank⟩⟩

def get (idp : Idr α) : ℕ → Option α := held idp.layers idp.top

lemma inv_of_layer (hwf : (Ptr.layer p).WfBy F N) (hN : N ≤ maxLevel - 1)
    (hfree : ∀ q ∈ idFree, q.Blank) :
    InvBy F { top := .layer p, layers := N, idFree := idFree } := by
  refine ⟨hwf, hN, ?_, hfree⟩
  cases N with
  | zero => exact hwf.elim
  | succ N => simp

lemma InvBy.init : (Idr.init : Idr α).InvBy F := ⟨wf_null, zero_le _, iff_of_true rfl rfl, nofun⟩

lemma InvBy.layers_of_layer (hinv : idp.InvBy F) (htop : idp.top = .layer p) :
    ∃ l, idp.layers = l + 1 := by
  refine exists_eq_succ_of_ne_zero fun hzero => ?_
  have hnull := hinv.top_iff.mpr hzero
  rw [htop] at hnull
  cases hnull

lemma InvBy.ne_item (hinv : idp.InvBy F) : idp.top ≠ .item a := by
  intro htop
  have hwf := hinv.wf
  rw [htop] at hwf
  cases hlayers : idp.layers with
  | zero =>
    have hnull := hinv.top_iff.mpr hlayers
    rw [htop] at hnull
    cases hnull
  | succ l =>
    rw [hlayers] at hwf
    exact hwf

lemma InvBy.buildUp (hinv : idp.InvBy F) (hid : id < 2 ^ 30) :
    ∃ r, buildUp idp id = some r ∧ Grows F id idp.get idp.top r := by
  unfold Ids.buildUp
  cases htop : idp.top with
  | null =>
    have hget : idp.get = fun _ => none := by
      unfold get
      rw [htop, held_null]
    cases hfree : idp.idFree with
    | nil => exact ⟨_, rfl, .noLayer rfl nofun⟩
    | cons q idFree =>
      have hblank := hinv.blank
      rw [hfree] at hblank
      have hq := hblank q mem_cons_self
      have hrest : ∀ q ∈ idFree, q.Blank := fun q hq => hblank q (mem_cons_of_mem _ hq)
      have hgrow := growLoop_empty (F := F) (t := .null) hid (hq.wf 0) (by decide)
        (le_add_left maxLevel _) hrest 1 hq.2.2
      rw [hget]
      exact ⟨_, rfl, hgrow⟩
  | item a => exact absurd htop hinv.ne_item
  | layer p =>
    obtain ⟨l, hlayers⟩ := hinv.layers_of_layer htop
    have hwf := hinv.wf
    have hle := hinv.layers_le
    rw [hlayers] at hwf hle
    rw [htop] at hwf
    have hfuel : maxLevel ≤ l + maxLevel := le_add_left _ _
    refine ⟨_, rfl, ?_⟩
    unfold get
    rw [hlayers, htop]
    by_cases hcount : p.count = 0
    · have hheld := (hwf.of_count_zero hcount l).2
      have hlayer : { p with layer := l } = p := by rw [← hwf.1]
      rw [hlayer] at hheld
      rw [hheld]
      exact growLoop_empty hid hwf hle hfuel hinv.blank 0 hcount
    · exact growLoop_used hid hwf hle hfuel hinv.blank hcount rfl

/-- `idr_get_empty_slot` has ended as it should. -/
def Ends (F : α → Prop) (idp : Idr α) (id : ℕ) (idp' : Idr α) : Slot α → Prop
  | .failed errno => errno = eagain ∧ idp'.InvBy F ∧ idp'.get = idp.get
  | .found id' p path => idp'.top = .layer (rebuild p path) ∧
      ∃ g, At F idp'.layers g 0 id' p path ∧ idp'.layers ≤ maxLevel - 1 ∧
      (∀ q ∈ idp'.idFree, q.Blank) ∧ (∀ j < idrSize ^ idp'.layers, g j = idp.get j) ∧
      (∀ j, idrSize ^ idp'.layers ≤ j → idp.get j = none) ∧
      id ≤ id' ∧ id' < idrSize ^ idp'.layers ∧ ¬ Takes F (g id') ∧
      ∀ j, id ≤ j → j < id' → Takes F (idp.get j)

lemma Ends.same {id' : ℕ} (hends : Ends F idp id idp' (.found id' p path)) :
    idp'.InvBy F ∧ idp'.get = idp.get := by
  obtain ⟨htop, g, hat, hN, hfree, hlow, hhigh, -⟩ := hends
  obtain ⟨hwf, hget⟩ := hat.top
  have hidp : idp' =
      { top := .layer (rebuild p path), layers := idp'.layers, idFree := idp'.idFree } := by
    rw [← htop]
  refine ⟨hidp ▸ inv_of_layer hwf hN hfree, funext fun j => ?_⟩
  unfold get
  rw [htop]
  rcases lt_or_ge j (idrSize ^ idp'.layers) with hj | hj
  · rw [held_of_lt hj, hget, hlow j hj]
    rfl
  · rw [held_of_le hj]
    exact (hhigh j hj).symm

lemma Ends.of_le {idp1 : Idr α} {id1 : ℕ} {r : Slot α} (hends : Ends F idp1 id1 idp' r)
    (hget : idp1.get = idp.get) (hle : id ≤ id1)
    (htaken : ∀ j, id ≤ j → j < id1 → Takes F (idp.get j)) : Ends F idp id idp' r := by
  cases r with
  | failed errno =>
    obtain ⟨rfl, hinv, hsame⟩ := hends
    exact ⟨rfl, hinv, hsame.trans hget⟩
  | found id' p path =>
    unfold Ends at hends
    rw [hget] at hends
    obtain ⟨htop, g, hat, hN, hfree, hlow, hhigh, hge, hlt, hnone, hrest⟩ := hends
    refine ⟨htop, g, hat, hN, hfree, hlow, hhigh, hle.trans hge, hlt, hnone, fun j hj hjlt => ?_⟩
    rcases lt_or_ge j id1 with hbefore | hbehind
    · exact htaken j hj hbefore
    · exact hrest j hbehind hjlt

lemma InvBy.getEmptySlot {M : ℕ} (hinv : idp.InvBy F)
    (hleft : ∃ k, id ≤ k ∧ k < 2 ^ 30 ∧ ¬ Takes F (idp.get k)) (hfuel : maxLevel - 1 < fuel + M)
    (hM : M = 0 ∨ idrSize ^ M ≤ id) :
    ∃ idp' r, getEmptySlot fuel idp id = some (idp', r) ∧ Ends F idp id idp' r := by
  obtain ⟨k, hk, hkmax, hnone⟩ := hleft
  have hid : id < 2 ^ 30 := hk.trans_lt hkmax
  induction fuel generalizing idp id M with
  | zero =>
    -- no id is behind all the layers
    have hpow : idrSize ^ (maxLevel - 1) ≤ idrSize ^ M :=
      Nat.pow_le_pow_right (by decide) (by omega)
    rcases hM with rfl | hM
    · omega
    · exact absurd (hpow.trans hM) (not_le.mpr hid)
  | succ fuel ih =>
    obtain ⟨grown, hbuild, hgrows⟩ := hinv.buildUp hid
    unfold Ids.getEmptySlot
    rw [hbuild]
    cases hgrows with
    | @noLayer top idFree htop hfree =>
      subst htop
      exact ⟨_, _, rfl, rfl, { hinv with blank := hfree }, rfl⟩
    | @done p N idFree hwf hN hroom hget hfree =>
      obtain ⟨r, halloc, hgood⟩ := subAlloc_spec hwf hN hroom hfree
      have hlow : ∀ j < idrSize ^ N, (layer p).get N j = idp.get j := by
        intro j hj
        rw [← hget, held_of_lt hj]
      dsimp only
      rw [halloc]
      cases r with
      | found id' q path idFree' =>
        obtain ⟨hat, hle, hlt, hfound, htaken, hfree'⟩ := hgood
        refine ⟨_, _, rfl, rfl, _, hat, hN, hfree', hlow, fun j hj => ?_, hle, hlt, hfound, ?_⟩
        · rw [← hget, held_of_le hj]
        · intro j hj hjlt
          rw [← hlow j (hjlt.trans hlt)]
          exact htaken j hj hjlt
      | needToGrow id' top idFree' =>
        obtain ⟨rfl, htaken, hwf', hget', hfree'⟩ := hgood
        have hinv' := inv_of_layer hwf' hN hfree'
        have hsame : Idr.get { top := .layer top, layers := N, idFree := idFree' } = idp.get := by
          rw [← hget]
          funext j
          show (if _ then (layer top).get N j else none) = _
          rw [hget']
          rfl
        -- the id that is left is behind the layers that there are
        have hbehind : idrSize ^ N ≤ k := by
          by_contra hbefore
          rw [not_le] at hbefore
          exact hnone (hlow k hbefore ▸ htaken k hk hbefore)
        have hmore : M < N := by
          rcases hM with rfl | hM
          · cases N with
            | zero => exact hwf.elim
            | succ N => exact N.succ_pos
          · exact (Nat.pow_lt_pow_iff_right (by decide)).mp (hM.trans_lt hroom)
        obtain ⟨idp', r, hslot, hends⟩ := ih hinv' (by omega) (.inr le_rfl) hbehind
          (hsame ▸ hnone) (hbehind.trans_lt hkmax)
        refine ⟨idp', r, hslot, ?_⟩
        exact hends.of_le hsame hroom.le fun j hj hlt => by
          rw [← hlow j hlt]
          exact htaken j hj hlt
      | noMoreSpace => exact hgood.elim
      | noLayer top =>
        obtain ⟨hwf', hget'⟩ := hgood
        refine ⟨_, _, rfl, rfl, inv_of_layer hwf' hN nofun, ?_⟩
        rw [← hget]
        funext j
        show (if _ then (layer top).get N j else none) = _
        rw [hget']
        rfl

/-- **An allocation gives the first free id**, if there is one for it at all, or
runs out of layers. -/
lemma Inv.getNewAbove (hinv : idp.Inv) (a : α)
    (hleft : ∃ k, id ≤ k ∧ k < 2 ^ 30 ∧ idp.get k = none) :
    ∃ idp' r, idp.getNewAbove (some a) id = some (idp', r) ∧ idp'.Inv ∧
      ((r = .inl eagain ∧ idp'.get = idp.get) ∨
        ∃ id', r = .inr id' ∧ id ≤ id' ∧ idp.get id' = none ∧
          (∀ j, id ≤ j → j < id' → idp.get j ≠ none) ∧ idp'.get = update idp.get id' (some a)) := by
  obtain ⟨k, hk, hmax, hfree⟩ := hleft
  have hleft' : ∃ k, id ≤ k ∧ k < 2 ^ 30 ∧ ¬ Takes (fun _ => True) (idp.get k) :=
    ⟨k, hk, hmax, fun htakes => takes_every.mp htakes hfree⟩
  obtain ⟨idp', r, hslot, hends⟩ := (invBy_every.mpr hinv).getEmptySlot (M := 0) hleft'
    (lt_succ_of_le (sub_le maxLevel 1)) (.inl rfl)
  unfold Idr.getNewAbove
  rw [hslot]
  cases r with
  | failed errno =>
    obtain ⟨rfl, hinv', hget⟩ := hends
    exact ⟨_, _, rfl, invBy_every.mp hinv', .inl ⟨rfl, hget⟩⟩
  | found id' p path =>
    obtain ⟨-, g, hat, hN, hfree, hlow, hhigh, hge, hlt, hspace, htaken⟩ := hends
    have hnone : g id' = none := not_not.mp fun hsome => hspace (takes_every.mpr hsome)
    have hnull : p.ary (slotOf 0 id') = .null := by
      have hg := hnone
      rw [hat.get_of_div rfl, get_layer] at hg
      rw [(hat.wf.slot id').item_of_zero id', hg]
      rfl
    have hcount : p.count + 1 = used (update p.ary (slotOf 0 id') (.item a)) := by
      rw [used_update_add digit_lt hnull rfl]
      push_cast
      exact congrArg (· + 1) hat.wf.slots.count_eq
    obtain ⟨hwf, hget⟩ := store_spec hat hspace a hcount (.inl ⟨trivial, rfl⟩)
    dsimp only
    rw [and_mask]
    exact ⟨_, _, rfl, invBy_every.mp (inv_of_layer hwf hN hfree),
      Or.inr ⟨id', rfl, hge, (hlow id' hlt).symm.trans hnone,
        fun j hj hjlt => takes_every.mp (htaken j hj hjlt), held_store hlt hlow hhigh hget⟩⟩

end Idr

end Am335x.Ids
