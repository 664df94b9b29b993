import Am335xKernel.Arch.Edma

/-!
# Runs of the slot allocator

The users of both controllers together: the slots they hold, and the runs that
`edma_alloc_cont_slots` has ever returned to them, which they may hand to
`edma_free_cont_slots`.
-/

namespace Am335x.Edma

open Function List

structure Users where
  cc : ℕ → Cc
  held : List (ℕ × ℕ)
  returned : List (ℕ × ℕ)

inductive Event where
  | allocSlot (ctlr : ℕ) (slot : ℤ)
  | freeSlot (slot : ℕ)
  | allocCont (ctlr : ℕ) (id : ContId) (slot count : ℤ) (tmp : Bitmap)
  | freeCont (slot count : ℕ)

def slotsOf (ctlr first num : ℕ) : List (ℕ × ℕ) := (List.range' first num).map (Prod.mk ctlr)

@[simp] lemma mem_slotsOf {ctlr first num : ℕ} {p : ℕ × ℕ} :
    p ∈ slotsOf ctlr first num ↔ p.1 = ctlr ∧ first ≤ p.2 ∧ p.2 < first + num := by
  rcases p with ⟨c, k⟩
  simp only [slotsOf, mem_map, mem_range'_1, Prod.mk.injEq]
  constructor
  · rintro ⟨j, ⟨hlo, hhi⟩, rfl, rfl⟩
    exact ⟨rfl, hlo, hhi⟩
  · rintro ⟨rfl, hlo, hhi⟩
    exact ⟨k, ⟨hlo, hhi⟩, rfl, rfl⟩

namespace Users

/-- The result of a request: a success gives the caller `num` slots. -/
def granted (s : Users) (num : ℕ) (r : (ℕ → Cc) × ℤ) : Users :=
  { s with
    cc := r.1
    held :=
      if 0 ≤ r.2 then slotsOf (edmaCtlr r.2.toNat) (edmaChanSlot r.2.toNat) num ++ s.held
      else s.held }

def released (s : Users) (slot num : ℕ) : List (ℕ × ℕ) :=
  s.held.filter fun p => p ∉ slotsOf (edmaCtlr slot) (edmaChanSlot slot) num

/-- There are `EDMA_MAX_CC` controllers, and only a run that was returned is
freed as a run. -/
def step (s : Users) : Event → Option Users
  | .allocSlot ctlr slot =>
    if ctlr < edmaMaxCc then some (s.granted 1 (edmaAllocSlot s.cc ctlr slot)) else none
  | .freeSlot slot =>
    if edmaCtlr slot < edmaMaxCc then
      some { s with cc := edmaFreeSlot s.cc slot, held := s.released slot 1 }
    else none
  | .allocCont ctlr id slot count tmp =>
    if ctlr < edmaMaxCc then
      let r := edmaAllocContSlots s.cc ctlr id slot count tmp
      some
        { s.granted count.toNat r with
          returned := if 0 ≤ r.2 then (r.2.toNat, count.toNat) :: s.returned else s.returned }
    else none
  | .freeCont slot count =>
    if (slot, count) ∈ s.returned then
      some
        { s with cc := (edmaFreeContSlots s.cc slot count).1, held := s.released slot count }
    else none

structure Right (s : Users) : Prop where
  distinct : s.held.Nodup
  slot : ∀ ctlr k, (ctlr, k) ∈ s.held → ctlr < edmaMaxCc ∧ (s.cc ctlr).hasSlot k
  marked : ∀ ctlr < edmaMaxCc, ∀ k, (s.cc ctlr).hasSlot k →
    ((s.cc ctlr).inuse k = true ↔ (ctlr, k) ∈ s.held)

def releases (s : Users) (slot num : ℕ) (cc : ℕ → Cc) : Prop :=
  ∀ ctlr < edmaMaxCc, ∀ k, (s.cc ctlr).hasSlot k →
    ((cc ctlr).inuse k = true ↔
      (s.cc ctlr).inuse k = true ∧ (ctlr, k) ∉ slotsOf (edmaCtlr slot) (edmaChanSlot slot) num)

/-- What each request should do. A request for a slot takes the slot asked for,
or the lowest free one; a request for a run takes the lowest free run from its
start on, or the one at the start. If there is none, or the arguments make no
sense, nothing changes. -/
def stepRight (s : Users) : Event → Prop
  | .allocSlot ctlr slot =>
    (∃ k, (s.cc ctlr).hasSlot k ∧ (s.cc ctlr).inuse k = false ∧
        (0 ≤ slot → k = edmaChanSlot slot.toNat) ∧
        (slot < 0 → ∀ j, (s.cc ctlr).numChannels ≤ j → j < k → (s.cc ctlr).inuse j = true) ∧
        Takes s.cc ctlr k 1 (edmaAllocSlot s.cc ctlr slot)) ∨
      ((∀ k, (s.cc ctlr).hasSlot k → (0 ≤ slot → k = edmaChanSlot slot.toNat) →
          (s.cc ctlr).inuse k = true) ∧
        Fails s.cc (edmaAllocSlot s.cc ctlr slot))
  | .freeSlot slot => s.releases slot 1 (edmaFreeSlot s.cc slot)
  | .allocCont ctlr id slot count tmp =>
    (∃ first, id.Valid (s.cc ctlr) slot count ∧
        LowestRun (id = .fixedExact) (s.cc ctlr).inuse (s.cc ctlr).numSlots count.toNat
          (id.start (s.cc ctlr) slot) first ∧
        Takes s.cc ctlr first count.toNat (edmaAllocContSlots s.cc ctlr id slot count tmp)) ∨
      ((id.Valid (s.cc ctlr) slot count → ∀ first, id.start (s.cc ctlr) slot ≤ first →
          (id = .fixedExact → first = id.start (s.cc ctlr) slot) →
          ¬ FreeRun (s.cc ctlr).inuse (s.cc ctlr).numSlots first count.toNat) ∧
        Fails s.cc (edmaAllocContSlots s.cc ctlr id slot count tmp))
  | .freeCont slot count => s.releases slot count (edmaFreeContSlots s.cc slot count).1

/-- A run that is freed is one of controller 0, or neither its slots nor those
with the same numbers on controller 0 are held. -/
def freesHarmless (s : Users) : Event → Prop
  | .freeCont slot count =>
    edmaCtlr slot = 0 ∨
      ∀ k ∈ List.range' (edmaChanSlot slot) count,
        (edmaCtlr slot, k) ∉ s.held ∧ (0, k) ∉ s.held
  | _ => True

instance (s : Users) (e : Event) : Decidable (s.freesHarmless e) := by
  unfold Users.freesHarmless
  split <;> infer_instance

end Users

def slotMachine (cc : ℕ → Cc) (held : List (ℕ × ℕ)) : Machine Users Event where
  init := { cc := cc, held := held, returned := [] }
  step := Users.step

section

variable (cc : ℕ → Cc) (ctlr first num c k : ℕ)

lemma hasSlot_set :
    (update cc ctlr ((cc ctlr).setSlots first num) c).hasSlot k ↔ (cc c).hasSlot k := by
  rcases eq_or_ne c ctlr with rfl | hne
  · rw [update_self]
    rfl
  · rw [update_of_ne hne]

lemma inuse_set : (update cc ctlr ((cc ctlr).setSlots first num) c).inuse k = true ↔
      (c, k) ∈ slotsOf ctlr first num ∨ (cc c).inuse k = true := by
  rcases eq_or_ne c ctlr with rfl | hne
  · rw [update_self, mem_slotsOf]
    show (if first ≤ k ∧ k < first + num then true else (cc c).inuse k) = true ↔ _
    split <;> simp_all
  · rw [update_of_ne hne, mem_slotsOf]
    simp [hne]

lemma hasSlot_clear : (update cc ctlr ((cc ctlr).clearSlots first num) c).hasSlot k ↔
      (cc c).hasSlot k := by
  rcases eq_or_ne c ctlr with rfl | hne
  · rw [update_self]
    rfl
  · rw [update_of_ne hne]

lemma inuse_clear : (update cc ctlr ((cc ctlr).clearSlots first num) c).inuse k = true ↔
      (cc c).inuse k = true ∧ (c, k) ∉ slotsOf ctlr first num := by
  rcases eq_or_ne c ctlr with rfl | hne
  · rw [update_self, mem_slotsOf]
    show (if first ≤ k ∧ k < first + num then false else (cc c).inuse k) = true ↔ _
    split <;> simp_all
  · rw [update_of_ne hne, mem_slotsOf]
    simp [hne]

end

namespace Users

variable {s s' : Users} {ctlr first num : ℕ}

lemma Right.take (h : s.Right) (hctlr : ctlr < edmaMaxCc)
    (hslot : ∀ k, first ≤ k → k < first + num →
      (s.cc ctlr).hasSlot k ∧ (s.cc ctlr).inuse k = false) : Right { s with
      cc := update s.cc ctlr ((s.cc ctlr).setSlots first num)
      held := slotsOf ctlr first num ++ s.held } where
  distinct := by
    refine nodup_append.mpr ⟨Nodup.map (Prod.mk_right_injective ctlr) nodup_range', h.distinct, ?_⟩
    rintro ⟨c, k⟩ hnew q hold rfl
    obtain ⟨rfl, hlo, hhi⟩ := mem_slotsOf.mp hnew
    obtain ⟨hk, hfree⟩ := hslot k hlo hhi
    rw [(h.marked c hctlr k hk).mpr hold] at hfree
    cases hfree
  slot := by
    intro c k hmem
    rw [hasSlot_set]
    rcases mem_append.mp hmem with hnew | hold
    · obtain ⟨rfl, hlo, hhi⟩ := mem_slotsOf.mp hnew
      exact ⟨hctlr, (hslot k hlo hhi).1⟩
    · exact h.slot c k hold
  marked := by
    intro c hc k hk
    rw [hasSlot_set] at hk
    rw [inuse_set, mem_append, h.marked c hc k hk]

lemma Right.release (h : s.Right) {slot : ℕ} {cc : ℕ → Cc}
    (hcc : ∀ c k, (cc c).hasSlot k ↔ (s.cc c).hasSlot k) (hfree : s.releases slot num cc) :
    Right { s with cc := cc, held := s.released slot num } where
  distinct := h.distinct.filter _
  slot := by
    intro c k hmem
    rw [hcc]
    exact h.slot c k (mem_of_mem_filter hmem)
  marked := by
    intro c hc k hk
    rw [hcc] at hk
    rw [hfree c hc k hk, h.marked c hc k hk, released, mem_filter, decide_eq_true_eq]

variable {r : (ℕ → Cc) × ℤ}

lemma granted_of_takes (hr : Takes s.cc ctlr first num r) (hfirst : first < 2 ^ 16) :
    s.granted num r = { s with
      cc := update s.cc ctlr ((s.cc ctlr).setSlots first num)
      held := slotsOf ctlr first num ++ s.held } := by
  rcases r with ⟨cc, result⟩
  obtain ⟨rfl, rfl⟩ := hr
  simp [granted, edmaCtlr_ctlrChan ctlr hfirst, edmaChanSlot_ctlrChan ctlr hfirst]

lemma granted_of_fails (hr : Fails s.cc r) : s.granted num r = s := by
  rcases r with ⟨cc, result⟩
  obtain ⟨rfl, hneg⟩ := hr
  rw [granted, if_neg (not_le.mpr hneg)]

lemma freeSlot_releases (s : Users) (slot : ℕ) : s.releases slot 1 (edmaFreeSlot s.cc slot) := by
  intro c _ k hk
  unfold edmaFreeSlot
  split_ifs with hout
  · -- the number is not that of a slot to be allocated
    refine (and_iff_left ?_).symm
    intro hmem
    obtain ⟨rfl, hlo, hhi⟩ := mem_slotsOf.mp hmem
    obtain ⟨hnc, hns⟩ := hk
    omega
  · exact inuse_clear s.cc _ _ _ c k

lemma freeSlot_hasSlot (cc : ℕ → Cc) (slot c k : ℕ) :
    (edmaFreeSlot cc slot c).hasSlot k ↔ (cc c).hasSlot k := by
  unfold edmaFreeSlot
  split_ifs
  · exact Iff.rfl
  · exact hasSlot_clear cc _ _ _ c k

end Users

structure Returned (cc : ℕ → Cc) (slot count ctlr first : ℕ) : Prop where
  slot_eq : slot = edmaCtlrChan ctlr first
  ctlr_lt : ctlr < edmaMaxCc
  count_pos : 0 < count
  slots : ∀ k, first ≤ k → k < first + count → (cc ctlr).hasSlot k

namespace Returned

variable {cc cc' : ℕ → Cc} {slot count ctlr first : ℕ}

section

variable (h : Returned cc slot count ctlr first)
include h

lemma congr
    (hcc : ∀ c k, (cc' c).hasSlot k ↔ (cc c).hasSlot k) : Returned cc' slot count ctlr first :=
  { h with slots := fun k hlo hhi => (hcc ctlr k).mpr (h.slots k hlo hhi) }

lemma fits : first + count ≤ 512 := by
  have hpos := h.count_pos
  have hlast := (h.slots (first + count - 1) (by omega) (by omega)).2
  have hle := (cc ctlr).numSlots_le
  omega

lemma ctlr_eq : edmaCtlr slot = ctlr := by
  have hfits := h.fits
  rw [h.slot_eq, edmaCtlr_ctlrChan ctlr (by omega)]

lemma first_eq : edmaChanSlot slot = first := by
  have hfits := h.fits
  rw [h.slot_eq, edmaChanSlot_ctlrChan ctlr (by omega)]

/-- **Freeing a run** clears the bits of controller 0. -/
lemma freeCont : (edmaFreeContSlots cc slot count).1 =
      update cc 0 ((cc 0).clearSlots first count) := by
  have hpos := h.count_pos
  have hfits := h.fits
  obtain ⟨hlo, hhi⟩ := h.slots first le_rfl (by omega)
  unfold edmaFreeContSlots
  rw [h.ctlr_eq, h.first_eq, if_neg (by omega), Int.toNat_natCast, foldl_clearSlots cc (by omega)]

end

end Returned

namespace Users

structure Inv (s : Users) : Prop extends s.Right where
  runs : ∀ slot count, (slot, count) ∈ s.returned →
    ∃ ctlr first, Returned s.cc slot count ctlr first

variable {s s' : Users}

lemma Inv.runs_congr (h : s.Inv) {cc : ℕ → Cc}
    (hcc : ∀ c k, (cc c).hasSlot k ↔ (s.cc c).hasSlot k) (slot count : ℕ)
    (hmem : (slot, count) ∈ s.returned) : ∃ ctlr first, Returned cc slot count ctlr first := by
  obtain ⟨ctlr, first, hret⟩ := h.runs slot count hmem
  exact ⟨ctlr, first, hret.congr hcc⟩

lemma lowestRun_slots {c : Cc} {id : ContId} {slot count : ℤ} {first : ℕ}
    (hvalid : id.Valid c slot count)
    (hrun : LowestRun (id = .fixedExact) c.inuse c.numSlots count.toNat (id.start c slot) first)
    (k : ℕ) (hlo : first ≤ k) (hhi : k < first + count.toNat) :
    c.hasSlot k ∧ c.inuse k = false := by
  have hstart : c.numChannels ≤ id.start c slot := by
    unfold ContId.start
    split_ifs with hany
    · exact le_rfl
    · exact (hvalid.slot hany).1
  have hle := hrun.start_le
  have hfits := hrun.free.1
  exact ⟨⟨by omega, by omega⟩, hrun.free.2 k hlo hhi⟩

variable {ctlr count slot : ℕ}

lemma Inv.allocSlot (h : s.Inv) (hctlr : ctlr < edmaMaxCc) (slot : ℤ) :
    Inv (s.granted 1 (edmaAllocSlot s.cc ctlr slot)) := by
  rcases alloc_slot_spec s.cc ctlr slot with ⟨k, hk, hfree, _, _, htakes⟩ | ⟨_, hfails⟩
  · have hle := (s.cc ctlr).numSlots_le
    have hlt := hk.2
    rw [granted_of_takes htakes (by omega)]
    refine ⟨h.toRight.take hctlr ?_, h.runs_congr (hasSlot_set s.cc ctlr k 1)⟩
    intro j hlo hhi
    obtain rfl : j = k := by omega
    exact ⟨hk, hfree⟩
  · rw [granted_of_fails hfails]
    exact h

lemma Inv.allocCont (h : s.Inv) (hctlr : ctlr < edmaMaxCc) (id : ContId) (slot count : ℤ)
    (tmp : Bitmap) (hstep : s.step (.allocCont ctlr id slot count tmp) = some s') : s'.Inv := by
  simp only [step, if_pos hctlr, Option.some.injEq] at hstep
  subst hstep
  rcases alloc_cont_spec s.cc ctlr id slot count tmp with
    ⟨first, hvalid, hrun, htakes⟩ | ⟨_, hfails⟩
  · have hslots := lowestRun_slots hvalid hrun
    have hpos := hvalid.count_pos
    have hle := (s.cc ctlr).numSlots_le
    have hlt := (hslots first le_rfl (by omega)).1.2
    rw [granted_of_takes htakes (by omega), htakes.result,
      if_pos (Int.natCast_nonneg _), Int.toNat_natCast]
    have hright := h.toRight.take hctlr hslots
    refine ⟨⟨hright.distinct, hright.slot, hright.marked⟩, ?_⟩
    intro v n hmem
    rcases mem_cons.mp hmem with heq | hold
    · cases heq
      refine ⟨ctlr, first, rfl, hctlr, by omega, ?_⟩
      intro k hlo hhi
      exact (hasSlot_set s.cc ctlr first _ ctlr k).mpr (hslots k hlo hhi).1
    · exact h.runs_congr (hasSlot_set s.cc ctlr first _) v n hold
  · rw [granted_of_fails hfails, if_neg (not_le.mpr hfails.result)]
    exact h

lemma Inv.freeCont_releases (h : s.Inv) (hmem : (slot, count) ∈ s.returned)
    (hg : s.freesHarmless (.freeCont slot count)) :
    s.releases slot count (edmaFreeContSlots s.cc slot count).1 := by
  obtain ⟨ctlr, first, hret⟩ := h.runs slot count hmem
  intro c hc k hk
  rw [hret.freeCont, inuse_clear, hret.ctlr_eq, hret.first_eq]
  rcases hg with hzero | hnot
  · rw [hret.ctlr_eq] at hzero
    rw [hzero]
  · -- no slot of either set is held, so none is marked
    rw [hret.ctlr_eq, hret.first_eq] at hnot
    refine and_congr_right fun hbit => ?_
    have hheld := (h.marked c hc k hk).mp hbit
    rw [mem_slotsOf, mem_slotsOf]
    refine iff_of_true ?_ ?_
    · rintro ⟨rfl, hrange⟩
      exact (hnot k (mem_range'_1.mpr hrange)).2 hheld
    · rintro ⟨rfl, hrange⟩
      exact (hnot k (mem_range'_1.mpr hrange)).1 hheld

lemma Inv.freeCont_hasSlot (h : s.Inv) (hmem : (slot, count) ∈ s.returned) (c k : ℕ) :
    ((edmaFreeContSlots s.cc slot count).1 c).hasSlot k ↔ (s.cc c).hasSlot k := by
  obtain ⟨ctlr, first, hret⟩ := h.runs slot count hmem
  rw [hret.freeCont, hasSlot_clear]

variable {e : Event}

lemma inv_step (h : s.Inv) (hg : s.freesHarmless e) (hstep : s.step e = some s') : s'.Inv := by
  cases e with
  | allocSlot ctlr slot =>
    obtain ⟨hctlr, ⟨⟩⟩ := Option.ite_none_right_eq_some.mp hstep
    exact h.allocSlot hctlr slot
  | freeSlot slot =>
    obtain ⟨_, ⟨⟩⟩ := Option.ite_none_right_eq_some.mp hstep
    have hcc := freeSlot_hasSlot s.cc slot
    exact ⟨h.toRight.release hcc (s.freeSlot_releases slot), h.runs_congr hcc⟩
  | allocCont ctlr id slot count tmp =>
    exact h.allocCont (Option.ite_none_right_eq_some.mp hstep).1 id slot count tmp hstep
  | freeCont slot count =>
    obtain ⟨hmem, ⟨⟩⟩ := Option.ite_none_right_eq_some.mp hstep
    have hcc := h.freeCont_hasSlot hmem
    exact ⟨h.toRight.release hcc (h.freeCont_releases hmem hg), h.runs_congr hcc⟩

lemma stepRight_of_inv (h : s.Inv) (hg : s.freesHarmless e) (hstep : s.step e = some s')
    : s.stepRight e := by
  cases e with
  | allocSlot ctlr slot => exact alloc_slot_spec s.cc ctlr slot
  | freeSlot slot => exact s.freeSlot_releases slot
  | allocCont ctlr id slot count tmp => exact alloc_cont_spec s.cc ctlr id slot count tmp
  | freeCont slot count =>
    exact h.freeCont_releases (Option.ite_none_right_eq_some.mp hstep).1 hg

lemma not_right_of_harm (h : s.Inv) (hg : ¬ s.freesHarmless e) (hstep : s.step e = some s')
    : ¬ s'.Right := by
  cases e with
  | freeCont slot count =>
    obtain ⟨hmem, ⟨⟩⟩ := Option.ite_none_right_eq_some.mp hstep
    obtain ⟨ctlr, first, hret⟩ := h.runs slot count hmem
    have hcc := h.freeCont_hasSlot hmem
    intro hright
    -- the marks after the step, and the slots held after it
    have hafter : ∀ c k, (c, k) ∈ s.held →
        ((c, k) ∉ slotsOf 0 first count ↔ (c, k) ∉ slotsOf ctlr first count) := by
      intro c k hheld
      obtain ⟨hc, hk⟩ := h.slot c k hheld
      have hmark := hright.marked c hc k ((hcc c k).mpr hk)
      simp only [hret.freeCont, inuse_clear, released, mem_filter, hret.ctlr_eq,
        hret.first_eq, decide_eq_true_eq, hheld, (h.marked c hc k hk).mpr hheld, true_and]
        at hmark
      exact hmark
    simp only [freesHarmless, hret.ctlr_eq, hret.first_eq, not_or] at hg
    obtain ⟨hne, hheld⟩ := hg
    apply hheld
    intro k hk
    have hrange := mem_range'_1.mp hk
    constructor
    · intro hown
      refine ((hafter ctlr k hown).mp ?_) (mem_slotsOf.mpr ⟨rfl, hrange⟩)
      rw [mem_slotsOf]
      exact fun hin => hne hin.1
    · intro hzero
      refine ((hafter 0 k hzero).mpr ?_) (mem_slotsOf.mpr ⟨rfl, hrange⟩)
      rw [mem_slotsOf]
      exact fun hin => hne hin.1.symm
  | _ => exact absurd trivial hg

end Users

/-- From any state in which the marks are the slots held, and whatever the calls: the marks of both
controllers stay the slots held, no slot is held twice and every request does what it should, if and
only if every run that is freed is freed without harm. -/
theorem slots_right_iff (cc : ℕ → Cc) (held : List (ℕ × ℕ))
    (hstart : (slotMachine cc held).init.Right) (es : List Event) :
    (slotMachine cc held).Always Users.Right (slotMachine cc held).init es ∧
      (slotMachine cc held).Guarded Users.stepRight (slotMachine cc held).init es ↔
    (slotMachine cc held).Guarded Users.freesHarmless (slotMachine cc held).init es := by
  have hinit : (slotMachine cc held).init.Inv :=
    ⟨hstart, nofun⟩
  have hiff := (slotMachine cc held).always_iff_guarded (fun _ hs => Users.Inv.toRight hs)
    (fun _ _ _ => Users.inv_step) (fun _ _ _ => Users.not_right_of_harm) hinit es
  constructor
  · rintro ⟨hright, _⟩
    exact hiff.mp hright
  · intro hg
    exact ⟨hiff.mpr hg, (slotMachine cc held).guarded_of_guarded (fun _ _ _ => Users.inv_step)
      (fun _ _ _ => Users.stepRight_of_inv) hinit hg⟩

def eightSlots : ℕ → Cc := fun _ =>
  { numChannels := 4, numSlots := 8, inuse := fun _ => false, numSlots_le := by decide }

lemma right_start_eightSlots : (slotMachine eightSlots []).init.Right where
  distinct := nodup_nil
  slot := by
    intro ctlr k hmem
    cases hmem
  marked := by
    intro ctlr _ k _
    simp [slotMachine, eightSlots]

/-- A run on each controller; the one of controller 0 is freed as a run, the other
slot by slot, and then once more as a run. -/
theorem slots_right_both_controllers : (slotMachine eightSlots []).init.Right ∧
      (slotMachine eightSlots []).Always Users.Right (slotMachine eightSlots []).init
        [.allocSlot 0 5, .allocCont 0 .any 0 2 (fun _ => true),
          .allocCont 1 .fixedExact 4 2 (fun _ => true), .freeCont 6 2, .freeSlot 65540,
          .freeSlot 65541, .freeSlot 5, .freeCont 65540 2] ∧
      (slotMachine eightSlots []).Guarded Users.stepRight (slotMachine eightSlots []).init
        [.allocSlot 0 5, .allocCont 0 .any 0 2 (fun _ => true),
          .allocCont 1 .fixedExact 4 2 (fun _ => true), .freeCont 6 2, .freeSlot 65540,
          .freeSlot 65541, .freeSlot 5, .freeCont 65540 2] := by
  refine ⟨right_start_eightSlots, (slots_right_iff eightSlots [] right_start_eightSlots _).mpr ?_⟩
  decide +kernel

/-- A run of two slots is allocated on controller 1 and one slot on controller 0; when the run is
freed its slots stay marked, and the slot of controller 0 is no longer marked though it is held. -/
theorem run_freed_on_wrong_controller :
    ∃ s, (slotMachine eightSlots []).exec (slotMachine eightSlots []).init
        [.allocCont 1 .any 0 2 (fun _ => false), .allocSlot 0 (-1), .freeCont 65540 2] = some s ∧
      s.held = [(0, 4)] ∧ (s.cc 0).inuse 4 = false ∧
      (s.cc 1).inuse 4 = true ∧ (s.cc 1).inuse 5 = true := by
  have hrun : ((slotMachine eightSlots []).exec (slotMachine eightSlots []).init
      [.allocCont 1 .any 0 2 (fun _ => false), .allocSlot 0 (-1), .freeCont 65540 2]).any
      (fun s => decide (s.held = [(0, 4)] ∧ (s.cc 0).inuse 4 = false ∧
        (s.cc 1).inuse 4 = true ∧ (s.cc 1).inuse 5 = true)) = true := by
    decide +kernel
  obtain ⟨s, hs, hwrong⟩ := (Option.any_eq_true _ _).mp hrun
  exact ⟨s, hs, of_decide_eq_true hwrong⟩

end Am335x.Edma
