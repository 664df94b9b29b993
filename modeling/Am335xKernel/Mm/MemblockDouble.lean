import Am335xKernel.Mm.MemblockArrays

/-!
# Adding and removing

Both change an array to one that covers the right set, and if that has become full they ask for a
doubling (`Settles`). Once the slab allocator is up the new place comes from there. Before that it
is reserved in the arrays themselves, which nobody has asked for; here an array then has a slot to
spare, or it must not be resized (`Spare`).
-/

namespace Am335x.Memblock

open List Nat Set

section

variable {grow : Kind → State → Grown} {k : Kind} {s : State} {base size : ℕ} {l : List Region}

@[simp] lemma type_setType_self (t : MemblockType) : (s.setType k t).type k = t :=
  Function.update_self _ _ _

@[simp] lemma type_setRegions_self :
    (s.setRegions k l).type k = { s.type k with regions := l } := type_setType_self _

lemma setType_setRegions (t : MemblockType) : (s.setRegions k l).setType k t = s.setType k t := by
  unfold State.setRegions State.setType
  simp

@[simp] lemma setRegions_setRegions (l' : List Region) :
    (s.setRegions k l).setRegions k l' = s.setRegions k l' := by
  unfold State.setRegions State.setType
  simp

@[simp] lemma setRegions_self : s.setRegions k (s.type k).regions = s := by
  unfold State.setRegions State.setType
  simp

/-- The array becomes one that covers `target`; if that is full, it depends on the
doubling. -/
def Settles (grow : Kind → State → Grown) (k : Kind) (s : State) (target : Set ℕ)
    (r : Result) : Prop :=
  ∃ l, Regions l ∧ covered l = target ∧ l.length ≤ (s.type k).regions.length + 1 ∧
    (l.length < (s.type k).max ∧ r = .ok (s.setRegions k l) ∨
      l.length = (s.type k).max ∧ r = afterGrow s (grow k (s.setRegions k l)))

lemma Sorted.singleton (hpos : 0 < size) (hfit : base + size < 2 ^ 32) : Sorted [⟨base, size⟩] :=
  (sorted_middle (A := []) (B := [])).mpr ⟨hpos, hfit, sorted_nil, sorted_nil, nofun, nofun⟩

lemma covered_singleton : covered [⟨base, size⟩] = Set.Ico base (base + size) := by
  rw [covered_cons, covered_nil, union_empty]
  rfl

lemma map_size_filler : [filler].map Region.size = [0] := rfl

variable (hreg : Regions (s.type k).regions)
  (hlen : (s.type k).regions.length < (s.type k).max) (hfit : base + size < 2 ^ 32)

variable (grow) in
include hreg hlen hfit in
/-- **`memblock_add_region`.** -/
lemma addRegionWith_settles (hpos : 0 < size) :
    Settles grow k s (covered (s.type k).regions ∪ Set.Ico base (base + size))
      (addRegionWith grow k base size s) := by
  have hone : 1 < (s.type k).max :=
    (succ_le_of_lt (length_pos_iff.mpr hreg.ne_nil)).trans_lt hlen
  unfold addRegionWith
  rw [add32_of_lt hfit]
  rcases hreg with hfill | ⟨hne, hs⟩
  · have hco : coalesce (base + size) base size [] (s.type k).regions =
        .rest [filler] base size := by
      rw [hfill, coalesce, if_pos (.inr rfl)]
      rfl
    rw [hco]
    dsimp only
    rw [if_pos map_size_filler, hfill, covered_filler, empty_union]
    exact ⟨[⟨base, size⟩], .inr ⟨cons_ne_nil _ _, Sorted.singleton hpos hfit⟩,
      covered_singleton, le_add_left 1 _, .inl ⟨hone, rfl⟩⟩
  · have hspec : CoalesceSpec ([] ++ (s.type k).regions) base _ _ :=
      coalesce_spec hfit hpos rfl hne hs (forall_mem_nil _)
    rw [nil_append] at hspec
    rcases hco : coalesce (base + size) base size [] (s.type k).regions with l' | ⟨l', b, z⟩
    · rw [hco] at hspec
      obtain ⟨hne', hs', hcov, hlen'⟩ := hspec
      exact ⟨l', .inr ⟨hne', hs'⟩, hcov, hlen'.trans (le_succ _), .inl ⟨hlen'.trans_lt hlen, rfl⟩⟩
    · rw [hco] at hspec
      obtain ⟨hz, hbz, hcov, hform⟩ := hspec
      dsimp only
      rcases hform with rfl | ⟨hne', hs', hapart, hlen'⟩
      · -- all regions have been swallowed
        rw [if_pos map_size_filler]
        refine ⟨[⟨b, z⟩], .inr ⟨cons_ne_nil _ _, Sorted.singleton hz (hbz ▸ hfit)⟩, ?_,
          le_add_left 1 _, .inl ⟨hone, rfl⟩⟩
        rw [covered_singleton, hbz, ← hcov, covered_filler, empty_union]
      · have hnofill : l'.map Region.size ≠ [0] := by
          intro hmap
          obtain ⟨r, rfl, hr⟩ := map_eq_singleton_iff.mp hmap
          exact (hs'.pos r mem_cons_self).ne' hr
        have hlt : l'.length < (s.type k).max := by
          rcases hlen' with rfl | hlen'
          · exact hlen
          · exact hlen'.trans hlen
        rw [if_neg hnofill, newBlock, if_neg hlt.not_ge]
        rw [← hbz] at hapart
        obtain ⟨l'', slot, hins, hne'', hs'', hcov'', hlen'', hundo⟩ :=
          insertRegion_spec hne' hs' hz (hbz ▸ hfit) hapart
        rw [hins]
        have hle : l''.length ≤ (s.type k).regions.length + 1 := by
          rw [hlen'']
          rcases hlen' with rfl | hlen'
          · exact le_rfl
          · exact succ_le_succ hlen'.le
        refine ⟨l'', .inr ⟨hne'', hs''⟩, ?_, hle, ?_⟩
        · rw [hcov'', hbz, hcov]
        · by_cases hfull : l''.length = (s.type k).max
          · -- nothing has been swallowed, or there would be room
            have hsame : l' = (s.type k).regions := by
              rcases hlen' with hsame | hlen'
              · exact hsame
              · omega
            rw [if_pos hfull, hundo, hsame, setRegions_self]
            exact .inr ⟨hfull, rfl⟩
          · rw [if_neg hfull]
            exact .inl ⟨lt_of_le_of_ne (hle.trans (by omega)) hfull, rfl⟩

lemma modify_split (f : Region → Region) (r : Region) (A B : List Region) :
    (A ++ r :: B).modify A.length f = A ++ f r :: B := by
  induction A with
  | nil => rfl
  | cons a A ih => exact congrArg (List.cons a) ih

variable (grow) in
include hreg hlen hfit in
/-- **`__memblock_remove`**, if no region begins where the range ends. -/
lemma memblockRemoveWith_settles
    (hbase : ∀ r ∈ (s.type k).regions, 0 < r.size → r.base ≠ base + size) :
    Settles grow k s (covered (s.type k).regions \ Set.Ico base (base + size))
      (memblockRemoveWith grow k base size s) := by
  unfold memblockRemoveWith
  dsimp only
  rw [add32_of_lt hfit]
  rcases hreg with hfill | ⟨hne, hs⟩
  · have hrm : removeLoop base (base + size) [] (s.type k).regions = .done [filler] := by
      rw [hfill, removeLoop, if_pos (.inr rfl)]
      rfl
    rw [hrm, hfill, covered_filler, empty_sdiff]
    rw [hfill] at hlen
    exact ⟨[filler], .inl rfl, covered_filler, le_add_left 1 _, .inl ⟨hlen, rfl⟩⟩
  · have hspec : RemoveSpec ([] ++ (s.type k).regions) base (base + size) _ :=
      removeLoop_spec (by omega) hfit hne hs (forall_mem_nil _)
        fun r hr => hbase r hr (hs.pos r hr)
    rw [nil_append] at hspec
    rcases hrm : removeLoop base (base + size) [] (s.type k).regions with l' | ⟨pre, rgn, suf⟩
    · rw [hrm] at hspec
      obtain ⟨hreg', hcov, hlen'⟩ := hspec
      exact ⟨l', hreg', hcov, hlen'.trans (le_succ _), .inl ⟨hlen'.trans_lt hlen, rfl⟩⟩
    · rw [hrm] at hspec
      obtain ⟨hl, hlow, hhigh⟩ := hspec
      dsimp only
      rw [hl] at hs
      obtain ⟨hrpos, hrfit, hpre, hsuf, hprer, hrsuf⟩ := sorted_middle.mp hs
      have hble : base ≤ base + size := le_add_right base size
      rw [rend_eq hrfit, sub32_of_le hlow.le (hble.trans_lt hfit), sub32_of_le hhigh.le hrfit]
      have hstop : (⟨rgn.base, base - rgn.base⟩ : Region).stop = base :=
        add_sub_of_le hlow.le
      -- the block in front of the range, then the block behind it
      have hs1 : Sorted (pre ++ ⟨rgn.base, base - rgn.base⟩ :: suf) := by
        refine sorted_middle.mpr ⟨Nat.sub_pos_of_lt hlow, ?_, hpre, hsuf, hprer, ?_⟩
        · rw [hstop]
          exact hble.trans_lt hfit
        · rw [hstop]
          exact fun q hq => (hble.trans_lt hhigh).trans (hrsuf q hq)
      have hfit1 : base + size + (rgn.stop - (base + size)) < 2 ^ 32 := by
        rw [add_sub_of_le hhigh.le]
        exact hrfit
      have hreg1 : Regions ((s.setRegions k
          (pre ++ ⟨rgn.base, base - rgn.base⟩ :: suf)).type k).regions := by
        rw [type_setRegions_self]
        exact .inr ⟨by simp, hs1⟩
      have hlen1 :
          ((s.setRegions k (pre ++ ⟨rgn.base, base - rgn.base⟩ :: suf)).type k).regions.length <
          ((s.setRegions k (pre ++ ⟨rgn.base, base - rgn.base⟩ :: suf)).type k).max := by
        rw [type_setRegions_self]
        rw [hl] at hlen
        simpa using hlen
      obtain ⟨l'', hreg'', hcov'', hlen'', hcase⟩ :=
        addRegionWith_settles grow hreg1 hlen1 hfit1 (Nat.sub_pos_of_lt hhigh)
      simp only [type_setRegions_self, setRegions_setRegions, add_sub_of_le hhigh.le]
        at hcov'' hlen'' hcase
      refine ⟨l'', hreg'', ?_, ?_, ?_⟩
      · rw [hcov'', hl, covered_middle, covered_middle, hstop, union_sdiff_distrib,
          covered_diff_self, union_right_comm]
        · congr 1
          ext x
          simp only [mem_union, mem_Ico, mem_sdiff]
          omega
        · exact forall_mem_append.mpr ⟨fun q hq => .inl ((hprer q hq).trans hlow).le,
            fun q hq => .inr (hhigh.trans (hrsuf q hq)).le⟩
      · rw [hl]
        simpa using hlen''
      · rcases hcase with ⟨hlt, hr⟩ | ⟨hfull, hr⟩
        · rw [hr]
          exact .inl ⟨hlt, rfl⟩
        · rw [hr]
          refine .inr ⟨hfull, ?_⟩
          cases grow k (s.setRegions k l'') with
          | fail =>
            -- the block gets its size back
            have hmod : (pre ++ ⟨rgn.base, base - rgn.base⟩ :: suf).modify pre.length
                (fun r => { r with size := sub32 rgn.stop r.base }) = (s.type k).regions := by
              have hsize : sub32 rgn.stop rgn.base = rgn.size := by
                rw [sub32_of_le rgn.base_le_stop hrfit]
                exact Nat.add_sub_cancel_left _ _
              rw [modify_split, hl]
              rw [hsize]
            dsimp only [afterGrow]
            rw [type_setRegions_self]
            rw [hmod, setRegions_setRegions, setRegions_self]
          | _ => rfl

end

/-- Nothing is doubled before the slab allocator is up. The bytes of an array of `2 ^ 28` regions
cannot be doubled at all. -/
def Spare (s : State) (k : Kind) : Prop :=
  (s.type k).regions.length + 1 < (s.type k).max ∨ s.canResize = false ∨
    s.slab = true ∧ (s.type k).max < 2 ^ 28

structure Inv (s : State) : Prop where
  regions : ∀ k, Regions (s.type k).regions
  room    : ∀ k, (s.type k).regions.length < (s.type k).max

section

variable {k : Kind} {s : State} {kmalloc : ℕ → Option ℕ} {target : Set ℕ} {r : Result}

lemma grow_spare (kmalloc : ℕ → Option ℕ) (hpos : 0 < (s.type k).max)
    (hspare : s.canResize = false ∨ s.slab = true ∧ (s.type k).max < 2 ^ 28) :
    grow kmalloc k s = .fail ∨ ∃ addr, grow kmalloc k s =
      .ok (s.setType k ⟨(s.type k).regions, (s.type k).max * 2, some addr⟩) := by
  change doubleArrayWith _ kmalloc k s = _ ∨ ∃ addr, doubleArrayWith _ kmalloc k s = _
  unfold doubleArrayWith
  dsimp only
  by_cases hresize : s.canResize = false
  · rw [if_pos hresize]
    exact .inl rfl
  obtain ⟨hslab, hmax⟩ := hspare.resolve_left hresize
  have hbytes : (s.type k).bytes * 2 % 2 ^ 32 ≠ 0 := by
    unfold MemblockType.bytes
    omega
  have htwice : (s.type k).max * 2 % 2 ^ 32 = (s.type k).max * 2 := by omega
  rw [if_neg hresize, if_neg hbytes, htwice, hslab]
  cases kmalloc ((s.type k).bytes * 2 % 2 ^ 32) with
  | none => exact .inl rfl
  | some addr => exact .inr ⟨addr, rfl⟩

/-- Array `k` covers `target` now and the other one is as it was; or nothing is changed, because
there was no slot for another region. -/
def Answered (k : Kind) (s : State) (target : Set ℕ) (r : Result) : Prop :=
  (∃ s', r = .ok s' ∧ Inv s' ∧ ∀ k', covered (s'.type k').regions =
    Function.update (fun k => covered (s.type k).regions) k target k') ∨
  r = .error s ∧ (s.type k).regions.length + 1 = (s.type k).max

lemma Settles.answered (h : Settles (grow kmalloc) k s target r) (hinv : Inv s)
    (hspare : Spare s k) : Answered k s target r := by
  obtain ⟨l, hreg, hcov, hlen, hcase⟩ := h
  have hroom := hinv.room k
  -- for the array with or without a new place
  have hok : ∀ t : MemblockType, t.regions = l → l.length < t.max → Inv (s.setType k t) ∧
      ∀ k', covered ((s.setType k t).type k').regions =
        Function.update (fun k => covered (s.type k).regions) k target k' := by
    rintro t rfl hlt
    have htype : ∀ k', (s.setType k t).type k' = Function.update s.type k t k' := fun _ => rfl
    refine ⟨⟨fun k' => ?_, fun k' => ?_⟩, fun k' => ?_⟩
    · rw [htype, Function.update_apply]
      split_ifs
      · exact hreg
      · exact hinv.regions k'
    · rw [htype, Function.update_apply]
      split_ifs
      · exact hlt
      · exact hinv.room k'
    · rw [htype, Function.update_apply, Function.update_apply]
      split_ifs
      · exact hcov
      · rfl
  rcases hcase with ⟨hlt, rfl⟩ | ⟨hfull, rfl⟩
  · exact .inl ⟨_, rfl, hok _ rfl hlt⟩
  · have hgrow := grow_spare (s := s.setRegions k l) (k := k) kmalloc
    rw [type_setRegions_self] at hgrow
    have hpos : 0 < (s.type k).max := Nat.zero_lt_of_lt hroom
    rcases hgrow hpos (hspare.resolve_left (by omega)) with hfail | ⟨addr, hdone⟩
    · rw [hfail]
      exact .inr ⟨rfl, by omega⟩
    · rw [hdone]
      refine .inl ⟨_, rfl, ?_⟩
      rw [setType_setRegions]
      exact hok _ rfl (show l.length < (s.type k).max * 2 by omega)

end

end Am335x.Memblock
