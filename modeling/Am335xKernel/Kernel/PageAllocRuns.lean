import Am335xKernel.Kernel.PageAlloc
import Mathlib.Data.List.Perm.Subperm

/-!
# The free page blocks over whole runs

The lists of a zone stand for a set of free blocks. A block is taken from them (`Took`), put on
one of them (`Gave`) or moved from one to another (`Moved`); the loops of the allocator are
sequences of such steps, and each of them is a step of a buddy system.
-/

namespace Am335x.PageAlloc

open Function List Option Set Nat

open BuddySystem

def Zone.blocks (z : Zone) (o : ℕ) : List ℕ := MigrateType.all.flatMap (z.freeList o)

def Zone.free (z : Zone) : Set Block := {b | b.start ∈ z.blocks b.order}

variable {z : Zone} {o p : ℕ} {o' : ℕ}

lemma Zone.mem_free : (⟨p, o⟩ : Block) ∈ z.free ↔ p ∈ z.blocks o := Iff.rfl

structure Marks (L : Layout) (z : Zone) : Prop where
  here : ∀ b ∈ z.free, L.zoneId b.start = L.id
  order : ∀ p o, L.zoneId p = L.id → (z.order p = some o ↔ ⟨p, o⟩ ∈ z.free)
  nodup : ∀ o, (z.blocks o).Nodup

def Counted (z : Zone) : Prop := ∀ o, z.nrFree o = (z.blocks o).length

lemma Marks.unique {L : Layout} (h : Marks L z) (ho : (⟨p, o⟩ : Block) ∈ z.free)
    (ho' : (⟨p, o'⟩ : Block) ∈ z.free) : o = o' := by
  have hp := h.here _ ho
  exact some.inj (((h.order p o hp).mpr ho).symm.trans ((h.order p o' hp).mpr ho'))

section

variable {z z' : Zone} {page o : ℕ} {mt : MigrateType}

lemma blocks_listDel (z : Zone) (page o : ℕ) :
    (z.listDel page).blocks o = (z.blocks o).filter fun q => q ≠ page :=
  (filter_flatMap ..).symm

variable {l : List ℕ}

lemma perm_cons_filter (hnodup : l.Nodup) (h : page ∈ l) :
    (page :: l.filter fun q => decide (q ≠ page)).Perm l := by
  have herase : l.erase page = l.filter fun q => decide (q ≠ page) := by
    rw [hnodup.erase_eq_filter]
    refine filter_congr fun q _ => ?_
    by_cases hq : q = page <;> simp [hq]
  rw [← herase]
  exact (perm_cons_erase h).symm

lemma perm_flatMap_update {ι : Type*} [DecidableEq ι] {f : ι → List ℕ} {i : ι} {x : ℕ}
    {is : List ι} (hnodup : is.Nodup) (hi : i ∈ is) (hl : l.Perm (x :: f i)) :
    (is.flatMap (update f i l)).Perm (x :: is.flatMap f) := by
  induction is with
  | nil => cases hi
  | cons j is ih =>
    obtain ⟨hj, hnodup⟩ := nodup_cons.mp hnodup
    rw [flatMap_cons, flatMap_cons]
    by_cases hij : i = j
    · subst hij
      have hrest : is.flatMap (update f i l) = is.flatMap f := by
        refine flatMap_congr fun k hk => update_of_ne ?_ _ _
        rintro rfl
        exact hj hk
      rw [update_self, hrest]
      exact hl.append_right _
    · have hi' : i ∈ is := (mem_cons.mp hi).resolve_left hij
      rw [update_of_ne (Ne.symm hij)]
      exact ((ih hnodup hi').append_left _).trans perm_middle

lemma perm_blocks_setList (hl : l.Perm (page :: z.freeList o mt)) :
    ((z.setList o mt l).blocks o).Perm (page :: z.blocks o) := by
  have hall : mt ∈ MigrateType.all := by cases mt <;> decide
  show (MigrateType.all.flatMap (update z.freeList o _ o)).Perm _
  rw [update_self]
  exact perm_flatMap_update (by decide) hall hl

lemma blocks_setList_of_ne (h : o' ≠ o) : (z.setList o mt l).blocks o' = z.blocks o' := by
  show MigrateType.all.flatMap (update z.freeList o _ o') = _
  rw [update_of_ne h]
  rfl

end

structure Took (z : Zone) (page o : ℕ) (z' : Zone) : Prop where
  order : z'.order = update z.order page none
  blocks : ∀ o', (z'.blocks o').Perm ((z.blocks o').filter fun q => q ≠ page)
  nrFree : z'.nrFree = update z.nrFree o ((z.nrFree o + (2 ^ 32 - 1)) % 2 ^ 32)

structure Gave (z : Zone) (page o : ℕ) (z' : Zone) : Prop where
  order : z'.order = update z.order page (some o)
  blocks : (z'.blocks o).Perm (page :: z.blocks o)
  blocks_of_ne : ∀ o', o' ≠ o → z'.blocks o' = z.blocks o'
  nrFree : z'.nrFree = update z.nrFree o ((z.nrFree o + 1) % 2 ^ 32)

structure Moved (z z' : Zone) : Prop where
  order : z'.order = z.order
  blocks : ∀ o, (z'.blocks o).Perm (z.blocks o)
  nrFree : z'.nrFree = z.nrFree

section

variable {L : Layout} {z z' z'' : Zone} {page o : ℕ}
  (h : Took z page o z') (hm : Marks L z) (hpage : (⟨page, o⟩ : Block) ∈ z.free)

open Block

include h hm hpage in
lemma Took.free : z'.free = z.free \ {⟨page, o⟩} := by
  ext ⟨p, o'⟩
  rw [Zone.mem_free, (h.blocks o').mem_iff, mem_filter, mem_sdiff, mem_singleton_iff,
    Zone.mem_free, decide_eq_true_iff]
  refine and_congr_right fun hp => not_congr ?_
  constructor
  · rintro rfl
    rw [hm.unique hp hpage]
  · exact congrArg start

include h hm hpage in
lemma Took.marks : Marks L z' := by
  refine ⟨?_, ?_, fun o' => (h.blocks o').nodup_iff.mpr ((hm.nodup o').filter _)⟩
  · rw [h.free hm hpage]
    exact fun b hb => hm.here b hb.1
  · intro p o' hp
    rw [h.free hm hpage, h.order]
    by_cases hpp : p = page
    · subst hpp
      rw [update_self]
      refine iff_of_false nofun ?_
      rintro ⟨hp', hne⟩
      exact hne (by rw [hm.unique hp' hpage]; rfl)
    · rw [update_of_ne hpp, hm.order p o' hp, mem_sdiff]
      refine (and_iff_left ?_).symm
      exact fun heq => hpp (congrArg start heq)

include h hm hpage in
lemma Took.counted (hc : Counted z) (hlt : (z.blocks o).length < 2 ^ 32) : Counted z' := by
  intro o'
  rw [h.nrFree, (h.blocks o').length_eq]
  by_cases ho : o' = o
  · subst ho
    have hlen := (perm_cons_filter (hm.nodup o') (Zone.mem_free.mp hpage)).length_eq
    rw [length_cons] at hlen
    rw [update_self, hc o']
    omega
  · have hself : (z.blocks o').filter (fun q => decide (q ≠ page)) = z.blocks o' := by
      refine filter_eq_self.mpr fun q hq => decide_eq_true ?_
      rintro rfl
      exact ho (hm.unique hq hpage)
    rw [update_of_ne ho, hself, hc o']

lemma Gave.free (h : Gave z page o z') : z'.free = insert ⟨page, o⟩ z.free := by
  ext ⟨p, o'⟩
  rw [mem_insert_iff, Zone.mem_free, Zone.mem_free, mk.injEq]
  by_cases ho : o' = o
  · subst ho
    rw [h.blocks.mem_iff, mem_cons, and_iff_left rfl]
  · rw [h.blocks_of_ne o' ho, or_iff_right fun heq => ho heq.2]

lemma Gave.marks (h : Gave z page o z') (hm : Marks L z) (hid : L.zoneId page = L.id)
    (hfresh : ∀ o', (⟨page, o'⟩ : Block) ∉ z.free) : Marks L z' := by
  refine ⟨?_, ?_, fun o' => ?_⟩
  · rw [h.free]
    rintro b (rfl | hb)
    · exact hid
    · exact hm.here b hb
  · intro p o' hp
    rw [h.free, h.order, mem_insert_iff]
    by_cases hpp : p = page
    · subst hpp
      rw [update_self, or_iff_left (hfresh o'), some.injEq, mk.injEq, and_iff_right rfl, eq_comm]
    · rw [update_of_ne hpp, hm.order p o' hp, or_iff_right]
      exact fun heq => hpp (congrArg start heq)
  · by_cases ho : o' = o
    · subst ho
      exact h.blocks.nodup_iff.mpr (nodup_cons.mpr ⟨hfresh o', hm.nodup o'⟩)
    · rw [h.blocks_of_ne o' ho]
      exact hm.nodup o'

lemma Gave.counted (h : Gave z page o z') (hc : Counted z)
    (hlt : (z'.blocks o).length < 2 ^ 32) : Counted z' := by
  intro o'
  rw [h.nrFree]
  by_cases ho : o' = o
  · subst ho
    have hlen := h.blocks.length_eq
    rw [length_cons] at hlen
    rw [update_self, hc o', ← hlen]
    exact mod_eq_of_lt hlt
  · rw [update_of_ne ho, h.blocks_of_ne o' ho, hc o']

lemma Moved.free (h : Moved z z') : z'.free = z.free := by
  ext ⟨p, o⟩
  exact (h.blocks o).mem_iff

lemma Moved.marks (h : Moved z z') (hm : Marks L z) : Marks L z' := by
  refine ⟨?_, ?_, fun o => (h.blocks o).nodup_iff.mpr (hm.nodup o)⟩
  · rw [h.free]
    exact hm.here
  · rw [h.free, h.order]
    exact hm.order

lemma Moved.refl (z : Zone) : Moved z z := ⟨rfl, fun _ => List.Perm.refl _, rfl⟩

lemma Moved.trans (h : Moved z z') (h' : Moved z' z'') : Moved z z'' :=
  ⟨h'.order.trans h.order, fun o => (h'.blocks o).trans (h.blocks o), h'.nrFree.trans h.nrFree⟩

end

structure Inv (L : Layout) (z : Zone) (A : Set Block) : Prop where
  pool : Pool L.startPfn L.endPfn (maxOrder - 1) z.free A
  marks : Marks L z
  counted : Counted z

section

variable {L : Layout} {z z' : Zone} {A : Set Block} {b : Block} {page o : ℕ}

section

variable (h : Pool L.startPfn L.endPfn (maxOrder - 1) z.free A)
include h

lemma Layout.zoneId_of_mem (hb : b ∈ z.free ∪ A) {x : ℕ} (hx : x ∈ b) : L.zoneId x = L.id := by
  obtain ⟨hlo, hhi⟩ := h.tiling.mem_inside hb hx
  exact L.within x hlo hhi

lemma length_blocks_lt (hm : Marks L z) (o : ℕ) : (z.blocks o).length < 2 ^ 32 := by
  have hsub : z.blocks o ⊆ List.range L.endPfn := by
    intro p hp
    have hmem : (⟨p, o⟩ : Block) ∈ z.free ∪ A := .inl hp
    exact mem_range.mpr (h.tiling.mem_inside hmem (Block.start_mem _)).2
  have hle := ((hm.nodup o).subperm hsub).length_le
  rw [length_range] at hle
  exact hle.trans_lt L.fits

end

lemma Inv.took (h : Inv L z A) (hpage : (⟨page, o⟩ : Block) ∈ z.free) (ht : Took z page o z') :
    Inv L z' (insert ⟨page, o⟩ A) := by
  refine ⟨?_, ht.marks h.marks hpage,
    ht.counted h.marks hpage h.counted (length_blocks_lt h.pool h.marks o)⟩
  rw [ht.free h.marks hpage]
  exact h.pool.take hpage

section

variable (h : Inv L z (insert b A))
include h

variable (hA : b ∉ A)
include hA

lemma Inv.merged (hbuddy : b.buddy ∈ z.free)
    (htop : b.order < maxOrder - 1) (ht : Took z b.buddy.start b.order z') :
    Inv L z' (insert b.parent A) ∧ b.parent ∉ A := by
  have hpage : (⟨b.buddy.start, b.order⟩ : Block) ∈ z.free := hbuddy
  obtain ⟨hpool, hfresh⟩ := h.pool.merge hA hbuddy htop
  have hfree := ht.free h.marks hpage
  refine ⟨⟨?_, ht.marks h.marks hpage,
    ht.counted h.marks hpage h.counted (length_blocks_lt h.pool h.marks _)⟩, hfresh⟩
  rw [hfree]
  exact hpool

lemma Inv.fresh (hx : page ∈ b) (o : ℕ) : (⟨page, o⟩ : Block) ∉ z.free := fun hmem =>
  h.pool.not_mem_held hA (.inl hmem) (Block.start_mem _) hx

lemma Inv.gave (hbuddy : b.order < maxOrder - 1 → b.buddy ∉ z.free)
    (hg : Gave z b.start b.order z') : Inv L z' A := by
  have hmarks := hg.marks h.marks (Layout.zoneId_of_mem h.pool h.pool.mem_of_held.1 b.start_mem)
    (h.fresh hA b.start_mem)
  have hpool : Pool L.startPfn L.endPfn (maxOrder - 1) z'.free A := by
    rw [hg.free]
    exact h.pool.put hA hbuddy
  exact ⟨hpool, hmarks, hg.counted h.counted (length_blocks_lt hpool hmarks _)⟩

end

lemma Inv.halved (h : Inv L z (insert ⟨page, o + 1⟩ A)) (hA : ⟨page, o + 1⟩ ∉ A)
    (hg : Gave z (page + 2 ^ o) o z') :
    Inv L z' (insert ⟨page, o⟩ A) ∧ (⟨page, o⟩ : Block) ∉ A := by
  have hx : page + 2 ^ o ∈ (⟨page, o + 1⟩ : Block) :=
    Block.mem_halves.mpr (.inr (Block.start_mem _))
  have hmarks := hg.marks h.marks (Layout.zoneId_of_mem h.pool h.pool.mem_of_held.1 hx)
    (h.fresh hA hx)
  obtain ⟨hpool, hfresh⟩ := h.pool.halve hA
  rw [← hg.free] at hpool
  exact ⟨⟨hpool, hmarks, hg.counted h.counted (length_blocks_lt hpool hmarks _)⟩, hfresh⟩

end

section

variable {L : Layout} {z : Zone} {A : Set Block} {order page : ℕ}

lemma pageIsBuddy_iff {buddy : ℕ} (hm : Marks L z) (hpage : L.zoneId page = L.id) :
    pageIsBuddy L z page buddy order = true ↔ (⟨buddy, order⟩ : Block) ∈ z.free := by
  rw [pageIsBuddy, hpage]
  by_cases hid : L.id = L.zoneId buddy
  · rw [if_neg (not_not.mpr hid), decide_eq_true_iff, hm.order buddy order hid.symm]
  · rw [if_pos hid]
    exact iff_of_false nofun fun hmem => hid (hm.here _ hmem).symm

abbrev Cursor.block (c : Cursor) : Block := ⟨c.page, c.order⟩

/-- **The loop of `__free_one_page`.** The block at the cursor is held all the time. -/
lemma coalesce_spec {n : ℕ} {c : Cursor} (h : Inv L z (insert c.block A))
    (hA : c.block ∉ A) (hn : c.order + n = maxOrder - 1)
    (hidx : c.pageIdx = c.page % 2 ^ maxOrder) : let p := coalesce L n z c
    Inv L p.1 (insert p.2.block A) ∧ p.2.block ∉ A ∧
      (p.2.order < maxOrder - 1 → p.2.block.buddy ∉ p.1.free) := by
  induction n generalizing z c with
  | zero => exact ⟨h, hA, fun hlt => absurd hn hlt.ne⟩
  | succ n ih =>
    have hmem := h.pool.mem_of_held.1
    have haligned := h.pool.tiling.aligned _ hmem
    have htop : c.order < maxOrder - 1 := by omega
    have hid := Layout.zoneId_of_mem h.pool hmem (Block.start_mem _)
    obtain ⟨hbuddy, hparent, hcombined⟩ :=
      haligned.index (k := maxOrder) (lt_of_lt_pred htop)
    rw [← hidx] at hbuddy hparent hcombined
    have hstep : coalesce L (n + 1) z c = if pageIsBuddy L z c.page c.block.buddy.start c.order then
          coalesce L n
            (((z.listDel c.block.buddy.start).decFree c.order).rmvPageOrder c.block.buddy.start)
            ⟨c.block.parent.start, c.block.parent.start % 2 ^ maxOrder, c.order + 1⟩
        else (z, c) := by
      rw [← hcombined, ← hparent, ← hbuddy]
      rfl
    have hiff : pageIsBuddy L z c.page c.block.buddy.start c.order = true ↔
        c.block.buddy ∈ z.free := pageIsBuddy_iff h.marks hid
    simp only [hstep]
    by_cases hfree : c.block.buddy ∈ z.free
    · rw [if_pos (hiff.mpr hfree)]
      have htook : Took z c.block.buddy.start c.order
          (((z.listDel c.block.buddy.start).decFree c.order).rmvPageOrder c.block.buddy.start) :=
        ⟨rfl, fun o' => List.Perm.of_eq (blocks_listDel _ _ _), rfl⟩
      obtain ⟨hinv, hfresh⟩ := h.merged hA hfree htop htook
      exact ih hinv hfresh (by simp only; omega) rfl
    · rw [if_neg fun hb => hfree (hiff.mp hb)]
      exact ⟨h, hA, fun _ => hfree⟩

/-- **`__free_one_page`.** -/
lemma freeOnePage_spec (mt : MigrateType) (h : Inv L z (insert ⟨page, order⟩ A))
    (hA : (⟨page, order⟩ : Block) ∉ A) : Inv L (freeOnePage L z page order mt) A := by
  have hle : order ≤ maxOrder - 1 := h.pool.order_le _ h.pool.mem_of_held.1
  have hidx : page &&& (2 ^ maxOrder - 1) = page % 2 ^ maxOrder := and_two_pow_sub_one_eq_mod _ _
  obtain ⟨hinv, hfresh, hbuddy⟩ := coalesce_spec (n := maxOrder - 1 - order)
    (c := ⟨page, page &&& (2 ^ maxOrder - 1), order⟩) h hA (by simp only; omega) hidx
  refine hinv.gave hfresh hbuddy ?_
  rw [freeOnePage]
  generalize coalesce L (maxOrder - 1 - order) z ⟨page, page &&& (2 ^ maxOrder - 1), order⟩ = p
  by_cases hsoon : joinsSoon L (p.1.setPageOrder p.2.page p.2.order) p.2
  · simp only [hsoon, if_true]
    refine ⟨rfl, ?_, fun o' ho => blocks_setList_of_ne ho, rfl⟩
    exact perm_blocks_setList (perm_append_singleton _ _)
  · simp only [hsoon]
    refine ⟨rfl, ?_, fun o' ho => blocks_setList_of_ne ho, rfl⟩
    exact perm_blocks_setList (List.Perm.refl _)

end

section

variable {L : Layout} {z z' : Zone} {A : Set Block} {mt : MigrateType} {page : ℕ}
  {n o currentOrder order : ℕ}

/-- **The loop of `expand`.** -/
lemma expand_spec {low : ℕ} (h : Inv L z (insert ⟨page, low + n⟩ A))
    (hA : (⟨page, low + n⟩ : Block) ∉ A) :
    Inv L (expand page low mt n z) (insert ⟨page, low⟩ A) ∧ (⟨page, low⟩ : Block) ∉ A := by
  induction n generalizing z with
  | zero => exact ⟨h, hA⟩
  | succ n ih =>
    have hgave : Gave z (page + 2 ^ (low + n)) (low + n)
        (((z.listAdd (page + 2 ^ (low + n)) (low + n) mt).incFree (low + n)).setPageOrder
          (page + 2 ^ (low + n)) (low + n)) := by
      refine ⟨rfl, ?_, fun o' ho => blocks_setList_of_ne ho, rfl⟩
      exact perm_blocks_setList (List.Perm.refl _)
    obtain ⟨hinv, hfresh⟩ := h.halved hA hgave
    exact ih hinv hfresh

lemma mem_blocks (h : page ∈ z.freeList o mt) : page ∈ z.blocks o :=
  mem_flatMap.mpr ⟨mt, by cases mt <;> decide, h⟩

lemma Inv.allocate (h : Inv L z A) (hle : order ≤ currentOrder)
    (hpage : (⟨page, currentOrder⟩ : Block) ∈ z.free) (ht : Took z page currentOrder z') :
    Inv L (expand page order mt (currentOrder - order) z') (insert ⟨page, order⟩ A) := by
  have hinv := h.took hpage ht
  have hA : (⟨page, currentOrder⟩ : Block) ∉ A := h.pool.apart _ hpage
  rw [← add_sub_of_le hle] at hinv hA
  exact (expand_spec hinv hA).1

/-- **`__rmqueue_smallest`.** -/
lemma smallestFrom_spec (h : Inv L z A) (hle : order ≤ currentOrder)
    (hz : smallestFrom z order mt n currentOrder = some (z', page)) :
    Inv L z' (insert ⟨page, order⟩ A) := by
  induction n generalizing currentOrder with
  | zero => cases hz
  | succ n ih =>
    rw [smallestFrom] at hz
    cases hlist : z.freeList currentOrder mt with
    | nil =>
      rw [hlist] at hz
      exact ih (by omega) hz
    | cons p rest =>
      rw [hlist] at hz
      obtain ⟨rfl, rfl⟩ := Prod.mk.inj (some.inj hz)
      have hpage : (⟨p, currentOrder⟩ : Block) ∈ z.free :=
        mem_blocks (hlist ▸ mem_cons_self)
      exact h.allocate hle hpage ⟨rfl, fun o' => List.Perm.of_eq (blocks_listDel _ _ _), rfl⟩

lemma moved_listMove (mt : MigrateType) (hm : Marks L z) (hpage : (⟨page, o⟩ : Block) ∈ z.free) :
    Moved z ((z.listDel page).listAdd page o mt) := by
  refine ⟨rfl, fun o' => ?_, rfl⟩
  by_cases ho : o' = o
  · subst ho
    refine (perm_blocks_setList (List.Perm.refl _)).trans ?_
    rw [blocks_listDel]
    exact perm_cons_filter (hm.nodup o') hpage
  · rw [Zone.listAdd, blocks_setList_of_ne ho, blocks_listDel]
    refine List.Perm.of_eq (filter_eq_self.mpr fun q hq => decide_eq_true ?_)
    rintro rfl
    exact ho (hm.unique hq hpage)

/-- **The loop of `move_freepages`**, over pages of the zone. -/
lemma moveLoop_spec {endPage fuel pagesMoved : ℕ} (hm : Marks L z)
    (hzone : ∀ p, page ≤ p → p ≤ endPage → L.zoneId p = L.id) :
    Moved z (moveLoop endPage mt fuel z page pagesMoved).1 := by
  induction fuel generalizing z page pagesMoved with
  | zero => exact Moved.refl z
  | succ fuel ih =>
    rw [moveLoop]
    by_cases hle : page ≤ endPage
    · rw [if_pos hle]
      cases horder : z.order page with
      | none => exact ih hm fun p hp => hzone p (by omega)
      | some o =>
        have hpage := (hm.order page o (hzone page (le_refl _) hle)).mp horder
        have hstep := moved_listMove mt hm hpage
        refine hstep.trans (ih (hstep.marks hm) fun p hp => hzone p ?_)
        exact le_trans (le_add_right _ _) hp
    · rw [if_neg hle]
      exact Moved.refl z

/-- **`move_freepages_block`** for a page of the zone. -/
lemma moveFreepagesBlock_spec (mt : MigrateType) (hm : Marks L z) (hlo : L.startPfn ≤ page) :
    ∃ q, moveFreepagesBlock L z page mt = some q ∧ Moved z q.1 := by
  rw [moveFreepagesBlock]
  by_cases hend : L.endPfn ≤ page / pageblockNrPages * pageblockNrPages + pageblockNrPages - 1
  · rw [if_pos hend]
    exact ⟨_, rfl, Moved.refl z⟩
  · rw [if_neg hend]
    have hpos : 0 < pageblockNrPages := Nat.two_pow_pos _
    have hpage : page < page / pageblockNrPages * pageblockNrPages + pageblockNrPages :=
      lt_div_mul_add hpos
    have hzone : ∀ p, L.startPfn ≤ p →
        p ≤ page / pageblockNrPages * pageblockNrPages + pageblockNrPages - 1 →
        L.zoneId p = L.id := fun p hp hp' => L.within p hp (by rw [← Layout.endPfn]; omega)
    have hstart : L.startPfn ≤ if page / pageblockNrPages * pageblockNrPages < L.startPfn then page
        else page / pageblockNrPages * pageblockNrPages := by
      split
      · exact hlo
      · omega
    have hstart' : (if page / pageblockNrPages * pageblockNrPages < L.startPfn then page
        else page / pageblockNrPages * pageblockNrPages) ≤
        page / pageblockNrPages * pageblockNrPages + pageblockNrPages - 1 := by
      split <;> omega
    generalize (if page / pageblockNrPages * pageblockNrPages < L.startPfn then page
      else page / pageblockNrPages * pageblockNrPages) = startPage at hstart hstart'
    have hbug : ¬ L.zoneId startPage ≠
        L.zoneId (page / pageblockNrPages * pageblockNrPages + pageblockNrPages - 1) := by
      rw [hzone _ hstart hstart', hzone _ (le_trans hstart hstart') (le_refl _)]
      exact fun hne => hne rfl
    rw [moveFreepages, if_neg hbug]
    exact ⟨_, rfl, moveLoop_spec hm fun p hp hp' => hzone p (le_trans hstart hp) hp'⟩

lemma moved_setPageblock : Moved z (setPageblockMigratetype L z page mt) :=
  ⟨rfl, fun _ => List.Perm.refl _, rfl⟩

lemma moved_changePageblockRange : Moved z (changePageblockRange L mt n z page) := by
  induction n generalizing z page with
  | zero => exact Moved.refl z
  | succ n ih => exact moved_setPageblock.trans ih

lemma claim_spec (currentOrder : ℕ) (start mt : MigrateType) (hm : Marks L z)
    (hlo : L.startPfn ≤ page) :
    ∃ q, claim L z page currentOrder start mt = some q ∧ Moved z q.1 := by
  rw [claim]
  by_cases hworth : pageblockOrder >>> 1 ≤ currentOrder ∨ start = .reclaimable ∨ L.mobilityDisabled
  · obtain ⟨⟨z1, pages⟩, hmove, hmoved⟩ := moveFreepagesBlock_spec start hm hlo
    rw [if_pos hworth, hmove]
    refine ⟨_, rfl, ?_⟩
    by_cases hhalf : 2 ^ (pageblockOrder - 1) ≤ pages ∨ L.mobilityDisabled
    · simp only [hhalf, if_true]
      exact hmoved.trans moved_setPageblock
    · simp only [hhalf, if_false]
      exact hmoved
  · rw [if_neg hworth]
    exact ⟨_, rfl, Moved.refl z⟩

/-- **The body of the loops of `__rmqueue_fallback`.** -/
lemma steal_spec (start mt : MigrateType) (h : Inv L z A) (hle : order ≤ currentOrder)
    (hpage : (⟨page, currentOrder⟩ : Block) ∈ z.free) :
    ∃ z', steal L z order currentOrder page start mt = some (z', page) ∧
      Inv L z' (insert ⟨page, order⟩ A) := by
  obtain ⟨hlo, -⟩ := h.pool.tiling.mem_inside (.inl hpage) (Block.start_mem _)
  have hmarks : Marks L (z.decFree currentOrder) := ⟨h.marks.here, h.marks.order, h.marks.nodup⟩
  obtain ⟨⟨z1, mt'⟩, hclaim, hmoved⟩ := claim_spec currentOrder start mt hmarks hlo
  have htook : ∀ z2, Moved ((z1.listDel page).rmvPageOrder page) z2 →
      Took z page currentOrder z2 := by
    intro z2 hz2
    have horder : z1.order = z.order := hmoved.order
    refine ⟨hz2.order.trans ?_, fun o' => (hz2.blocks o').trans ?_, hz2.nrFree.trans hmoved.nrFree⟩
    · show update z1.order page none = _
      rw [horder]
    · show ((z1.listDel page).blocks o').Perm _
      rw [blocks_listDel]
      exact (hmoved.blocks o').filter _
  have hsteal : steal L z order currentOrder page start mt =
      some (expand page order mt' (currentOrder - order) (if pageblockOrder ≤ currentOrder then
          changePageblockRange L start (2 ^ (currentOrder - pageblockOrder))
            ((z1.listDel page).rmvPageOrder page) page
        else (z1.listDel page).rmvPageOrder page), page) := by
    rw [steal, hclaim]
    rfl
  refine ⟨_, hsteal, h.allocate hle hpage (htook _ ?_)⟩
  by_cases hlarge : pageblockOrder ≤ currentOrder
  · rw [if_pos hlarge]
    exact moved_changePageblockRange
  · rw [if_neg hlarge]
    exact Moved.refl _

/-- **`__rmqueue_fallback`.** -/
lemma rmqueueFallback_spec (order : ℕ) (start : MigrateType) (h : Inv L z A) :
    ∃ r, rmqueueFallback L z order start = some r ∧
      ∀ z' page, r = some (z', page) → Inv L z' (insert ⟨page, order⟩ A) := by
  rw [rmqueueFallback]
  cases hfind : (candidates order start).findSome? fun q =>
      (z.freeList q.1 q.2).head?.map fun page => (q.1, q.2, page) with
  | none => exact ⟨none, rfl, fun z' page hr => by cases hr⟩
  | some found =>
    obtain ⟨currentOrder, mt, page⟩ := found
    obtain ⟨⟨o, mt'⟩, hmem, hhead⟩ := exists_of_findSome?_eq_some hfind
    obtain ⟨p, hp, heq⟩ := map_eq_some_iff.mp hhead
    obtain ⟨rfl, hrest⟩ := Prod.mk.inj heq
    obtain ⟨rfl, rfl⟩ := Prod.mk.inj hrest
    have hle : order ≤ o := by
      obtain ⟨o', ho', hmap⟩ := mem_flatMap.mp hmem
      obtain ⟨mt, -, hpair⟩ := mem_map.mp hmap
      obtain ⟨rfl, -⟩ := Prod.mk.inj hpair
      exact of_decide_eq_true (mem_filter.mp ho').2
    obtain ⟨z', hsteal, hinv⟩ := steal_spec start mt' h hle
      (mem_blocks (mem_of_mem_head? hp))
    refine ⟨some (z', p), ?_, ?_⟩
    · show (steal L z order o p start mt').map some = _
      rw [hsteal]
      rfl
    rintro z'' page hr
    cases hr
    exact hinv

end

/-- No block is free yet: the pages of the zone are all allocated, in any blocks. Other pages
that carry the id of the zone are not marked. -/
structure Boot (L : Layout) (s : System) : Prop where
  freeList : ∀ o mt, s.zone.freeList o mt = []
  nrFree : ∀ o, s.zone.nrFree o = 0
  order : ∀ p, L.zoneId p = L.id → s.zone.order p = none
  tiling : Tiling L.startPfn L.endPfn s.allocated
  order_lt : ∀ b ∈ s.allocated, b.order < maxOrder

section

variable {L : Layout} {s s0 : System}

lemma Boot.inv (h : Boot L s) : Inv L s.zone s.allocated := by
  have hblocks : ∀ o, s.zone.blocks o = [] := fun o =>
    flatMap_eq_nil_iff.mpr fun mt _ => h.freeList o mt
  have hfree : s.zone.free = ∅ := by
    ext ⟨p, o⟩
    rw [Zone.mem_free, hblocks]
    exact iff_of_false not_mem_nil (notMem_empty _)
  refine ⟨⟨?_, ?_, ?_, ?_⟩, ⟨?_, ?_, ?_⟩, ?_⟩
  · rw [hfree, empty_union]
    exact h.tiling
  · rw [hfree]
    exact fun b hb => absurd hb (notMem_empty b)
  · rw [hfree, empty_union]
    exact fun b hb => le_pred_of_lt (h.order_lt b hb)
  · rw [hfree]
    exact fun b hb => absurd hb (notMem_empty b)
  · rw [hfree]
    exact fun b hb => absurd hb (notMem_empty b)
  · intro p o hp
    rw [hfree, h.order p hp]
    exact iff_of_false nofun (notMem_empty _)
  · intro o
    rw [hblocks]
    exact nodup_nil
  · intro o
    rw [hblocks, h.nrFree]
    rfl

lemma call_spec (h : Inv L s.zone s.allocated) (i : Call) (hlegal : Legal s i) :
    ∃ s' r, call L s i = some (s', r) ∧ Inv L s'.zone s'.allocated := by
  have halloc : ∀ order (r : Option (Zone × ℕ)),
      (∀ z' page, r = some (z', page) → Inv L z' (insert ⟨page, order⟩ s.allocated)) →
      Inv L (s.alloc order r).1.zone (s.alloc order r).1.allocated := by
    intro order r hr
    cases r with
    | none => exact h
    | some q => exact hr q.1 q.2 rfl
  cases i with
  | smallest order mt =>
    exact ⟨_, _, rfl, halloc order _ fun z' page hz => smallestFrom_spec h (le_refl _) hz⟩
  | fallback order mt =>
    obtain ⟨r, hr, hinv⟩ := rmqueueFallback_spec order mt h
    refine ⟨_, (s.alloc order r).2, ?_, halloc order r hinv⟩
    show (rmqueueFallback L s.zone order mt).map (s.alloc order) = _
    rw [hr]
    rfl
  | free page order mt =>
    refine ⟨_, _, rfl, freeOnePage_spec mt ?_ fun hmem => hmem.2 rfl⟩
    rw [insert_sdiff_singleton, insert_eq_of_mem hlegal]
    exact h

lemma inv_of_reach (hboot : Boot L s0) (h : (call L).Reach Legal s0 s) :
    Inv L s.zone s.allocated := by
  refine h.invariant (I := fun s => Inv L s.zone s.allocated) hboot.inv ?_
  intro t t' i r hI hlegal hcall
  obtain ⟨s', r', hcall', hinv⟩ := call_spec hI i hlegal
  cases hcall'.symm.trans hcall
  exact hinv

/-- In every state that allocations and frees lead to, the free and the allocated blocks divide the
pages of the zone into aligned blocks, no two buddies below the largest order are both free, the
counters are right, each block is on one list only, and no call fails. -/
theorem buddy_right (hboot : Boot L s0) (h : (call L).Reach Legal s0 s) :
    Pool L.startPfn L.endPfn (maxOrder - 1) s.zone.free s.allocated ∧
    (∀ o, s.zone.nrFree o = (s.zone.blocks o).length ∧ (s.zone.blocks o).Nodup) ∧
    ∀ i, Legal s i → ∃ q, call L s i = some q := by
  have hinv := inv_of_reach hboot h
  refine ⟨hinv.pool, fun o => ⟨hinv.counted o, hinv.marks.nodup o⟩, ?_⟩
  intro i hlegal
  obtain ⟨s', r, hcall, -⟩ := call_spec hinv i hlegal
  exact ⟨(s', r), hcall⟩

def fourPages : Layout where
  startPfn := 0
  spannedPages := 4
  zoneId := fun p => p / 4
  id := 0
  mobilityDisabled := false
  within := fun p _ hp => div_eq_of_lt (by omega)
  fits := by decide

def fourPagesBoot : System where
  zone := ⟨fun _ => none, fun _ _ => [], fun _ => 0, fun _ => .movable⟩
  allocated := {⟨0, 2⟩}

lemma boot_fourPages : Boot fourPages fourPagesBoot where
  freeList _ _ := rfl
  nrFree _ := rfl
  order _ _ := rfl
  order_lt := by
    rintro b rfl
    decide
  tiling := by
    refine ⟨?_, ?_, ?_, ?_⟩
    · rintro b rfl
      exact ⟨0, rfl⟩
    · rintro b rfl
      decide
    · intro x hlo hhi
      exact ⟨⟨0, 2⟩, rfl, hlo, hhi⟩
    · rintro b rfl b' rfl x - -
      rfl

/-- The block is freed, a page of it is allocated, and freed again. -/
theorem buddy_right_fourPages : ∃ s, (call fourPages).Reach Legal fourPagesBoot s ∧
    s.zone.nrFree 2 = 1 ∧ Pool 0 4 10 s.zone.free s.allocated := by
  have hagain : ∃ s, (call fourPages).Reach Legal fourPagesBoot s ∧ s.zone.nrFree 2 = 1 :=
    ⟨_, .call (i := .free 0 0 .movable) (.call (i := .smallest 0 .movable)
      (.call (i := .free 0 2 .movable) .start rfl rfl) trivial rfl) (.inl rfl) rfl, rfl⟩
  obtain ⟨s, hreach, hfree⟩ := hagain
  exact ⟨s, hreach, hfree, (buddy_right boot_fourPages hreach).1⟩

/-- The allocated blocks alone tell which blocks are free, whatever the allocations and frees before
and their order. -/
theorem free_of_allocated {s' s1 : System} (hboot : Boot L s0) (h : (call L).Reach Legal s0 s)
    (hboot' : Boot L s1) (h' : (call L).Reach Legal s1 s')
    (hallocated : s'.allocated = s.allocated) :
    s'.zone.free = s.zone.free := by
  have hpool := (inv_of_reach hboot h).pool
  have hpool' := (inv_of_reach hboot' h').pool
  rw [hallocated] at hpool'
  exact (hpool'.subset_free hpool).antisymm (hpool.subset_free hpool')

/-- A page of the block that was freed is allocated, and freed again. -/
theorem free_of_allocated_fourPages : ∃ s, (call fourPages).Reach Legal fourPagesBoot s ∧
    s.zone.free = (freeOnePage fourPages fourPagesBoot.zone 0 2 .movable).free := by
  have hfree : (call fourPages).Reach Legal fourPagesBoot _ :=
    .call (i := .free 0 2 .movable) .start rfl rfl
  have hagain : ∃ s, (call fourPages).Reach Legal fourPagesBoot s ∧
      s.allocated = fourPagesBoot.allocated \ {⟨0, 2⟩} := by
    refine ⟨_, .call (i := .free 0 0 .movable) (.call (i := .smallest 0 .movable) hfree trivial rfl)
      (.inl rfl) rfl, ?_⟩
    exact insert_sdiff_self_of_notMem fun h => h.2 h.1
  obtain ⟨s, hreach, hallocated⟩ := hagain
  exact ⟨s, hreach, free_of_allocated boot_fourPages hfree boot_fourPages hreach hallocated⟩

end

end Am335x.PageAlloc
