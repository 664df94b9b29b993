import Am335xKernel.Lib.Spans
import Am335xKernel.Mm.Memblock

/-!
# The arrays of memory blocks as sets

`covered` is the set of addresses that the regions of an array contain, `Regions` the
form that an array has: sorted, with a gap between any two regions and none of them
empty, or the filler alone.
-/

namespace Am335x.Memblock

open Spans List Nat Set

def Region.stop (r : Region) : ℕ := r.base + r.size

def covered (l : List Region) : Set ℕ := {x | ∃ r ∈ l, r.base ≤ x ∧ x < r.stop}

structure Sorted (l : List Region) : Prop where
  pos     : ∀ r ∈ l, 0 < r.size
  fit     : ∀ r ∈ l, r.stop < 2 ^ 32
  ordered : Ordered Region.base (fun r => r.stop + 1) l

def Regions (l : List Region) : Prop := l = [filler] ∨ l ≠ [] ∧ Sorted l

section

variable {a b x : ℕ} {r rgn : Region} {l A B pre suf : List Region}

lemma add32_of_lt (h : a + b < 2 ^ 32) : add32 a b = a + b := Nat.mod_eq_of_lt h

lemma sub32_of_le (h : b ≤ a) (ha : a < 2 ^ 32) : sub32 a b = a - b := by
  have hsum : a + (2 ^ 32 - b) = (a - b) + 2 ^ 32 := by omega
  rw [sub32, hsum, add_mod_right, mod_eq_of_lt ((sub_le a b).trans_lt ha)]

lemma Region.base_le_stop (r : Region) : r.base ≤ r.stop := Nat.le_add_right _ _

lemma rend_eq (h : r.stop < 2 ^ 32) : r.rend = r.stop := add32_of_lt h

lemma covered_nil : covered [] = ∅ := by
  ext x
  simp [covered]

lemma covered_filler : covered [filler] = ∅ := by
  ext x
  simp [covered, filler, Region.stop]

lemma covered_cons : covered (r :: l) = Set.Ico r.base r.stop ∪ covered l := by
  ext x
  simp [covered]

lemma covered_append : covered (A ++ B) = covered A ∪ covered B := by
  ext x
  simp only [covered, mem_append, mem_ofPred_eq, mem_union, or_and_right, exists_or]

lemma covered_middle : covered (A ++ r :: B) = Set.Ico r.base r.stop ∪ covered (A ++ B) := by
  rw [covered_append, covered_cons, covered_append, union_left_comm]

lemma sorted_middle : Sorted (A ++ r :: B) ↔ 0 < r.size ∧ r.stop < 2 ^ 32 ∧ Sorted A ∧ Sorted B ∧
      (∀ a ∈ A, a.stop < r.base) ∧ ∀ b ∈ B, r.stop < b.base := by
  constructor
  · rintro ⟨hpos, hfit, hord⟩
    obtain ⟨-, hA, hB, hAr, hrB⟩ := ordered_middle.mp hord
    refine ⟨hpos r (by simp), hfit r (by simp), ⟨?_, ?_, hA⟩, ⟨?_, ?_, hB⟩, hAr, hrB⟩
    · exact fun a ha => hpos a (mem_append_left _ ha)
    · exact fun a ha => hfit a (mem_append_left _ ha)
    · exact fun b hb => hpos b (mem_append_right _ (mem_cons_of_mem r hb))
    · exact fun b hb => hfit b (mem_append_right _ (mem_cons_of_mem r hb))
  · rintro ⟨hr, hrfit, hA, hB, hAr, hrB⟩
    have hbase : r.base < r.stop + 1 := lt_succ_of_le (le_add_right _ _)
    refine ⟨?_, ?_, ordered_middle.mpr ⟨hbase, hA.ordered, hB.ordered, hAr, hrB⟩⟩
    · exact forall_mem_append.mpr ⟨hA.pos, forall_mem_cons.mpr ⟨hr, hB.pos⟩⟩
    · exact forall_mem_append.mpr ⟨hA.fit, forall_mem_cons.mpr ⟨hrfit, hB.fit⟩⟩

lemma sorted_nil : Sorted [] := ⟨nofun, nofun, ordered_nil⟩

lemma Sorted.drop (h : Sorted (A ++ r :: B)) : Sorted (A ++ B) := by
  have hsub : (A ++ B).Sublist (A ++ r :: B) :=
    List.Sublist.append_left (sublist_cons_self r B) A
  exact ⟨fun a ha => h.pos a (hsub.mem ha), fun a ha => h.fit a (hsub.mem ha),
    fun a ha => h.ordered.valid a (hsub.mem ha), h.ordered.apart.sublist hsub⟩

lemma Regions.ne_nil (h : Regions l) : l ≠ [] := by
  rcases h with rfl | h
  · exact nofun
  · exact h.1

end

section

variable {base size fin : ℕ} {r rgn : Region} {l A B pre suf : List Region}

/-- What the first loop leaves, from `l` and a range `[base, fin)`. -/
def CoalesceSpec (l : List Region) (base fin : ℕ) : Coalesced → Prop
  | .covered l' =>
    l' ≠ [] ∧ Sorted l' ∧ covered l' = covered l ∪ Set.Ico base fin ∧ l'.length ≤ l.length
  | .rest l' b z =>
    0 < z ∧ b + z = fin ∧ covered l' ∪ Set.Ico b fin = covered l ∪ Set.Ico base fin ∧
      (l' = [filler] ∨ l' ≠ [] ∧ Sorted l' ∧ (∀ r ∈ l', r.stop < b ∨ fin < r.base) ∧
        (l' = l ∨ l'.length < l.length))

lemma CoalesceSpec.trans {l0 : List Region} {base0 : ℕ} {c : Coalesced}
    (h : CoalesceSpec l base fin c) (hlen : l.length < l0.length)
    (hcov : covered l ∪ Set.Ico base fin = covered l0 ∪ Set.Ico base0 fin) :
    CoalesceSpec l0 base0 fin c := by
  cases c with
  | covered l' =>
    obtain ⟨hne, hs, hc, hl⟩ := h
    exact ⟨hne, hs, hc.trans hcov, hl.trans hlen.le⟩
  | rest l' b z =>
    obtain ⟨hz, hbz, hc, hform⟩ := h
    refine ⟨hz, hbz, hc.trans hcov, hform.imp_right ?_⟩
    rintro ⟨hne, hs, hapart, hl⟩
    refine ⟨hne, hs, hapart, .inr ?_⟩
    rcases hl with rfl | hl
    · exact hlen
    · exact hl.trans hlen

lemma coalesce_swallow (pre suf : List Region) (hbase : base ≤ rgn.stop)
    (hstop : rgn.stop ≤ fin) : covered (pre ++ suf) ∪ Set.Ico (min base rgn.base) fin =
      covered (pre ++ rgn :: suf) ∪ Set.Ico base fin := by
  have hunion : Set.Ico rgn.base rgn.stop ∪ Set.Ico base fin = Set.Ico (min base rgn.base) fin := by
    rw [Set.Ico_union_Ico' hbase (rgn.base_le_stop.trans hstop), max_eq_right hstop, min_comm]
  rw [covered_middle, ← hunion, union_left_comm, union_assoc]

/-- **The first loop** of `memblock_add_region`. -/
lemma coalesce_spec (hfin : fin < 2 ^ 32) (hpos : 0 < size) (hsum : base + size = fin)
    (hne : pre ++ suf ≠ []) (hs : Sorted (pre ++ suf)) (hpre : ∀ p ∈ pre, p.stop < base) :
    CoalesceSpec (pre ++ suf) base fin (coalesce fin base size pre suf) := by
  induction suf generalizing base size pre with
  | nil =>
    rw [append_nil] at hne hs ⊢
    refine ⟨hpos, hsum, rfl, .inr ⟨hne, hs, ?_, .inl rfl⟩⟩
    intro r hr
    exact .inl (hpre r hr)
  | cons rgn suf ih =>
    obtain ⟨hrpos, hrfit, hpres, hsuf, hprer, hrsuf⟩ := sorted_middle.mp hs
    have hrend : rgn.rend = rgn.stop := rend_eq hrfit
    have hbs : base < fin := by omega
    have hrbs : rgn.base < rgn.stop := Nat.lt_add_of_pos_right hrpos
    rw [coalesce, hrend]
    by_cases hhit : fin < rgn.base ∨ rgn.size = 0
    · -- all that follows lies after the range
      rw [if_pos hhit]
      have hlt : fin < rgn.base := hhit.resolve_right hrpos.ne'
      refine ⟨hpos, hsum, rfl, .inr ⟨hne, hs, ?_, .inl rfl⟩⟩
      exact forall_mem_append.mpr ⟨fun r hr => .inl (hpre r hr), forall_mem_cons.mpr ⟨.inr hlt,
        fun r hr => .inr (hlt.trans (hrbs.trans (hrsuf r hr)))⟩⟩
    rw [if_neg hhit]
    have hle : rgn.base ≤ fin := not_lt.mp fun h => hhit (.inl h)
    by_cases hin : rgn.base ≤ base ∧ fin ≤ rgn.stop
    · rw [if_pos hin]
      refine ⟨hne, hs, ?_, le_rfl⟩
      rw [covered_middle, union_right_comm,
        union_eq_self_of_subset_right (Set.Ico_subset_Ico hin.1 hin.2)]
    rw [if_neg hin]
    by_cases hlow : base < rgn.base ∧ rgn.base ≤ fin ∧ fin ≤ rgn.stop
    · -- the block grows downwards and is all there is
      rw [if_pos hlow, sub32_of_le (hlow.1.trans hrbs).le hrfit]
      have hnew : (⟨base, rgn.stop - base⟩ : Region).stop = rgn.stop :=
        add_sub_of_le (hlow.1.trans hrbs).le
      refine ⟨append_ne_nil_of_right_ne_nil _ nofun, ?_, ?_, by simp⟩
      · refine sorted_middle.mpr
          ⟨Nat.sub_pos_of_lt (hlow.1.trans hrbs), ?_, hpres, hsuf, hpre, ?_⟩
        · rw [hnew]
          exact hrfit
        · rw [hnew]
          exact hrsuf
      · rw [covered_middle, covered_middle, hnew, union_right_comm,
          union_comm (Set.Ico rgn.base rgn.stop),
          Set.Ico_union_Ico' hlow.2.1 (hbs.le.trans hlow.2.2), max_eq_right hlow.2.2,
          min_eq_left hlow.1.le]
    rw [if_neg hlow]
    dsimp only
    -- the block becomes part of the range, or lies in front of it
    by_cases htop : base ≤ rgn.stop
    · have hend : rgn.stop ≤ fin := by
        by_contra hcon
        have hcon := not_le.mp hcon
        rcases lt_or_ge base rgn.base with hb | hb
        · exact hlow ⟨hb, hle, hcon.le⟩
        · exact hin ⟨hb, hcon.le⟩
      have hmerge := coalesce_swallow pre suf htop hend
      have hstep : ∀ b z, b = min base rgn.base → z = fin - b →
          CoalesceSpec (pre ++ rgn :: suf) base fin
            (if pre = [] ∧ suf = [] then .rest [filler] b z else coalesce fin b z pre suf) := by
        rintro b z rfl rfl
        have hb : min base rgn.base < fin := (min_le_left _ _).trans_lt hbs
        split_ifs with hempty
        · obtain ⟨rfl, rfl⟩ := hempty
          refine ⟨Nat.sub_pos_of_lt hb, Nat.add_sub_of_le hb.le, ?_, .inl rfl⟩
          rw [covered_filler, ← hmerge, append_nil, covered_nil]
        · have hne' : pre ++ suf ≠ [] := fun h => hempty (append_eq_nil_iff.mp h)
          refine (ih (Nat.sub_pos_of_lt hb) (Nat.add_sub_of_le hb.le) hne' hs.drop ?_).trans ?_
            hmerge
          · intro p hp
            exact lt_min (hpre p hp) (hprer p hp)
          · simp
      by_cases hb : base < rgn.base ∧ rgn.base ≤ fin
      · simp only [if_pos hb]
        rw [if_pos ⟨le_rfl, hend⟩]
        apply hstep
        · exact (min_eq_left hb.1.le).symm
        · rw [sub32_of_le hend hfin, sub32_of_le htop hrfit, add32_of_lt (by omega)]
          omega
      · simp only [if_neg hb]
        rw [if_pos ⟨htop, hend⟩]
        have hb' : rgn.base ≤ base := not_lt.mp fun h => hb ⟨h, hle⟩
        apply hstep
        · exact (min_eq_right hb').symm
        · rw [sub32_of_le hb' (by omega), add32_of_lt (by omega)]
          omega
    · have htop' : rgn.stop < base := not_le.mp htop
      have hb : ¬ (base < rgn.base ∧ rgn.base ≤ fin) := by omega
      simp only [if_neg hb]
      rw [if_neg fun h => htop h.1]
      have happ : pre ++ rgn :: suf = (pre ++ [rgn]) ++ suf := append_cons pre rgn suf
      rw [happ] at hne hs ⊢
      refine ih hpos hsum hne hs ?_
      exact forall_mem_append.mpr ⟨hpre, forall_mem_singleton.mpr htop'⟩

lemma slotOf_split (hA : ∀ a ∈ A, a.base ≤ base) (hB : ∀ b ∈ B, base < b.base) :
    slotOf base (A ++ B) = A.length := by
  have htake : (A ++ B).reverse.takeWhile (fun r => base < r.base) = B.reverse := by
    rw [reverse_append, takeWhile_append_of_pos]
    · rcases hrev : A.reverse with _ | ⟨a, A'⟩
      · simp
      · have ha : a ∈ A := mem_reverse.mp (hrev ▸ mem_cons_self)
        rw [takeWhile_cons_of_neg (by simpa using hA a ha), append_nil]
    · intro b hb
      exact decide_eq_true (hB b (mem_reverse.mp hb))
  rw [slotOf, htake, length_append, length_reverse, Nat.add_sub_cancel]

lemma insertRegion_split (hne : A ++ B ≠ []) (hA : ∀ a ∈ A, a.base ≤ r.base)
    (hB : ∀ b ∈ B, r.base < b.base) : insertRegion r (A ++ B) = (A ++ r :: B, A.length) := by
  have hslot := slotOf_split hA hB
  unfold insertRegion
  cases A with
  | nil =>
    cases B with
    | nil => exact absurd rfl hne
    | cons b B =>
      dsimp only [nil_append] at hslot ⊢
      rw [hslot, length_nil, if_pos (hB b mem_cons_self)]
      rfl
  | cons a A =>
    dsimp only [cons_append] at hslot ⊢
    have htake : (a :: (A ++ B)).take (a :: A).length = a :: A := take_left' rfl
    have hdrop : (a :: (A ++ B)).drop (a :: A).length = B := drop_left' rfl
    have hpos : (a :: A).length ≠ 0 := length_eq_zero_iff.not.mpr nofun
    rw [hslot, if_neg (hA a mem_cons_self).not_gt, if_neg hpos, htake, hdrop]
    rfl

lemma memblockRemoveRegion_split (hne : A ++ B ≠ []) :
    memblockRemoveRegion (A ++ r :: B) A.length = A ++ B := by
  have herase : (A ++ r :: B).eraseIdx A.length = A ++ B := by
    rw [eraseIdx_append_of_length_le le_rfl, Nat.sub_self]
    rfl
  unfold memblockRemoveRegion
  rw [herase]
  split
  · rename_i hnil
    exact absurd hnil hne
  · rfl

lemma Sorted.split_at (hs : Sorted l) (hapart : ∀ r ∈ l, r.stop < base ∨ fin < r.base) :
    ∃ A B, l = A ++ B ∧ (∀ a ∈ A, a.stop < base) ∧ ∀ b ∈ B, fin < b.base := by
  induction l with
  | nil => exact ⟨[], [], rfl, nofun, nofun⟩
  | cons r l ih =>
    obtain ⟨-, -, -, hl, -, hrl⟩ := sorted_middle.mp (show Sorted ([] ++ r :: l) from hs)
    rcases hapart r mem_cons_self with hr | hr
    · obtain ⟨A, B, rfl, hA, hB⟩ := ih hl fun a ha => hapart a (mem_cons_of_mem r ha)
      refine ⟨r :: A, B, rfl, ?_, hB⟩
      exact forall_mem_cons.mpr ⟨hr, hA⟩
    · refine ⟨[], r :: l, rfl, nofun, ?_⟩
      exact forall_mem_cons.mpr ⟨hr, fun b hb => hr.trans (r.base_le_stop.trans_lt (hrl b hb))⟩

/-- **The second loop** of `memblock_add_region`, and how it is undone. -/
lemma insertRegion_spec (hne : l ≠ []) (hs : Sorted l) (hpos : 0 < size)
    (hfit : base + size < 2 ^ 32) (hapart : ∀ r ∈ l, r.stop < base ∨ base + size < r.base) :
    ∃ l' k, insertRegion ⟨base, size⟩ l = (l', k) ∧ l' ≠ [] ∧ Sorted l' ∧
      covered l' = covered l ∪ Set.Ico base (base + size) ∧ l'.length = l.length + 1 ∧
      memblockRemoveRegion l' k = l := by
  obtain ⟨A, B, rfl, hA, hB⟩ := hs.split_at hapart
  have hsA : Sorted A := ⟨fun a ha => hs.pos a (mem_append_left B ha),
    fun a ha => hs.fit a (mem_append_left B ha), (ordered_append.mp hs.ordered).1⟩
  have hsB : Sorted B := ⟨fun b hb => hs.pos b (mem_append_right A hb),
    fun b hb => hs.fit b (mem_append_right A hb), (ordered_append.mp hs.ordered).2.1⟩
  refine ⟨A ++ ⟨base, size⟩ :: B, A.length, insertRegion_split hne ?_ ?_, by simp, ?_, ?_, ?_,
    memblockRemoveRegion_split hne⟩
  · intro a ha
    exact a.base_le_stop.trans (hA a ha).le
  · intro b hb
    exact (le_add_right base size).trans_lt (hB b hb)
  · exact sorted_middle.mpr ⟨hpos, hfit, hsA, hsB, hA, hB⟩
  · rw [covered_middle, union_comm]
    rfl
  · rw [length_append, length_append, length_cons, add_assoc]

end

section

variable {base fin : ℕ} {r rgn : Region} {l pre suf : List Region}

/-- What the loop of `__memblock_remove` leaves, from `l` and a range `[base, fin)`. -/
def RemoveSpec (l : List Region) (base fin : ℕ) : Removed → Prop
  | .done l' => Regions l' ∧ covered l' = covered l \ Set.Ico base fin ∧ l'.length ≤ l.length
  | .split pre rgn suf => l = pre ++ rgn :: suf ∧ rgn.base < base ∧ fin < rgn.stop

lemma RemoveSpec.trans {l0 l' : List Region} (h : RemoveSpec l0 base fin (.done l'))
    (hcov : covered l0 \ Set.Ico base fin = covered l \ Set.Ico base fin)
    (hlen : l0.length ≤ l.length) : RemoveSpec l base fin (.done l') :=
  ⟨h.1, h.2.1.trans hcov, h.2.2.trans hlen⟩

lemma covered_diff_self (h : ∀ q ∈ l, q.stop ≤ base ∨ fin ≤ q.base) :
    covered l \ Set.Ico base fin = covered l := by
  rw [sdiff_eq_left, Set.disjoint_left]
  rintro x ⟨a, ha, hax, hxa⟩ ⟨hx1, hx2⟩
  rcases h a ha with hstop | hstart
  · exact absurd (hx1.trans_lt hxa) hstop.not_gt
  · exact absurd (hax.trans_lt hx2) hstart.not_gt

lemma removeLoop_behind (hfin : fin < 2 ^ 32) (hne : pre ++ suf ≠ [])
    (hs : Sorted (pre ++ suf)) (hpre : ∀ p ∈ pre, p.stop ≤ base)
    (hsuf : ∀ q ∈ suf, base ≤ q.base) (hbase : ∀ r ∈ suf, r.base ≠ fin) :
    ∃ l', removeLoop base fin pre suf = .done l' ∧ RemoveSpec (pre ++ suf) base fin (.done l') := by
  induction suf with
  | nil =>
    rw [append_nil] at hne hs ⊢
    have hsame : covered pre \ Set.Ico base fin = covered pre :=
      covered_diff_self fun q hq => .inl (hpre q hq)
    exact ⟨pre, rfl, .inr ⟨hne, hs⟩, hsame.symm, le_rfl⟩
  | cons rgn suf ih =>
    obtain ⟨hrpos, hrfit, hpres, hsufs, hprer, hrsuf⟩ := sorted_middle.mp hs
    have hrbs : rgn.base < rgn.stop := Nat.lt_add_of_pos_right hrpos
    obtain ⟨hrb, hsuf⟩ := forall_mem_cons.mp hsuf
    obtain ⟨hrbase, hbase⟩ := forall_mem_cons.mp hbase
    rw [removeLoop, rend_eq hrfit]
    by_cases hhit : fin < rgn.base ∨ rgn.size = 0
    · rw [if_pos hhit]
      have hlt : fin < rgn.base := hhit.resolve_right hrpos.ne'
      refine ⟨_, rfl, .inr ⟨hne, hs⟩, (covered_diff_self ?_).symm, le_rfl⟩
      exact forall_mem_append.mpr ⟨fun q hq => .inl (hpre q hq), forall_mem_cons.mpr ⟨.inr hlt.le,
        fun q hq => .inr (hlt.trans (hrbs.trans (hrsuf q hq))).le⟩⟩
    rw [if_neg hhit]
    have hlt : rgn.base < fin :=
      lt_of_le_of_ne (not_lt.mp fun h => hhit (.inl h)) hrbase
    by_cases hin : base ≤ rgn.base ∧ rgn.stop ≤ fin
    · rw [if_pos hin]
      have hgone : covered (pre ++ rgn :: suf) \ Set.Ico base fin =
          covered (pre ++ suf) \ Set.Ico base fin := by
        rw [covered_middle, union_sdiff_distrib,
          sdiff_eq_empty.mpr (Set.Ico_subset_Ico hin.1 hin.2), empty_union]
      split_ifs with hempty
      · obtain ⟨rfl, rfl⟩ := hempty
        refine ⟨_, rfl, .inl rfl, ?_, le_rfl⟩
        rw [hgone, covered_filler, append_nil, covered_nil, empty_sdiff]
      · have hne' : pre ++ suf ≠ [] := fun h => hempty (append_eq_nil_iff.mp h)
        obtain ⟨l', hrun, hspec⟩ := ih hne' hs.drop hsuf hbase
        exact ⟨l', hrun, hspec.trans hgone.symm (by simp)⟩
    · -- the block goes on after the range
      have hout : fin < rgn.stop := not_le.mp fun h => hin ⟨hrb, h⟩
      rw [if_neg hin, if_neg fun h => absurd h.1 hrb.not_gt, if_pos ⟨hlt, hout⟩,
        sub32_of_le hlt.le hfin]
      have hsize : fin - rgn.base ≤ rgn.size := by
        unfold Region.stop at hout
        omega
      have hszlt : rgn.size < 2 ^ 32 := (le_add_left _ _).trans_lt hrfit
      rw [sub32_of_le hsize hszlt]
      have hnew : (⟨fin, rgn.size - (fin - rgn.base)⟩ : Region).stop = rgn.stop := by
        unfold Region.stop
        dsimp only
        omega
      refine ⟨_, rfl, .inr ⟨by simp, sorted_middle.mpr ⟨?_, ?_, hpres, hsufs, ?_, ?_⟩⟩, ?_, by simp⟩
      · unfold Region.stop at hout
        dsimp only
        omega
      · rw [hnew]
        exact hrfit
      · intro p hp
        exact (hprer p hp).trans hlt
      · rw [hnew]
        exact hrsuf
      · have hrest : ∀ q ∈ suf, fin < q.base := fun q hq => hout.trans (hrsuf q hq)
        have hapart : ∀ q ∈ pre ++ suf, q.stop ≤ base ∨ fin ≤ q.base :=
          forall_mem_append.mpr ⟨fun q hq => .inl (hpre q hq), fun q hq => .inr (hrest q hq).le⟩
        rw [covered_middle, covered_middle, union_sdiff_distrib, covered_diff_self hapart, hnew]
        congr 1
        ext x
        simp only [mem_Ico, mem_sdiff]
        omega

/-- **The loop of `__memblock_remove`**, if no region begins where the range ends. -/
lemma removeLoop_spec (hle : base ≤ fin) (hfin : fin < 2 ^ 32) (hne : pre ++ suf ≠ [])
    (hs : Sorted (pre ++ suf)) (hpre : ∀ p ∈ pre, p.stop ≤ base) (hbase : ∀ r ∈ suf, r.base ≠ fin) :
    RemoveSpec (pre ++ suf) base fin (removeLoop base fin pre suf) := by
  induction suf generalizing pre with
  | nil =>
    obtain ⟨l', hrun, hspec⟩ := removeLoop_behind hfin hne hs hpre nofun nofun
    rwa [hrun]
  | cons rgn suf ih =>
    obtain ⟨hrpos, hrfit, hpres, hsufs, hprer, hrsuf⟩ := sorted_middle.mp hs
    have hrbs : rgn.base < rgn.stop := Nat.lt_add_of_pos_right hrpos
    have hbase' : ∀ q ∈ suf, q.base ≠ fin := fun q hq => hbase q (mem_cons_of_mem rgn hq)
    by_cases hrb : base ≤ rgn.base
    · obtain ⟨l', hrun, hspec⟩ := removeLoop_behind hfin hne hs hpre
        (forall_mem_cons.mpr ⟨hrb, fun q hq => hrb.trans (hrbs.trans (hrsuf q hq)).le⟩) hbase
      rwa [hrun]
    have hrb' : rgn.base < base := not_le.mp hrb
    have hhit : ¬ (fin < rgn.base ∨ rgn.size = 0) := by omega
    rw [removeLoop, rend_eq hrfit, if_neg hhit, if_neg fun h => hrb h.1]
    by_cases hsplit : fin < rgn.stop
    · rw [if_pos ⟨hrb', hsplit⟩]
      exact ⟨rfl, hrb', hsplit⟩
    rw [if_neg fun h => hsplit h.2, if_neg fun h => hsplit h.2]
    by_cases htop : base < rgn.stop
    · -- the top of the block is cut off
      have hsub : rgn.stop - base ≤ rgn.size := by
        unfold Region.stop
        omega
      have hszlt : rgn.size < 2 ^ 32 := (le_add_left _ _).trans_lt hrfit
      rw [if_pos htop, sub32_of_le htop.le hrfit, sub32_of_le hsub hszlt]
      have hnew : (⟨rgn.base, rgn.size - (rgn.stop - base)⟩ : Region).stop = base := by
        unfold Region.stop at *
        dsimp only
        omega
      have happ : (pre ++ [⟨rgn.base, rgn.size - (rgn.stop - base)⟩]) ++ suf =
          pre ++ ⟨rgn.base, rgn.size - (rgn.stop - base)⟩ :: suf := (append_cons _ _ _).symm
      have hs' : Sorted (pre ++ [⟨rgn.base, rgn.size - (rgn.stop - base)⟩] ++ suf) := by
        rw [happ]
        refine sorted_middle.mpr ⟨?_, ?_, hpres, hsufs, hprer, ?_⟩
        · unfold Region.stop at hnew ⊢
          dsimp only at hnew ⊢
          omega
        · rw [hnew]
          exact htop.trans hrfit
        · rw [hnew]
          exact fun q hq => htop.trans (hrsuf q hq)
      obtain ⟨l', hrun, hspec⟩ := removeLoop_behind hfin (by simp) hs'
        (forall_mem_append.mpr ⟨hpre, forall_mem_singleton.mpr hnew.le⟩)
        (fun q hq => (htop.trans (hrsuf q hq)).le) hbase'
      rw [hrun]
      refine hspec.trans ?_ (by simp)
      rw [happ, covered_middle, covered_middle, hnew, union_sdiff_distrib, union_sdiff_distrib]
      congr 1
      ext x
      simp only [mem_Ico, mem_sdiff]
      omega
    · rw [if_neg htop]
      have happ : pre ++ rgn :: suf = (pre ++ [rgn]) ++ suf := append_cons pre rgn suf
      rw [happ] at hne hs ⊢
      refine ih hne hs ?_ hbase'
      exact forall_mem_append.mpr ⟨hpre, forall_mem_singleton.mpr (not_lt.mp htop)⟩

end

end Am335x.Memblock
