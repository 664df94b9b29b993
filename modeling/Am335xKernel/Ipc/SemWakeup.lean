import Mathlib.Data.List.Nodup
import Am335xKernel.Ipc.Sem

/-!
# No wake-up is missed

Whenever the semaphores of an array are not being altered, every pending operation has to sleep
(`Quiet`), and what has left the lists was completed, or has failed, and its task is woken up with
the result (`Rescans`). Each shortcut of the search for operations that can be completed is
justified by one fact about operations on a single semaphore, which is all that may be pending where
a shortcut is taken: if its value has not become larger, an operation that was blocked still is,
unless it waits for zero and the value is zero now.
-/

namespace Am335x.Sem

open Function List

variable {sma sma' : SemArray} {q p : SemQueue} {sop : Sembuf} {sops done : List Sembuf} {un : ℕ}
  {pid : ℤ} {n : ℕ}

lemma undoSop_applySop (sma : SemArray) (sop : Sembuf) : undoSop (applySop sma sop) sop = sma := by
  unfold undoSop applySop
  dsimp only
  rw [update_self, Int.add_sub_cancel, update_idem, update_eq_self]

lemma applySops_undo (un : ℕ) (sma : SemArray) (done sops : List Sembuf) :
    (applySops un sma done sops).2.1.foldl undoSop (applySops un sma done sops).1 =
      done.foldl undoSop sma := by
  induction sops generalizing sma done with
  | nil => rfl
  | cons sop sops ih =>
    unfold applySops
    split_ifs
    · rfl
    · rw [ih, foldl_cons, undoSop_applySop]

variable (hval : sma'.semval = sma.semval) (hadj : sma'.semadj = sma.semadj)

include hval hadj in
lemma applySops_congr (un : ℕ) (done done' sops : List Sembuf) :
    (applySops un sma' done' sops).2.2 = (applySops un sma done sops).2.2 := by
  induction sops generalizing sma sma' done done' with
  | nil => rfl
  | cons sop sops ih =>
    have hval' : (applySop sma' sop).semval = (applySop sma sop).semval := by
      unfold applySop
      rw [hval]
    have hresult : sopResult sma' un sop = sopResult sma un sop := by
      rw [sopResult, hval, hadj]; rfl
    unfold applySops
    rw [hresult]
    split_ifs
    · rfl
    · exact ih hval' hadj _ _

lemma sopResult_zero (h : sopResult sma un sop = 0) :
    0 ≤ sma.semval sop.semNum + sop.semOp ∧ sma.semval sop.semNum + sop.semOp ≤ semvmx := by
  unfold sopResult at h
  dsimp only at h
  split_ifs at h with hblock hwait hneg hwait hbig hundo <;> try cases h
  exact ⟨not_lt.mp hneg, not_lt.mp hbig⟩

lemma sopResult_pos : 0 < sopResult sma un sop ↔ sop.nowait = false ∧
    (sop.semOp = 0 ∧ sma.semval sop.semNum ≠ 0 ∨ sma.semval sop.semNum + sop.semOp < 0) := by
  unfold sopResult
  dsimp only
  cases sop.nowait with
  | false => split_ifs <;> simp [*]
  | true => split_ifs <;> simp_all

structure Applied (sops : List Sembuf) (sma sma' : SemArray) : Prop where
  nonneg : (∀ n, 0 ≤ sma.semval n) → ∀ n, 0 ≤ sma'.semval n
  of_lt : ∀ n, sma.semval n < sma'.semval n → ∃ sop ∈ sops, sop.semNum = n ∧ 0 < sop.semOp
  of_gt : ∀ n, sma'.semval n < sma.semval n → ∃ sop ∈ sops, sop.semNum = n ∧ sop.semOp < 0
  semPending_eq : sma'.semPending = sma.semPending
  simplePending_eq : sma'.simplePending = sma.simplePending
  complexCount_eq : sma'.complexCount = sma.complexCount
  semadj_eq : (∀ sop ∈ sops, sop.semOp = 0) → sma'.semadj = sma.semadj

lemma Applied.cons (hnonneg : 0 ≤ sma.semval sop.semNum + sop.semOp)
    (h : Applied sops (applySop sma sop) sma') : Applied (sop :: sops) sma sma' := by
  have hstep : ∀ n, (applySop sma sop).semval n = sma.semval n ∨
      sop.semNum = n ∧ (applySop sma sop).semval n = sma.semval n + sop.semOp := by
    intro n
    rcases eq_or_ne n sop.semNum with rfl | hn
    · exact .inr ⟨rfl, update_self ..⟩
    · exact .inl (update_of_ne hn _ _)
  refine ⟨fun hpos => h.nonneg fun n => ?_, fun n hlt => ?_, fun n hlt => ?_, h.semPending_eq,
    h.simplePending_eq, h.complexCount_eq, fun hzero => ?_⟩
  · rcases hstep n with heq | ⟨rfl, heq⟩
    · exact heq ▸ hpos n
    · exact heq ▸ hnonneg
  · rw [exists_mem_cons_iff, or_iff_not_imp_right]
    intro hrest
    have hle := not_lt.mp (mt (h.of_lt n) hrest)
    rcases hstep n with heq | ⟨hn, heq⟩
    · omega
    · exact ⟨hn, by omega⟩
  · rw [exists_mem_cons_iff, or_iff_not_imp_right]
    intro hrest
    have hle := not_lt.mp (mt (h.of_gt n) hrest)
    rcases hstep n with heq | ⟨hn, heq⟩
    · omega
    · exact ⟨hn, by omega⟩
  · exact h.semadj_eq fun sop' hmem => hzero sop' (mem_cons_of_mem _ hmem)

lemma Applied.refl (sops : List Sembuf) (sma : SemArray) : Applied sops sma sma :=
  ⟨fun h => h, fun _ h => absurd h (lt_irrefl _), fun _ h => absurd h (lt_irrefl _), rfl, rfl, rfl,
    fun _ => rfl⟩

lemma Applied.semval_eq (h : Applied sops sma sma')
    (hn : ∀ sop ∈ sops, sop.semNum = n → sop.semOp = 0) :
    sma'.semval n = sma.semval n := by
  rcases lt_trichotomy (sma'.semval n) (sma.semval n) with hlt | heq | hlt
  · obtain ⟨sop, hmem, hnum, hop⟩ := h.of_gt n hlt
    exact absurd (hn sop hmem hnum) hop.ne
  · exact heq
  · obtain ⟨sop, hmem, hnum, hop⟩ := h.of_lt n hlt
    exact absurd (hn sop hmem hnum) hop.ne'

lemma Applied.unaltered (h : Applied sops sma sma') (hops : ∀ sop ∈ sops, sop.semOp = 0) :
    sma'.semval = sma.semval :=
  funext fun _ => h.semval_eq fun sop hmem _ => hops sop hmem

lemma applySops_zero (h : (applySops un sma done sops).2.2 = 0) :
    Applied sops sma (applySops un sma done sops).1 ∧
      (applySops un sma done sops).2.1 = sops.reverse ++ done := by
  induction sops generalizing sma done with
  | nil => exact ⟨.refl [] sma, rfl⟩
  | cons sop sops ih =>
    unfold applySops at h ⊢
    split_ifs at h ⊢ with hresult
    · exact absurd h hresult
    · obtain ⟨happlied, hdone⟩ := ih h
      refine ⟨happlied.cons (sopResult_zero (not_not.mp hresult)).1, ?_⟩
      rw [hdone, reverse_cons, append_assoc, singleton_append]

lemma foldl_finishSop (un : ℕ) (pid : ℤ) (done : List Sembuf) (sma : SemArray) :
    ∃ sempid semadj, done.foldl (finishSop un pid) sma =
      { sma with sempid := sempid, semadj := semadj } ∧
      ((∀ sop ∈ done, sop.semOp = 0) → semadj = sma.semadj) := by
  induction done generalizing sma with
  | nil => exact ⟨sma.sempid, sma.semadj, rfl, fun _ => rfl⟩
  | cons sop done ih =>
    obtain ⟨sempid, semadj, hfold, hadj⟩ := ih (finishSop un pid sma sop)
    refine ⟨sempid, semadj, hfold, fun hzero => ?_⟩
    rw [hadj fun sop' hmem => hzero sop' (mem_cons_of_mem _ hmem)]
    unfold finishSop
    rw [hzero sop mem_cons_self, sub_zero, Int16.ofInt_toInt, update_eq_self,
      update_eq_self, ite_self]

lemma tryAtomicSemop_snd (sma : SemArray) (sops : List Sembuf) (un : ℕ) (pid : ℤ) :
    (tryAtomicSemop sma sops un pid).2 = (applySops un sma [] sops).2.2 := by
  unfold tryAtomicSemop
  dsimp only
  split_ifs with hzero
  · exact hzero.symm
  · rfl

lemma tryAtomicSemop_ne (h : (tryAtomicSemop sma sops un pid).2 ≠ 0) :
    (tryAtomicSemop sma sops un pid).1 = sma := by
  rw [tryAtomicSemop_snd] at h
  unfold tryAtomicSemop
  dsimp only
  rw [if_neg h]
  exact applySops_undo un sma [] sops

lemma tryAtomicSemop_applied (sma : SemArray) (sops : List Sembuf) (un : ℕ) (pid : ℤ) :
    Applied sops sma (tryAtomicSemop sma sops un pid).1 := by
  by_cases h : (tryAtomicSemop sma sops un pid).2 = 0
  swap
  · rw [tryAtomicSemop_ne h]
    exact .refl sops sma
  rw [tryAtomicSemop_snd] at h
  obtain ⟨happlied, hdone⟩ := applySops_zero h
  obtain ⟨sempid, semadj, hfold, hadj⟩ :=
    foldl_finishSop un pid (applySops un sma [] sops).2.1 (applySops un sma [] sops).1
  unfold tryAtomicSemop
  dsimp only
  rw [if_pos h, hfold]
  refine { happlied with semadj_eq := fun hzero => ?_ }
  rw [← happlied.semadj_eq hzero]
  rw [hdone, append_nil] at hadj
  exact hadj fun sop hsop => hzero sop (mem_reverse.mp hsop)

def SemArray.Blocks (sma : SemArray) (q : SemQueue) : Prop :=
  0 < (tryAtomicSemop sma q.sops q.undo q.pid).2

def SemArray.Quiet (sma : SemArray) : Prop := ∀ q ∈ sma.semPending, sma.Blocks q

include hval hadj in
lemma SemArray.Blocks.congr : sma'.Blocks q ↔ sma.Blocks q := by
  unfold SemArray.Blocks
  rw [tryAtomicSemop_snd, tryAtomicSemop_snd, applySops_congr hval hadj q.undo [] [] q.sops]

lemma blocks_simple (hq : q.sops = [sop]) : sma.Blocks q ↔ sop.nowait = false ∧
    (sop.semOp = 0 ∧ sma.semval sop.semNum ≠ 0 ∨ sma.semval sop.semNum + sop.semOp < 0) := by
  have hpos : 0 < sopResult sma q.undo sop ↔ _ := sopResult_pos
  rw [← hpos]
  unfold SemArray.Blocks
  rw [tryAtomicSemop_snd, hq]
  unfold applySops
  split_ifs with hresult
  · rfl
  · rw [not_not.mp hresult]
    rfl

/-- A blocked operation on a single semaphore is blocked as long as the value does not
become larger, unless it is the zero that it waits for. -/
lemma SemArray.Blocks.of_le (hq : q.sops = [sop]) (h : sma.Blocks q)
    (hle : sma'.semval sop.semNum ≤ sma.semval sop.semNum)
    (hzero : sop.semOp = 0 → sma'.semval sop.semNum ≠ 0) : sma'.Blocks q := by
  rw [blocks_simple hq] at h ⊢
  refine ⟨h.1, ?_⟩
  rcases h.2 with ⟨hop, -⟩ | hlt
  · exact .inl ⟨hop, hzero hop⟩
  · exact .inr (by omega)

/-- An operation as `semtimedop` makes it, and which had to sleep. -/
structure SemQueue.Ok (q : SemQueue) : Prop where
  ne_nil : q.sops ≠ []
  alter_iff : q.alter = true ↔ ∃ sop ∈ q.sops, sop.semOp ≠ 0
  simple : ∀ sop, q.sops = [sop] → sop.nowait = false ∧ sop.semOp ≤ 0

/-- The lists of the semaphores are the operations of the array on a single semaphore, those
that wait for zero first, and all others are counted. -/
structure SemArray.Wf (sma : SemArray) : Prop where
  semval_nonneg : ∀ n, 0 ≤ sma.semval n
  ok : ∀ q ∈ sma.semPending, q.Ok
  nodup : sma.semPending.Nodup
  mem_simple : ∀ n q, q ∈ sma.simplePending n ↔
    q ∈ sma.semPending ∧ ∃ sop, q.sops = [sop] ∧ sop.semNum = n
  nodup_simple : ∀ n, (sma.simplePending n).Nodup
  zero_first : ∀ n, (sma.simplePending n).Pairwise fun a b => b.alter = false → a.alter = false
  complexCount_eq : sma.complexCount = sma.semPending.countP fun q => decide (q.sops.length ≠ 1)

lemma SemQueue.Ok.alter_single (h : q.Ok) (hq : q.sops = [sop]) :
    q.alter = true ↔ sop.semOp < 0 := by
  rw [h.alter_iff, hq]
  have hle := (h.simple sop hq).2
  simp only [mem_singleton, exists_eq_left]
  omega

lemma SemArray.Wf.of_lists (h : sma.Wf) (hnonneg : ∀ n, 0 ≤ sma'.semval n)
    (hpending : sma'.semPending = sma.semPending) (hsimple : sma'.simplePending = sma.simplePending)
    (hcount : sma'.complexCount = sma.complexCount) : sma'.Wf := by
  refine ⟨hnonneg, ?_, ?_, ?_, ?_, ?_, ?_⟩
  · exact hpending ▸ h.ok
  · exact hpending ▸ h.nodup
  · exact hpending ▸ hsimple ▸ h.mem_simple
  · exact hsimple ▸ h.nodup_simple
  · exact hsimple ▸ h.zero_first
  · rw [hcount, hpending]
    exact h.complexCount_eq

lemma SemArray.Wf.applied (h : sma.Wf) (happlied : Applied sops sma sma') : sma'.Wf :=
  h.of_lists (happlied.nonneg h.semval_nonneg) happlied.semPending_eq happlied.simplePending_eq
    happlied.complexCount_eq

lemma SemArray.Wf.single (h : sma.Wf) (hcount : sma.complexCount = 0) (hq : q ∈ sma.semPending) :
    ∃ sop, q.sops = [sop] := by
  have hnone := h.complexCount_eq
  rw [hcount, eq_comm, Int.natCast_eq_zero, countP_eq_zero] at hnone
  have hlength := hnone q hq
  rw [decide_eq_true_eq, not_not] at hlength
  exact length_eq_one_iff.mp hlength

section

variable (sma : SemArray) (q : SemQueue)

lemma unlinkQueue_semPending : (unlinkQueue sma q).semPending = sma.semPending.erase q := by
  unfold unlinkQueue
  split_ifs <;> rfl

lemma unlinkQueue_semval : (unlinkQueue sma q).semval = sma.semval := by
  unfold unlinkQueue
  split_ifs <;> rfl

lemma unlinkQueue_semadj : (unlinkQueue sma q).semadj = sma.semadj := by
  unfold unlinkQueue
  split_ifs <;> rfl

end

lemma SemArray.Wf.unlinkQueue_simplePending (h : sma.Wf) (q : SemQueue) (n : ℕ) :
    (unlinkQueue sma q).simplePending n = (sma.simplePending n).erase q := by
  unfold unlinkQueue
  split_ifs with hone
  · rfl
  · refine (erase_of_not_mem fun hmem => hone ?_).symm
    obtain ⟨-, sop, hsop, -⟩ := (h.mem_simple n q).mp hmem
    rw [hsop]
    rfl

lemma SemArray.Wf.unlink (h : sma.Wf) (hq : q ∈ sma.semPending) : (unlinkQueue sma q).Wf := by
  have hpending := unlinkQueue_semPending sma q
  have hsimple := h.unlinkQueue_simplePending q
  refine ⟨?_, fun p hp => ?_, ?_, fun n p => ?_, fun n => ?_, fun n => ?_, ?_⟩
  · rw [unlinkQueue_semval]
    exact h.semval_nonneg
  · rw [hpending] at hp
    exact h.ok p (mem_of_mem_erase hp)
  · rw [hpending]
    exact h.nodup.erase q
  · rw [hsimple, hpending, (h.nodup_simple n).mem_erase_iff, h.nodup.mem_erase_iff, h.mem_simple,
      and_assoc]
  · rw [hsimple]
    exact (h.nodup_simple n).erase q
  · rw [hsimple]
    exact (h.zero_first n).sublist erase_sublist
  · have hcount := (perm_cons_erase hq).countP_eq fun q => decide (q.sops.length ≠ 1)
    rw [countP_cons] at hcount
    rw [hpending]
    unfold unlinkQueue
    split_ifs with hone
    · rw [if_neg (by simp [hone]), add_zero] at hcount
      exact h.complexCount_eq.trans (congrArg Nat.cast hcount)
    · rw [if_pos (by simp [hone])] at hcount
      have hbefore := h.complexCount_eq
      show sma.complexCount - 1 = _
      omega

variable {seen rest : List SemQueue} {semnum : Option ℕ} {u u1 u' : Update} {l : List SemQueue}
  {sma1 : SemArray} {otime : Bool}

/-- Behind an operation that does not wait for zero there is none that does. -/
lemma alter_of_first (h : (q :: rest).Pairwise fun a b => b.alter = false → a.alter = false)
    (hq : q.alter = true) : ∀ p ∈ q :: rest, p.alter = true := by
  refine forall_mem_cons.mpr ⟨hq, fun p hp => ?_⟩
  by_contra hwait
  have hfirst := (pairwise_cons.mp h).1 p hp (Bool.not_eq_true _ ▸ hwait)
  rw [hq] at hfirst
  cases hfirst

/-- No `BUG_ON` of `check_restart` is hit. If there is no restart, nothing has been altered, or a
single semaphore has got a smaller value, and nobody waits for it to be zero if it is. -/
lemma checkRestart_spec (h : sma.Wf) (hq : q.Ok) :
    ∃ restart, checkRestart sma q = some restart ∧ (restart = false → q.alter = false ∨
      sma.complexCount = 0 ∧ ∃ sop, q.sops = [sop] ∧ sop.semOp < 0 ∧
        (sma.semval sop.semNum = 0 → ∀ p ∈ sma.simplePending sop.semNum, p.alter = true)) := by
  unfold checkRestart
  by_cases halter : q.alter = false
  · exact ⟨false, if_pos halter, fun _ => .inl halter⟩
  rw [if_neg halter]
  by_cases hcount : sma.complexCount = 0
  swap
  · exact ⟨true, if_pos hcount, nofun⟩
  rw [if_neg (not_not.mpr hcount)]
  by_cases hlength : 1 < q.sops.length
  · exact ⟨true, if_pos hlength, nofun⟩
  rw [if_neg hlength]
  obtain ⟨sop, hsop⟩ : ∃ sop, q.sops = [sop] := by
    have hpos := length_pos_of_ne_nil hq.ne_nil
    exact length_eq_one_iff.mp (by omega)
  have hneg : sop.semOp < 0 := (hq.alter_single hsop).mp (Bool.not_eq_false _ ▸ halter)
  rw [hsop]
  dsimp only
  cases hlist : sma.simplePending sop.semNum with
  | nil => exact ⟨false, rfl, fun _ => .inr ⟨hcount, sop, rfl, hneg, fun _ => hlist ▸ nofun⟩⟩
  | cons first rest =>
    dsimp only
    by_cases hval : sma.semval sop.semNum = 0
    swap
    · rw [if_pos hval, if_neg (not_le.mpr hneg)]
      exact ⟨false, rfl, fun _ => .inr ⟨hcount, sop, rfl, hneg, fun hzero => absurd hzero hval⟩⟩
    rw [if_neg (not_not.mpr hval)]
    have hmem : first ∈ sma.simplePending sop.semNum := hlist ▸ mem_cons_self
    obtain ⟨hfirst, fsop, hfsop, hnum⟩ := (h.mem_simple _ first).mp hmem
    rw [hfsop]
    dsimp only
    rw [if_neg (not_not.mpr hnum)]
    refine ⟨_, rfl, fun hno => .inr ⟨hcount, sop, rfl, hneg, fun _ => ?_⟩⟩
    -- the first one is not a wait for zero, so that there is none
    have halter' : first.alter = true := by
      rw [(h.ok first hfirst).alter_single hfsop]
      have hle := ((h.ok first hfirst).simple fsop hfsop).2
      have hne := of_decide_eq_false hno
      omega
    rw [hlist]
    exact alter_of_first (hlist ▸ h.zero_first sop.semNum) halter'

/-- Pending operations that do not have to sleep are tried and taken off the lists, one after the
other, each with its result for its task. -/
inductive Completes : SemArray → List (SemQueue × ℤ) → SemArray → Prop
  | nil (sma : SemArray) : Completes sma [] sma
  | cons {sma sma' : SemArray} {q : SemQueue} {tasks : List (SemQueue × ℤ)}
      (mem : q ∈ sma.semPending) (le : (tryAtomicSemop sma q.sops q.undo q.pid).2 ≤ 0)
      (rest : Completes (unlinkQueue (tryAtomicSemop sma q.sops q.undo q.pid).1 q) tasks sma') :
      Completes sma ((q, (tryAtomicSemop sma q.sops q.undo q.pid).2) :: tasks) sma'

lemma Completes.trans {tasks tasks' : List (SemQueue × ℤ)} (h : Completes sma tasks sma1)
    (h' : Completes sma1 tasks' sma') : Completes sma (tasks ++ tasks') sma' := by
  induction h with
  | nil => exact h'
  | cons mem le _ ih => exact .cons mem le (ih h')

structure Frame (semnum : Option ℕ) (sma sma' : SemArray) : Prop where
  length_le : sma'.semPending.length ≤ sma.semPending.length
  complexCount_eq : sma.complexCount = 0 → sma'.complexCount = 0
  semval_eq : ∀ n m, semnum = some n → m ≠ n → sma'.semval m = sma.semval m
  simplePending_eq : ∀ n m, semnum = some n → m ≠ n → sma'.simplePending m = sma.simplePending m

lemma Frame.refl (semnum : Option ℕ) (sma : SemArray) : Frame semnum sma sma :=
  ⟨le_rfl, fun h => h, fun _ _ _ _ => rfl, fun _ _ _ _ => rfl⟩

lemma Frame.trans (h : Frame semnum sma sma1) (h' : Frame semnum sma1 sma') :
    Frame semnum sma sma' where
  length_le := h'.length_le.trans h.length_le
  complexCount_eq hc := h'.complexCount_eq (h.complexCount_eq hc)
  semval_eq n m hn hm := (h'.semval_eq n m hn hm).trans (h.semval_eq n m hn hm)
  simplePending_eq n m hn hm := (h'.simplePending_eq n m hn hm).trans (h.simplePending_eq n m hn hm)

lemma pendingList_subset (h : sma.Wf) (semnum : Option ℕ) (hq : q ∈ sma.pendingList semnum) :
    q ∈ sma.semPending := by
  cases semnum with
  | none => exact hq
  | some n => exact ((h.mem_simple n q).mp hq).1

lemma pendingList_nodup (h : sma.Wf) (semnum : Option ℕ) : (sma.pendingList semnum).Nodup := by
  cases semnum with
  | none => exact h.nodup
  | some n => exact h.nodup_simple n

lemma pendingList_unlink (h : sma.Wf) (semnum : Option ℕ) (q : SemQueue) :
    (unlinkQueue sma q).pendingList semnum = (sma.pendingList semnum).erase q := by
  cases semnum with
  | none => exact unlinkQueue_semPending sma q
  | some n => exact h.unlinkQueue_simplePending q n

lemma Applied.pendingList_eq (h : Applied sops sma sma') (semnum : Option ℕ) :
    sma'.pendingList semnum = sma.pendingList semnum := by
  cases semnum with
  | none => exact h.semPending_eq
  | some n => exact congrFun h.simplePending_eq n

lemma frame_unlink (h : sma.Wf) (hq : q ∈ sma.pendingList semnum)
    (happlied : Applied q.sops sma sma') : Frame semnum sma (unlinkQueue sma' q) ∧
      (unlinkQueue sma' q).semPending.length < sma.semPending.length := by
  have hmem := pendingList_subset h semnum hq
  have hwf := h.applied happlied
  have hlength : (unlinkQueue sma' q).semPending.length < sma.semPending.length := by
    rw [unlinkQueue_semPending, happlied.semPending_eq, length_erase_of_mem hmem]
    exact Nat.sub_lt (length_pos_of_mem hmem) Nat.one_pos
  refine ⟨⟨hlength.le, fun hcount => ?_, fun n m hn hm => ?_, fun n m hn hm => ?_⟩, hlength⟩
  · obtain ⟨sop, hsop⟩ := h.single hcount hmem
    unfold unlinkQueue
    rw [if_pos (by rw [hsop]; rfl)]
    exact happlied.complexCount_eq.trans hcount
  · subst hn
    obtain ⟨-, sop, hsop, hnum⟩ := (h.mem_simple n q).mp hq
    rw [unlinkQueue_semval]
    refine happlied.semval_eq fun sop' hmem' hnum' => ?_
    rw [hsop, mem_singleton] at hmem'
    subst hmem'
    exact absurd (hnum'.symm.trans hnum) hm
  · subst hn
    obtain ⟨-, sop, hsop, hnum⟩ := (h.mem_simple n q).mp hq
    rw [hwf.unlinkQueue_simplePending, happlied.simplePending_eq]
    refine erase_of_not_mem fun hother => hm ?_
    obtain ⟨-, sop', hsop', hnum'⟩ := (h.mem_simple m q).mp hother
    rw [hsop, List.cons.injEq] at hsop'
    rw [← hnum', ← hnum, hsop'.1]

/-- **What has been passed stays blocked** where the search is not started again. -/
lemma blocks_of_no_restart (h : sma.Wf) (hq : q ∈ sma.semPending)
    (happlied : Applied q.sops sma sma') (hp : p ∈ sma.semPending) (hpq : p ≠ q) (hb : sma.Blocks p)
    (hcheck : checkRestart (unlinkQueue sma' q) q = some false) :
    (unlinkQueue sma' q).Blocks p := by
  have hwf : (unlinkQueue sma' q).Wf :=
    (h.applied happlied).unlink (happlied.semPending_eq.symm ▸ hq)
  obtain ⟨restart, hcheck', hspec⟩ := checkRestart_spec hwf (h.ok q hq)
  rw [hcheck] at hcheck'
  rcases hspec (Option.some.inj hcheck').symm with halter | ⟨hcount, sop, hsop, hneg, hzero⟩
  · -- nothing is altered
    have hops : ∀ sop ∈ q.sops, sop.semOp = 0 := by
      intro sop hsop
      by_contra hop
      rw [(h.ok q hq).alter_iff.mpr ⟨sop, hsop, hop⟩] at halter
      cases halter
    refine (SemArray.Blocks.congr ?_ ?_).mpr hb
    · rw [unlinkQueue_semval, happlied.unaltered hops]
    · rw [unlinkQueue_semadj, happlied.semadj_eq hops]
  · have hp' : p ∈ (unlinkQueue sma' q).semPending := by
      rw [unlinkQueue_semPending, happlied.semPending_eq]
      exact (mem_erase_of_ne hpq).mpr hp
    obtain ⟨psop, hpsop⟩ := hwf.single hcount hp'
    rcases eq_or_ne psop.semNum sop.semNum with hnum | hnum
    · refine hb.of_le hpsop ?_ fun hwait hval => ?_
      · rw [unlinkQueue_semval]
        by_contra hgt
        obtain ⟨sop', hmem, -, hop⟩ := happlied.of_lt _ (not_le.mp hgt)
        rw [hsop, mem_singleton] at hmem
        subst hmem
        omega
      · rw [hnum] at hval
        have halter := hzero hval p ((hwf.mem_simple _ p).mpr ⟨hp', psop, hpsop, hnum⟩)
        rw [(hwf.ok p hp').alter_single hpsop] at halter
        omega
    · have hsame : (unlinkQueue sma' q).semval psop.semNum = sma.semval psop.semNum := by
        rw [unlinkQueue_semval]
        refine happlied.semval_eq fun sop' hmem hnum' => ?_
        rw [hsop, mem_singleton] at hmem
        subst hmem
        exact absurd hnum'.symm hnum
      refine (blocks_simple hpsop).mpr ?_
      rw [hsame]
      exact (blocks_simple hpsop).mp hb

/-- The tasks that an update has found, besides those that it began with. -/
def Finds (u u' : Update) : Prop :=
  ∃ tasks, u'.tasks = u.tasks ++ tasks ∧ Completes u.sma tasks u'.sma

lemma Finds.refl (u : Update) : Finds u u := ⟨[], (append_nil _).symm, .nil _⟩

lemma Finds.trans (h : Finds u u1) (h' : Finds u1 u') : Finds u u' := by
  obtain ⟨tasks, htasks, hcompletes⟩ := h
  obtain ⟨tasks', htasks', hcompletes'⟩ := h'
  exact ⟨tasks ++ tasks', by rw [htasks', htasks, append_assoc], hcompletes.trans hcompletes'⟩

structure Searched (semnum : Option ℕ) (u u' : Update) : Prop where
  wf : u'.sma.Wf
  frame : Frame semnum u.sma u'.sma
  finds : Finds u u'

lemma Searched.trans (h : Searched semnum u u1) (h' : Searched semnum u1 u') :
    Searched semnum u u' :=
  ⟨h'.wf, h.frame.trans h'.frame, h.finds.trans h'.finds⟩

lemma blocks_of_stopsAt (h : sma.Wf) (hlist : sma.pendingList semnum = seen ++ q :: rest)
    (hstop : stopsAt semnum sma q = true) : ∀ p ∈ q :: rest, sma.Blocks p := by
  cases semnum with
  | none => cases hstop
  | some n =>
    obtain ⟨hval, halter⟩ := of_decide_eq_true hstop
    change sma.simplePending n = _ at hlist
    intro p hp
    have hmem : p ∈ sma.simplePending n := by
      rw [hlist]
      exact mem_append_right seen hp
    obtain ⟨hpending, sop, hsop, hnum⟩ := (h.mem_simple n p).mp hmem
    have hpairs := (pairwise_append.mp (hlist ▸ h.zero_first n)).2.1
    have hneg := ((h.ok p hpending).alter_single hsop).mp (alter_of_first hpairs halter p hp)
    refine (blocks_simple hsop).mpr ⟨((h.ok p hpending).simple sop hsop).1, .inr ?_⟩
    rw [hnum, hval]
    omega

/-- A pass ends with all of the list blocked, or is started again with less. -/
def Passed (semnum : Option ℕ) (u : Update) (r : Option (Update × Bool)) : Prop :=
  ∃ u' restart, r = some (u', restart) ∧ Searched semnum u u' ∧
    (restart = true → u'.sma.semPending.length < u.sma.semPending.length) ∧
    (restart = false → ∀ p ∈ u'.sma.pendingList semnum, u'.sma.Blocks p)

lemma walk_spec (h : u.sma.Wf) (hlist : u.sma.pendingList semnum = seen ++ rest)
    (hseen : ∀ p ∈ seen, u.sma.Blocks p) : Passed semnum u (walk semnum rest u) := by
  induction rest generalizing seen u with
  | nil =>
    rw [append_nil] at hlist
    refine ⟨u, false, rfl, ⟨h, .refl _ _, .refl u⟩, nofun, fun _ p hp => ?_⟩
    exact hseen p (hlist ▸ hp)
  | cons q rest ih =>
    unfold walk
    by_cases hstop : stopsAt semnum u.sma q = true
    · refine ⟨u, false, if_pos hstop, ⟨h, .refl _ _, .refl u⟩, nofun, fun _ p hp => ?_⟩
      rw [hlist] at hp
      rcases mem_append.mp hp with hp | hp
      · exact hseen p hp
      · exact blocks_of_stopsAt h hlist hstop p hp
    rw [if_neg hstop]
    have hmem : q ∈ u.sma.pendingList semnum := by
      rw [hlist]
      exact mem_append_right seen mem_cons_self
    have hq := pendingList_subset h semnum hmem
    have happlied := tryAtomicSemop_applied u.sma q.sops q.undo q.pid
    have hsame : (tryAtomicSemop u.sma q.sops q.undo q.pid).2 ≠ 0 →
        (tryAtomicSemop u.sma q.sops q.undo q.pid).1 = u.sma := tryAtomicSemop_ne
    have hcompletes : (tryAtomicSemop u.sma q.sops q.undo q.pid).2 ≤ 0 →
        Completes u.sma [(q, (tryAtomicSemop u.sma q.sops q.undo q.pid).2)]
          (unlinkQueue (tryAtomicSemop u.sma q.sops q.undo q.pid).1 q) :=
      fun hle => .cons hq hle (.nil _)
    have hblocks : 0 < (tryAtomicSemop u.sma q.sops q.undo q.pid).2 → u.sma.Blocks q := fun h => h
    generalize tryAtomicSemop u.sma q.sops q.undo q.pid = r at *
    obtain ⟨sma, error⟩ := r
    dsimp only at *
    by_cases herror : 0 < error
    · obtain rfl := hsame herror.ne'
      rw [if_pos herror]
      refine ih h (hlist.trans (append_cons seen q rest)) fun p hp => ?_
      rcases mem_append.mp hp with hp | hp
      · exact hseen p hp
      · exact mem_singleton.mp hp ▸ hblocks herror
    rw [if_neg herror]
    obtain ⟨hframe, hlength⟩ := frame_unlink h hmem happlied
    have hwf : (unlinkQueue sma q).Wf :=
      (h.applied happlied).unlink (happlied.semPending_eq.symm ▸ hq)
    have hone : ∀ completed,
        Searched semnum u ⟨unlinkQueue sma q, u.tasks ++ [(q, error)], completed⟩ :=
      fun _ => ⟨hwf, hframe, _, rfl, hcompletes (not_lt.mp herror)⟩
    have hnodup : (seen ++ q :: rest).Nodup := hlist ▸ pendingList_nodup h semnum
    have hnot : q ∉ seen := fun hmem => disjoint_of_nodup_append hnodup hmem mem_cons_self
    have hlist' : (unlinkQueue sma q).pendingList semnum = seen ++ rest := by
      rw [pendingList_unlink (h.applied happlied), happlied.pendingList_eq, hlist,
        erase_append_right _ hnot, erase_cons_head]
    have hne : ∀ p ∈ seen, p ≠ q := fun p hp => ne_of_mem_of_not_mem hp hnot
    have hpassed : ∀ p ∈ seen, p ∈ u.sma.semPending := by
      intro p hp
      refine pendingList_subset h semnum ?_
      rw [hlist]
      exact mem_append_left _ hp
    -- the rest of the pass, with what was passed still blocked
    have hgo : ∀ completed, (∀ p ∈ seen, (unlinkQueue sma q).Blocks p) →
        Passed semnum u
          (walk semnum rest ⟨unlinkQueue sma q, u.tasks ++ [(q, error)], completed⟩) := by
      intro completed hblocked
      obtain ⟨u', restart, hwalk, hsearched, hless, hquiet⟩ :=
        ih (u := ⟨unlinkQueue sma q, u.tasks ++ [(q, error)], completed⟩) hwf hlist' hblocked
      exact ⟨u', restart, hwalk, (hone completed).trans hsearched,
        fun hrestart => (hless hrestart).trans hlength, hquiet⟩
    by_cases hzero : error = 0
    · rw [if_neg (not_not.mpr hzero)]
      obtain ⟨restart, hcheck, -⟩ := checkRestart_spec hwf (h.ok q hq)
      rw [hcheck]
      cases restart with
      | true => exact ⟨_, true, rfl, hone true, fun _ => hlength, nofun⟩
      | false =>
        refine hgo true fun p hp => ?_
        exact blocks_of_no_restart h hq happlied (hpassed p hp) (hne p hp) (hseen p hp) hcheck
    · obtain rfl := hsame hzero
      rw [if_pos hzero]
      refine hgo u.completed fun p hp => ?_
      refine (SemArray.Blocks.congr (unlinkQueue_semval _ q) (unlinkQueue_semadj _ q)).mpr ?_
      exact hseen p hp

/-- **`update_queue`** returns, without a `BUG_ON`, and all of the list that it was for is
blocked. -/
lemma again_spec {fuel : ℕ} (h : u.sma.Wf) (hfuel : u.sma.semPending.length < fuel) :
    ∃ u', again semnum fuel u = some u' ∧ Searched semnum u u' ∧
      ∀ p ∈ u'.sma.pendingList semnum, u'.sma.Blocks p := by
  induction fuel generalizing u with
  | zero => cases hfuel
  | succ fuel ih =>
    have hlist : u.sma.pendingList semnum = [] ++ u.sma.pendingList semnum := rfl
    obtain ⟨u1, restart, hwalk, hsearched, hless, hquiet⟩ :=
      walk_spec h hlist nofun
    unfold again
    rw [hwalk]
    cases restart with
    | false => exact ⟨u1, rfl, hsearched, hquiet rfl⟩
    | true =>
      have hlength := hless rfl
      obtain ⟨u', hagain, hsearched', hquiet'⟩ := ih hsearched.wf (by omega)
      exact ⟨u', hagain, hsearched.trans hsearched', hquiet'⟩

lemma updateQueue_array (h : u.sma.Wf) :
    ∃ u', updateQueue none u = some u' ∧ u'.sma.Wf ∧ u'.sma.Quiet ∧ Finds u u' := by
  unfold updateQueue
  rw [ite_self]
  obtain ⟨u', hagain, hsearched, hquiet⟩ := again_spec h (Nat.lt_succ_self _)
  exact ⟨u', hagain, hsearched.wf, hquiet, hsearched.finds⟩

/-- `do_smart_update` looks through the list of the semaphore. -/
def Triggers (sma : SemArray) (sop : Sembuf) : Prop :=
  0 < sop.semOp ∨ sop.semOp < 0 ∧ sma.semval sop.semNum = 0

/-- The operations may still complete one that is pending. -/
def Reaches (sma : SemArray) (sops : List Sembuf) (p : SemQueue) : Prop :=
  ∃ psop, p.sops = [psop] ∧ ∃ sop ∈ sops, Triggers sma sop ∧ sop.semNum = psop.semNum

lemma smart_spec (h : u.sma.Wf) (hcount : u.sma.complexCount = 0)
    (hleft : ∀ p ∈ u.sma.semPending, u.sma.Blocks p ∨ Reaches u.sma sops p) :
    ∃ u', sops.foldlM smartStep u = some u' ∧ u'.sma.Wf ∧ u'.sma.Quiet ∧ Finds u u' := by
  induction sops generalizing u with
  | nil =>
    refine ⟨u, rfl, h, fun p hp => (hleft p hp).resolve_right ?_, .refl u⟩
    rintro ⟨psop, -, sop, hsop, -⟩
    cases hsop
  | cons sop sops ih =>
    rw [foldlM_cons]
    by_cases htrigger : Triggers u.sma sop
    · obtain ⟨u1, hupdate, hsearched, hblocked⟩ : ∃ u1, again (some sop.semNum) _ u = some u1 ∧ _ :=
        again_spec h (Nat.lt_succ_self _)
      have hstep : smartStep u sop = some u1 := by
        refine (if_pos htrigger).trans ?_
        unfold updateQueue
        rw [if_neg (not_not.mpr hcount)]
        exact hupdate
      have hcount1 := hsearched.frame.complexCount_eq hcount
      suffices hrest : ∀ p ∈ u1.sma.semPending, u1.sma.Blocks p ∨ Reaches u1.sma sops p by
        obtain ⟨u', hfold, hwf, hquiet, hfinds⟩ := ih hsearched.wf hcount1 hrest
        rw [hstep]
        exact ⟨u', hfold, hwf, hquiet, hsearched.finds.trans hfinds⟩
      intro p hp
      obtain ⟨psop, hpsop⟩ := hsearched.wf.single hcount1 hp
      rcases eq_or_ne psop.semNum sop.semNum with hnum | hnum
      · exact .inl (hblocked p ((hsearched.wf.mem_simple _ p).mpr ⟨hp, psop, hpsop, hnum⟩))
      have hval := hsearched.frame.semval_eq _ _ rfl hnum
      have hmem : p ∈ u.sma.semPending := by
        have hsimple := (hsearched.wf.mem_simple psop.semNum p).mpr ⟨hp, psop, hpsop, rfl⟩
        rw [hsearched.frame.simplePending_eq _ _ rfl hnum] at hsimple
        exact ((h.mem_simple _ p).mp hsimple).1
      rcases hleft p hmem with hb | ⟨psop', hpsop', sop', hsop', htrigger', hnum'⟩
      · rw [blocks_simple hpsop] at hb
        rw [blocks_simple hpsop, hval]
        exact .inl hb
      · obtain rfl : psop = psop' := head_eq_of_cons_eq (hpsop.symm.trans hpsop')
        rcases mem_cons.mp hsop' with rfl | hsop'
        · exact absurd hnum'.symm hnum
        · refine .inr ⟨psop, hpsop, sop', hsop', ?_, hnum'⟩
          unfold Triggers at htrigger' ⊢
          rwa [hnum', hval, ← hnum']
    · have hstep : smartStep u sop = some u := if_neg htrigger
      rw [hstep]
      refine ih h hcount fun p hp => (hleft p hp).imp_right ?_
      rintro ⟨psop, hpsop, sop', hsop', htrigger', hnum'⟩
      rcases mem_cons.mp hsop' with rfl | hsop'
      · exact absurd htrigger' htrigger
      · exact ⟨psop, hpsop, sop', hsop', htrigger', hnum'⟩

lemma SemArray.Quiet.congr (h : sma.Quiet) (hpending : sma'.semPending = sma.semPending)
    (hval : sma'.semval = sma.semval) (hadj : sma'.semadj = sma.semadj) : sma'.Quiet := by
  intro q hq
  rw [hpending] at hq
  exact (SemArray.Blocks.congr hval hadj).mpr (h q hq)

/-- What the search is for: after every completion all pending operations are looked at again,
until there is none that could be completed. -/
def Rescans (sma : SemArray) (tasks : List (SemQueue × ℤ)) (sma' : SemArray) : Prop :=
  (∃ otime, Completes sma tasks { sma' with semOtime := otime }) ∧ sma'.Quiet

def Updated (sma : SemArray) (r : Option (SemArray × List (SemQueue × ℤ))) : Prop :=
  ∃ sma' tasks, r = some (sma', tasks) ∧ sma'.Wf ∧ Rescans sma tasks sma'

lemma doSmartUpdate_of {sops : Option (List Sembuf)}
    (h : ∃ u, smartUpdate sops ⟨sma, [], otime⟩ = some u ∧ u.sma.Wf ∧ u.sma.Quiet ∧
      Finds ⟨sma, [], otime⟩ u) (now : ℤ) : Updated sma (doSmartUpdate sma sops otime now) := by
  obtain ⟨u, hupdate, hwf, hquiet, tasks, htasks, hcompletes⟩ := h
  refine ⟨_, u.tasks, by rw [doSmartUpdate, hupdate]; rfl, ?_, ⟨u.sma.semOtime, ?_⟩, ?_⟩
  · exact hwf.of_lists hwf.semval_nonneg rfl rfl rfl
  · exact htasks ▸ hcompletes
  · exact hquiet.congr rfl rfl rfl

lemma doSmartUpdate_none (h : sma.Wf) (otime : Bool) (now : ℤ) :
    Updated sma (doSmartUpdate sma none otime now) := by
  refine doSmartUpdate_of ?_ now
  exact updateQueue_array h

lemma doSmartUpdate_some (h : sma.Wf) (hquiet : sma.Quiet) (happlied : Applied sops sma sma')
    (otime : Bool) (now : ℤ) : Updated sma' (doSmartUpdate sma' (some sops) otime now) := by
  refine doSmartUpdate_of ?_ now
  have hwf' := h.applied happlied
  unfold smartUpdate
  dsimp only
  by_cases hcount : sma'.complexCount = 0
  swap
  · rw [if_pos hcount]
    exact updateQueue_array hwf'
  rw [if_neg (not_not.mpr hcount)]
  refine smart_spec hwf' hcount fun p hp => ?_
  obtain ⟨psop, hpsop⟩ := hwf'.single hcount hp
  rw [happlied.semPending_eq] at hp
  have hb := hquiet p hp
  rcases lt_or_ge (sma.semval psop.semNum) (sma'.semval psop.semNum) with hlt | hle
  · obtain ⟨sop, hmem, hnum, hop⟩ := happlied.of_lt _ hlt
    exact .inr ⟨psop, hpsop, sop, hmem, .inl hop, hnum⟩
  by_cases hzero : psop.semOp = 0 ∧ sma'.semval psop.semNum = 0
  · obtain ⟨hwait, hval⟩ := hzero
    have hbefore := ((blocks_simple hpsop).mp hb).2
    have hnonneg := h.semval_nonneg psop.semNum
    obtain ⟨sop, hmem, hnum, hop⟩ := happlied.of_gt psop.semNum (by omega)
    exact .inr ⟨psop, hpsop, sop, hmem, .inr ⟨hop, hnum ▸ hval⟩, hnum⟩
  · exact .inl (hb.of_le hpsop hle fun hwait hval => hzero ⟨hwait, hval⟩)

lemma mem_addQueue : p ∈ addQueue l q ↔ p = q ∨ p ∈ l := by
  unfold addQueue
  split_ifs
  · rw [mem_append, mem_singleton, or_comm]
  · exact mem_cons

lemma addQueue_perm (l : List SemQueue) (q : SemQueue) : (addQueue l q).Perm (q :: l) := by
  unfold addQueue
  split_ifs
  · exact perm_append_singleton q l
  · exact .refl _

lemma nodup_addQueue (h : l.Nodup) (hq : q ∉ l) : (addQueue l q).Nodup :=
  (addQueue_perm l q).nodup_iff.mpr (nodup_cons.mpr ⟨hq, h⟩)

lemma SemArray.Wf.enqueue (h : sma.Wf) (hok : q.Ok) (hnew : q ∉ sma.semPending) :
    (enqueue sma q).Wf := by
  have hpok : ∀ p ∈ addQueue sma.semPending q, p.Ok := by
    intro p hp
    rcases mem_addQueue.mp hp with rfl | hp
    · exact hok
    · exact h.ok p hp
  have hnodup := nodup_addQueue h.nodup hnew
  have hcount := (addQueue_perm sma.semPending q).countP_eq fun q => decide (q.sops.length ≠ 1)
  rw [countP_cons] at hcount
  have hbefore := h.complexCount_eq
  unfold Sem.enqueue
  split
  · rename_i sop hsop
    have hnot : q ∉ sma.simplePending sop.semNum := fun hmem =>
      hnew ((h.mem_simple sop.semNum q).mp hmem).1
    refine ⟨h.semval_nonneg, hpok, hnodup, fun n p => ?_, fun n => ?_, fun n => ?_, ?_⟩
    · dsimp only
      rw [update_apply, mem_addQueue]
      split_ifs with hn
      · rw [mem_addQueue, h.mem_simple]
        constructor
        · rintro (rfl | ⟨hp, hsingle⟩)
          · exact ⟨.inl rfl, sop, hsop, hn.symm⟩
          · exact ⟨.inr hp, hn ▸ hsingle⟩
        · rintro ⟨rfl | hp, hsingle⟩
          · exact .inl rfl
          · exact .inr ⟨hp, hn ▸ hsingle⟩
      · rw [h.mem_simple]
        refine ⟨fun hp => ⟨.inr hp.1, hp.2⟩, ?_⟩
        rintro ⟨rfl | hp, sop', hsop', hnum'⟩
        · rw [hsop, List.cons.injEq] at hsop'
          exact absurd (hnum'.symm.trans (congrArg Sembuf.semNum hsop'.1.symm)) hn
        · exact ⟨hp, sop', hsop', hnum'⟩
    · dsimp only
      rw [update_apply]
      split_ifs with hn
      · exact nodup_addQueue (h.nodup_simple _) hnot
      · exact h.nodup_simple n
    · dsimp only
      rw [update_apply]
      split_ifs with hn
      · have hfirst := h.zero_first sop.semNum
        unfold addQueue
        split_ifs with halter
        · refine pairwise_append.mpr ⟨hfirst, pairwise_singleton _ q, fun a _ b hb hwait => ?_⟩
          rw [mem_singleton.mp hb, halter] at hwait
          cases hwait
        · exact pairwise_cons.mpr ⟨fun _ _ _ => Bool.not_eq_true _ ▸ halter, hfirst⟩
      · exact h.zero_first n
    · rw [hsop, if_neg nofun, add_zero] at hcount
      exact hbefore.trans (congrArg Nat.cast hcount.symm)
  · rename_i hmore
    have hlength : q.sops.length ≠ 1 := by
      intro hone
      obtain ⟨sop, hsop⟩ := length_eq_one_iff.mp hone
      exact hmore sop hsop
    refine ⟨h.semval_nonneg, hpok, hnodup, fun n p => ?_, h.nodup_simple, h.zero_first, ?_⟩
    · rw [h.mem_simple, mem_addQueue]
      refine ⟨fun hp => ⟨.inr hp.1, hp.2⟩, ?_⟩
      rintro ⟨rfl | hp, sop, hsop, hnum⟩
      · exact absurd hsop (hmore sop)
      · exact ⟨hp, sop, hsop, hnum⟩
    · rw [if_pos (by simpa using hlength)] at hcount
      dsimp only
      omega

lemma enqueue_semPending (sma : SemArray) (q : SemQueue) :
    (enqueue sma q).semPending = addQueue sma.semPending q := by
  unfold enqueue
  split <;> rfl

lemma SemArray.Quiet.enqueue (h : sma.Quiet) (hb : sma.Blocks q) : (enqueue sma q).Quiet := by
  have hsame : (Sem.enqueue sma q).semval = sma.semval ∧
      (Sem.enqueue sma q).semadj = sma.semadj := by
    unfold Sem.enqueue
    split <;> exact ⟨rfl, rfl⟩
  intro p hp
  rw [enqueue_semPending] at hp
  refine (SemArray.Blocks.congr hsame.1 hsame.2).mpr ?_
  rcases mem_addQueue.mp hp with rfl | hp
  · exact hb
  · exact h p hp

/-- The array as a call alters it itself, before it looks for operations to complete. -/
def Call.altered (sma : SemArray) : Call → SemArray
  | .semtimedop _ undo pid sops _ => (tryAtomicSemop sma sops undo pid).1
  | .interrupted _ _ => sma
  | .setval semnum val pid _ => sma.setval semnum.toNat val pid
  | .setall semIo _ => sma.setall semIo
  | .exitSem undo pid _ => sma.adjustAll undo pid

/-- The task of a call that gives up. -/
def Call.interrupts : Call → Option ℕ
  | .interrupted task _ => some task
  | _ => none

/-- Whom a call wakes up. A call that succeeds finds what rescanning would find. By any other
one nobody is woken up, and nobody leaves the list but a task that gives up. -/
def Call.Wakes (sma : SemArray) (c : Call) (sma' : SemArray) (reply : Reply) : Prop :=
  if c.interrupts = none ∧ reply.error = some 0 then Rescans (c.altered sma) reply.tasks sma'
  else reply.tasks = [] ∧
    ∀ q ∈ sma.semPending, c.interrupts = some q.sleeper ∨ q ∈ sma'.semPending

structure Done (sma : SemArray) (c : Call) (sma' : SemArray) (reply : Reply) : Prop where
  wf : sma'.Wf
  quiet : sma'.Quiet
  wakes : c.Wakes sma sma' reply

def Returns (sma : SemArray) (c : Call) : Prop :=
  ∃ sma' reply, call sma c = some (sma', reply) ∧ Done sma c sma' reply

lemma Returns.update {c : Call} {sops : Option (List Sembuf)} {now : ℤ} (hc : c.interrupts = none)
    (hcall : call sma c = (doSmartUpdate (c.altered sma) sops otime now).map fun r =>
      (r.1, ⟨some 0, r.2⟩))
    (h : Updated (c.altered sma) (doSmartUpdate (c.altered sma) sops otime now)) :
    Returns sma c := by
  obtain ⟨sma', tasks, hupdate, hwf, hrescans⟩ := h
  refine ⟨sma', ⟨some 0, tasks⟩, by rw [hcall, hupdate]; rfl, hwf, hrescans.2, ?_⟩
  rw [Call.Wakes, if_pos ⟨hc, rfl⟩]
  exact hrescans

lemma Returns.failed {c : Call} {error : ℤ}
    (hcall : call sma c = some (sma, ⟨some error, []⟩)) (herror : error ≠ 0) (h : sma.Wf)
    (hquiet : sma.Quiet) : Returns sma c := by
  refine ⟨sma, _, hcall, h, hquiet, ?_⟩
  rw [Call.Wakes, if_neg fun hzero => herror (Option.some.inj hzero.2)]
  exact ⟨rfl, fun _ hq => .inr hq⟩

lemma done_semtimedop (h : sma.Wf) (hquiet : sma.Quiet) {task : ℕ}
    (hawake : ∀ q ∈ sma.semPending, q.sleeper ≠ task) (undo : ℕ) (pid : ℤ) (sops : List Sembuf)
    (now : ℤ) : Returns sma (.semtimedop task undo pid sops now) := by
  have happlied := tryAtomicSemop_applied sma sops undo pid
  have halter : (sops.any fun sop => decide (sop.semOp ≠ 0)) = true ↔
      ∃ sop ∈ sops, sop.semOp ≠ 0 := by simp
  have hcall : call sma (.semtimedop task undo pid sops now) =
      Sem.semtimedop sma task undo pid sops now := rfl
  unfold Sem.semtimedop at hcall
  dsimp only at hcall
  split_ifs at hcall with hnil hmax herror hdone
  · exact .failed hcall (by decide) h hquiet
  · exact .failed hcall (by decide) h hquiet
  · exact .update rfl hcall (doSmartUpdate_some h hquiet happlied true now)
  · by_cases hzero : (tryAtomicSemop sma sops undo pid).2 = 0
    · -- the operation alters nothing
      have hops : ∀ sop ∈ sops, sop.semOp = 0 := by
        intro sop hsop
        by_contra hop
        exact hdone ⟨halter.mpr ⟨sop, hsop, hop⟩, hzero⟩
      have hquiet' :=
        hquiet.congr happlied.semPending_eq (happlied.unaltered hops) (happlied.semadj_eq hops)
      refine ⟨_, _, hcall, h.applied happlied, hquiet', ?_⟩
      rw [Call.Wakes, if_pos ⟨rfl, congrArg some hzero⟩]
      exact ⟨⟨_, .nil _⟩, hquiet'⟩
    · rw [tryAtomicSemop_ne hzero] at hcall
      exact .failed hcall hzero h hquiet
  · have hpos := not_le.mp herror
    rw [tryAtomicSemop_ne hpos.ne'] at hcall
    obtain ⟨q, hq⟩ : ∃ q : SemQueue, q = { sleeper := task, undo := undo, pid := pid, sops := sops
                                           alter := sops.any fun sop => decide (sop.semOp ≠ 0) } :=
      ⟨_, rfl⟩
    have hb : sma.Blocks q := hq ▸ hpos
    have hok : q.Ok := by
      refine ⟨hq ▸ hnil, hq ▸ halter, fun sop hsop => ?_⟩
      obtain ⟨hnowait, hcase⟩ := (blocks_simple hsop).mp hb
      have hnonneg := h.semval_nonneg sop.semNum
      exact ⟨hnowait, by omega⟩
    have hnew : q ∉ sma.semPending := fun hmem => hawake q hmem (hq ▸ rfl)
    rw [← hq] at hcall
    refine ⟨_, _, hcall, h.enqueue hok hnew, hquiet.enqueue hb, ?_⟩
    rw [Call.Wakes, if_neg nofun]
    refine ⟨rfl, fun p hp => .inr ?_⟩
    rw [enqueue_semPending]
    exact mem_addQueue.mpr (.inr hp)

lemma done_setval (h : sma.Wf) (hquiet : sma.Quiet) (semnum val pid now : ℤ) :
    Returns sma (.setval semnum val pid now) := by
  have hcall : call sma (.setval semnum val pid now) = Sem.setval sma semnum val pid now := rfl
  unfold Sem.setval at hcall
  split_ifs at hcall with hnum hval
  · exact .failed hcall (by decide) h hquiet
  · exact .failed hcall (by decide) h hquiet
  · refine .update rfl hcall (doSmartUpdate_none ?_ _ _)
    refine h.of_lists (fun n => ?_) rfl rfl rfl
    show 0 ≤ update sma.semval semnum.toNat val n
    rw [update_apply]
    split_ifs
    · omega
    · exact h.semval_nonneg n

lemma done_setall (h : sma.Wf) (hquiet : sma.Quiet) (semIo : ℕ → ℕ) (now : ℤ) :
    Returns sma (.setall semIo now) := by
  have hcall : call sma (.setall semIo now) = Sem.setall sma semIo now := rfl
  unfold Sem.setall at hcall
  split_ifs at hcall
  · exact .failed hcall (by decide) h hquiet
  · refine .update rfl hcall (doSmartUpdate_none ?_ _ _)
    refine h.of_lists (fun n => ?_) rfl rfl rfl
    show 0 ≤ if n < sma.semNsems then (semIo n : ℤ) else sma.semval n
    split_ifs
    · exact Int.natCast_nonneg _
    · exact h.semval_nonneg n

lemma done_exitSem (h : sma.Wf) (undo : ℕ) (pid now : ℤ) : Returns sma (.exitSem undo pid now) := by
  refine .update rfl rfl (doSmartUpdate_none ?_ _ _)
  refine h.of_lists (fun n => ?_) rfl rfl rfl
  show 0 ≤ if n < sma.semNsems then adjust (sma.semval n) (sma.semadj undo n) else sma.semval n
  have hval := h.semval_nonneg n
  have hmax : semvmx = 32767 := rfl
  unfold adjust
  dsimp only
  split_ifs <;> omega

lemma done_interrupted (h : sma.Wf) (hquiet : sma.Quiet) (task : ℕ) (error : ℤ) :
    Returns sma (.interrupted task error) := by
  have hcall : call sma (.interrupted task error) = some (Sem.interrupted sma task error) := rfl
  unfold Sem.interrupted at hcall
  cases hfind : sma.semPending.find? fun q => decide (q.sleeper = task) with
  | none =>
    rw [hfind] at hcall
    refine ⟨_, _, hcall, h, hquiet, ?_⟩
    rw [Call.Wakes, if_neg nofun]
    exact ⟨rfl, fun _ hq => .inr hq⟩
  | some q =>
    rw [hfind] at hcall
    refine ⟨_, _, hcall, h.unlink (mem_of_find?_eq_some hfind), fun p hp => ?_, ?_⟩
    · rw [unlinkQueue_semPending] at hp
      refine (SemArray.Blocks.congr (unlinkQueue_semval sma q) (unlinkQueue_semadj sma q)).mpr ?_
      exact hquiet p (mem_of_mem_erase hp)
    · rw [Call.Wakes, if_neg nofun]
      refine ⟨rfl, fun p hp => ?_⟩
      rw [unlinkQueue_semPending]
      rcases eq_or_ne p q with rfl | hne
      · have htask := find?_some hfind
        exact .inl (congrArg some (of_decide_eq_true htask).symm)
      · exact .inr ((mem_erase_of_ne hne).mpr hp)

lemma done_call (h : sma.Wf) (hquiet : sma.Quiet) (c : Call) (hallowed : Allowed sma c) :
    Returns sma c := by
  cases c with
  | semtimedop task undo pid sops now => exact done_semtimedop h hquiet hallowed undo pid sops now
  | interrupted task error => exact done_interrupted h hquiet task error
  | setval semnum val pid now => exact done_setval h hquiet semnum val pid now
  | setall semIo now => exact done_setall h hquiet semIo now
  | exitSem undo pid now => exact done_exitSem h undo pid now

lemma newary_wf (nsems : ℕ) : (newary nsems).Wf where
  semval_nonneg _ := le_rfl
  ok _ hq := nomatch hq
  nodup := nodup_nil
  mem_simple _ _ := ⟨nofun, fun hq => nomatch hq.1⟩
  nodup_simple _ := nodup_nil
  zero_first _ := List.Pairwise.nil
  complexCount_eq := rfl

/-- From an array in which all pending operations have to sleep, any calls lead to such arrays only.
No call runs into a `BUG_ON`, all of them return, and who leaves the list is woken up with the
result of the operation, as by rescanning, or has given up. -/
theorem no_missed_wakeup (h : sma.Wf) (hquiet : sma.Quiet) (hreach : call.Reach Allowed sma sma') :
    sma'.Wf ∧ sma'.Quiet ∧ ∀ c, Allowed sma' c → ∃ sma1 reply,
      call sma' c = some (sma1, reply) ∧ sma1.Quiet ∧ c.Wakes sma' sma1 reply := by
  have hinv : sma'.Wf ∧ sma'.Quiet := by
    refine hreach.invariant (I := fun t => t.Wf ∧ t.Quiet) ⟨h, hquiet⟩ ?_
    intro t t' c r hinv hallowed hcall
    obtain ⟨t1, r1, hcall1, hdone⟩ := done_call hinv.1 hinv.2 c hallowed
    rw [hcall] at hcall1
    cases hcall1
    exact ⟨hdone.wf, hdone.quiet⟩
  refine ⟨hinv.1, hinv.2, fun c hallowed => ?_⟩
  obtain ⟨sma1, reply, hcall, hdone⟩ := done_call hinv.1 hinv.2 c hallowed
  exact ⟨sma1, reply, hcall, hdone.quiet, hdone.wakes⟩

/-- In an array with one semaphore, a task waits for 2, and another one sets it to 1. When a third
one sets it to 2, the first one is woken up. -/
theorem no_missed_wakeup_two :
    (newary 1).Wf ∧ (newary 1).Quiet ∧ ∃ sma, call.Reach Allowed (newary 1) sma ∧
      sma.semPending.length = 1 ∧ sma.semval 0 = 1 ∧ ∃ sma1 reply,
        call sma (.setval 0 2 9 102) = some (sma1, reply) ∧
        (reply.tasks.map fun r => (r.1.sleeper, r.2)) = [(7, 0)] ∧ sma1.Quiet ∧
        (Call.setval 0 2 9 102).Wakes sma sma1 reply := by
  have hquiet : (newary 1).Quiet := nofun
  have hsleep : ∃ sma, call.Reach Allowed (newary 1) sma ∧ sma.semPending.length = 1 ∧
      sma.semval 0 = 1 ∧
      ((call sma (.setval 0 2 9 102)).map fun r => r.2.tasks.map fun r => (r.1.sleeper, r.2)) =
        some [(7, 0)] :=
    ⟨_, .call (i := .setval 0 1 8 101) (.call (i := .semtimedop 7 7 7 [⟨0, -2, false, false⟩] 100)
      .start nofun rfl) trivial rfl, rfl, rfl, rfl⟩
  obtain ⟨sma, hreach, hlength, hval, htasks⟩ := hsleep
  obtain ⟨-, -, hcalls⟩ := no_missed_wakeup (newary_wf 1) hquiet hreach
  obtain ⟨sma1, reply, hcall, hwakes⟩ := hcalls (.setval 0 2 9 102) trivial
  rw [hcall] at htasks
  exact ⟨newary_wf 1, hquiet, sma, hreach, hlength, hval, sma1, reply, hcall,
    Option.some.inj htasks, hwakes⟩

end Am335x.Sem
