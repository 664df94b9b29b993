import Mathlib.Algebra.BigOperators.Group.List.Basic
import Am335xKernel.Ipc.SemWakeup

/-!
# All of the operations, or none

`try_atomic_semop` compares each operation that is to be undone with the adjustment there was
before the call. Two of them on one semaphore can pass one by one where their sum does not; the
adjustment, a `short`, wraps then.
-/

namespace Am335x.Sem

open Function List Int16

/-- The sum of the operations on a semaphore. -/
def total (n : ℕ) (sops : List Sembuf) : ℤ :=
  (sops.map fun sop => if sop.semNum = n then sop.semOp else 0).sum

def IsSemval (x : ℤ) : Prop := 0 ≤ x ∧ x ≤ semvmx

def IsSemadj (x : ℤ) : Prop := -semaem - 1 ≤ x ∧ x ≤ semaem

/-- No operation has to wait or is out of range. An adjustment is compared as it was before. -/
def Passes (sma : SemArray) (un : ℕ) (sops : List Sembuf) : Prop :=
  ∀ pre sop post, sops = pre ++ sop :: post →
    (sop.semOp = 0 → sma.semval sop.semNum + total sop.semNum pre = 0) ∧
      IsSemval (sma.semval sop.semNum + total sop.semNum (pre ++ [sop])) ∧
      (sop.undo = true → IsSemadj ((sma.semadj un sop.semNum).toInt - sop.semOp))

/-- What `try_atomic_semop` is for. The adjustments are between `-SEMAEM - 1` and `SEMAEM` by their
type. -/
def AllOrNone (sma : SemArray) (sops : List Sembuf) (un : ℕ) (r : SemArray × ℤ) : Prop :=
  r.2 ≠ 0 ∧ r.1 = sma ∨
    r.2 = 0 ∧ (∀ n, r.1.semval n = sma.semval n + total n sops) ∧
      (∀ pre sop post, sops = pre ++ sop :: post →
        IsSemval (sma.semval sop.semNum + total sop.semNum (pre ++ [sop]))) ∧
      ∀ n, (r.1.semadj un n).toInt =
        (sma.semadj un n).toInt - total n (sops.filter Sembuf.undo)

variable {sma : SemArray} {sop : Sembuf} {sops done : List Sembuf} {un n : ℕ} {pid : ℤ}

lemma total_cons (n : ℕ) (sop : Sembuf) (sops : List Sembuf) :
    total n (sop :: sops) = total n [sop] + total n sops := by
  simp [total]

lemma applySop_semval : (applySop sma sop).semval n = sma.semval n + total n [sop] := by
  rcases eq_or_ne n sop.semNum with rfl | hn
  · simp [applySop, total]
  · simp [applySop, total, hn, hn.symm]

lemma applySop_total (n : ℕ) : (applySop sma sop).semval n + total n sops =
    sma.semval n + total n (sop :: sops) := by
  rw [applySop_semval, total_cons n sop sops, add_assoc]

lemma sopResult_zero_iff : sopResult sma un sop = 0 ↔ (sop.semOp = 0 → sma.semval sop.semNum = 0) ∧
      IsSemval (sma.semval sop.semNum + sop.semOp) ∧
      (sop.undo = true → IsSemadj ((sma.semadj un sop.semNum).toInt - sop.semOp)) := by
  unfold sopResult
  dsimp only [IsSemval, IsSemadj]
  split_ifs with hblock hwait hneg hwait hbig hundo
  all_goals grind

lemma passes_cons : Passes sma un (sop :: sops) ↔
    sopResult sma un sop = 0 ∧ Passes (applySop sma sop) un sops := by
  rw [sopResult_zero_iff]
  constructor
  · intro h
    refine ⟨by simpa [total] using h [] sop sops rfl, fun pre sop' post heq => ?_⟩
    have hrest := h (sop :: pre) sop' post (by rw [heq, cons_append])
    rw [cons_append, ← applySop_total, ← applySop_total] at hrest
    exact hrest
  · rintro ⟨hfirst, hrest⟩ pre sop' post heq
    cases pre with
    | nil =>
      cases heq
      simpa [total] using hfirst
    | cons x pre =>
      rw [cons_append, cons.injEq] at heq
      obtain ⟨rfl, heq⟩ := heq
      rw [cons_append, ← applySop_total, ← applySop_total]
      exact hrest pre sop' post heq

lemma applySops_zero_iff : (applySops un sma done sops).2.2 = 0 ↔ Passes sma un sops := by
  induction sops generalizing sma done with
  | nil => exact iff_of_true rfl fun pre sop post heq => by simp at heq
  | cons sop sops ih =>
    unfold applySops
    rw [passes_cons]
    split_ifs with hresult
    · exact iff_of_false hresult fun h => hresult h.1
    · rw [ih, and_iff_right (not_not.mp hresult)]

lemma applySops_all (h : (applySops un sma done sops).2.2 = 0) :
    (applySops un sma done sops).1.semadj = sma.semadj ∧
      ∀ n, (applySops un sma done sops).1.semval n = sma.semval n + total n sops := by
  induction sops generalizing sma done with
  | nil => exact ⟨rfl, fun n => (add_zero _).symm⟩
  | cons x sops ih =>
    unfold applySops at h ⊢
    split_ifs at h ⊢ with hresult
    · exact absurd h hresult
    obtain ⟨hadj, hval⟩ := ih h
    refine ⟨hadj, fun n => ?_⟩
    rw [hval, applySop_total]

lemma finishSop_semadj : (finishSop un pid sma sop).semadj un n =
    sma.semadj un n - Int16.ofInt (total n ([sop].filter Sembuf.undo)) := by
  unfold finishSop
  cases hundo : sop.undo with
  | false => simp [hundo, total]
  | true =>
    rcases eq_or_ne n sop.semNum with rfl | hn
    · simp [hundo, total, ofInt_sub]
    · simp [hundo, total, hn, hn.symm]

lemma foldl_finishSop_semadj : (done.foldl (finishSop un pid) sma).semadj un n =
    sma.semadj un n - Int16.ofInt (total n (done.filter Sembuf.undo)) := by
  induction done generalizing sma with
  | nil => simp [total]
  | cons sop done ih =>
    have hsum : total n ((sop :: done).filter Sembuf.undo) =
        total n ([sop].filter Sembuf.undo) + total n (done.filter Sembuf.undo) := by
      cases hundo : sop.undo <;> simp [hundo, total]
    rw [foldl_cons, ih, finishSop_semadj, hsum, Int16.ofInt_add, Int16.sub_sub]

lemma toInt_sub_iff {x : Int16} {t : ℤ} :
    (x - Int16.ofInt t).toInt = x.toInt - t ↔ IsSemadj (x.toInt - t) := by
  constructor
  · intro h
    rw [← h]
    exact ⟨le_toInt _, Int.le_of_lt_add_one (toInt_lt _)⟩
  · rintro ⟨hle, hge⟩
    rw [← ofInt_toInt x, ← ofInt_sub, ofInt_toInt]
    exact toInt_ofInt_of_le hle (Int.lt_add_one_of_le hge)

/-- **`try_atomic_semop`** returns 0 exactly if all the operations pass, and is right exactly if
then the adjustments stay in their range. -/
theorem try_atomic_semop_right_iff (sma : SemArray) (sops : List Sembuf) (un : ℕ) (pid : ℤ) :
    ((tryAtomicSemop sma sops un pid).2 = 0 ↔ Passes sma un sops) ∧
      (AllOrNone sma sops un (tryAtomicSemop sma sops un pid) ↔ (Passes sma un sops →
          ∀ n, IsSemadj ((sma.semadj un n).toInt - total n (sops.filter Sembuf.undo)))) := by
  have hpasses : (tryAtomicSemop sma sops un pid).2 = 0 ↔ Passes sma un sops := by
    rw [tryAtomicSemop_snd, applySops_zero_iff]
  refine ⟨hpasses, ?_⟩
  rw [← hpasses]
  by_cases hzero : (tryAtomicSemop sma sops un pid).2 = 0
  swap
  · exact iff_of_true (.inl ⟨hzero, tryAtomicSemop_ne hzero⟩) fun h => absurd h hzero
  have happlied := tryAtomicSemop_snd sma sops un pid ▸ hzero
  obtain ⟨hadj, hval⟩ := applySops_all happlied
  have hsemadj : ∀ n, (tryAtomicSemop sma sops un pid).1.semadj un n =
      sma.semadj un n - Int16.ofInt (total n (sops.filter Sembuf.undo)) := by
    intro n
    unfold tryAtomicSemop
    dsimp only
    rw [if_pos happlied, foldl_finishSop_semadj, hadj,
      (applySops_zero happlied).2, append_nil, filter_reverse]
    simp only [total, map_reverse, sum_reverse]
  have hsemval : (tryAtomicSemop sma sops un pid).1.semval =
      (applySops un sma [] sops).1.semval := by
    obtain ⟨_, _, hfold, -⟩ :=
      foldl_finishSop un pid (applySops un sma [] sops).2.1 (applySops un sma [] sops).1
    unfold tryAtomicSemop
    dsimp only
    rw [if_pos happlied, hfold]
  rw [forall_prop_of_true hzero]
  simp only [AllOrNone, hzero, hsemadj, hsemval, hval, toInt_sub_iff]
  simpa using fun _ pre sop post heq => (hpasses.mp hzero pre sop post heq).2.1

/-- Both operations that are to be undone are in the range of the adjustment 0, their sum is not. -/
theorem try_atomic_semop_wraps :
    let r := tryAtomicSemop { newary 1 with semval := fun _ => 32767 }
      [⟨0, -20000, false, true⟩, ⟨0, 20000, false, false⟩, ⟨0, -20000, false, true⟩] 0 1
    r.2 = 0 ∧ (r.1.semadj 0 0).toInt = -25536 := by
  decide

end Am335x.Sem
