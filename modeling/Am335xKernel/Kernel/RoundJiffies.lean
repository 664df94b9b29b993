import Am335xKernel.Lib.CInt
import Am335xKernel.Kernel.Interface
import Am335xKernel.Kernel.Timer

/-!
# Whole seconds: `round_jiffies_common`

A time is rounded to a whole second, with a skew for each CPU. Where rounding down leaves nothing
of a timeout the time is not rounded; but that is found by a comparison that does not wrap.
-/

namespace Am335x.Timer

/-- `cpu * 3`, as it is added to an `unsigned long` -/
def skew (cpu : ℤ) : ℕ := CInt.toU32 (cpu * 3)

def roundJiffiesCommon (jiffies j : ℕ) (cpu : ℤ) (forceUp : Bool) : ℕ :=
  let original := j
  let j := plus j (skew cpu)
  let rem := j % hz
  let j := if rem < hz / 4 ∧ forceUp = false then diff j rem else plus (diff j rem) hz
  let j := diff j (skew cpu)
  if j ≤ jiffies then original else j

/-- What `round_jiffies_common` is for. -/
def Rounds (jiffies j : ℕ) (forceUp : Bool) (r : ℕ) : Prop :=
  timeAfter r jiffies = true ∧ (diff r j ≤ hz ∨ diff j r ≤ hz) ∧
    (forceUp = true → timeAfterEq r j = true)

instance (jiffies j : ℕ) (forceUp : Bool) (r : ℕ) : Decidable (Rounds jiffies j forceUp r) :=
  inferInstanceAs (Decidable (_ ∧ _ ∧ _))

/-- How far a time is behind a whole second of the CPU. -/
def behind (j : ℕ) (cpu : ℤ) : ℕ := plus j (skew cpu) % hz

variable {jiffies j : ℕ}

/-- The skew cancels. -/
lemma roundJiffiesCommon_eq (jiffies j : ℕ) (cpu : ℤ) (forceUp : Bool) :
    ∃ r, r = (if behind j cpu < hz / 4 ∧ forceUp = false then diff j (behind j cpu)
        else plus j (hz - behind j cpu)) ∧
      roundJiffiesCommon jiffies j cpu forceUp = if r ≤ jiffies then j else r := by
  have hskew : skew cpu < 2 ^ 32 := by
    unfold skew CInt.toU32
    omega
  refine ⟨_, rfl, ?_⟩
  unfold roundJiffiesCommon behind
  generalize skew cpu = s at hskew ⊢
  have hdown : diff (diff (plus j s) (plus j s % hz)) s = diff j (plus j s % hz) := by
    unfold diff plus hz
    omega
  have hup : diff (plus (diff (plus j s) (plus j s % hz)) hz) s = plus j (hz - plus j s % hz) := by
    unfold diff plus hz
    omega
  by_cases hround : plus j s % hz < hz / 4 ∧ forceUp = false
  · simp only [if_pos hround, hdown]
  · simp only [if_neg hround, hup]

/-- **`round_jiffies_common`** is right unless it rounds down to a time before 0. -/
theorem round_jiffies_right_iff (hjiffies : jiffies < 2 ^ 32) (hj : j < 2 ^ 32)
    (hafter : 0 < diff j jiffies) (hnear : diff j jiffies < 2 ^ 30) (cpu : ℤ) (forceUp : Bool) :
    Rounds jiffies j forceUp (roundJiffiesCommon jiffies j cpu forceUp) ↔
      (forceUp = false → jiffies < j → behind j cpu < hz / 4 → behind j cpu ≤ j) := by
  obtain ⟨r, hr, heq⟩ := roundJiffiesCommon_eq jiffies j cpu forceUp
  have hbehind : behind j cpu < hz := Nat.mod_lt _ (by decide)
  rw [heq]
  generalize behind j cpu = rem at hr hbehind ⊢
  unfold Rounds timeAfter timeBefore timeAfterEq
  simp only [Bool.not_eq_true', decide_eq_false_iff_not, decide_eq_true_eq]
  unfold hz diff plus at *
  cases forceUp with
  | true =>
    rw [if_neg nofun] at hr
    simp only [forall_const, reduceCtorEq, false_implies, iff_true]
    split_ifs <;> omega
  | false =>
    simp only [and_true, reduceCtorEq, false_implies, forall_const] at hr ⊢
    split_ifs at hr ⊢ <;> omega

theorem round_jiffies_right_second :
    Rounds 1000 1010 false (roundJiffiesCommon 1000 1010 1 false) :=
  (round_jiffies_right_iff (by decide) (by decide) (by decide) (by decide) 1 false).mpr (by decide)

/-- Just after `jiffies` has wrapped, on the second CPU. -/
theorem round_jiffies_past : 0 < diff 2 1 ∧ diff 2 1 < 2 ^ 30 ∧
    ¬ Rounds 1 2 false (roundJiffiesCommon 1 2 1 false) := by
  decide

end Am335x.Timer
