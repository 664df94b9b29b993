import Mathlib.Data.Fin.VecNotation
import Mathlib.Data.List.FinRange
import Mathlib.Tactic.FinCases
import Am335xKernel.Lib.CInt
import Am335xKernel.Kernel.Interface

/-!
# The alarm burst machine of `drivers/pwm/pwm.c`

`beep_timer_fn` runs once per jiffy while an alarm level is set. It plays a
burst of pulses (one, three or ten for the low, mid and high level), rests for
the interval of the level and starts over. Each level has a status of its own;
all three share the down-counter `cnt`, which is tested before and decremented
after each step, and the switch `once_alarm_switch`, which is on from the
first tick of a burst to its last.

The status enumerations of the three levels are one type, `Status n`, for
bursts of `n` pulses: `HIGH_THREE_KEEP_STATUS` is `pulse 2 keep`, the value 0
(`HIGH_NONE_STATUS`, also `HIGH_ONE_RISEONE_STATUS`) is `Status.start`, and
`HIGH_END_STATUS` is `rest`. The branch bodies that the levels and pulses share
are `Shape.pulseBranch`; what differs is given per level.
-/

namespace Am335x.Pwm

open List

/-- `struct pwm_device *`; `none` is `NULL`. -/
abbrev DevicePtr := Option ℕ

inductive Call where
  | setDutyPercent (p : DevicePtr) (percent : ℤ)
  | setFrequency (p : DevicePtr) (freq : ℕ)
  | start (p : DevicePtr)
  | stop (p : DevicePtr)
  deriving DecidableEq, Repr

def alarmFred : ℕ := 260

inductive SoundLevel where
  | none | one | two | three | four | five | six | seven | eight | nine | ten
  deriving DecidableEq, Repr

/-- `sound_duty[level]`; the table's twelfth entry belongs to no level. -/
def soundDuty : SoundLevel → ℤ
  | .none => 0 | .one => 10 | .two => 20 | .three => 30 | .four => 40
  | .five => 50 | .six => 60 | .seven => 70 | .eight => 80 | .nine => 90
  | .ten => 95

/-- `pwm_change_freq`: nothing happens while no carrier was requested. -/
def pwmChangeFreq (gP : DevicePtr) (freq : ℕ) : List Call :=
  match gP with
  | none => []
  | some g =>
    [.stop (some g), .setDutyPercent (some g) 0, .setFrequency (some g) freq,
      .setDutyPercent (some g) 80, .start (some g)]

inductive AlarmLevel where
  | none | low | mid | high
  deriving DecidableEq, Repr

inductive Phase where
  | riseOne | riseTwo | riseThree | keep | fallOne | fallTwo | fallThree | finish
  deriving DecidableEq, Repr

/-- `LOW_STATUS`, `MID_STATUS` and `HIGH_STATUS`, for bursts of 1, 3 and 10
pulses. -/
inductive Status (n : ℕ) where
  | pulse (i : Fin n) (ph : Phase)
  | rest
  deriving DecidableEq, Repr

scoped instance low_neZero : NeZero 1 := ⟨by decide⟩

scoped instance mid_neZero : NeZero 3 := ⟨by decide⟩

scoped instance high_neZero : NeZero 10 := ⟨by decide⟩

/-- The value 0: `…_NONE_STATUS`, which is also the first status of a burst. -/
def Status.start {n : ℕ} [NeZero n] : Status n := .pulse 0 .riseOne

def Status.inBurst {n : ℕ} [NeZero n] (st : Status n) : Bool :=
  st ≠ .start && st ≠ .rest

/-- The fields of `BEEP_CONTROL` that one level's branches read and write. -/
structure Wave (n : ℕ) where
  status : Status n
  cnt : ℤ
  storecnt : ℤ
  once : Bool
  deriving DecidableEq, Repr

/-- What distinguishes the pulses of one level: `cnt` for the full-volume
phase, and `cnt` for the silence after a pulse that is not the last. -/
structure Shape (n : ℕ) where
  keepTicks : ℤ
  gap : Fin n → ℤ

structure Outputs where
  beepDevice : DevicePtr
  gP : DevicePtr
  duty : ℤ

/-- `(interval)*100` (or `*25*4`) as assigned to an `int`. -/
def restCount (interval : ℕ) : ℤ := CInt.toInt (interval * 100)

/-- The common form of a branch `status == … && cnt <= 0`. -/
def Wave.advance {n : ℕ} (w : Wave n) (next : Status n) (cnt : ℤ)
    (calls : List Call) : Wave n × List Call :=
  if w.cnt ≤ 0 then ({ w with status := next, cnt := cnt }, calls) else (w, [])

/-- The eight branches of pulse `i`. Only the very first branch of a burst is
taken whatever `cnt` is; it sets the pitch and the switch. -/
def Shape.pulseBranch {n : ℕ} (sh : Shape n) (o : Outputs) (interval : ℕ)
    (i : Fin n) (ph : Phase) (w : Wave n) : Wave n × List Call :=
  match ph with
  | .riseOne =>
    if i.val = 0 then
      ({ w with status := .pulse i .riseTwo, once := true, cnt := 1 },
        pwmChangeFreq o.gP alarmFred ++
          [.setDutyPercent o.beepDevice 0, .start o.beepDevice, .start o.gP])
    else
      w.advance (.pulse i .riseTwo) 1
        [.setDutyPercent o.beepDevice 0, .start o.beepDevice, .start o.gP]
  | .riseTwo =>
    w.advance (.pulse i .riseThree) 1 [.setDutyPercent o.beepDevice (o.duty * 3 / 7)]
  | .riseThree =>
    w.advance (.pulse i .keep) 1 [.setDutyPercent o.beepDevice (o.duty * 5 / 7)]
  | .keep =>
    w.advance (.pulse i .fallOne) sh.keepTicks [.setDutyPercent o.beepDevice o.duty]
  | .fallOne =>
    w.advance (.pulse i .fallTwo) 1 [.setDutyPercent o.beepDevice (o.duty * 5 / 7)]
  | .fallTwo =>
    w.advance (.pulse i .fallThree) 1 [.setDutyPercent o.beepDevice (o.duty * 3 / 7)]
  | .fallThree =>
    w.advance (.pulse i .finish) 1 [.setDutyPercent o.beepDevice (o.duty / 7)]
  | .finish =>
    if h : i.val + 1 < n then
      w.advance (.pulse ⟨i.val + 1, h⟩ .riseOne) (sh.gap i)
        [.stop o.beepDevice, .stop o.gP]
    else if w.cnt ≤ 0 then
      ({ status := .rest, cnt := restCount interval,
         storecnt := restCount interval, once := false },
        [.stop o.beepDevice, .stop o.gP])
    else (w, [])

/-- `status == …_END_STATUS && cnt <= 0`. -/
def Wave.restBranch {n : ℕ} [NeZero n] (w : Wave n) : Wave n × List Call :=
  if w.cnt ≤ 0 then ({ w with status := .start }, []) else (w, [])

/-- One `if … else if …` chain over all statuses, as the low and the mid level
have it. -/
def Shape.chain {n : ℕ} [NeZero n] (sh : Shape n) (o : Outputs) (interval : ℕ)
    (w : Wave n) : Wave n × List Call :=
  match w.status with
  | .pulse i ph => sh.pulseBranch o interval i ph w
  | .rest => w.restBranch

/-- The chain of one pulse of the high level. The last one also holds the
branch of `HIGH_END_STATUS`. -/
def Shape.block {n : ℕ} [NeZero n] (sh : Shape n) (o : Outputs) (interval : ℕ)
    (i : Fin n) (w : Wave n) : Wave n × List Call :=
  match w.status with
  | .pulse j ph => if j = i then sh.pulseBranch o interval i ph w else (w, [])
  | .rest => if i.val + 1 = n then w.restBranch else (w, [])

def Shape.blocks {n : ℕ} [NeZero n] (sh : Shape n) (o : Outputs) (interval : ℕ)
    (w : Wave n) : Wave n × List Call :=
  (List.finRange n).foldl
    (fun acc i =>
      let r := sh.block o interval i acc.1
      (r.1, acc.2 ++ r.2))
    (w, [])

/-- While resting, follow a change of the interval: the ticks already waited
are `storecnt - cnt`. The comparison is between an `int` and an
`unsigned long`. -/
def Wave.rebase {n : ℕ} (interval : ℕ) (w : Wave n) : Wave n :=
  if w.status = .rest ∧ CInt.toU32 w.storecnt ≠ CInt.toU32 (interval * 100) then
    { w with cnt := CInt.toInt (interval * 100 - (w.storecnt - w.cnt)),
             storecnt := restCount interval }
  else w

/-- `--data->cnt`. -/
def Wave.dec {n : ℕ} (w : Wave n) : Wave n := { w with cnt := CInt.toInt (w.cnt - 1) }

def lowShape : Shape 1 := { keepTicks := 15, gap := fun _ => 0 }

def midShape : Shape 3 := { keepTicks := 14, gap := fun _ => 17 }

def highShape : Shape 10 :=
  { keepTicks := 14, gap := ![4, 4, 28, 4, 60, 4, 4, 28, 4, 0] }

/-- The `ALARM_LOW` part of the handler, up to re-arming the timer. -/
def lowTick (o : Outputs) (interval : ℕ) (w : Wave 1) : Wave 1 × List Call :=
  let r := lowShape.chain o interval w
  ((r.1.rebase interval).dec, r.2)

/-- The `ALARM_MID` part. -/
def midTick (o : Outputs) (interval : ℕ) (w : Wave 3) : Wave 3 × List Call :=
  let r := midShape.chain o interval w
  ((r.1.rebase interval).dec, r.2)

/-- The `ALARM_HIGH` part; it decrements before it follows the interval. -/
def highTick (o : Outputs) (interval : ℕ) (w : Wave 10) : Wave 10 × List Call :=
  let r := highShape.blocks o interval w
  (r.1.dec.rebase interval, r.2)

def Phase.index : Phase → ℕ
  | .riseOne => 0 | .riseTwo => 1 | .riseThree => 2 | .keep => 3
  | .fallOne => 4 | .fallTwo => 5 | .fallThree => 6 | .finish => 7

lemma Phase.index_le (ph : Phase) : ph.index ≤ 7 := by cases ph <;> decide

section

variable {n : ℕ} (sh : Shape n) (o : Outputs) (interval : ℕ) {w : Wave n}

lemma Wave.advance_of_le (h : w.cnt ≤ 0) (next : Status n) (cnt : ℤ) (calls : List Call) :
    w.advance next cnt calls = ({ w with status := next, cnt := cnt }, calls) :=
  if_pos h

lemma Wave.advance_of_pos (h : 0 < w.cnt) (next : Status n) (cnt : ℤ) (calls : List Call)
    : w.advance next cnt calls = (w, []) :=
  if_neg (not_le.mpr h)

/-- The outcomes of a branch of pulse `i`: it waits for `cnt`, begins the
burst, goes on to the pulse's next phase, ends the pulse or ends the burst. -/
inductive Shape.Outcome (i : Fin n) (ph : Phase) (w : Wave n) : Wave n → Prop
  | wait (hc : 0 < w.cnt) (hne : ¬ (i.val = 0 ∧ ph = .riseOne)) : Outcome i ph w w
  | begin (hi : i.val = 0) (hph : ph = .riseOne) :
      Outcome i ph w { w with status := .pulse i .riseTwo, once := true, cnt := 1 }
  | next (ph' : Phase) (cnt : ℤ) (hc : w.cnt ≤ 0) (hne : ¬ (i.val = 0 ∧ ph = .riseOne))
      (hidx : ph'.index = ph.index + 1) :
      Outcome i ph w { w with status := .pulse i ph', cnt := cnt }
  | gap (hc : w.cnt ≤ 0) (hph : ph = .finish) (hi : i.val + 1 < n) :
      Outcome i ph w { w with status := .pulse ⟨i.val + 1, hi⟩ .riseOne, cnt := sh.gap i }
  | done (hc : w.cnt ≤ 0) (hph : ph = .finish) (hi : i.val + 1 = n) :
      Outcome i ph w { status := .rest, cnt := restCount interval,
                       storecnt := restCount interval, once := false }

lemma Shape.pulseBranch_outcome (i : Fin n) (ph : Phase) (w : Wave n) :
    sh.Outcome interval i ph w (sh.pulseBranch o interval i ph w).1 := by
  rcases le_or_gt w.cnt 0 with hc | hc
  · cases ph with
    | riseOne =>
      by_cases hi : i.val = 0
      · simp only [pulseBranch, if_pos hi]
        exact .begin hi rfl
      · simp only [pulseBranch, if_neg hi, Wave.advance_of_le hc]
        exact .next _ _ hc (fun h => hi h.1) rfl
    | finish =>
      by_cases hi : i.val + 1 < n
      · simp only [pulseBranch, dif_pos hi, Wave.advance_of_le hc]
        exact .gap hc rfl hi
      · have hn : i.val + 1 = n := by omega
        simp only [pulseBranch, dif_neg hi, if_pos hc]
        exact .done hc rfl hn
    | _ =>
      simp only [pulseBranch, Wave.advance_of_le hc]
      exact .next _ _ hc (by simp) rfl
  · have hnle : ¬ w.cnt ≤ 0 := not_le.mpr hc
    cases ph with
    | riseOne =>
      by_cases hi : i.val = 0
      · simp only [pulseBranch, if_pos hi]
        exact .begin hi rfl
      · simp only [pulseBranch, if_neg hi, Wave.advance_of_pos hc]
        exact .wait hc (fun h => hi h.1)
    | finish =>
      by_cases hi : i.val + 1 < n
      · simp only [pulseBranch, dif_pos hi, Wave.advance_of_pos hc]
        exact .wait hc (by simp)
      · simp only [pulseBranch, dif_neg hi, if_neg hnle]
        exact .wait hc (by simp)
    | _ =>
      simp only [pulseBranch, Wave.advance_of_pos hc]
      exact .wait hc (by simp)

end

section

variable {n : ℕ} [NeZero n] {sh : Shape n} {o : Outputs} {interval : ℕ}

/-- A chain that has nothing to do in `w`. -/
def Shape.Quiet (sh : Shape n) (o : Outputs) (interval : ℕ) (i : Fin n)
    (w : Wave n) : Prop :=
  sh.block o interval i w = (w, [])

variable {i j : Fin n} {ph : Phase} {w : Wave n}

lemma Shape.quiet_of_ne (h : w.status = .pulse j ph) (hne : j ≠ i) : sh.Quiet o interval i w := by
  simp only [Quiet, block, h, if_neg hne]

lemma Shape.foldl_quiet (l : List (Fin n)) (w : Wave n) (cs : List Call)
    (h : ∀ i ∈ l, sh.Quiet o interval i w) : l.foldl (fun acc i =>
      let r := sh.block o interval i acc.1
      (r.1, acc.2 ++ r.2)) (w, cs) = (w, cs) := by
  induction l with
  | nil => rfl
  | cons i l ih =>
    have hi : sh.block o interval i w = (w, []) := h i mem_cons_self
    simp only [foldl_cons, hi, append_nil]
    exact ih fun j hj => h j (mem_cons_of_mem _ hj)

section

variable (hgap : ∀ i : Fin n, i.val + 1 < n → 0 < sh.gap i)
include hgap

lemma Shape.quiet_after {k : Fin n} (hw : w.status = .pulse j ph) (hjk : j < k) :
    sh.Quiet o interval k (sh.pulseBranch o interval j ph w).1 := by
  have hlt : j.val < k.val := hjk
  have hne : j ≠ k := hjk.ne
  have hout := sh.pulseBranch_outcome o interval j ph w
  generalize (sh.pulseBranch o interval j ph w).1 = r at hout ⊢
  cases hout with
  | wait _ _ => exact quiet_of_ne hw hne
  | gap _ _ hj =>
    by_cases hkj : k.val = j.val + 1
    · obtain rfl : k = ⟨j.val + 1, hj⟩ := Fin.ext hkj
      have hcnt : 0 < (sh.gap j) := hgap j hj
      simp [Quiet, block, pulseBranch, Wave.advance, hcnt]
    · exact quiet_of_ne rfl (fun he => hkj (congrArg Fin.val he).symm)
  | done _ _ hj =>
    have := k.isLt
    omega
  | _ => exact quiet_of_ne rfl hne

/-- **The chains of the high level never take two steps in one tick**: where
all gaps are positive they do what a single chain would do. -/
lemma Shape.blocks_eq_chain (w : Wave n) : sh.blocks o interval w = sh.chain o interval w := by
  have hsorted := pairwise_lt_finRange n
  cases hst : w.status with
  | rest =>
    have hpos := NeZero.pos n
    obtain ⟨m, hm⟩ : ∃ m : Fin n, m.val + 1 = n :=
      ⟨⟨n - 1, by omega⟩, by show n - 1 + 1 = n; omega⟩
    obtain ⟨pre, post, hsplit⟩ := append_of_mem (mem_finRange m)
    rw [hsplit] at hsorted
    have hpre : ∀ i ∈ pre, sh.Quiet o interval i w := by
      intro i hi
      have hlt : i.val < m.val :=
        (pairwise_append.mp hsorted).2.2 i hi m mem_cons_self
      simp only [Quiet, block, hst, if_neg (by omega : i.val + 1 ≠ n)]
    have hpost : post = [] := by
      rcases eq_nil_or_concat post with h | ⟨_, k, rfl⟩
      · exact h
      · have hlt : m.val < k.val := (pairwise_cons.mp
          (pairwise_append.mp hsorted).2.1).1 k (by simp)
        omega
    have hblock : sh.block o interval m w = w.restBranch := by
      simp only [block, hst, if_pos hm]
    rw [blocks, hsplit, foldl_append, foldl_quiet pre w [] hpre, hpost]
    simp [hblock, chain, hst]
  | pulse j ph =>
    obtain ⟨pre, post, hsplit⟩ := append_of_mem (mem_finRange j)
    rw [hsplit] at hsorted
    have hpre : ∀ i ∈ pre, sh.Quiet o interval i w := by
      intro i hi
      have hlt : i < j := (pairwise_append.mp hsorted).2.2 i hi j mem_cons_self
      exact quiet_of_ne hst hlt.ne'
    have hpost : ∀ k ∈ post, sh.Quiet o interval k (sh.pulseBranch o interval j ph w).1 := by
      intro k hk
      exact quiet_after hgap hst
        ((pairwise_cons.mp (pairwise_append.mp hsorted).2.1).1 k hk)
    have hblock : sh.block o interval j w = sh.pulseBranch o interval j ph w := by
      simp [block, hst]
    rw [blocks, hsplit, foldl_append, foldl_quiet pre w [] hpre, foldl_cons]
    simp only [hblock, nil_append]
    rw [foldl_quiet post _ _ hpost]
    simp [chain, hst]

end

lemma highTick_eq (o : Outputs) (interval : ℕ) (w : Wave 10) : highTick o interval w =
      ((highShape.chain o interval w).1.dec.rebase interval, (highShape.chain o interval w).2) := by
  have hgap : ∀ i : Fin 10, i.val + 1 < 10 → 0 < highShape.gap i := by decide
  simp [highTick, Shape.blocks_eq_chain hgap]

end

section

variable {n : ℕ} {interval : ℕ}

@[simp] lemma Wave.rebase_status (w : Wave n) : (w.rebase interval).status = w.status := by
  unfold rebase
  split <;> rfl

@[simp] lemma Wave.rebase_once (w : Wave n) : (w.rebase interval).once = w.once := by
  unfold rebase
  split <;> rfl

@[simp] lemma Wave.dec_status (w : Wave n) : w.dec.status = w.status := rfl
@[simp] lemma Wave.dec_once (w : Wave n) : w.dec.once = w.once := rfl

variable {w : Wave n}

lemma Wave.rebase_eq_self (h : w.status = .rest → w.storecnt = restCount interval) :
    w.rebase interval = w := by
  unfold rebase
  rw [if_neg]
  rintro ⟨hrest, hne⟩
  exact hne ((congrArg CInt.toU32 (h hrest)).trans (CInt.toU32_toInt _))

lemma Shape.pulseBranch_storecnt (sh : Shape n) (o : Outputs) {i : Fin n} {ph : Phase}
    (hw : w.status = .pulse i ph) (h : (sh.pulseBranch o interval i ph w).1.status = .rest) :
    (sh.pulseBranch o interval i ph w).1.storecnt = restCount interval := by
  have hout := sh.pulseBranch_outcome o interval i ph w
  generalize (sh.pulseBranch o interval i ph w).1 = r at hout h ⊢
  cases hout with
  | wait _ _ => rw [hw] at h; cases h
  | done _ _ _ => dsimp only
  | _ => cases h

end

open Wave

section

variable {n : ℕ} [NeZero n] {sh : Shape n} {o : Outputs} {interval : ℕ}
  {f : Wave n → Wave n × List Call}

/-- The three levels' ticks agree on this: in a pulse the tick is the branch
and the decrement, and at rest it changes neither the switch nor the devices
and at most goes back to the start of a burst. -/
structure IsTick (sh : Shape n) (o : Outputs) (interval : ℕ)
    (f : Wave n → Wave n × List Call) : Prop where
  pulse : ∀ {w : Wave n} {i : Fin n} {ph : Phase}, w.status = .pulse i ph →
    f w = ((sh.pulseBranch o interval i ph w).1.dec, (sh.pulseBranch o interval i ph w).2)
  rest_status : ∀ {w : Wave n}, w.status = .rest →
    (f w).1.status = .rest ∨ (f w).1.status = .start
  rest_once : ∀ {w : Wave n}, w.status = .rest → (f w).1.once = w.once
  rest_calls : ∀ {w : Wave n}, w.status = .rest → (f w).2 = []

variable {w : Wave n}

lemma Wave.restBranch_once (w : Wave n) : w.restBranch.1.once = w.once := by
  unfold restBranch
  split <;> rfl

lemma Wave.restBranch_calls (w : Wave n) : w.restBranch.2 = [] := by
  unfold restBranch
  split <;> rfl

/-- The low and the middle level rebase before the decrement and the high one behind it. -/
lemma isTick_of_chain {g : Wave n → Wave n} (hstatus : ∀ w, (g w).status = w.status)
    (honce : ∀ w, (g w).once = w.once)
    (hdec : ∀ w, (w.status = .rest → w.storecnt = restCount interval) → g w = w.dec)
    (hf : ∀ w, f w = (g (sh.chain o interval w).1, (sh.chain o interval w).2)) :
    IsTick sh o interval f where
  pulse := by
    intro w i ph hw
    rw [hf]
    simp only [Shape.chain, hw]
    rw [hdec _ (sh.pulseBranch_storecnt o hw)]
  rest_status := by
    intro w hw
    rw [hf]
    simp only [Shape.chain, hw, hstatus]
    unfold restBranch
    split
    · exact .inr rfl
    · exact .inl hw
  rest_once := by
    intro w hw
    rw [hf]
    simp [Shape.chain, hw, honce, restBranch_once]
  rest_calls := by
    intro w hw
    rw [hf]
    simp [Shape.chain, hw, restBranch_calls]

lemma isTick_of_rebase_dec (hf : ∀ w, f w = (((sh.chain o interval w).1.rebase interval).dec,
      (sh.chain o interval w).2)) : IsTick sh o interval f :=
  isTick_of_chain (g := fun w => (w.rebase interval).dec) rebase_status rebase_once
    (fun _ h => congrArg dec (rebase_eq_self h)) hf

lemma lowTick_isTick (o : Outputs) (interval : ℕ) :
    IsTick lowShape o interval (lowTick o interval) :=
  isTick_of_rebase_dec fun _ => rfl

lemma midTick_isTick (o : Outputs) (interval : ℕ) :
    IsTick midShape o interval (midTick o interval) :=
  isTick_of_rebase_dec fun _ => rfl

lemma highTick_isTick (o : Outputs) (interval : ℕ) :
    IsTick highShape o interval (highTick o interval) :=
  isTick_of_chain (fun w => rebase_status w.dec) (fun w => rebase_once w.dec)
    (fun w h => rebase_eq_self (w := w.dec) h) (highTick_eq o interval)

open Status

lemma Status.inBurst_iff {st : Status n} : st.inBurst = true ↔ st ≠ .start ∧ st ≠ .rest := by
  simp [inBurst]

variable {i : Fin n} {ph : Phase}

lemma Status.pulse_eq_start :
    (Status.pulse i ph : Status n) = .start ↔ i.val = 0 ∧ ph = .riseOne := by
  simp [start]

/-- **The switch follows the status**: it is on exactly from the tick that
begins a burst to the tick that ends it. -/
lemma IsTick.once_eq_inBurst (hf : IsTick sh o interval f) (h : w.once = w.status.inBurst)
    : (f w).1.once = (f w).1.status.inBurst := by
  cases hst : w.status with
  | rest =>
    have hoff : w.once = false := by rw [h, hst]; simp [inBurst]
    rw [hf.rest_once hst, hoff]
    rcases hf.rest_status hst with hs | hs <;> rw [hs] <;> simp [inBurst]
  | pulse i ph =>
    rw [hf.pulse hst]
    have hout := sh.pulseBranch_outcome o interval i ph w
    generalize (sh.pulseBranch o interval i ph w).1 = r at hout ⊢
    simp only [dec_once, dec_status]
    have hon : ¬ (i.val = 0 ∧ ph = .riseOne) → w.once = true := by
      intro hne
      rw [h, hst, inBurst_iff, Ne, pulse_eq_start]
      exact ⟨hne, by simp⟩
    cases hout with
    | wait _ _ => exact h
    | begin _ _ => simp [inBurst, pulse_eq_start]
    | next ph' _ _ hne hidx =>
      have hph : ph' ≠ .riseOne := by rintro rfl; simp [Phase.index] at hidx
      simp [inBurst, pulse_eq_start, hon hne, hph]
    | gap _ hph _ =>
      simp [inBurst, pulse_eq_start, hon (by simp [hph])]
    | done _ _ _ => simp [inBurst]

/-! ### Every burst comes to its end -/

def Status.rank : Status n → ℕ
  | .pulse i ph => 8 * (n - i.val) - ph.index
  | .rest => 0

variable (hf : IsTick sh o interval f)
include hf

lemma IsTick.rank_lt (hst : w.status = .pulse i ph) : (f w).1.status.rank < w.status.rank ∨
      ((f w).1.status = w.status ∧ (f w).1.cnt.toNat < w.cnt.toNat) := by
  rw [hf.pulse hst]
  have hout := sh.pulseBranch_outcome o interval i ph w
  generalize (sh.pulseBranch o interval i ph w).1 = r at hout ⊢
  have hle := ph.index_le
  have hi := i.isLt
  simp only [dec_status]
  cases hout with
  | wait hc _ =>
    refine .inr ⟨rfl, ?_⟩
    have hdec : CInt.toInt (w.cnt - 1) ≤ w.cnt - 1 := CInt.toInt_le (by omega)
    simp only [dec]
    omega
  | begin h0 hph =>
    refine .inl ?_
    rw [hst, hph]
    simp only [rank, Phase.index]
    omega
  | next ph' _ _ _ hidx =>
    refine .inl ?_
    have hle' := ph'.index_le
    rw [hst]
    simp only [rank]
    omega
  | gap _ hph hlt =>
    refine .inl ?_
    rw [hst, hph]
    simp only [rank, Phase.index]
    omega
  | done _ _ _ =>
    refine .inl ?_
    rw [hst]
    simp only [rank]
    omega

lemma IsTick.once_of_rest (hw : w.status ≠ .rest)
    (h : (f w).1.status = .rest) : (f w).1.once = false := by
  cases hst : w.status with
  | rest => exact absurd hst hw
  | pulse i ph =>
    rw [hf.pulse hst] at h ⊢
    have hout := sh.pulseBranch_outcome o interval i ph w
    generalize (sh.pulseBranch o interval i ph w).1 = r at hout h ⊢
    simp only [dec_status, dec_once] at h ⊢
    cases hout with
    | wait _ _ => exact absurd h hw
    | done _ _ _ => rfl
    | _ => cases h

/-- **Every burst ends**: from any status that is not the rest, some number of
ticks later the level rests and the switch is off. -/
lemma IsTick.finishes (hw : w.status ≠ .rest) :
    ∃ k, ((fun v => (f v).1)^[k] w).status = .rest ∧ ((fun v => (f v).1)^[k] w).once = false := by
  -- lexicographic induction: remaining branches first, then the counter
  induction hr : w.status.rank using Nat.strong_induction_on generalizing w with
  | _ r ihr =>
    induction hc : w.cnt.toNat using Nat.strong_induction_on generalizing w with
    | _ c ihc =>
      have hstep : (f w).1.status ≠ .rest → ∃ k, ((fun v => (f v).1)^[k] (f w).1).status = .rest ∧
            ((fun v => (f v).1)^[k] (f w).1).once = false := by
        intro hne
        cases hst : w.status with
        | rest => exact absurd hst hw
        | pulse i ph =>
          rcases hf.rank_lt hst with hlt | ⟨heq, hlt⟩
          · exact ihr _ (hr ▸ hlt) hne rfl
          · exact ihc _ (hc ▸ hlt) hne (by rw [heq, hr]) rfl
      by_cases hrest : (f w).1.status = .rest
      · exact ⟨1, hrest, hf.once_of_rest hw hrest⟩
      · obtain ⟨k, hk⟩ := hstep hrest
        exact ⟨k + 1, hk⟩

end

end Am335x.Pwm
