import Am335xKernel.Lib.CInt

/-!
# The touchscreen of `drivers/input/touchscreen/ti_tsc.c`

An interrupt for the threshold of FIFO 0 reads some samples of each coordinate and
chooses of each the one next to the sample before it. The position is reported if it
is near the one of the interrupt before.

The two distances are unsigned differences, and only the x coordinates are compared
to tell which way round both are taken.
-/

namespace Am335x.TouchScreen

open CInt

/-- The fields of `struct tscadc` that are read here. -/
structure Tscadc where
  stepsToConfig : ℕ
  xPlateResistance : ℤ

structure State where
  bckupX : ℕ
  bckupY : ℕ
  pen : ℕ
  deriving DecidableEq

def State.init : State := { bckupX := 0, bckupY := 0, pen := 1 }

/-- What an interrupt reads: the two status registers, the words of FIFO 0 in their
order, and the state of the sequencer. -/
structure Irq where
  status : ℕ
  fifo0 : ℕ → ℕ
  rawStatus : ℕ
  fsm : ℕ

inductive Report where
  | touch (x y pressure : ℕ)
  | release
  deriving DecidableEq

def fifo0Thres : ℕ := 2
def fifo0Ovrrun : ℕ := 3
def fifo0Undrflw : ℕ := 4
def fifo1Thres : ℕ := 5
def fifo1Ovrrun : ℕ := 6
def fifo1Undrflw : ℕ := 7
def penup : ℕ := 9

def max12bit : ℕ := 2 ^ 12 - 1

/-- `prev_val_x`, `prev_diff_x` and `val_x`, or those of y. -/
structure Pick where
  prevVal : ℕ
  prevDiff : ℕ
  val : ℕ

def Pick.init : Pick := { prevVal := 2 ^ 32 - 1, prevDiff := 2 ^ 32 - 1, val := 0 }

def Pick.sample (p : Pick) (read : ℕ) : Pick :=
  let curDiff := if p.prevVal < read then read - p.prevVal else p.prevVal - read
  if curDiff < p.prevDiff then { prevVal := read, prevDiff := curDiff, val := read }
  else { p with prevVal := read }

/-- A pass of the loop over the samples of a coordinate; `mine` tells its channels. -/
def Pick.read (mine : ℕ → Bool) (p : Pick) (word : ℕ) : Pick :=
  if mine ((word &&& 0xf0000) >>> 16) then p.sample (word &&& 0xfff) else p

def pick (mine : ℕ → Bool) (words : List ℕ) : ℕ := (words.foldl (Pick.read mine) .init).val

variable (ts : Tscadc) (irq : Irq)

def valX : ℕ :=
  pick (· < ts.stepsToConfig) ((List.range ts.stepsToConfig).map irq.fifo0)

def valY : ℕ :=
  pick (fun channel => ts.stepsToConfig ≤ channel && channel < 2 * ts.stepsToConfig - 1)
    ((List.range' ts.stepsToConfig ts.stepsToConfig).map irq.fifo0)

def z1 : ℕ := irq.fifo0 (2 * ts.stepsToConfig) &&& 0xfff

def z2 : ℕ := irq.fifo0 (2 * ts.stepsToConfig + 1) &&& 0xfff

/-- The pressure, in `unsigned int`. -/
def pressure : ℕ :=
  let z := toU32 (toU32 (toU32 (z2 ts irq - z1 ts irq) * valX ts irq) * ts.xPlateResistance)
  toU32 (z / z1 ts irq + 2047 : ℕ) >>> 12

/-- `diffx` and `diffy`. -/
def diffs (s : State) : ℕ × ℕ :=
  if s.bckupX < valX ts irq then (toU32 (valX ts irq - s.bckupX), toU32 (valY ts irq - s.bckupY))
  else (toU32 (s.bckupX - valX ts irq), toU32 (s.bckupY - valY ts irq))

/-- The samples of an interrupt for the threshold of FIFO 0. -/
def sampled (s : State) : State × List Report :=
  let d := diffs ts irq s
  ({ s with bckupX := valX ts irq, bckupY := valY ts irq },
    if z1 ts irq ≠ 0 ∧ z2 ts irq ≠ 0 ∧ s.pen = 0 ∧ d.1 < 15 ∧ d.2 < 15 ∧
        pressure ts irq ≤ max12bit then
      [.touch (valX ts irq) (valY ts irq) (pressure ts irq)]
    else [])

/-- The end of `tscadc_interrupt`, with the pen-up event. -/
def penEvent (s : State) : State × List Report :=
  if irq.rawStatus.testBit penup then
    if irq.fsm = 0x10 then (State.init, [.release]) else ({ s with pen := 0 }, [])
  else (s, [])

def tscadcInterrupt (s : State) : State × List Report :=
  if irq.status.testBit fifo1Thres || irq.status.testBit fifo1Ovrrun ||
      irq.status.testBit fifo1Undrflw then (s, [])
  else if irq.status.testBit fifo0Ovrrun || irq.status.testBit fifo0Undrflw then (s, [])
  else
    let r := if irq.status.testBit fifo0Thres then sampled ts irq s else (s, [])
    let p := penEvent irq r.1
    (p.1, r.2 ++ p.2)

def interrupts (s : State) (irqs : List Irq) : State :=
  irqs.foldl (fun s irq => (tscadcInterrupt ts irq s).1) s

/-- An interrupt for the threshold of FIFO 0 and none of the others that come first. -/
def Irq.Threshold : Prop :=
  irq.status.testBit fifo0Thres ∧ ∀ bit ∈ [fifo0Ovrrun, fifo0Undrflw, fifo1Thres, fifo1Ovrrun,
    fifo1Undrflw], irq.status.testBit bit = false

variable {ts irq} {s : State}

lemma Pick.read_lt {p : Pick} (hp : p.val < 2 ^ 12) (mine : ℕ → Bool) (word : ℕ) :
    (p.read mine word).val < 2 ^ 12 := by
  have hword : word &&& 0xfff < 2 ^ 12 := Nat.and_lt_two_pow word (by decide)
  unfold Pick.read Pick.sample
  dsimp only
  split_ifs
  all_goals first | exact hword | exact hp

lemma pick_lt (mine : ℕ → Bool) (words : List ℕ) : pick mine words < 2 ^ 12 := by
  suffices hfold : ∀ p : Pick, p.val < 2 ^ 12 → (words.foldl (Pick.read mine) p).val < 2 ^ 12 from
    hfold .init (by decide)
  induction words with
  | nil => exact fun p hp => hp
  | cons word words ih => exact fun p hp => ih _ (Pick.read_lt hp mine word)

/-- The coordinates have twelve bits. -/
structure State.Bounded (s : State) : Prop where
  x : s.bckupX < 2 ^ 12
  y : s.bckupY < 2 ^ 12

lemma State.Bounded.penEvent (h : s.Bounded) : (penEvent irq s).1.Bounded := by
  unfold TouchScreen.penEvent
  split_ifs
  · exact ⟨by decide, by decide⟩
  · exact ⟨h.x, h.y⟩
  · exact h

lemma State.Bounded.interrupt (h : s.Bounded) : (tscadcInterrupt ts irq s).1.Bounded := by
  unfold tscadcInterrupt
  split_ifs
  · exact h
  · exact h
  · exact State.Bounded.penEvent ⟨pick_lt _ _, pick_lt _ _⟩
  · exact h.penEvent

lemma State.Bounded.interrupts (h : s.Bounded) (irqs : List Irq) :
    (interrupts ts s irqs).Bounded := by
  induction irqs generalizing s with
  | nil => exact h
  | cons irq irqs ih => exact ih h.interrupt

instance : Decidable irq.Threshold := inferInstanceAs (Decidable (_ ∧ _))

/-- The new position is near the old one in both coordinates. -/
def Near (ts : Tscadc) (irq : Irq) (s : State) : Prop :=
  |(valX ts irq : ℤ) - s.bckupX| < 15 ∧ |(valY ts irq : ℤ) - s.bckupY| < 15

/-- The coordinates have gone opposite ways; with no movement in x, it counts as one to
the left. -/
def Opposite (ts : Tscadc) (irq : Irq) (s : State) : Prop :=
  s.bckupX < valX ts irq ∧ valY ts irq < s.bckupY ∨ valX ts irq ≤ s.bckupX ∧ s.bckupY < valY ts irq

instance : Decidable (Near ts irq s) := inferInstanceAs (Decidable (_ ∧ _))

instance : Decidable (Opposite ts irq s) := inferInstanceAs (Decidable (_ ∨ _))

lemma diffs_lt_iff (h : s.Bounded) : ((diffs ts irq s).1 < 15 ∧ (diffs ts irq s).2 < 15) ↔
    Near ts irq s ∧ ¬ Opposite ts irq s := by
  have hx : valX ts irq < 2 ^ 12 := pick_lt _ _
  have hy : valY ts irq < 2 ^ 12 := pick_lt _ _
  obtain ⟨hbx, hby⟩ := h
  unfold diffs Near Opposite toU32
  rw [abs_lt, abs_lt]
  split_ifs with hlt
  · omega
  · omega

lemma touch_mem_iff (hirq : irq.Threshold) (hpen : s.pen = 0) (hz1 : z1 ts irq ≠ 0)
    (hz2 : z2 ts irq ≠ 0) (hz : pressure ts irq ≤ max12bit) :
    (∃ z, .touch (valX ts irq) (valY ts irq) z ∈ (tscadcInterrupt ts irq s).2) ↔
      (diffs ts irq s).1 < 15 ∧ (diffs ts irq s).2 < 15 := by
  obtain ⟨hthres, hnone⟩ := hirq
  have hreports : (tscadcInterrupt ts irq s).2 =
      (sampled ts irq s).2 ++ (penEvent irq (sampled ts irq s).1).2 := by
    unfold tscadcInterrupt
    simp only [List.forall_mem_cons] at hnone
    simp [hthres, hnone]
  have hpenEvent (x y z : ℕ) : .touch x y z ∉ (penEvent irq (sampled ts irq s).1).2 := by
    unfold penEvent
    split_ifs <;> simp
  simp only [hreports, List.mem_append, hpenEvent, or_false]
  unfold sampled
  simp [hz1, hz2, hpen, hz]

/-- After any interrupts, with the pen down, the next one reports the position exactly if it is near
the last one, unless it is near and the coordinates have gone opposite ways. -/
theorem reported_iff (ts : Tscadc) (irqs : List Irq) (irq : Irq) (hirq : irq.Threshold)
    (hpen : (interrupts ts .init irqs).pen = 0) (hz1 : z1 ts irq ≠ 0) (hz2 : z2 ts irq ≠ 0)
    (hz : pressure ts irq ≤ max12bit) : ((∃ z, .touch (valX ts irq) (valY ts irq) z ∈
        (tscadcInterrupt ts irq (interrupts ts .init irqs)).2) ↔
      Near ts irq (interrupts ts .init irqs)) ↔
    ¬ (Near ts irq (interrupts ts .init irqs) ∧ Opposite ts irq (interrupts ts .init irqs)) := by
  have hinit : State.init.Bounded := ⟨by decide, by decide⟩
  rw [touch_mem_iff hirq hpen hz1 hz2 hz, diffs_lt_iff (hinit.interrupts irqs)]
  tauto

/-- An interrupt that finds the pen down at the position given, with two samples of
each coordinate. -/
def Irq.down (x y : ℕ) : Irq where
  status := 2 ^ fifo0Thres
  fifo0 i := if i < 2 then x else if i < 4 then 2 * 2 ^ 16 + y else 1
  rawStatus := 2 ^ penup
  fsm := 0

theorem reported_right_down : ∃ z, .touch 110 110 z ∈ (tscadcInterrupt ⟨2, 200⟩ (.down 110 110)
      (interrupts ⟨2, 200⟩ .init [.down 100 100])).2 := by
  have hiff := reported_iff ⟨2, 200⟩ [.down 100 100] (.down 110 110) (by decide) (by decide)
    (by decide) (by decide) (by decide)
  exact (hiff.mpr (by decide)).mpr (by decide)

theorem not_reported_right_up :
    (interrupts ⟨2, 200⟩ .init [.down 100 100]).pen = 0 ∧ z1 ⟨2, 200⟩ (.down 110 90) ≠ 0 ∧
      z2 ⟨2, 200⟩ (.down 110 90) ≠ 0 ∧ pressure ⟨2, 200⟩ (.down 110 90) ≤ max12bit ∧
      Near ⟨2, 200⟩ (.down 110 90) (interrupts ⟨2, 200⟩ .init [.down 100 100]) ∧
      (tscadcInterrupt ⟨2, 200⟩ (.down 110 90)
        (interrupts ⟨2, 200⟩ .init [.down 100 100])).2 = [] := by
  decide

end Am335x.TouchScreen
