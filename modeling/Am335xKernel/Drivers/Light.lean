import Am335xKernel.Lib.Machine
import Am335xKernel.Kernel.Interface

/-!
# The alarm lamps of `drivers/test/led_driver.c`

Two pins, 1_22 and 1_23, show the alarm level: 1_23 is lit at the low level and
blinks at the mid level, 1_22 blinks at the high level. `led_low_timer` blinks;
its `data` selects the pin. A self check drives both pins from a second timer
and keeps its phase in a static counter.

Three requests spoil the lamps: a self check during a self check, a self check
that ends at the low level (it switches both pins off), and the change to the
low level while 1_22 is lit (unlike the other changes it does not begin with
`led_off`).
-/

namespace Am335x.Light

inductive LedLevel where
  | none | low | mid | high | off
  deriving DecidableEq

structure Driver where
  ledLevel : LedLevel
  ledLowTimer : TimerList
  ledLowData : ℕ
  selfCheckTimer : TimerList
  ledCnt : ℤ
  pin22 : Bool
  pin23 : Bool
  deriving DecidableEq

/-- `low_timer_fn`; the argument of the handler is the timer's `data`. -/
def lowTimerFn (jiffies : ℕ) (d : Driver) : Driver :=
  let d :=
    if d.ledLowData = 1 then
      { d with pin23 := !d.pin23,
               ledLowTimer := { d.ledLowTimer with expires := jiffies + hz } }
    else if d.ledLowData = 2 then
      { d with pin22 := !d.pin22,
               ledLowTimer := { d.ledLowTimer with expires := jiffies + hz / 4 } }
    else d
  { d with ledLowTimer := d.ledLowTimer.add }

def selfLedTimerFn (jiffies : ℕ) (d : Driver) : Driver :=
  if d.ledCnt = 0 then
    { d with pin22 := true, pin23 := false, ledCnt := 1,
             selfCheckTimer := { d.selfCheckTimer with expires := jiffies + hz }.add }
  else if d.ledCnt = 1 then
    { d with pin23 := true, pin22 := false, ledCnt := 2,
             selfCheckTimer := { d.selfCheckTimer with expires := jiffies + hz }.add }
  else
    { d with pin23 := false, pin22 := false, ledCnt := 0,
             selfCheckTimer := d.selfCheckTimer.del }

def lowTimerInit (jiffies arg : ℕ) (d : Driver) : Driver :=
  { d with ledLowData := arg,
           ledLowTimer := { d.ledLowTimer.init with expires := jiffies + 1 }.add }

def selfCheckTimerInit (jiffies : ℕ) (d : Driver) : Driver :=
  { d with selfCheckTimer := { d.selfCheckTimer.init with expires := jiffies + 1 }.add }

def ledOn (d : Driver) : Driver := { d with pin23 := true }

def ledOff (d : Driver) : Driver := { d with pin23 := false, pin22 := false }

def delLowTimer (d : Driver) : Driver := { d with ledLowTimer := d.ledLowTimer.del }

def lightIoctl (jiffies cmd : ℕ) (d : Driver) : Driver × ℤ :=
  match cmd with
  | 1 =>
    if d.ledLevel ≠ .low then ({ ledOn (delLowTimer d) with ledLevel := .low }, 0)
    else (d, 0)
  | 3 =>
    if d.ledLevel ≠ .mid then
      ({ lowTimerInit jiffies 1 (delLowTimer (ledOff d)) with ledLevel := .mid }, 0)
    else (d, 0)
  | 5 =>
    if d.ledLevel ≠ .high then
      ({ lowTimerInit jiffies 2 (delLowTimer (ledOff d)) with ledLevel := .high }, 0)
    else (d, 0)
  | 7 => (selfCheckTimerInit jiffies d, 0)
  | 0 => ({ ledOff (delLowTimer d) with ledLevel := .none }, 0)
  | _ => (d, enotty)

/-- The statics as `led_init` leaves the pins. -/
def Driver.init : Driver where
  ledLevel := .none
  ledLowTimer := .zero
  ledLowData := 0
  selfCheckTimer := .zero
  ledCnt := 0
  pin22 := false
  pin23 := false

/-- An ioctl or an expiry, with the value of `jiffies` it finds. Nothing is
assumed about the order of expiries. -/
inductive Event where
  | ioctl (jiffies cmd : ℕ)
  | lowExpires (jiffies : ℕ)
  | selfCheckExpires (jiffies : ℕ)
  deriving DecidableEq

def Driver.step (d : Driver) : Event → Option Driver
  | .ioctl jiffies cmd => some (lightIoctl jiffies cmd d).1
  | .lowExpires jiffies =>
    if d.ledLowTimer.pending then
      some (lowTimerFn jiffies { d with ledLowTimer := d.ledLowTimer.detach })
    else none
  | .selfCheckExpires jiffies =>
    if d.selfCheckTimer.pending then
      some (selfLedTimerFn jiffies { d with selfCheckTimer := d.selfCheckTimer.detach })
    else none

def machine : Machine Driver Event where
  init := Driver.init
  step := Driver.step

def Driver.LampsAgree (d : Driver) : Prop :=
  match d.ledLevel with
  | .low => d.pin23 = true ∧ d.pin22 = false ∧ d.ledLowTimer.pending = false
  | .mid => d.ledLowTimer.pending = true ∧ d.ledLowData = 1 ∧ d.pin22 = false
  | .high => d.ledLowTimer.pending = true ∧ d.ledLowData = 2 ∧ d.pin23 = false
  | .none => d.pin23 = false ∧ d.pin22 = false
  | .off => True

/-- Neither timer was initialised or added while pending, and the lamps show
the level whenever no self check is in progress. -/
structure Driver.Right (d : Driver) : Prop where
  lowTimer : d.ledLowTimer.misused = false
  selfTimer : d.selfCheckTimer.misused = false
  lamps : d.selfCheckTimer.pending = false → d.LampsAgree

def Driver.harmless (d : Driver) : Event → Prop
  | .ioctl _ cmd =>
    (cmd = 7 → d.selfCheckTimer.pending = false) ∧
      (cmd = 1 → d.ledLevel ≠ .low → d.selfCheckTimer.pending = false → d.pin22 = false)
  | .lowExpires _ => True
  | .selfCheckExpires _ => d.ledCnt ≠ 0 → d.ledCnt ≠ 1 → d.ledLevel ≠ .low

def Driver.BlinkAgrees (d : Driver) : Prop :=
  match d.ledLevel with
  | .low | .none => d.ledLowTimer.pending = false
  | .mid => d.ledLowTimer.pending = true ∧ d.ledLowData = 1
  | .high => d.ledLowTimer.pending = true ∧ d.ledLowData = 2
  | .off => False

structure Inv (d : Driver) : Prop extends d.Right where
  blink : d.BlinkAgrees

lemma inv_init : Inv Driver.init := by
  refine ⟨⟨rfl, rfl, fun _ => ⟨rfl, rfl⟩⟩, rfl⟩

variable {d d' : Driver}

section

variable (h : Inv d)
include h

lemma inv_lowExpires (jiffies : ℕ) (hp : d.ledLowTimer.pending = true) :
    Inv (lowTimerFn jiffies { d with ledLowTimer := d.ledLowTimer.detach }) := by
  have hblink := h.blink
  have hlamps := h.lamps
  have hmis := h.lowTimer
  unfold Driver.BlinkAgrees at hblink
  unfold Driver.LampsAgree at hlamps
  cases hl : d.ledLevel with
  | mid | high =>
    simp only [hl] at hblink hlamps
    obtain ⟨_, hdata⟩ := hblink
    refine ⟨⟨?_, ?_, ?_⟩, ?_⟩
    · simp [lowTimerFn, hdata, hmis]
    · simpa [lowTimerFn, hdata] using h.selfTimer
    · intro hs
      have hs' : d.selfCheckTimer.pending = false := by simpa [lowTimerFn, hdata] using hs
      simp [Driver.LampsAgree, lowTimerFn, hdata, (hlamps hs').2.2]
    · simp [Driver.BlinkAgrees, lowTimerFn, hdata]
  | _ =>
    simp only [hl, hp, Bool.true_eq_false] at hblink

lemma inv_selfCheckExpires (jiffies : ℕ) (hharm : d.harmless (.selfCheckExpires jiffies)) :
    Inv (selfLedTimerFn jiffies { d with selfCheckTimer := d.selfCheckTimer.detach }) := by
  have hmis := h.selfTimer
  have hblink := h.blink
  by_cases h0 : d.ledCnt = 0
  · simp only [selfLedTimerFn, if_pos h0]
    exact ⟨⟨h.lowTimer, by simp [hmis], by simp⟩, hblink⟩
  · by_cases h1 : d.ledCnt = 1
    · simp only [selfLedTimerFn, if_neg h0, if_pos h1]
      exact ⟨⟨h.lowTimer, by simp [hmis], by simp⟩, hblink⟩
    · -- the end of the check: both pins are off, which any level but the low one allows
      have hlow := hharm h0 h1
      simp only [selfLedTimerFn, if_neg h0, if_neg h1]
      refine ⟨⟨h.lowTimer, by simp [hmis], fun _ => ?_⟩, hblink⟩
      unfold Driver.BlinkAgrees at hblink
      cases hl : d.ledLevel with
      | low => exact absurd hl hlow
      | none => exact ⟨rfl, rfl⟩
      | mid | high =>
        simp only [hl] at hblink
        exact ⟨hblink.1, hblink.2, rfl⟩
      | off => trivial

/-! ### Requests -/

lemma inv_speedBlink (jiffies : ℕ) {data : ℕ} {level : LedLevel}
    (hlevel : data = 1 ∧ level = .mid ∨ data = 2 ∧ level = .high) :
    Inv { lowTimerInit jiffies data (delLowTimer (ledOff d)) with ledLevel := level } := by
  have hmis : (lowTimerInit jiffies data (delLowTimer (ledOff d))).ledLowTimer.misused = false := by
    simp [lowTimerInit, delLowTimer, ledOff, h.lowTimer]
  rcases hlevel with ⟨rfl, rfl⟩ | ⟨rfl, rfl⟩
  all_goals exact ⟨⟨hmis, h.selfTimer, fun _ => ⟨rfl, rfl, rfl⟩⟩, rfl, rfl⟩

lemma inv_ioctl (jiffies cmd : ℕ) (hharm : d.harmless (.ioctl jiffies cmd))
    : Inv (lightIoctl jiffies cmd d).1 := by
  obtain ⟨hcheck, hlow⟩ := hharm
  unfold lightIoctl
  split
  · split
    · rename_i hl
      exact ⟨⟨h.lowTimer, h.selfTimer, fun hs => ⟨rfl, hlow rfl hl hs, rfl⟩⟩, rfl⟩
    · exact h
  · split
    · exact inv_speedBlink h jiffies (.inl ⟨rfl, rfl⟩)
    · exact h
  · split
    · exact inv_speedBlink h jiffies (.inr ⟨rfl, rfl⟩)
    · exact h
  · refine ⟨⟨h.lowTimer, ?_, ?_⟩, h.blink⟩
    · simp [selfCheckTimerInit, h.selfTimer, hcheck rfl]
    · simp [selfCheckTimerInit]
  · exact ⟨⟨h.lowTimer, h.selfTimer, fun _ => ⟨rfl, rfl⟩⟩, rfl⟩
  · exact h

end

variable {e : Event}

lemma inv_step (h : Inv d) (hharm : d.harmless e) (hstep : d.step e = some d') : Inv d' := by
  cases e with
  | ioctl jiffies cmd =>
    cases hstep
    exact inv_ioctl h jiffies cmd hharm
  | lowExpires jiffies =>
    simp only [Driver.step] at hstep
    split at hstep <;> cases hstep
    rename_i hp
    exact inv_lowExpires h jiffies hp
  | selfCheckExpires jiffies =>
    simp only [Driver.step] at hstep
    split at hstep <;> cases hstep
    exact inv_selfCheckExpires h jiffies hharm

lemma not_right_of_harm (hharm : ¬ d.harmless e) (hstep : d.step e = some d') : ¬ d'.Right := by
  cases e with
  | ioctl jiffies cmd =>
    cases hstep
    simp only [Driver.harmless, not_and_or, Classical.not_imp] at hharm
    rcases hharm with ⟨rfl, hp⟩ | ⟨rfl, hl, hs, hpin⟩
    · intro h
      have hmis : (selfCheckTimerInit jiffies d).selfCheckTimer.misused = false := h.selfTimer
      simp [selfCheckTimerInit, hp] at hmis
    · simp only [lightIoctl, if_pos hl]
      intro h
      obtain ⟨_, hoff, _⟩ := h.lamps hs
      exact hpin hoff
  | lowExpires jiffies => exact absurd trivial hharm
  | selfCheckExpires jiffies =>
    simp only [Driver.harmless, Classical.not_imp, not_not] at hharm
    obtain ⟨h0, h1, hl⟩ := hharm
    simp only [Driver.step] at hstep
    split at hstep <;> cases hstep
    intro h
    have hlamps := h.lamps
    simp [selfLedTimerFn, h0, h1, Driver.LampsAgree, hl] at hlamps

/-- **When the lamps agree**: the timers and the lamps are right in every state
of a run exactly if each of its steps is harmless. -/
theorem lamps_agree_iff (es : List Event) : machine.Always Driver.Right Driver.init es ↔
      machine.Guarded Driver.harmless Driver.init es :=
  Machine.always_iff_guarded _ (fun _ h => h.toRight) (fun _ _ _ => inv_step)
    (fun _ _ _ _ hharm hstep => not_right_of_harm hharm hstep) inv_init es

/-- The high level's lamp has just come on when the low level is requested. -/
theorem high_lamp_stays_lit :
    ∃ d, machine.exec Driver.init [.ioctl 0 5, .lowExpires 1, .ioctl 2 1] = some d ∧
      d.selfCheckTimer.pending = false ∧ d.ledLevel = .low ∧ d.pin22 = true :=
  ⟨_, rfl, rfl, rfl, rfl⟩

end Am335x.Light
