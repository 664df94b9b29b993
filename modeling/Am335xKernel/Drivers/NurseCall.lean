import Am335xKernel.Lib.Machine
import Am335xKernel.Kernel.Interface

/-!
# The nurse call output of `drivers/nursecall/nurse_call.c`

GPIO 3_14 calls a nurse either by a pulse of `HZ` ticks or continuously. A mode
ioctl selects the kind and the idle level; `ALARM_ON` and `ALARM_OFF` act on it.
A pulse is begun and ended by inverting what is read back from the pin.

The modes reset `pulse_status` but do not delete the timer, so a mode ioctl
during a pulse leaves an expiry behind that inverts the idle level, and lets the
next `ALARM_ON` initialise a pending timer. In a run whose mode ioctls all come
between pulses the output is always right.

What the output should be depends on the past, so the machine carries two
history variables: `alarm` and the log of pulses.
-/

namespace Am335x.NurseCall

inductive CallStatus where
  | pulseOn | pulseOff | continuousOn | continuousOff | invalid
  deriving DecidableEq

/-- The static variables of the driver, the level of GPIO 3_14 and `jiffies`. -/
structure Driver where
  callStatus : CallStatus
  pulseStatus : Bool
  continuousStatus : Bool
  gpio : Bool
  callNurseTimer : TimerList
  jiffies : ℕ
  deriving DecidableEq

def callTimerFn (d : Driver) : Driver :=
  { d with pulseStatus := false, gpio := !d.gpio, callNurseTimer := d.callNurseTimer.del }

/-- The body that the cases `PULSE_ON` and `PULSE_OFF` share. -/
def beginPulse (d : Driver) : Driver :=
  { d with pulseStatus := true, gpio := !d.gpio,
           callNurseTimer := { d.callNurseTimer.init with expires := d.jiffies + hz }.add }

def handleAlarmTask (alarmSwitch : Bool) (d : Driver) : Driver :=
  match d.callStatus with
  | .pulseOn | .pulseOff =>
    if alarmSwitch = true ∧ d.pulseStatus ≠ true then beginPulse d else d
  | .continuousOn | .continuousOff =>
    if alarmSwitch then
      if d.gpio = d.continuousStatus then { d with gpio := !d.gpio } else d
    else
      if d.gpio ≠ d.continuousStatus then { d with gpio := !d.gpio } else d
  | .invalid => d

def nurseCallIoctl (cmd : ℕ) (d : Driver) : Driver × ℤ :=
  match cmd with
  | 10 => ({ d with callStatus := .pulseOn, pulseStatus := false, gpio := false }, 0)
  | 11 => ({ d with callStatus := .pulseOff, pulseStatus := false, gpio := true }, 0)
  | 20 =>
    ({ d with callStatus := .continuousOn, continuousStatus := false, gpio := false }, 0)
  | 21 =>
    ({ d with callStatus := .continuousOff, continuousStatus := true, gpio := true }, 0)
  | 1 => (handleAlarmTask true d, 0)
  | 0 => (handleAlarmTask false d, 0)
  | _ => (d, enotty)

def Driver.tick (d : Driver) : Driver :=
  let d := { d with jiffies := d.jiffies + 1 }
  if d.callNurseTimer.pending = true ∧ d.callNurseTimer.expires ≤ d.jiffies then
    callTimerFn { d with callNurseTimer := d.callNurseTimer.detach }
  else d

/-- The statics as `call_init` leaves the pin. -/
def Driver.init (jiffies : ℕ) : Driver where
  callStatus := .continuousOn
  pulseStatus := false
  continuousStatus := false
  gpio := false
  callNurseTimer := .zero
  jiffies := jiffies

inductive Event where
  | ioctl (cmd : ℕ)
  | tick
  deriving DecidableEq

def Driver.react (d : Driver) : Event → Driver
  | .ioctl cmd => (nurseCallIoctl cmd d).1
  | .tick => d.tick

def Event.isMode : Event → Bool
  | .ioctl cmd => cmd = 10 || cmd = 11 || cmd = 20 || cmd = 21
  | .tick => false

/-- The driver with its history: whether `ALARM_ON` came after the last
`ALARM_OFF` or mode ioctl, when the pulse in progress began, and how long the
finished ones lasted. -/
structure Watched where
  driver : Driver
  alarm : Bool
  began : ℕ
  lasted : List ℕ
  deriving DecidableEq

def Watched.alarmAfter (alarm : Bool) : Event → Bool
  | .ioctl 1 => true
  | .ioctl 0 => false
  | e => if e.isMode then false else alarm

/-- A pulse is in progress while `pulse_status` is on. -/
def Watched.step (w : Watched) (e : Event) : Watched :=
  let d := w.driver.react e
  { driver := d
    alarm := Watched.alarmAfter w.alarm e
    began := if w.driver.pulseStatus = false ∧ d.pulseStatus = true then d.jiffies else w.began
    lasted :=
      if w.driver.pulseStatus = true ∧ d.pulseStatus = false then
        (d.jiffies - w.began) :: w.lasted
      else w.lasted }

def machine (jiffies : ℕ) : Machine Watched Event where
  init := { driver := Driver.init jiffies, alarm := false, began := 0, lasted := [] }
  step w e := some (w.step e)

def CallStatus.idleLevel : CallStatus → Bool
  | .pulseOn | .continuousOn => false
  | .pulseOff | .continuousOff => true
  | .invalid => false

def CallStatus.isContinuous : CallStatus → Bool
  | .continuousOn | .continuousOff => true
  | _ => false

def Watched.level (w : Watched) : Bool :=
  w.driver.callStatus.idleLevel ^^ (w.driver.callStatus.isContinuous && w.alarm)

/-- The timer was never initialised or added while pending, the pin has its
level unless a pulse is being output, and every pulse lasted `HZ` ticks. -/
structure Watched.Right (w : Watched) : Prop where
  timer : w.driver.callNurseTimer.misused = false
  pin : w.driver.pulseStatus = false → w.driver.gpio = w.level
  lasted : ∀ n ∈ w.lasted, n = hz

def Watched.modeBetweenPulses (w : Watched) (e : Event) : Prop :=
  e.isMode = true → w.driver.callNurseTimer.pending = false

instance (w : Watched) (e : Event) : Decidable (w.modeBetweenPulses e) :=
  inferInstanceAs (Decidable (_ → _))

/-- The timer is pending exactly during a pulse, and the pulse ends `HZ` ticks
after it began. -/
structure Inv (w : Watched) : Prop extends w.Right where
  valid : w.driver.callStatus ≠ .invalid
  pending : w.driver.callNurseTimer.pending = w.driver.pulseStatus
  continuous : w.driver.callStatus.isContinuous = true →
    w.driver.continuousStatus = w.driver.callStatus.idleLevel ∧ w.driver.pulseStatus = false
  pulse : w.driver.pulseStatus = true →
    w.driver.gpio = !w.driver.callStatus.idleLevel ∧
      w.driver.callNurseTimer.expires = w.began + hz ∧ w.began ≤ w.driver.jiffies ∧
      w.driver.jiffies < w.began + hz

open Watched

open Driver

lemma inv_init (jiffies : ℕ) : Inv (machine jiffies).init := by
  constructor
  · constructor <;> simp [machine, init, TimerList.zero, level, CallStatus.idleLevel]
  all_goals simp [machine, init, TimerList.zero, CallStatus.idleLevel]

variable {w : Watched} {d : Driver} {cmd : ℕ} {alarm : Bool} {e : Event}

lemma Watched.step_of_same (h : (w.driver.react e).pulseStatus = w.driver.pulseStatus) :
    w.step e = { w with driver := w.driver.react e, alarm := Watched.alarmAfter w.alarm e } := by
  unfold step
  cases hp : w.driver.pulseStatus <;> simp [h, hp]

lemma inv_of_idle (h : Inv w) (hoff : w.driver.pulseStatus = false)
    (ht : d.callNurseTimer = w.driver.callNurseTimer) (hp : d.pulseStatus = false)
    (hvalid : d.callStatus ≠ .invalid)
    (hcont : d.callStatus.isContinuous = true → d.continuousStatus = d.callStatus.idleLevel)
    (hpin : d.gpio = (d.callStatus.idleLevel ^^ (d.callStatus.isContinuous && alarm))) :
    Inv { w with driver := d, alarm := alarm } where
  timer := by rw [ht]; exact h.timer
  pin := fun _ => hpin
  lasted := h.lasted
  valid := hvalid
  pending := by rw [ht, h.pending, hoff, hp]
  continuous := fun hc => ⟨hcont hc, hp⟩
  pulse := by
    intro hon
    rw [hp] at hon
    cases hon

lemma handleAlarmTask_continuous (hc : d.callStatus.isContinuous = true)
    (hs : d.continuousStatus = d.callStatus.idleLevel) (alarm : Bool) :
    handleAlarmTask alarm d = { d with gpio := d.callStatus.idleLevel ^^ alarm } := by
  obtain ⟨status, pulse, cont, gpio, timer, j⟩ := d
  dsimp only at hc hs
  subst hs
  cases status <;> cases alarm <;> cases gpio <;>
    simp_all [handleAlarmTask, CallStatus.isContinuous, CallStatus.idleLevel]

lemma handleAlarmTask_pulse (hc : d.callStatus.isContinuous = false)
    (hv : d.callStatus ≠ .invalid) (alarm : Bool) : handleAlarmTask alarm d =
      if alarm = true ∧ d.pulseStatus = false then beginPulse d else d := by
  unfold handleAlarmTask
  cases hs : d.callStatus <;> simp_all [CallStatus.isContinuous]

lemma inv_alarm (h : Inv w) (alarm : Bool)
    (hreact : w.driver.react (.ioctl cmd) = handleAlarmTask alarm w.driver)
    (halarm : Watched.alarmAfter w.alarm (.ioctl cmd) = alarm) : Inv (w.step (.ioctl cmd)) := by
  by_cases hc : w.driver.callStatus.isContinuous = true
  · obtain ⟨hs, hoff⟩ := h.continuous hc
    rw [handleAlarmTask_continuous hc hs] at hreact
    rw [step_of_same (by rw [hreact]), hreact, halarm]
    refine inv_of_idle h hoff ?_ hoff h.valid (fun _ => hs) ?_
    · rfl
    · simp [hc]
  · rw [Bool.not_eq_true] at hc
    rw [handleAlarmTask_pulse hc h.valid] at hreact
    by_cases hbegin : alarm = true ∧ w.driver.pulseStatus = false
    · rw [if_pos hbegin] at hreact
      have hstep : w.step (.ioctl cmd) =
          { w with driver := beginPulse w.driver, alarm := alarm,
                   began := w.driver.jiffies } := by
        unfold step
        rw [hreact, halarm]
        simp [beginPulse, hbegin.2]
      have hpin := h.pin hbegin.2
      simp only [level, hc, Bool.false_and, Bool.xor_false] at hpin
      rw [hstep]
      refine ⟨⟨?_, ?_, h.lasted⟩, h.valid, ?_, ?_, fun _ => ⟨?_, ?_, Nat.le_refl _, ?_⟩⟩
      all_goals simp [beginPulse, h.timer, h.pending, hbegin.2, hc, hpin, hz]
    · rw [if_neg hbegin] at hreact
      rw [step_of_same (by rw [hreact]), hreact]
      exact ⟨⟨h.timer, by simpa [level, hc] using h.pin, h.lasted⟩, h.valid,
        h.pending, h.continuous, h.pulse⟩

def commands : List ℕ := [0, 1, 10, 11, 20, 21]

lemma inv_unknown (h : Inv w) (hcmd : cmd ∉ commands) : Inv (w.step (.ioctl cmd)) := by
  have hreact : w.driver.react (.ioctl cmd) = w.driver := by
    unfold react nurseCallIoctl
    split <;> simp_all [commands]
  have halarm : alarmAfter w.alarm (.ioctl cmd) = w.alarm := by
    unfold alarmAfter
    split <;> simp_all [commands, Event.isMode]
  rw [step_of_same (by rw [hreact]), hreact, halarm]
  exact h

lemma Driver.tick_of_due (hp : d.callNurseTimer.pending = true)
    (he : d.callNurseTimer.expires ≤ d.jiffies + 1) :
    d.tick = { d with jiffies := d.jiffies + 1, pulseStatus := false, gpio := !d.gpio,
                      callNurseTimer := d.callNurseTimer.detach.del } := by
  simp only [tick, if_pos (And.intro hp he), callTimerFn]

lemma inv_tick (h : Inv w) : Inv (w.step .tick) := by
  by_cases hdue : w.driver.callNurseTimer.pending = true ∧
      w.driver.callNurseTimer.expires ≤ w.driver.jiffies + 1
  · obtain ⟨hp, he⟩ := hdue
    have hon : w.driver.pulseStatus = true := h.pending ▸ hp
    obtain ⟨hpin, hexp, hle, hlt⟩ := h.pulse hon
    have hpulse : w.driver.callStatus.isContinuous = false := by
      by_contra hc
      rw [Bool.not_eq_false] at hc
      rw [(h.continuous hc).2] at hon
      cases hon
    -- the tick is the `HZ`th since the pulse began
    have hlast : w.driver.jiffies + 1 - w.began = hz := by omega
    have hstep : w.step .tick = { w with driver := w.driver.tick, lasted := hz :: w.lasted } := by
      simp [step, react, tick_of_due hp he, hon, hlast, alarmAfter, Event.isMode]
    rw [hstep, tick_of_due hp he]
    refine ⟨⟨h.timer, ?_, ?_⟩, h.valid, rfl, ?_, ?_⟩
    · intro _
      simp [level, hpulse, hpin]
    · intro n hn
      rcases List.mem_cons.mp hn with rfl | hn
      · rfl
      · exact h.lasted n hn
    · intro hc
      exact ⟨(h.continuous hc).1, rfl⟩
    · intro hon'
      cases hon'
  · have hstep : w.step .tick =
        { w with driver := { w.driver with jiffies := w.driver.jiffies + 1 } } := by
      rw [step_of_same (by simp [react, tick, hdue])]
      simp [react, tick, hdue, alarmAfter, Event.isMode]
    rw [hstep]
    refine ⟨⟨h.timer, h.pin, h.lasted⟩, h.valid, h.pending, h.continuous, ?_⟩
    intro hon
    obtain ⟨hpin, hexp, hle, hlt⟩ := h.pulse hon
    have hp : w.driver.callNurseTimer.pending = true := h.pending.trans hon
    refine ⟨hpin, hexp, Nat.le_succ_of_le hle, ?_⟩
    by_contra hge
    dsimp only at hge
    exact hdue ⟨hp, by omega⟩

lemma inv_step (h : Inv w) (hmode : w.modeBetweenPulses e) : Inv (w.step e) := by
  cases e with
  | tick => exact inv_tick h
  | ioctl cmd =>
    by_cases hcmd : cmd ∈ commands
    · by_cases hm : (Event.ioctl cmd).isMode = true
      · have hoff : w.driver.pulseStatus = false := h.pending ▸ hmode hm
        simp only [Event.isMode, Bool.or_eq_true, decide_eq_true_eq] at hm
        rcases hm with ((rfl | rfl) | rfl) | rfl
        all_goals
          rw [step_of_same (by simp [react, nurseCallIoctl, hoff])]
          apply inv_of_idle h hoff <;>
            simp [react, nurseCallIoctl, alarmAfter, Event.isMode, CallStatus.isContinuous,
              CallStatus.idleLevel, hoff]
      · have halarm : cmd = 0 ∨ cmd = 1 := by
          simp only [commands, List.mem_cons, List.not_mem_nil, or_false] at hcmd
          simp only [Event.isMode, Bool.or_eq_true, decide_eq_true_eq, not_or] at hm
          omega
        rcases halarm with rfl | rfl
        · exact inv_alarm h false rfl rfl
        · exact inv_alarm h true rfl rfl
    · exact inv_unknown h hcmd

/-- **The output is right** in every run whose mode ioctls come between
pulses. -/
theorem output_of_mode_between_pulses {jiffies : ℕ} {es : List Event}
    (h : (machine jiffies).Guarded Watched.modeBetweenPulses (machine jiffies).init es) :
    (machine jiffies).Always Watched.Right (machine jiffies).init es := by
  have hinv : (machine jiffies).Always Inv (machine jiffies).init es := by
    refine Machine.always_of_guarded _ ?_ (inv_init jiffies) h
    intro w e w' hw hmode hstep
    cases hstep
    exact inv_step hw hmode
  exact Machine.Always.mono _ (fun w hw => hw.toRight) hinv

/-- A whole pulse, then the other pulse mode. -/
theorem output_of_mode_after_pulse : (machine 0).Always Watched.Right (machine 0).init
      (.ioctl 10 :: .ioctl 1 :: List.replicate 100 .tick ++ [.ioctl 11, .ioctl 1]) := by
  apply output_of_mode_between_pulses
  decide +kernel

/-- **A mode ioctl during a pulse**: `PULSE_ON` resets `pulse_status` while the
timer is pending, and the next `ALARM_ON` initialises it again. -/
theorem mode_change_during_pulse_misuses_timer :
    ∃ w, (machine 0).exec (machine 0).init [.ioctl 10, .ioctl 1, .ioctl 10, .ioctl 1] = some w ∧
      w.driver.callNurseTimer.misused = true := by
  exact ⟨_, rfl, rfl⟩

end Am335x.NurseCall
