import Am335xKernel.Lib.Machine
import Am335xKernel.Drivers.Pwm.Beep

/-!
# The sound machine of `drivers/pwm/pwm.c`

Three sources of sound share the carrier `g_p`: the alarm (`beep_control`),
the common sound (`common_sound_control`) and the reminder
(`alarm_remind_control`). Each has a timer, a handler that re-arms it, and a
switch that the handler turns on with the first tick of the sound. Writes to
sysfs attributes start and stop them.

The machine's events are the writes and the expiries of the three timers, each
one step. A step also yields the calls that it made into the PWM core, and a
write its return value.
-/

namespace Am335x.Pwm

structure TimerControl where
  lowlevelTime : ℕ
  midlevelTime : ℕ
  highlevelTime : ℕ
  deriving DecidableEq

structure BeepControl where
  highStatus : Status 10
  midStatus : Status 3
  lowStatus : Status 1
  timerControl : TimerControl
  alarmLevel : AlarmLevel
  lowVolumeControl : SoundLevel
  midVolumeControl : SoundLevel
  highVolumeControl : SoundLevel
  beepDevice : DevicePtr
  beepTimer : TimerList
  cnt : ℤ
  storecnt : ℤ
  onceAlarmSwitch : Bool
  masterAlarmSwitch : Bool
  deriving DecidableEq

/-- `SOUND_STATUS`; `zero` is the value of static storage, which no enumerator
has. -/
inductive SoundStatus where
  | zero | riseOne | riseTwo | riseThree | keep | fallOne | fallTwo | fallThree | finish
  deriving DecidableEq

structure CommonSoundControl where
  status : SoundStatus
  level : SoundLevel
  device : DevicePtr
  timer : TimerList
  switch : Bool
  length : ℤ
  cnt : ℤ
  deriving DecidableEq

/-- `ALARM_REMIND_STATUS`. -/
inductive RemindStatus where
  | none | start | decrease | keep | finish
  deriving DecidableEq

structure AlarmRemindControl where
  status : RemindStatus
  level : SoundLevel
  device : DevicePtr
  timer : TimerList
  switch : Bool
  duty : ℤ
  cnt : ℤ
  deriving DecidableEq

structure Sound where
  gP : DevicePtr
  beep : BeepControl
  common : CommonSoundControl
  remind : AlarmRemindControl
  deriving DecidableEq

/-- `beep_timer_fn`. Without an alarm level it does nothing, and the timer is
not re-armed. -/
def beepTimerFn (gP : DevicePtr) (b : BeepControl) : BeepControl × List Call :=
  match b.alarmLevel with
  | .none => (b, [])
  | .low =>
    let r := lowTick ⟨b.beepDevice, gP, soundDuty b.lowVolumeControl⟩
      b.timerControl.lowlevelTime ⟨b.lowStatus, b.cnt, b.storecnt, b.onceAlarmSwitch⟩
    ({ b with lowStatus := r.1.status, cnt := r.1.cnt, storecnt := r.1.storecnt,
              onceAlarmSwitch := r.1.once, beepTimer := b.beepTimer.add }, r.2)
  | .mid =>
    let r := midTick ⟨b.beepDevice, gP, soundDuty b.midVolumeControl⟩
      b.timerControl.midlevelTime ⟨b.midStatus, b.cnt, b.storecnt, b.onceAlarmSwitch⟩
    ({ b with midStatus := r.1.status, cnt := r.1.cnt, storecnt := r.1.storecnt,
              onceAlarmSwitch := r.1.once, beepTimer := b.beepTimer.add }, r.2)
  | .high =>
    let r := highTick ⟨b.beepDevice, gP, soundDuty b.highVolumeControl⟩
      b.timerControl.highlevelTime ⟨b.highStatus, b.cnt, b.storecnt, b.onceAlarmSwitch⟩
    ({ b with highStatus := r.1.status, cnt := r.1.cnt, storecnt := r.1.storecnt,
              onceAlarmSwitch := r.1.once, beepTimer := b.beepTimer.add }, r.2)

/-- The branches of `common_sound_timer_fn`. -/
def commonSoundBranch (gP : DevicePtr) (c : CommonSoundControl) :
    CommonSoundControl × List Call :=
  let go (status : SoundStatus) (cnt : ℤ) (percent : ℤ) :=
    if c.cnt ≤ 0 then
      ({ c with status := status, cnt := cnt }, [Call.setDutyPercent c.device percent])
    else (c, [])
  match c.status with
  | .zero => (c, [])
  | .riseOne =>
    ({ c with status := .riseTwo, cnt := 1, switch := true },
      [.setDutyPercent c.device 0, .start c.device, .start gP])
  | .riseTwo => go .riseThree 1 (soundDuty c.level * 3 / 7)
  | .riseThree => go .keep 1 (soundDuty c.level * 5 / 7)
  | .keep => go .fallOne c.length (soundDuty c.level)
  | .fallOne => go .fallTwo 1 (soundDuty c.level * 5 / 7)
  | .fallTwo => go .fallThree 1 (soundDuty c.level * 3 / 7)
  | .fallThree => go .finish 1 (soundDuty c.level * 1 / 7)
  | .finish =>
    if c.cnt ≤ 0 then
      ({ c with status := .riseOne, switch := false, timer := c.timer.del },
        [.stop gP, .stop c.device])
    else (c, [])

/-- `common_sound_timer_fn`: re-armed only while the switch is on. -/
def commonSoundTimerFn (gP : DevicePtr) (c : CommonSoundControl) :
    CommonSoundControl × List Call :=
  let r := commonSoundBranch gP c
  if r.1.switch then
    ({ r.1 with cnt := CInt.toInt (r.1.cnt - 1), timer := r.1.timer.add }, r.2)
  else r

/-- The branches of `alarm_remind_timer_fn`. -/
def alarmRemindBranch (gP : DevicePtr) (a : AlarmRemindControl) :
    AlarmRemindControl × List Call :=
  match a.status with
  | .none => (a, [])
  | .start =>
    ({ a with status := .decrease, cnt := 1, switch := true },
      [.setDutyPercent a.device a.duty, .start a.device, .start gP])
  | .decrease =>
    if a.cnt ≤ 0 then
      ({ a with status := .keep, cnt := 20, duty := CInt.toInt (a.duty - 1) },
        [.setDutyPercent a.device (CInt.toInt (a.duty - 1))])
    else (a, [])
  | .keep =>
    if a.cnt ≤ 0 then
      ({ a with status := .finish, cnt := 10 }, [.setDutyPercent a.device a.duty])
    else (a, [])
  | .finish =>
    if a.cnt ≤ 0 then
      ({ a with status := .start, switch := false, timer := a.timer.del },
        [.stop gP, .stop a.device])
    else (a, [])

def alarmRemindTimerFn (gP : DevicePtr) (a : AlarmRemindControl) :
    AlarmRemindControl × List Call :=
  let r := alarmRemindBranch gP a
  if r.1.switch then
    ({ r.1 with cnt := CInt.toInt (r.1.cnt - 1), timer := r.1.timer.add }, r.2)
  else r

def closeCommonTimer (gP : DevicePtr) (c : CommonSoundControl) :
    CommonSoundControl × List Call :=
  if c.switch then
    ({ c with switch := false, timer := c.timer.del }, [.stop c.device, .stop gP])
  else (c, [])

def beepTimerInit (gP : DevicePtr) (b : BeepControl) : BeepControl × List Call :=
  ({ b with beepTimer := b.beepTimer.add }, pwmChangeFreq gP alarmFred)

/-- The statuses that a write of `level` resets: those of the other levels. -/
def BeepControl.resetOthers (b : BeepControl) : AlarmLevel → BeepControl
  | .low => { b with highStatus := .start, midStatus := .start }
  | .mid => { b with highStatus := .start, lowStatus := .start }
  | .high => { b with lowStatus := .start, midStatus := .start }
  | .none => { b with lowStatus := .start, midStatus := .start, highStatus := .start }

/-- The branches `"1"`, `"3"` and `"5"` of `pwm_set_level_store`. -/
def raiseLevel (level : AlarmLevel) (s : Sound) : Sound × List Call :=
  let b := { s.beep with masterAlarmSwitch := true }
  if b.alarmLevel ≠ level ∧ b.onceAlarmSwitch = false then
    let c := closeCommonTimer s.gP s.common
    let b := { b with beepTimer := b.beepTimer.del }
    let b := { b.resetOthers level with alarmLevel := level }
    let r := beepTimerInit s.gP b
    ({ s with beep := r.1, common := c.1 },
      c.2 ++ [.stop b.beepDevice, .stop s.gP] ++ r.2)
  else ({ s with beep := b }, [])

/-- The branch `"0"`. It leaves the devices to a common sound that is on. -/
def clearLevel (s : Sound) : Sound × List Call :=
  if s.beep.alarmLevel ≠ .none ∧ s.beep.onceAlarmSwitch = false then
    let b := { s.beep with beepTimer := s.beep.beepTimer.del }
    let b := { b.resetOthers .none with alarmLevel := .none, masterAlarmSwitch := false }
    ({ s with beep := b },
      if s.common.switch then [] else [.stop b.beepDevice, .stop s.gP])
  else (s, [])

def levelOfText (buf : List Char) : Option AlarmLevel :=
  if sysfsStreq buf ['1'] then some .low
  else if sysfsStreq buf ['3'] then some .mid
  else if sysfsStreq buf ['5'] then some .high
  else if sysfsStreq buf ['0'] then some .none
  else none

/-- `if (beep_device == NULL) beep_device = dev_get_drvdata(dev)`. -/
def BeepControl.claimDevice (b : BeepControl) (dev : ℕ) : BeepControl :=
  { b with beepDevice := b.beepDevice.or (some dev) }

def pwmSetLevelStore (dev : ℕ) (buf : List Char) (s : Sound) : Sound × List Call × ℤ :=
  let s := { s with beep := s.beep.claimDevice dev }
  match levelOfText buf with
  | some .none => let r := clearLevel s; (r.1, r.2, buf.length)
  | some level => let r := raiseLevel level s; (r.1, r.2, buf.length)
  | none => (s, [], einval)

/-- `case 1: … case 10:` with `default: LEVEL_NONE`. -/
def soundLevelOf : ℕ → SoundLevel
  | 1 => .one | 2 => .two | 3 => .three | 4 => .four | 5 => .five
  | 6 => .six | 7 => .seven | 8 => .eight | 9 => .nine | 10 => .ten
  | _ => .none

/-- `alarm_remind_sound_store`. The level is truncated to `unsigned char`. -/
def alarmRemindSoundStore (dev : ℕ) (buf : List Char) (s : Sound) :
    Sound × List Call × ℤ :=
  let freq := (simpleStrtoul buf).1
  let level := soundLevelOf (freq / 100000 % 256)
  let a := { s.remind with device := s.remind.device.or (some dev) }
  if s.beep.onceAlarmSwitch = false ∧ a.switch = false then
    let a := { a with level := level, duty := soundDuty level, status := .start,
                      timer := a.timer.del.add }
    ({ s with remind := a },
      pwmChangeFreq s.gP (freq % 100000) ++ [.stop a.device, .stop s.gP], buf.length)
  else ({ s with remind := a }, [], 1)

/-- `common_sound_store`: level, length in ms and frequency, each one
character apart. -/
def commonSoundStore (dev : ℕ) (buf : List Char) (s : Sound) : Sound × List Call × ℤ :=
  let level := simpleStrtoul buf
  let length := simpleStrtoul (level.2.drop 1)
  let freq := simpleStrtoul (length.2.drop 1)
  let c := { s.common with device := s.common.device.or (some dev) }
  if (s.beep.masterAlarmSwitch = false ∨
        (s.beep.onceAlarmSwitch = false ∧ 15 ≤ s.beep.cnt)) ∧
      s.remind.switch = false ∧ c.switch = false then
    let c := { c with level := soundLevelOf level.1,
                      length := CInt.toInt ((length.1 / 10 : ℕ)),
                      status := .riseOne, timer := c.timer.del.add }
    ({ s with common := c },
      pwmChangeFreq s.gP freq.1 ++ [.stop c.device, .stop s.gP], buf.length)
  else ({ s with common := c }, [], 1)

/-- The volume that `pwm_set_sound_level_store` selects for `sound_size`. -/
def volumeOf (size : ℕ) : Option SoundLevel :=
  if size = 0 then some .none
  else if size ≤ 10 then some (soundLevelOf size)
  else none

/-- `pwm_set_sound_level_store`. A size above 10 resets all three volumes. -/
def pwmSetSoundLevelStore (dev : ℕ) (buf : List Char) (s : Sound) : Sound × ℤ :=
  let n := (simpleStrtoul buf).1
  let b := { s.beep with beepDevice := some dev }
  let b := match volumeOf (n % 100), n / 100 with
    | some v, 1 => { b with lowVolumeControl := v }
    | some v, 3 => { b with midVolumeControl := v }
    | some v, 5 => { b with highVolumeControl := v }
    | some _, _ => b
    | none, _ => { b with lowVolumeControl := .four, midVolumeControl := .four,
                          highVolumeControl := .four }
  ({ s with beep := b }, buf.length)

/-- `pwm_set_time_interval_store`: the first character names the level, the
number behind it is the interval in seconds. -/
def pwmSetTimeIntervalStore (dev : ℕ) (buf : List Char) (s : Sound) : Sound × ℤ :=
  let time := (simpleStrtoul (buf.drop 1)).1
  let b := { s.beep with beepDevice := some dev }
  let t := b.timerControl
  if time = 0 then ({ s with beep := b }, einval)
  else
    match buf.head? with
    | some '1' =>
      ({ s with beep := { b with timerControl := { t with lowlevelTime := time } } },
        buf.length)
    | some '3' =>
      ({ s with beep := { b with timerControl := { t with midlevelTime := time } } },
        buf.length)
    | some '5' =>
      ({ s with beep := { b with timerControl := { t with highlevelTime := time } } },
        buf.length)
    | _ => ({ s with beep := b }, einval)

inductive SoundEvent where
  | setLevel (dev : ℕ) (buf : List Char)
  | alarmRemindSound (dev : ℕ) (buf : List Char)
  | commonSound (dev : ℕ) (buf : List Char)
  | setSoundLevel (dev : ℕ) (buf : List Char)
  | setTimeInterval (dev : ℕ) (buf : List Char)
  | beepTick
  | commonTick
  | remindTick
  deriving DecidableEq

/-- `pwm_init`, with the carrier that `pwm_request_store` recorded. -/
def Sound.init (gP : DevicePtr) : Sound where
  gP := gP
  beep :=
    { highStatus := .start, midStatus := .start, lowStatus := .start
      timerControl := { lowlevelTime := 20, midlevelTime := 20, highlevelTime := 10 }
      alarmLevel := .none
      lowVolumeControl := .five, midVolumeControl := .five, highVolumeControl := .five
      beepDevice := none, beepTimer := .zero, cnt := 0, storecnt := 0
      onceAlarmSwitch := false, masterAlarmSwitch := false }
  common :=
    { status := .zero, level := .none, device := none, timer := .zero
      switch := false, length := 0, cnt := 0 }
  remind :=
    { status := .none, level := .none, device := none, timer := .zero
      switch := false, duty := 0, cnt := 0 }

def Sound.react (s : Sound) : SoundEvent → Option (Sound × List Call)
  | .setLevel dev buf => let r := pwmSetLevelStore dev buf s; some (r.1, r.2.1)
  | .alarmRemindSound dev buf =>
    let r := alarmRemindSoundStore dev buf s
    some (r.1, r.2.1)
  | .commonSound dev buf => let r := commonSoundStore dev buf s; some (r.1, r.2.1)
  | .setSoundLevel dev buf => some ((pwmSetSoundLevelStore dev buf s).1, [])
  | .setTimeInterval dev buf => some ((pwmSetTimeIntervalStore dev buf s).1, [])
  | .beepTick =>
    if s.beep.beepTimer.pending then
      let r := beepTimerFn s.gP { s.beep with beepTimer := s.beep.beepTimer.detach }
      some ({ s with beep := r.1 }, r.2)
    else none
  | .commonTick =>
    if s.common.timer.pending then
      let r := commonSoundTimerFn s.gP { s.common with timer := s.common.timer.detach }
      some ({ s with common := r.1 }, r.2)
    else none
  | .remindTick =>
    if s.remind.timer.pending then
      let r := alarmRemindTimerFn s.gP { s.remind with timer := s.remind.timer.detach }
      some ({ s with remind := r.1 }, r.2)
    else none

def Sound.calls (s : Sound) (e : SoundEvent) : List Call :=
  ((s.react e).map Prod.snd).getD []

def Sound.machine (gP : DevicePtr) : Machine Sound SoundEvent where
  init := Sound.init gP
  step s e := (s.react e).map Prod.fst

end Am335x.Pwm
