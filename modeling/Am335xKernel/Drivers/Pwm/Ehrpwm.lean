import Am335xKernel.Lib.Machine
import Am335xKernel.Lib.CInt
import Am335xKernel.Kernel.Interface

/-!
# Period and duty of the eHRPWM

`pwm_config` of `drivers/pwm/pwm.c` converts a request to ticks, checks it
against the device it is made on, and hands it to `ehrpwm_pwm_config` of
`drivers/pwm/ehrpwm.c`. The two channels of an eHRPWM module have compare
registers of their own but one period register and one prescaler, so a period
set on one channel is copied to the other.

The copy is made without a look at the sibling: neither its duty is checked
against the new period nor its compare register computed again when the
prescaler changes. And both `config` paths assign their fields before they find
out that they cannot go on.

Requests to start, stop or invert an output touch none of what is modelled.
-/

namespace Am335x.Pwm

open Nat

/-- `struct pwm_device`, as far as period and duty go. -/
structure PwmDevice where
  tickHz : ℕ
  periodTicks : ℕ
  dutyTicks : ℕ
  periodNs : ℕ
  dutyNs : ℕ
  maxPeriodTicks : ℕ
  deriving DecidableEq

/-- `struct pwm_config`: a field is present when its bit of `config_mask` is
set. -/
structure PwmConfig where
  dutyTicks : Option ℕ
  periodTicks : Option ℕ
  dutyNs : Option ℕ
  periodNs : Option ℕ
  dutyPercent : Option ℤ
  deriving DecidableEq

namespace PwmConfig

/-- `config_mask` 0. -/
def empty : PwmConfig :=
  { dutyTicks := none, periodTicks := none, dutyNs := none, periodNs := none,
    dutyPercent := none }

end PwmConfig

/-- `pwm_ns_to_ticks`: the quotient is returned as `unsigned long`. -/
def pwmNsToTicks (p : PwmDevice) (nsecs : ℕ) : ℕ :=
  nsecs * p.tickHz / 1000000000 % 2 ^ 32

def pwmConfigNsToTicks (p : PwmDevice) (c : PwmConfig) : PwmConfig :=
  let c :=
    match c.periodNs with
    | some ns => { c with periodTicks := some (pwmNsToTicks p ns), periodNs := none }
    | none => c
  match c.dutyNs with
  | some ns => { c with dutyTicks := some (pwmNsToTicks p ns), dutyNs := none }
  | none => c

/-- `pwm_config_percent_to_ticks`: the product is an `unsigned long`, also
for a negative percentage. -/
def pwmConfigPercentToTicks (p : PwmDevice) (c : PwmConfig) : PwmConfig :=
  match c.dutyPercent with
  | some percent =>
    let base := c.periodTicks.getD p.periodTicks
    { c with dutyTicks := some (CInt.toU32 (base * percent) / 100), dutyPercent := none }
  | none => c

def PwmConfig.inTicks (p : PwmDevice) (c : PwmConfig) : PwmConfig :=
  pwmConfigPercentToTicks p (pwmConfigNsToTicks p c)

/-- The `switch` of `pwm_config`: whether the duty stays within the period. -/
def pwmConfigCheck (p : PwmDevice) (c : PwmConfig) : ℤ :=
  match c.periodTicks, c.dutyTicks with
  | some period, none => if p.dutyTicks > period then einval else 0
  | none, some duty => if p.periodTicks < duty then einval else 0
  | some period, some duty => if duty > period then einval else 0
  | none, none => 0

/-- `pwm_config` over a driver with state `s`, whose `ops->config` is
`config`. -/
def pwmConfig {σ : Type*} (config : σ → PwmConfig → σ × ℤ) (p : PwmDevice) (s : σ)
    (c : PwmConfig) : σ × ℤ :=
  let c := c.inTicks p
  let ret := pwmConfigCheck p c
  if ret ≠ 0 then (s, ret) else config s c

structure Ehrpwm where
  pwm0 : PwmDevice
  pwm1 : PwmDevice
  prescaleVal : ℕ
  tbctl : BitVec 16
  tbprd : ℕ
  cmpa : ℕ
  cmpb : ℕ
  cmpahr : ℕ
  hrcnfg : ℕ
  deriving DecidableEq

namespace Ehrpwm

/-- `ehrpwm->pwm[chan]`; the channel is 0 or 1. -/
def pwm (m : Ehrpwm) : Bool → PwmDevice
  | false => m.pwm0
  | true => m.pwm1

def setPwm (m : Ehrpwm) (chan : Bool) (p : PwmDevice) : Ehrpwm :=
  match chan with
  | false => { m with pwm0 := p }
  | true => { m with pwm1 := p }

def cmp (m : Ehrpwm) : Bool → ℕ
  | false => m.cmpa
  | true => m.cmpb

def setCmp (m : Ehrpwm) (chan : Bool) (ticks : ℕ) : Ehrpwm :=
  match chan with
  | false => { m with cmpa := ticks }
  | true => { m with cmpb := ticks }

section

variable (m : Ehrpwm) (chan : Bool)

section

variable (p : PwmDevice)

@[simp] lemma pwm_setPwm : (m.setPwm chan p).pwm chan = p := by
  cases chan <;> rfl

@[simp] lemma pwm_setPwm_not : (m.setPwm chan p).pwm (!chan) = m.pwm (!chan) := by
  cases chan <;> rfl

@[simp] lemma setPwm_prescaleVal : (m.setPwm chan p).prescaleVal = m.prescaleVal := by
  cases chan <;> rfl

@[simp] lemma setPwm_tbprd : (m.setPwm chan p).tbprd = m.tbprd := by
  cases chan <;> rfl

@[simp] lemma cmp_setPwm : (m.setPwm chan p).cmp = m.cmp := by
  funext i
  cases chan <;> cases i <;> rfl

end

variable (ticks : ℕ)

@[simp] lemma cmp_setCmp : (m.setCmp chan ticks).cmp chan = ticks := by
  cases chan <;> rfl

@[simp] lemma cmp_setCmp_not : (m.setCmp chan ticks).cmp (!chan) = m.cmp (!chan) := by
  cases chan <;> rfl

@[simp] lemma pwm_setCmp : (m.setCmp chan ticks).pwm = m.pwm := by
  funext i
  cases chan <;> cases i <;> rfl

@[simp] lemma setCmp_prescaleVal : (m.setCmp chan ticks).prescaleVal = m.prescaleVal := by
  cases chan <;> rfl

@[simp] lemma setCmp_tbprd : (m.setCmp chan ticks).tbprd = m.tbprd := by
  cases chan <;> rfl

end

end Ehrpwm

/-- The pairs `(i, j)` in the order of the two loops of `get_divider_val`. -/
def dividerPairs : List (ℕ × ℕ) :=
  (List.range 8).flatMap fun i => (List.range 8).map fun j => (i, j)

/-- The divider that `CLKDIV` `i` and `HSPCLKDIV` `j` select. -/
def divider (d : ℕ × ℕ) : ℕ := 2 ^ d.1 * (if d.2 ≠ 0 then d.2 * 2 else 1)

/-- `get_divider_val`: the divider and its `TBCTL` bits. -/
def getDividerVal (desiredPsVal : ℕ) : Option (ℕ × ℕ) :=
  (dividerPairs.find? fun d => decide (divider d ≥ desiredPsVal)).map fun d =>
    (divider d, d.1 <<< 10 ||| d.2 <<< 7)

/-- `ps_div_val` and `tb_div_val` of `ehrpwm_pwm_set_prd`. -/
def periodDivider (periodTicks : ℕ) : Option (ℕ × ℕ) :=
  if periodTicks > 65535 then getDividerVal (periodTicks / 65535 + 1) else some (1, 0)

def tbctlClkdivMask : BitVec 16 := 0x1C00#16
def tbctlHspclkdivMask : BitVec 16 := 0x0380#16

def ehrpwmPwmSetPrd (m : Ehrpwm) (chan : Bool) : Ehrpwm × ℤ :=
  let p := m.pwm chan
  let m := m.setPwm (!chan)
    { m.pwm (!chan) with periodTicks := p.periodTicks, periodNs := p.periodNs }
  match periodDivider p.periodTicks with
  | none => (m, einval)
  | some (psDivVal, tbDivVal) =>
    let m := { m with
      tbctl := (m.tbctl &&& ~~~tbctlClkdivMask &&& ~~~tbctlHspclkdivMask) |||
        BitVec.ofNat 16 tbDivVal }
    let periodTicks := p.periodTicks / psDivVal % 2 ^ 16
    if periodTicks ≤ 1 then (m, einval)
    else ({ m with tbprd := periodTicks - 1, prescaleVal := psDivVal % 2 ^ 16 }, 0)

/-- The value that `ehrpwm_hr_duty_config` writes to `CMPAHR`; the variables
are an `unsigned char` and an `unsigned short`. -/
def cmphrVal (p : PwmDevice) : ℕ :=
  let noOfMepsteps := 1000000 / (p.tickHz / 1000000 * 63) % 2 ^ 8
  let mhz := p.tickHz / 1000000 % 2 ^ 16
  let rest := p.dutyNs * mhz % 2 ^ 32 % 1000
  let steps := rest * noOfMepsteps / 1000
  (steps * 2 ^ 8 + 0x180) % 2 ^ 16

def ehrpwmHrDutyConfig (m : Ehrpwm) (chan : Bool) : Ehrpwm × ℤ :=
  if (m.pwm chan).tickHz = 0 then (m, einval)
  else ({ m with cmpahr := cmphrVal (m.pwm chan), hrcnfg := 0x2 }, 0)

def ehrpwmPwmSetDty (m : Ehrpwm) (chan : Bool) : Ehrpwm × ℤ :=
  if m.prescaleVal = 0 then (m, einval)
  else
    let dutyTicks := (m.pwm chan).dutyTicks / m.prescaleVal % 2 ^ 16
    -- the high resolution module
    let r :=
      if chan = true ∧ m.prescaleVal ≤ 1 then
        let r := ehrpwmHrDutyConfig m chan
        ({ r.1 with hrcnfg := 0x2 }, r.2)
      else (m, 0)
    (r.1.setCmp chan dutyTicks, r.2)

/-- The period that a request for `ticks` stands for: `max_period_ticks`
replaces what is below it. -/
def requestedPeriod (p : PwmDevice) (ticks : ℕ) : ℕ :=
  if p.maxPeriodTicks ≠ 0 ∧ p.maxPeriodTicks ≥ ticks then p.maxPeriodTicks else ticks

/-- `ehrpwm_pwm_config`: the `switch` is on the whole mask, so a request for
both a period and a duty is refused, like one for neither. -/
def ehrpwmPwmConfig (chan : Bool) (m : Ehrpwm) (c : PwmConfig) : Ehrpwm × ℤ :=
  let p := m.pwm chan
  match c.periodTicks, c.dutyTicks with
  | some ticks, none =>
    ehrpwmPwmSetPrd (m.setPwm chan { p with periodTicks := requestedPeriod p ticks }) chan
  | none, some ticks => ehrpwmPwmSetDty (m.setPwm chan { p with dutyTicks := ticks }) chan
  | _, _ => (m, einval)

/-- `pwm_config` on a channel of the module. -/
def Ehrpwm.config (m : Ehrpwm) (chan : Bool) (c : PwmConfig) : Ehrpwm × ℤ :=
  pwmConfig (ehrpwmPwmConfig chan) (m.pwm chan) m c

structure Bank where
  module : Ehrpwm
  dutySet0 : Bool
  dutySet1 : Bool
  deriving DecidableEq

def Bank.dutySet (s : Bank) : Bool → Bool
  | false => s.dutySet0
  | true => s.dutySet1

inductive BankEvent where
  /-- A call of `pwm_config`. -/
  | config (chan : Bool) (c : PwmConfig)
  /-- The assignment to `period_ns` and `duty_ns` with which
  `pwm_set_frequency`, `pwm_set_duty_percent` and their likes begin. -/
  | recordNs (chan : Bool) (periodNs dutyNs : ℕ)
  deriving DecidableEq

/-- The state after a call with result `ret` that left the module as `m`. -/
def Bank.after (s : Bank) (chan : Bool) (c : PwmConfig) (m : Ehrpwm) (ret : ℤ) : Bank :=
  let configured : Bool := ret = 0 ∧ (c.inTicks (s.module.pwm chan)).dutyTicks.isSome
  { module := m
    dutySet0 := s.dutySet0 || (configured && !chan)
    dutySet1 := s.dutySet1 || (configured && chan) }

def Bank.step (s : Bank) : BankEvent → Bank
  | .config chan c =>
    s.after chan c (s.module.config chan c).1 (s.module.config chan c).2
  | .recordNs chan periodNs dutyNs =>
    let p := { s.module.pwm chan with periodNs := periodNs, dutyNs := dutyNs }
    { s with module := s.module.setPwm chan p }

/-- What `ehrpwm_probe` finds out about a channel: the rate of the clock and
the limit of the platform data. -/
structure ChanAttrib where
  tickHz : ℕ
  maxPeriodTicks : ℕ
  deriving DecidableEq

def ChanAttrib.device (a : ChanAttrib) : PwmDevice :=
  { tickHz := a.tickHz, periodTicks := 0, dutyTicks := 0, periodNs := 0, dutyNs := 0,
    maxPeriodTicks := a.maxPeriodTicks }

/-- A module after `ehrpwm_probe`, its registers in reset but for `TBCTL`,
which is arbitrary. -/
def bankMachine (a0 a1 : ChanAttrib) (tbctl : BitVec 16) : Machine Bank BankEvent where
  init :=
    { module :=
        { pwm0 := a0.device, pwm1 := a1.device, prescaleVal := 1, tbctl := tbctl, tbprd := 0,
          cmpa := 0, cmpb := 0, cmpahr := 0, hrcnfg := 0 }
      dutySet0 := false
      dutySet1 := false }
  step s e := some (s.step e)

structure Bank.Agrees (s : Bank) : Prop where
  duty : ∀ chan, (s.module.pwm chan).dutyTicks ≤ (s.module.pwm chan).periodTicks
  period : ∀ chan,
    s.module.tbprd + 1 = (s.module.pwm chan).periodTicks / s.module.prescaleVal
  compare : ∀ chan, s.dutySet chan = true →
    s.module.cmp chan = (s.module.pwm chan).dutyTicks / s.module.prescaleVal

def Bank.callRight (s : Bank) : BankEvent → Prop
  | .config chan c =>
    ((s.module.config chan c).2 = 0 → (s.step (.config chan c)).Agrees) ∧
    ((s.module.config chan c).2 ≠ 0 → (s.module.config chan c).1 = s.module)
  | .recordNs _ _ _ => True

/-- A period that can be programmed on the shared registers: it has a divider
that leaves at least two ticks, the duty of the sibling is within it, and the
divider gives no configured duty another compare value. -/
def Bank.admitsPeriod (s : Bank) (chan : Bool) (period : ℕ) : Prop :=
  match periodDivider period with
  | none => False
  | some (ps, _) =>
    2 ≤ period / ps ∧ (s.module.pwm (!chan)).dutyTicks ≤ period ∧
    ∀ i, s.dutySet i = true →
      (s.module.pwm i).dutyTicks / ps = (s.module.pwm i).dutyTicks / s.module.prescaleVal

def Bank.admitsDuty (s : Bank) (chan : Bool) : Prop :=
  (s.module.pwm chan).periodTicks ≠ 0 ∧
    (chan = true → s.module.prescaleVal ≤ 1 → (s.module.pwm chan).tickHz ≠ 0)

/-- What a call has to meet, of what `pwm_config` does not check itself. -/
def Bank.admitsConfig (s : Bank) (chan : Bool) (c : PwmConfig) : Prop :=
  match c.periodTicks, c.dutyTicks with
  | some ticks, none =>
    (s.module.pwm chan).dutyTicks ≤ ticks →
      s.admitsPeriod chan (requestedPeriod (s.module.pwm chan) ticks)
  | none, some ticks => ticks ≤ (s.module.pwm chan).periodTicks → s.admitsDuty chan
  | _, _ => True

def Bank.admitted (s : Bank) : BankEvent → Prop
  | .config chan c => s.admitsConfig chan (c.inTicks (s.module.pwm chan))
  | .recordNs _ _ _ => True

instance (s : Bank) (chan : Bool) (period : ℕ) : Decidable (s.admitsPeriod chan period) := by
  unfold Bank.admitsPeriod
  split <;> infer_instance

instance (s : Bank) (chan : Bool) : Decidable (s.admitsDuty chan) :=
  inferInstanceAs (Decidable (_ ∧ (_ → _ → _)))

instance (s : Bank) (chan : Bool) (c : PwmConfig) : Decidable (s.admitsConfig chan c) := by
  unfold Bank.admitsConfig
  split <;> infer_instance

instance (s : Bank) : ∀ e, Decidable (s.admitted e)
  | .config chan _ => inferInstanceAs (Decidable (s.admitsConfig chan _))
  | .recordNs _ _ _ => inferInstanceAs (Decidable True)

lemma divider_bounds : ∀ d ∈ dividerPairs, 1 ≤ divider d ∧ divider d ≤ 1792 := by
  decide

lemma periodDivider_fits {period ps tb : ℕ} (h : periodDivider period = some (ps, tb)) :
    1 ≤ ps ∧ ps < 2 ^ 16 ∧ period / ps < 2 ^ 16 := by
  unfold periodDivider at h
  split at h
  · obtain ⟨d, hd, heq⟩ := Option.map_eq_some_iff.mp h
    cases heq
    have hdesired := List.find?_some hd
    rw [decide_eq_true_eq] at hdesired
    obtain ⟨hpos, hle⟩ := divider_bounds d (List.mem_of_find?_eq_some hd)
    refine ⟨hpos, by omega, ?_⟩
    rw [div_lt_iff_lt_mul hpos]
    calc period < 65535 * (period / 65535 + 1) := by omega
      _ ≤ 65535 * divider d := mul_le_mul_left _ hdesired
      _ ≤ 2 ^ 16 * divider d := mul_le_mul_right _ (by norm_num)
  · cases h
    rw [Nat.div_one]
    omega

lemma ehrpwmPwmSetPrd_of_divider {m : Ehrpwm} {chan : Bool} {ps tb : ℕ}
    (hdiv : periodDivider (m.pwm chan).periodTicks = some (ps, tb))
    (htwo : 2 ≤ (m.pwm chan).periodTicks / ps) :
    ∃ m', ehrpwmPwmSetPrd m chan = (m', 0) ∧ m'.prescaleVal = ps ∧
      m'.tbprd + 1 = (m.pwm chan).periodTicks / ps ∧ m'.cmp = m.cmp ∧ m'.pwm chan = m.pwm chan ∧
      m'.pwm (!chan) = { m.pwm (!chan) with
        periodTicks := (m.pwm chan).periodTicks, periodNs := (m.pwm chan).periodNs } := by
  obtain ⟨hpos, hps, hfits⟩ := periodDivider_fits hdiv
  have hmod : (m.pwm chan).periodTicks / ps % 2 ^ 16 = (m.pwm chan).periodTicks / ps :=
    mod_eq_of_lt hfits
  have hgt : ¬ (m.pwm chan).periodTicks / ps ≤ 1 := by omega
  have heq : ehrpwmPwmSetPrd m chan = ({ m.setPwm (!chan)
      { m.pwm (!chan) with periodTicks := (m.pwm chan).periodTicks,
                           periodNs := (m.pwm chan).periodNs } with
        tbctl := ((m.setPwm (!chan)
          { m.pwm (!chan) with periodTicks := (m.pwm chan).periodTicks,
                               periodNs := (m.pwm chan).periodNs }).tbctl &&&
            ~~~tbctlClkdivMask &&& ~~~tbctlHspclkdivMask) ||| BitVec.ofNat 16 tb
        tbprd := (m.pwm chan).periodTicks / ps - 1
        prescaleVal := ps }, 0) := by
    simp only [ehrpwmPwmSetPrd, hdiv, hmod, if_neg hgt, mod_eq_of_lt hps]
  refine ⟨_, heq, rfl, ?_, ?_, ?_, ?_⟩
  · show (m.pwm chan).periodTicks / ps - 1 + 1 = _
    omega
  · funext i
    cases chan <;> cases i <;> rfl
  · cases chan <;> rfl
  · cases chan <;> rfl

/-- A duty goes to the compare register of its channel and nowhere else, if
the high resolution module does not refuse it. -/
lemma ehrpwmPwmSetDty_of_clock {m : Ehrpwm} {chan : Bool} (hps : 0 < m.prescaleVal)
    (hclock : chan = true → m.prescaleVal ≤ 1 → (m.pwm chan).tickHz ≠ 0) :
    ∃ m', ehrpwmPwmSetDty m chan = (m', 0) ∧ m'.prescaleVal = m.prescaleVal ∧
      m'.tbprd = m.tbprd ∧ m'.pwm = m.pwm ∧ m'.cmp (!chan) = m.cmp (!chan) ∧
      m'.cmp chan = (m.pwm chan).dutyTicks / m.prescaleVal % 2 ^ 16 := by
  have hne : m.prescaleVal ≠ 0 := by omega
  by_cases hhr : chan = true ∧ m.prescaleVal ≤ 1
  · obtain ⟨rfl, hle⟩ := hhr
    have htick := hclock rfl hle
    simp only [ehrpwmPwmSetDty, if_neg hne, hle, and_self, if_true, ehrpwmHrDutyConfig,
      if_neg htick]
    refine ⟨_, rfl, rfl, rfl, ?_, rfl, rfl⟩
    funext i
    cases i <;> rfl
  · simp only [ehrpwmPwmSetDty, if_neg hne, if_neg hhr]
    exact ⟨_, rfl, by simp⟩

namespace Ehrpwm

variable {m : Ehrpwm} {chan : Bool} {c : PwmConfig} {ticks : ℕ}
  (hp : (c.inTicks (m.pwm chan)).periodTicks = some ticks)
  (hd : (c.inTicks (m.pwm chan)).dutyTicks = none)

include hp hd in
lemma config_period : m.config chan c = if (m.pwm chan).dutyTicks ≤ ticks then
        ehrpwmPwmSetPrd (m.setPwm chan
          { m.pwm chan with periodTicks := requestedPeriod (m.pwm chan) ticks }) chan
      else (m, einval) := by
  by_cases h : (m.pwm chan).dutyTicks ≤ ticks
  · simp [config, pwmConfig, pwmConfigCheck, ehrpwmPwmConfig, hp, hd, h, not_lt.mpr h]
  · simp [config, pwmConfig, pwmConfigCheck, hp, hd, h, Nat.lt_of_not_le h, einval]

lemma config_duty (hp : (c.inTicks (m.pwm chan)).periodTicks = none)
    (hd : (c.inTicks (m.pwm chan)).dutyTicks = some ticks) : m.config chan c =
      if ticks ≤ (m.pwm chan).periodTicks then
        ehrpwmPwmSetDty (m.setPwm chan { m.pwm chan with dutyTicks := ticks }) chan
      else (m, einval) := by
  by_cases h : ticks ≤ (m.pwm chan).periodTicks
  · simp [config, pwmConfig, pwmConfigCheck, ehrpwmPwmConfig, hp, hd, h, not_lt.mpr h]
  · simp [config, pwmConfig, pwmConfigCheck, hp, hd, h, Nat.lt_of_not_le h, einval]

lemma config_other (hnp : ∀ ticks, (c.inTicks (m.pwm chan)).periodTicks = some ticks →
      (c.inTicks (m.pwm chan)).dutyTicks = none → False)
    (hnd : ∀ ticks, (c.inTicks (m.pwm chan)).periodTicks = none →
      (c.inTicks (m.pwm chan)).dutyTicks = some ticks → False) : m.config chan c = (m, einval) := by
  cases hp : (c.inTicks (m.pwm chan)).periodTicks with
  | none =>
    cases hd : (c.inTicks (m.pwm chan)).dutyTicks with
    | none => simp [config, pwmConfig, pwmConfigCheck, ehrpwmPwmConfig, hp, hd]
    | some duty => exact (hnd duty hp hd).elim
  | some period =>
    cases hd : (c.inTicks (m.pwm chan)).dutyTicks with
    | none => exact (hnp period hp hd).elim
    | some duty =>
      by_cases hle : duty ≤ period
      · simp [config, pwmConfig, pwmConfigCheck, ehrpwmPwmConfig, hp, hd, not_lt.mpr hle]
      · simp [config, pwmConfig, pwmConfigCheck, hp, hd, Nat.lt_of_not_le hle, einval]

include hp hd in
lemma config_period_spec {ps tb : ℕ} (hle : (m.pwm chan).dutyTicks ≤ ticks)
    (hdiv : periodDivider (requestedPeriod (m.pwm chan) ticks) = some (ps, tb))
    (htwo : 2 ≤ requestedPeriod (m.pwm chan) ticks / ps) :
    ∃ m', m.config chan c = (m', 0) ∧ m'.prescaleVal = ps ∧
      m'.tbprd + 1 = requestedPeriod (m.pwm chan) ticks / ps ∧ m'.cmp = m.cmp ∧
      ∀ i, (m'.pwm i).periodTicks = requestedPeriod (m.pwm chan) ticks ∧
        (m'.pwm i).dutyTicks = (m.pwm i).dutyTicks := by
  have hassign := pwm_setPwm m chan
    { m.pwm chan with periodTicks := requestedPeriod (m.pwm chan) ticks }
  have hsibling := pwm_setPwm_not m chan
    { m.pwm chan with periodTicks := requestedPeriod (m.pwm chan) ticks }
  rw [config_period hp hd, if_pos hle]
  generalize hm0 : m.setPwm chan
    { m.pwm chan with periodTicks := requestedPeriod (m.pwm chan) ticks } = m0 at hassign hsibling
  have hperiod : (m0.pwm chan).periodTicks = requestedPeriod (m.pwm chan) ticks := by rw [hassign]
  rw [← hperiod] at hdiv htwo
  obtain ⟨m', hset, hps, htb, hcmp, hself, hother⟩ := ehrpwmPwmSetPrd_of_divider hdiv htwo
  rw [hperiod] at htb hother
  refine ⟨m', hset, hps, htb, ?_, fun i => ?_⟩
  · rw [hcmp, ← hm0, cmp_setPwm]
  · rcases Bool.eq_or_eq_not i chan with rfl | rfl
    · rw [hself, hassign]
      exact ⟨rfl, rfl⟩
    · rw [hother, hsibling]
      exact ⟨rfl, rfl⟩

/-- A duty that passes the checks and is not refused by the high resolution
module: the compare register of its channel follows. -/
lemma config_duty_spec (hp : (c.inTicks (m.pwm chan)).periodTicks = none)
    (hd : (c.inTicks (m.pwm chan)).dutyTicks = some ticks)
    (hle : ticks ≤ (m.pwm chan).periodTicks) (hps : 0 < m.prescaleVal)
    (hclock : chan = true → m.prescaleVal ≤ 1 → (m.pwm chan).tickHz ≠ 0) :
    ∃ m', m.config chan c = (m', 0) ∧ m'.prescaleVal = m.prescaleVal ∧ m'.tbprd = m.tbprd ∧
      m'.pwm chan = { m.pwm chan with dutyTicks := ticks } ∧
      m'.pwm (!chan) = m.pwm (!chan) ∧ m'.cmp (!chan) = m.cmp (!chan) ∧
      m'.cmp chan = ticks / m.prescaleVal % 2 ^ 16 := by
  have hps0 := setPwm_prescaleVal m chan { m.pwm chan with dutyTicks := ticks }
  have hassign := pwm_setPwm m chan { m.pwm chan with dutyTicks := ticks }
  have hsibling := pwm_setPwm_not m chan { m.pwm chan with dutyTicks := ticks }
  rw [config_duty hp hd, if_pos hle]
  generalize hm0 : m.setPwm chan { m.pwm chan with dutyTicks := ticks } = m0
    at hps0 hassign hsibling
  have hclock0 : chan = true → m0.prescaleVal ≤ 1 → (m0.pwm chan).tickHz ≠ 0 := by
    rw [hps0, hassign]
    exact hclock
  obtain ⟨m', hset, hps', htb, hpwm, hother, hself⟩ :=
    ehrpwmPwmSetDty_of_clock (hps0 ▸ hps) hclock0
  rw [hassign, hps0] at hself
  refine ⟨m', hset, hps'.trans hps0, ?_, ?_, ?_, ?_, hself⟩
  · rw [htb, ← hm0, setPwm_tbprd]
  · rw [hpwm, hassign]
  · rw [hpwm, hsibling]
  · rw [hother, ← hm0, cmp_setPwm]

end Ehrpwm

def Bank.Idle (s : Bank) : Prop :=
  ∀ chan, (s.module.pwm chan).periodTicks = 0 ∧ (s.module.pwm chan).dutyTicks = 0 ∧
    s.dutySet chan = false

structure Bank.Inv (s : Bank) : Prop where
  prescale : 0 < s.module.prescaleVal
  tbprd : s.module.tbprd + 1 < 2 ^ 16
  agrees : s.Idle ∨ s.Agrees

namespace Bank

variable {s : Bank} {chan : Bool} {c : PwmConfig} {m : Ehrpwm} {ret : ℤ} {ticks : ℕ}

@[simp] lemma after_module : (s.after chan c m ret).module = m := rfl

lemma after_error (hret : ret ≠ 0) : s.after chan c s.module ret = s := by
  cases s
  simp [after, hret]

lemma Agrees.duty_fits (h : s.Agrees) (hinv : s.Inv)
    (hle : ticks ≤ (s.module.pwm chan).periodTicks) :
    ticks / s.module.prescaleVal % 2 ^ 16 = ticks / s.module.prescaleVal := by
  apply mod_eq_of_lt
  calc ticks / s.module.prescaleVal
      ≤ (s.module.pwm chan).periodTicks / s.module.prescaleVal := Nat.div_le_div_right hle
    _ = s.module.tbprd + 1 := (h.period chan).symm
    _ < 2 ^ 16 := hinv.tbprd

lemma duty_le_requestedPeriod (hle : (s.module.pwm chan).dutyTicks ≤ ticks) :
    (s.module.pwm chan).dutyTicks ≤ requestedPeriod (s.module.pwm chan) ticks := by
  unfold requestedPeriod
  split
  · rename_i hmax
    exact le_trans hle hmax.2
  · exact hle

lemma agrees_of_config (hconfig : s.module.config chan c = (m, 0))
    (hagrees : (s.after chan c m 0).Agrees) (hps : 0 < m.prescaleVal) (htb : m.tbprd + 1 < 2 ^ 16) :
    (s.module.config chan c).2 = 0 ∧ (s.step (.config chan c)).Agrees ∧
      (s.step (.config chan c)).Inv := by
  have hstep : s.step (.config chan c) = s.after chan c m 0 := by
    simp [step, hconfig]
  rw [hconfig, hstep]
  exact ⟨rfl, hagrees, hps, htb, .inr hagrees⟩

variable (hinv : s.Inv)
include hinv

/-- **An admitted period.** It is programmed, and the registers agree. -/
lemma agrees_of_period (hp : (c.inTicks (s.module.pwm chan)).periodTicks = some ticks)
    (hd : (c.inTicks (s.module.pwm chan)).dutyTicks = none)
    (hle : (s.module.pwm chan).dutyTicks ≤ ticks)
    (hadm : s.admitsPeriod chan (requestedPeriod (s.module.pwm chan) ticks)) :
    (s.module.config chan c).2 = 0 ∧ (s.step (.config chan c)).Agrees ∧
      (s.step (.config chan c)).Inv := by
  have hduty := duty_le_requestedPeriod hle
  unfold admitsPeriod at hadm
  split at hadm
  · exact hadm.elim
  · rename_i ps tb hdiv
    obtain ⟨htwo, hsib, hcmp⟩ := hadm
    obtain ⟨hpos, -, hfits⟩ := periodDivider_fits hdiv
    obtain ⟨m', hconfig, hps, htb, hcmp', hticks⟩ :=
      Ehrpwm.config_period_spec hp hd hle hdiv htwo
    refine agrees_of_config hconfig ?_ (hps ▸ hpos) (htb ▸ hfits)
    refine ⟨fun i => ?_, fun i => ?_, fun i hset => ?_⟩
    · rw [after_module, (hticks i).1, (hticks i).2]
      rcases Bool.eq_or_eq_not i chan with rfl | rfl
      · exact hduty
      · exact hsib
    · rw [after_module, (hticks i).1, hps]
      exact htb
    · have hset : s.dutySet i = true := by cases i <;> simpa [after, dutySet, hd] using hset
      rw [after_module, (hticks i).2, hps, hcmp', hcmp i hset]
      -- a configured channel agreed before
      rcases hinv.agrees with hidle | hold
      · rw [(hidle i).2.2] at hset
        cases hset
      · exact hold.compare i hset

/-- **An admitted duty.** It is programmed, and the registers agree. -/
lemma agrees_of_duty (hp : (c.inTicks (s.module.pwm chan)).periodTicks = none)
    (hd : (c.inTicks (s.module.pwm chan)).dutyTicks = some ticks)
    (hle : ticks ≤ (s.module.pwm chan).periodTicks) (hadm : s.admitsDuty chan) :
    (s.module.config chan c).2 = 0 ∧ (s.step (.config chan c)).Agrees ∧
      (s.step (.config chan c)).Inv := by
  have hold : s.Agrees := by
    rcases hinv.agrees with hidle | hold
    · exact absurd (hidle chan).1 hadm.1
    · exact hold
  obtain ⟨m', hconfig, hps, htb, hself, hother, hcmpOther, hcmp⟩ :=
    Ehrpwm.config_duty_spec hp hd hle hinv.prescale hadm.2
  rw [hold.duty_fits hinv hle] at hcmp
  refine agrees_of_config hconfig ?_ (hps ▸ hinv.prescale) (htb ▸ hinv.tbprd)
  refine ⟨fun i => ?_, fun i => ?_, fun i hset => ?_⟩
  all_goals rw [after_module]
  all_goals rcases Bool.eq_or_eq_not i chan with rfl | rfl
  · rw [hself]
    exact hle
  · rw [hother]
    exact hold.duty _
  · rw [hself, hps, htb]
    exact hold.period i
  · rw [hother, hps, htb]
    exact hold.period _
  · rw [hself, hps]
    exact hcmp
  · have hset : s.dutySet (!chan) = true := by cases chan <;> simpa [after, dutySet] using hset
    rw [hother, hps, hcmpOther]
    exact hold.compare _ hset

lemma recordNs_inv (periodNs dutyNs : ℕ) : (s.step (.recordNs chan periodNs dutyNs)).Inv := by
  have hticks : ∀ i, ((s.step (.recordNs chan periodNs dutyNs)).module.pwm i).periodTicks =
        (s.module.pwm i).periodTicks ∧
      ((s.step (.recordNs chan periodNs dutyNs)).module.pwm i).dutyTicks =
        (s.module.pwm i).dutyTicks := by
    intro i
    rcases Bool.eq_or_eq_not i chan with rfl | rfl
    · simp [step]
    · simp [step]
  refine ⟨?_, ?_, ?_⟩
  · simpa [step] using hinv.prescale
  · simpa [step] using hinv.tbprd
  · rcases hinv.agrees with hidle | hold
    · left
      intro i
      rw [(hticks i).1, (hticks i).2]
      exact hidle i
    · right
      refine ⟨fun i => ?_, fun i => ?_, fun i hset => ?_⟩
      · rw [(hticks i).1, (hticks i).2]
        exact hold.duty i
      · rw [(hticks i).1]
        simpa [step] using hold.period i
      · rw [(hticks i).2]
        simpa [step] using hold.compare i hset

lemma callRight_of_refused (h : s.module.config chan c = (s.module, einval)) :
    s.callRight (.config chan c) ∧ (s.step (.config chan c)).Inv := by
  have hne : einval ≠ 0 := by decide
  refine ⟨⟨?_, ?_⟩, ?_⟩
  · intro hret
    rw [h] at hret
    exact absurd hret hne
  · intro _
    rw [h]
  · simp only [step, h, after_error hne]
    exact hinv

/-- **What an admitted step does.** -/
lemma callRight_of_admitted {e : BankEvent} (hadm : s.admitted e) :
    s.callRight e ∧ (s.step e).Inv := by
  cases e with
  | recordNs chan periodNs dutyNs => exact ⟨trivial, recordNs_inv hinv periodNs dutyNs⟩
  | config chan c =>
    change s.admitsConfig chan (c.inTicks (s.module.pwm chan)) at hadm
    unfold admitsConfig at hadm
    have hright : (s.module.config chan c).2 = 0 ∧ (s.step (.config chan c)).Agrees ∧
        (s.step (.config chan c)).Inv →
        s.callRight (.config chan c) ∧ (s.step (.config chan c)).Inv := by
      rintro ⟨hret, hagrees, hinv'⟩
      exact ⟨⟨fun _ => hagrees, fun hne => absurd hret hne⟩, hinv'⟩
    split at hadm
    · rename_i ticks hp hd
      by_cases hle : (s.module.pwm chan).dutyTicks ≤ ticks
      · exact hright (agrees_of_period hinv hp hd hle (hadm hle))
      · apply callRight_of_refused hinv
        rw [Ehrpwm.config_period hp hd, if_neg hle]
    · rename_i ticks hp hd
      by_cases hle : ticks ≤ (s.module.pwm chan).periodTicks
      · exact hright (agrees_of_duty hinv hp hd hle (hadm hle))
      · apply callRight_of_refused hinv
        rw [Ehrpwm.config_duty hp hd, if_neg hle]
    · rename_i hnp hnd
      apply callRight_of_refused hinv
      exact Ehrpwm.config_other hnp hnd

end Bank

section

variable (a0 a1 : ChanAttrib) (tbctl : BitVec 16)

lemma bank_init_inv : (bankMachine a0 a1 tbctl).init.Inv := by
  refine ⟨one_pos, show 0 + 1 < 2 ^ 16 by norm_num, .inl ?_⟩
  intro chan
  cases chan <;> exact ⟨rfl, rfl, rfl⟩

/-- In a run of calls that are all admitted, whatever the clock, the limits and `TBCTL` are at the
start, after every call that returns 0 the registers agree with the ticks of both channels, and
every call that returns an error leaves the module as it was. -/
theorem registers_right_of_admitted (es : List BankEvent)
    (h : (bankMachine a0 a1 tbctl).Guarded Bank.admitted (bankMachine a0 a1 tbctl).init es) :
    (bankMachine a0 a1 tbctl).Guarded Bank.callRight (bankMachine a0 a1 tbctl).init es := by
  refine Machine.guarded_of_guarded _ (I := Bank.Inv) ?_ ?_ (bank_init_inv a0 a1 tbctl) h
  · rintro s e _ hinv hadm hstep
    cases hstep
    exact (Bank.callRight_of_admitted hinv hadm).2
  · rintro s e _ hinv hadm _
    exact (Bank.callRight_of_admitted hinv hadm).1

end

/-- A period in nanoseconds, duties in per cent and ticks on both channels, a
longer period, and a duty that is refused. -/
theorem registers_right_one_divider :
    (bankMachine ⟨100000000, 0⟩ ⟨100000000, 0⟩ 0#16).Guarded Bank.callRight
      (bankMachine ⟨100000000, 0⟩ ⟨100000000, 0⟩ 0#16).init
      [.recordNs false 500000 0, .config false { PwmConfig.empty with periodNs := some 500000 },
        .config false { PwmConfig.empty with dutyPercent := some 50 },
        .config true { PwmConfig.empty with dutyTicks := some 40000 },
        .config true { PwmConfig.empty with periodTicks := some 60000 },
        .config false { PwmConfig.empty with dutyTicks := some 60001 }] := by
  apply registers_right_of_admitted
  decide +kernel

/-- Channel 0 has a period of 1000 ticks and a duty of 500; a period of 100 ticks on channel 1 is
accepted. -/
theorem sibling_duty_exceeds_period : ∃ s s', (bankMachine ⟨100000000, 0⟩ ⟨100000000, 0⟩ 0#16).exec
        (bankMachine ⟨100000000, 0⟩ ⟨100000000, 0⟩ 0#16).init
        [.config false { PwmConfig.empty with periodTicks := some 1000 },
          .config false { PwmConfig.empty with dutyTicks := some 500 }] = some s ∧
      s.module.config true { PwmConfig.empty with periodTicks := some 100 } = (s', 0) ∧
      (s'.pwm false).dutyTicks = 500 ∧ (s'.pwm false).periodTicks = 100 :=
  ⟨_, _, rfl, rfl, rfl, rfl⟩

end Am335x.Pwm
