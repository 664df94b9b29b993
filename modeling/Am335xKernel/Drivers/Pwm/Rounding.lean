import Mathlib.Tactic.IntervalCases
import Am335xKernel.Drivers.Pwm.Ehrpwm

/-!
# What the conversions of a period and a duty lose

Two conversions stand between a request and the registers of an eHRPWM module.

`ehrpwm_pwm_set_prd` divides a period of more than 16 bits by the prescaler, of
which it wants the smallest that will do. But the divider asked for is
`period_ticks / 65535 + 1`, which is one too many for a period that a divider
brings to exactly 65535.

`pwm_set_duty_percent` takes its percentage of the period in 32 bits, where the
other conversions of the file use 64. The request is never refused, and it is
right exactly as long as the products fit.
-/

namespace Am335x.Pwm

open Option Nat

section

variable {α : Type*} (f : α → ℕ)

/-- Walking down the list, a value that rises above `top`, the largest one so
far, leaves out no value of `all`. -/
def Climbs (all : List α) : ℕ → List α → Prop
  | _, [] => True
  | top, a :: l => (∀ b ∈ all, f b < f a → f b ≤ top) ∧ Climbs all (max top (f a)) l

instance decidableClimbs (all : List α) : ∀ top l, Decidable (Climbs f all top l)
  | _, [] => isTrue trivial
  | top, a :: l =>
    have : Decidable (Climbs f all (max top (f a)) l) := decidableClimbs all _ l
    inferInstanceAs (Decidable (_ ∧ _))

lemma Climbs.find_le {all l : List α} {top n : ℕ} (h : Climbs f all top l) (hn : top < n)
    {a b : α} (ha : l.find? (fun c => decide (f c ≥ n)) = some a) (hb : b ∈ all)
    (hle : n ≤ f b) : f a ≤ f b := by
  induction l generalizing top with
  | nil => cases ha
  | cons c l ih =>
    obtain ⟨hc, hl⟩ := h
    by_cases hfit : n ≤ f c
    · rw [List.find?_cons_of_pos (by exact decide_eq_true hfit)] at ha
      cases ha
      by_contra hlt
      have htop := hc b hb (lt_of_not_ge hlt)
      omega
    · rw [List.find?_cons_of_neg (by simpa using hfit)] at ha
      exact ih hl (max_lt hn (lt_of_not_ge hfit)) ha

end

lemma dividerPairs_climb : Climbs divider dividerPairs 0 dividerPairs := by
  decide +kernel

/-- `d` is a divider of the module that brings the period to 16 bits. -/
def Fits (period d : ℕ) : Prop := (∃ ij ∈ dividerPairs, divider ij = d) ∧ period / d < 2 ^ 16

lemma fits_iff {period d : ℕ} (hd : ∃ ij ∈ dividerPairs, divider ij = d) :
    Fits period d ↔ period < 65536 * d := by
  have hpos : 0 < d := by
    obtain ⟨ij, hij, rfl⟩ := hd
    exact (divider_bounds ij hij).1
  unfold Fits
  rw [div_lt_iff_lt_mul hpos]
  exact ⟨fun h => h.2, fun h => ⟨hd, h⟩⟩

lemma getDividerVal_least {desired ps tb : ℕ} (hpos : 0 < desired)
    (h : getDividerVal desired = some (ps, tb)) :
    ∃ ij ∈ dividerPairs, divider ij = ps ∧ tb = ij.1 <<< 10 ||| ij.2 <<< 7 ∧ desired ≤ ps ∧
      ∀ ij' ∈ dividerPairs, desired ≤ divider ij' → ps ≤ divider ij' := by
  obtain ⟨ij, hij, heq⟩ := map_eq_some_iff.mp h
  cases heq
  refine ⟨ij, List.mem_of_find?_eq_some hij, rfl, rfl, ?_, ?_⟩
  · have hle := List.find?_some hij
    exact of_decide_eq_true hle
  · intro ij' hij' hle
    exact dividerPairs_climb.find_le divider hpos hij hij' hle

/-! ### The fields of `TBCTL` -/

def clkdiv (tbctl : BitVec 16) : ℕ := (tbctl.extractLsb' 10 3).toNat

def hspclkdiv (tbctl : BitVec 16) : ℕ := (tbctl.extractLsb' 7 3).toNat

def tbctlDivider (tbctl : BitVec 16) : ℕ := divider (clkdiv tbctl, hspclkdiv tbctl)

lemma fields_masked (x v : BitVec 16) :
    let w := (x &&& ~~~tbctlClkdivMask &&& ~~~tbctlHspclkdivMask) ||| v
    clkdiv w = clkdiv v ∧ hspclkdiv w = hspclkdiv v := by
  constructor <;> refine congrArg BitVec.toNat (BitVec.eq_of_getLsbD_eq fun k hk => ?_) <;>
    interval_cases k <;> simp [tbctlClkdivMask, tbctlHspclkdivMask]

lemma fields_of_pair : ∀ ij ∈ dividerPairs,
    clkdiv (BitVec.ofNat 16 (ij.1 <<< 10 ||| ij.2 <<< 7)) = ij.1 ∧
      hspclkdiv (BitVec.ofNat 16 (ij.1 <<< 10 ||| ij.2 <<< 7)) = ij.2 := by
  decide

variable {ij : ℕ × ℕ}

/-! ### `ehrpwm_pwm_set_prd` -/

lemma periodDivider_pair {period ps tb : ℕ} (h : periodDivider period = some (ps, tb)) :
    ∃ ij ∈ dividerPairs, divider ij = ps ∧ tb = ij.1 <<< 10 ||| ij.2 <<< 7 := by
  unfold periodDivider at h
  split at h
  · obtain ⟨ij, hij, hps, htb, -⟩ := getDividerVal_least (succ_pos _) h
    exact ⟨ij, hij, hps, htb⟩
  · cases h
    exact ⟨(0, 0), by decide, rfl, rfl⟩

/-- The call as the claim of its comment has it ("we always look for the
minimum prescalar value"): it programs the least divider with which the period
fits, or there is none, or too little is left of the period. -/
def SetPrdRight (m : Ehrpwm) (chan : Bool) : Prop :=
  let period := (m.pwm chan).periodTicks
  let r := ehrpwmPwmSetPrd m chan
  (r.2 = 0 ∧ IsLeast (Set.ofPred (Fits period)) (tbctlDivider r.1.tbctl) ∧
      r.1.prescaleVal = tbctlDivider r.1.tbctl ∧
      r.1.tbprd + 1 = period / tbctlDivider r.1.tbctl) ∨
    (r.2 = einval ∧
      ((∀ d, ¬ Fits period d) ∨ ∃ d, IsLeast (Set.ofPred (Fits period)) d ∧ period / d ≤ 1))

def ExactlyFull (period : ℕ) : Prop :=
  ∃ ij ∈ dividerPairs, 65535 * divider ij ≤ period ∧ period < 65536 * divider ij

lemma ehrpwmPwmSetPrd_cases (m : Ehrpwm) (chan : Bool) :
    (periodDivider (m.pwm chan).periodTicks = none ∧ (ehrpwmPwmSetPrd m chan).2 = einval) ∨
    ∃ ij ∈ dividerPairs, periodDivider (m.pwm chan).periodTicks =
        some (divider ij, ij.1 <<< 10 ||| ij.2 <<< 7) ∧
      ((m.pwm chan).periodTicks / divider ij ≤ 1 ∧ (ehrpwmPwmSetPrd m chan).2 = einval ∨
        (ehrpwmPwmSetPrd m chan).2 = 0 ∧
        tbctlDivider (ehrpwmPwmSetPrd m chan).1.tbctl = divider ij ∧
        (ehrpwmPwmSetPrd m chan).1.prescaleVal = divider ij ∧
        (ehrpwmPwmSetPrd m chan).1.tbprd + 1 = (m.pwm chan).periodTicks / divider ij) := by
  cases hdiv : periodDivider (m.pwm chan).periodTicks with
  | none =>
    refine .inl ⟨rfl, ?_⟩
    simp only [ehrpwmPwmSetPrd, hdiv]
  | some r =>
    obtain ⟨ps, tb⟩ := r
    obtain ⟨ij, hij, rfl, rfl⟩ := periodDivider_pair hdiv
    obtain ⟨-, hps, hfits⟩ := periodDivider_fits hdiv
    refine .inr ⟨ij, hij, rfl, ?_⟩
    by_cases hle : (m.pwm chan).periodTicks / divider ij ≤ 1
    · refine .inl ⟨hle, ?_⟩
      simp only [ehrpwmPwmSetPrd, hdiv, mod_eq_of_lt hfits, if_pos hle]
    · obtain ⟨hi, hj⟩ := fields_of_pair ij hij
      refine .inr ?_
      simp only [ehrpwmPwmSetPrd, hdiv, mod_eq_of_lt hfits, if_neg hle, mod_eq_of_lt hps,
        tbctlDivider, fields_masked, hi, hj]
      exact ⟨trivial, trivial, trivial, by omega⟩

section

variable {period : ℕ} {ps tb : ℕ}

lemma least_of_small (h : period ≤ 65535) : IsLeast (Set.ofPred (Fits period)) 1 := by
  constructor
  · refine ⟨⟨(0, 0), by decide, rfl⟩, ?_⟩
    rw [Nat.div_one]
    omega
  · rintro d ⟨⟨ij, hij, rfl⟩, -⟩
    exact (divider_bounds ij hij).1

lemma fits_iff_desired_le (h : ¬ ExactlyFull period) (hij : ij ∈ dividerPairs) :
    Fits period (divider ij) ↔ period / 65535 + 1 ≤ divider ij := by
  have hgap : ¬ (65535 * divider ij ≤ period ∧ period < 65536 * divider ij) :=
    fun hfull => h ⟨ij, hij, hfull⟩
  rw [fits_iff ⟨ij, hij, rfl⟩]
  omega

section

variable (h : period ≤ 65535 ∨ ¬ ExactlyFull period)
include h

lemma periodDivider_least (hdiv : periodDivider period = some (ps, tb)) :
    IsLeast (Set.ofPred (Fits period)) ps := by
  unfold periodDivider at hdiv
  split at hdiv
  · have hfull : ¬ ExactlyFull period := h.resolve_left (by omega)
    obtain ⟨ij, hij, rfl, -, hle, hmin⟩ := getDividerVal_least (succ_pos _) hdiv
    constructor
    · exact (fits_iff_desired_le hfull hij).mpr hle
    · rintro d ⟨⟨ij', hij', rfl⟩, hd⟩
      exact hmin ij' hij' ((fits_iff_desired_le hfull hij').mp ⟨⟨ij', hij', rfl⟩, hd⟩)
  · cases hdiv
    exact least_of_small (by omega)

lemma not_fits_of_none (hdiv : periodDivider period = none) (d : ℕ) : ¬ Fits period d := by
  unfold periodDivider at hdiv
  split at hdiv
  · have hfull : ¬ ExactlyFull period := h.resolve_left (by omega)
    rintro ⟨⟨ij, hij, rfl⟩, hd⟩
    have hle := (fits_iff_desired_le hfull hij).mp ⟨⟨ij, hij, rfl⟩, hd⟩
    exact List.find?_eq_none.mp (map_eq_none_iff.mp hdiv) ij hij (decide_eq_true hle)
  · cases hdiv

end

end

/-- **The least divider is programmed, except for the periods that a divider
brings to exactly 65535.** -/
theorem set_prd_least_iff (m : Ehrpwm) (chan : Bool) : SetPrdRight m chan ↔
      (m.pwm chan).periodTicks ≤ 65535 ∨ ¬ ExactlyFull (m.pwm chan).periodTicks := by
  constructor
  · intro hright
    by_contra hcontra
    rw [not_or, not_le, not_not] at hcontra
    obtain ⟨hlarge, ij, hij, hlow, hhigh⟩ := hcontra
    have hfits : Fits (m.pwm chan).periodTicks (divider ij) :=
      (fits_iff ⟨ij, hij, rfl⟩).mpr hhigh
    have hpos := (divider_bounds ij hij).1
    rcases hright with ⟨hret, hleast, -⟩ | ⟨-, hnone | ⟨d, hleast, hdiv⟩⟩
    · have hle := hleast.2 hfits
      obtain ⟨-, herr⟩ | ⟨kl, -, hdiv, ⟨-, herr⟩ | ⟨-, htb, -⟩⟩ := ehrpwmPwmSetPrd_cases m chan
      · cases hret.symm.trans herr
      · cases hret.symm.trans herr
      · rw [periodDivider, if_pos hlarge] at hdiv
        obtain ⟨-, -, -, -, hdesired, -⟩ := getDividerVal_least (succ_pos _) hdiv
        rw [htb] at hle
        omega
    · exact hnone _ hfits
    · -- the least divider that fits leaves at least as much as `divider ij`
      have hle := hleast.2 hfits
      have hdpos : 0 < d := by
        obtain ⟨⟨kl, hkl, rfl⟩, -⟩ := hleast.1
        exact (divider_bounds kl hkl).1
      have hmul : 65535 * d ≤ (m.pwm chan).periodTicks :=
        le_trans (Nat.mul_le_mul_left _ hle) hlow
      have hmany := (le_div_iff_mul_le hdpos).mpr hmul
      omega
  · intro h
    obtain ⟨hdiv, herr⟩ | ⟨ij, hij, hdiv, ⟨hone, herr⟩ | ⟨hret, htb, hps, hprd⟩⟩ :=
      ehrpwmPwmSetPrd_cases m chan
    · exact .inr ⟨herr, .inl (not_fits_of_none h hdiv)⟩
    · exact .inr ⟨herr, .inr ⟨_, periodDivider_least h hdiv, hone⟩⟩
    · refine .inl ⟨hret, ?_, ?_, ?_⟩
      · rw [htb]
        exact periodDivider_least h hdiv
      · rw [htb]
        exact hps
      · rw [htb]
        exact hprd

/-- Two times 65535 ticks are divided by 4. -/
theorem set_prd_full_period :
    let m : Ehrpwm :=
      { pwm0 :=
          { tickHz := 100000000, periodTicks := 131070, dutyTicks := 0, periodNs := 0,
            dutyNs := 0, maxPeriodTicks := 0 }
        pwm1 :=
          { tickHz := 100000000, periodTicks := 0, dutyTicks := 0, periodNs := 0,
            dutyNs := 0, maxPeriodTicks := 0 }
        prescaleVal := 1, tbctl := 0, tbprd := 0, cmpa := 0, cmpb := 0, cmpahr := 0, hrcnfg := 0 }
    (ehrpwmPwmSetPrd m false).2 = 0 ∧ (ehrpwmPwmSetPrd m false).1.prescaleVal = 4 ∧
      Fits 131070 2 ∧ ¬ SetPrdRight m false := by
  have hfits : Fits 131070 2 := ⟨⟨(0, 1), by decide, rfl⟩, by norm_num⟩
  refine ⟨rfl, rfl, hfits, ?_⟩
  rintro (⟨-, hleast, -⟩ | ⟨herr, -⟩)
  · have hle := hleast.2 hfits
    exact absurd hle (by decide)
  · cases herr

/-- `pwm_set_duty_percent` over a driver with `ops->config`; `record` is the
driver's state with a device in its place. -/
def pwmSetDutyPercent {σ : Type*} (config : σ → PwmConfig → σ × ℤ) (record : PwmDevice → σ)
    (p : PwmDevice) (percent : ℤ) : σ × ℤ :=
  let p := { p with dutyNs := CInt.toU32 (p.periodNs * percent) / 100 }
  pwmConfig config p (record p) { PwmConfig.empty with dutyPercent := some percent }

def dutyRequest (dutyTicks : ℕ) : PwmConfig := { PwmConfig.empty with dutyTicks := some dutyTicks }

section

variable (p : PwmDevice) {percent : ℤ}

lemma toU32_mul_of_nonneg (x : ℕ) {k : ℤ} (hk : 0 ≤ k) :
    CInt.toU32 (x * k) = x * k.toNat % 2 ^ 32 := by
  obtain ⟨n, rfl⟩ := Int.eq_ofNat_of_zero_le hk
  rw [Int.toNat_natCast]
  norm_cast

lemma wrapped_le (hge : percent ≤ 100) :
    p.periodTicks * percent.toNat % 2 ^ 32 / 100 ≤ p.periodTicks := by
  apply Nat.div_le_of_le_mul
  calc p.periodTicks * percent.toNat % 2 ^ 32 ≤ p.periodTicks * percent.toNat := Nat.mod_le _ _
    _ ≤ p.periodTicks * 100 := Nat.mul_le_mul_left _ (by omega)
    _ = 100 * p.periodTicks := mul_comm _ _

lemma pwmSetDutyPercent_eq (hle : 0 ≤ percent) (hge : percent ≤ 100) {σ : Type*}
    (config : σ → PwmConfig → σ × ℤ) (record : PwmDevice → σ) :
    pwmSetDutyPercent config record p percent =
      config (record { p with dutyNs := p.periodNs * percent.toNat % 2 ^ 32 / 100 })
        (dutyRequest (p.periodTicks * percent.toNat % 2 ^ 32 / 100)) := by
  have hin := wrapped_le p hge
  simp only [pwmSetDutyPercent, pwmConfig, PwmConfig.inTicks, pwmConfigNsToTicks,
    pwmConfigPercentToTicks, PwmConfig.empty, pwmConfigCheck, getD_none,
    toU32_mul_of_nonneg _ hle, if_neg (not_lt.mpr hin), dutyRequest]
  rfl

lemma mod_div_hundred_eq_iff (x : ℕ) : x % 2 ^ 32 / 100 = x / 100 ↔ x < 2 ^ 32 := by
  constructor
  · intro h
    by_contra hge
    have hmod := div_add_mod x (2 ^ 32)
    omega
  · intro h
    rw [mod_eq_of_lt h]

/-- **The duty is right exactly if both products fit in 32 bits; the request
reaches the driver in any case.** -/
theorem set_duty_percent_iff (percent : ℤ) (hle : 0 ≤ percent) (hge : percent ≤ 100) :
    (∃ dutyNs dutyTicks, dutyTicks ≤ p.periodTicks ∧
      ∀ (σ : Type) (config : σ → PwmConfig → σ × ℤ) (record : PwmDevice → σ),
        pwmSetDutyPercent config record p percent =
          config (record { p with dutyNs := dutyNs }) (dutyRequest dutyTicks)) ∧
    ((∀ (σ : Type) (config : σ → PwmConfig → σ × ℤ) (record : PwmDevice → σ),
        pwmSetDutyPercent config record p percent =
          config (record { p with dutyNs := p.periodNs * percent.toNat / 100 })
            (dutyRequest (p.periodTicks * percent.toNat / 100))) ↔
      p.periodTicks * percent.toNat < 2 ^ 32 ∧ p.periodNs * percent.toNat < 2 ^ 32) := by
  refine ⟨⟨_, _, wrapped_le p hge, fun σ => pwmSetDutyPercent_eq p hle hge⟩, ?_⟩
  constructor
  · intro h
    -- a driver that records the device and the request
    have hsame := h (PwmDevice × PwmConfig) (fun s c => ((s.1, c), 0)) (fun p => (p, .empty))
    rw [pwmSetDutyPercent_eq p hle hge] at hsame
    obtain ⟨hdevice, hrequest⟩ := Prod.mk.inj (Prod.mk.inj hsame).1
    have hns := congrArg PwmDevice.dutyNs hdevice
    have hticks := some.inj (congrArg PwmConfig.dutyTicks hrequest)
    exact ⟨(mod_div_hundred_eq_iff _).mp hticks, (mod_div_hundred_eq_iff _).mp hns⟩
  · rintro ⟨hticks, hns⟩ σ config record
    rw [pwmSetDutyPercent_eq p hle hge, mod_eq_of_lt hticks, mod_eq_of_lt hns]

/-- Half of a period of one millisecond at 100 MHz. -/
theorem set_duty_percent_half :
    let p : PwmDevice :=
      { tickHz := 100000000, periodTicks := 100000, dutyTicks := 0, periodNs := 1000000,
        dutyNs := 0, maxPeriodTicks := 0 }
    ∀ (σ : Type) (config : σ → PwmConfig → σ × ℤ) (record : PwmDevice → σ),
      pwmSetDutyPercent config record p 50 =
        config (record { p with dutyNs := p.periodNs * (50 : ℤ).toNat / 100 })
          (dutyRequest (p.periodTicks * (50 : ℤ).toNat / 100)) := by
  intro p
  exact (set_duty_percent_iff p 50 (by decide) (by decide)).2.mpr ⟨by decide, by decide⟩

/-- Half of a period of one second at 100 MHz: 27 ms are recorded and 70 ms
requested. -/
theorem set_duty_percent_wraps :
    let p : PwmDevice :=
      { tickHz := 100000000, periodTicks := 100000000, dutyTicks := 0, periodNs := 1000000000,
        dutyNs := 0, maxPeriodTicks := 0 }
    pwmSetDutyPercent (fun s c => ((s.1, c), 0)) (fun p => (p, PwmConfig.empty)) p 50 =
        (({ p with dutyNs := 27553597 }, dutyRequest 7050327), 0) ∧
      p.periodNs * 50 / 100 = 500000000 ∧ p.periodTicks * 50 / 100 = 50000000 := by
  decide

end

end Am335x.Pwm
