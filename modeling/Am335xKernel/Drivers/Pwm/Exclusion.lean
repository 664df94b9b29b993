import Am335xKernel.Drivers.Pwm.AlarmRequests

/-!
# One sound source at a time

A source is *armed* from the write that starts it until its sound is over: the
alarm while it has a level, the common sound and the reminder while their timer
is pending. The switches that the stores test come on later, with the first
tick, so each store can be accepted while another source is armed. In a run that
never does this at most one source is armed at any time.
-/

namespace Am335x.Pwm

/-- The test by which `common_sound_store` accepts a sound. -/
def Sound.acceptsCommon (s : Sound) : Prop :=
  (s.beep.masterAlarmSwitch = false ∨
      (s.beep.onceAlarmSwitch = false ∧ 15 ≤ s.beep.cnt)) ∧
    s.remind.switch = false ∧ s.common.switch = false

/-- The test by which `alarm_remind_sound_store` accepts a reminder. -/
def Sound.acceptsRemind (s : Sound) : Prop :=
  s.beep.onceAlarmSwitch = false ∧ s.remind.switch = false

/-- The test by which `pwm_set_level_store` raises an alarm. -/
def Sound.acceptsLevel (s : Sound) (level : AlarmLevel) : Prop :=
  level ≠ .none ∧ s.beep.alarmLevel ≠ level ∧ s.beep.onceAlarmSwitch = false

/-- A write that is accepted finds the other sources idle. A common sound that
is already being played does not count for a new alarm, which closes it. -/
def Sound.findsOthersIdle (s : Sound) : SoundEvent → Prop
  | .setLevel _ buf =>
    (∃ level ∈ levelOfText buf, s.acceptsLevel level) →
      s.remind.timer.pending = false ∧
        (s.common.timer.pending = true → s.common.switch = true)
  | .alarmRemindSound _ _ =>
    s.acceptsRemind → s.beep.alarmLevel = .none ∧ s.common.timer.pending = false
  | .commonSound _ _ =>
    s.acceptsCommon → s.beep.alarmLevel = .none ∧ s.remind.timer.pending = false
  | _ => True

instance (s : Sound) : Decidable s.acceptsCommon :=
  inferInstanceAs (Decidable (_ ∧ _))

instance (s : Sound) : Decidable s.acceptsRemind :=
  inferInstanceAs (Decidable (_ ∧ _))

instance (s : Sound) (level : AlarmLevel) : Decidable (s.acceptsLevel level) :=
  inferInstanceAs (Decidable (_ ∧ _))

instance (s : Sound) (e : SoundEvent) : Decidable (s.findsOthersIdle e) := by
  unfold Sound.findsOthersIdle
  split <;> infer_instance

structure Exclusive (s : Sound) : Prop where
  alarm : BeepInv s.beep
  common_armed : s.common.switch = true → s.common.timer.pending = true
  remind_armed : s.remind.switch = true → s.remind.timer.pending = true
  alarm_alone : s.beep.alarmLevel ≠ .none →
    s.common.timer.pending = false ∧ s.remind.timer.pending = false
  common_alone : s.common.timer.pending = true → s.remind.timer.pending = false

variable (gP : DevicePtr) {s : Sound} {cs : List Call} {e : SoundEvent}

open Sound

lemma exclusive_init : Exclusive (Sound.init gP) := by
  refine ⟨beepInv_init gP, ?_, ?_, ?_, ?_⟩ <;> simp [init, TimerList.zero]

lemma closeCommonTimer_pending {gP : DevicePtr} {c : CommonSoundControl}
    (h : c.timer.pending = true → c.switch = true) :
    (closeCommonTimer gP c).1.timer.pending = false := by
  unfold closeCommonTimer
  by_cases hs : c.switch = true
  · simp [hs]
  · have hp : c.timer.pending = false := by
      by_contra hp
      exact hs (h (by simpa using hp))
    simp [hs, hp]

/-- What a level write does to the other two sources: it leaves them alone, or
it is accepted and closes the common sound. -/
lemma pwmSetLevelStore_others (s : Sound) (dev : ℕ) (buf : List Char) :
    (pwmSetLevelStore dev buf s).1.remind = s.remind ∧
      ((pwmSetLevelStore dev buf s).1.common = s.common ∧
          ((pwmSetLevelStore dev buf s).1.beep.alarmLevel ≠ .none → s.beep.alarmLevel ≠ .none) ∨
        (∃ level ∈ levelOfText buf, s.acceptsLevel level) ∧
          (pwmSetLevelStore dev buf s).1.common = (closeCommonTimer s.gP s.common).1) := by
  unfold pwmSetLevelStore
  cases hbuf : levelOfText buf with
  | none => exact ⟨rfl, .inl ⟨rfl, id⟩⟩
  | some level =>
    by_cases h : s.beep.alarmLevel ≠ level ∧ s.beep.onceAlarmSwitch = false
    · cases level <;> simp [clearLevel, raiseLevel, BeepControl.claimDevice, acceptsLevel, h]
    · refine ⟨?_, .inl ?_⟩ <;>
        cases level <;> simp [clearLevel, raiseLevel, BeepControl.claimDevice, if_neg h]

lemma exclusive_setLevel {s s' : Sound} {dev : ℕ} {buf : List Char}
    (h : Exclusive s) (hidle : s.findsOthersIdle (.setLevel dev buf))
    (hstep : s.react (.setLevel dev buf) = some (s', cs)) : Exclusive s' := by
  have halarm := (react_alarm h.alarm hstep).1
  simp only [react, Option.some.injEq, Prod.mk.injEq] at hstep
  obtain ⟨rfl, _⟩ := hstep
  obtain ⟨hr, hc⟩ := pwmSetLevelStore_others s dev buf
  refine ⟨halarm, ?_, hr ▸ h.remind_armed, ?_, ?_⟩
  all_goals rw [hr] at *
  all_goals rcases hc with ⟨hc, hl⟩ | ⟨hacc, hc⟩
  all_goals rw [hc]
  · exact h.common_armed
  · intro hon
    unfold closeCommonTimer at hon
    split at hon <;> simp_all
  · intro hlevel
    exact h.alarm_alone (hl hlevel)
  · intro _
    obtain ⟨hremind, hcommon⟩ := hidle hacc
    exact ⟨closeCommonTimer_pending hcommon, hremind⟩
  · exact h.common_alone
  · intro hp
    rw [closeCommonTimer_pending (hidle hacc).2] at hp
    cases hp

lemma commonSoundStore_accepted (h : s.acceptsCommon) (dev : ℕ) (buf : List Char) :
    (commonSoundStore dev buf s).1.beep = s.beep ∧
      (commonSoundStore dev buf s).1.remind = s.remind ∧
      (commonSoundStore dev buf s).1.common.timer.pending = true := by
  unfold acceptsCommon at h
  simp [commonSoundStore, h]

lemma commonSoundStore_refused (h : ¬ s.acceptsCommon) (dev : ℕ) (buf : List Char) :
    commonSoundStore dev buf s =
      ({ s with common := { s.common with device := s.common.device.or (some dev) } }, [], 1) := by
  unfold acceptsCommon at h
  simp only [commonSoundStore, if_neg h]

lemma alarmRemindSoundStore_accepted (h : s.acceptsRemind) (dev : ℕ) (buf : List Char) :
    (alarmRemindSoundStore dev buf s).1.beep = s.beep ∧
      (alarmRemindSoundStore dev buf s).1.common = s.common ∧
      (alarmRemindSoundStore dev buf s).1.remind.timer.pending = true := by
  unfold acceptsRemind at h
  simp [alarmRemindSoundStore, h]

lemma alarmRemindSoundStore_refused (h : ¬ s.acceptsRemind) (dev : ℕ) (buf : List Char) :
    alarmRemindSoundStore dev buf s =
      ({ s with remind := { s.remind with device := s.remind.device.or (some dev) } }, [], 1) := by
  unfold acceptsRemind at h
  simp only [alarmRemindSoundStore, if_neg h]

section

variable (h : Exclusive s)
include h

lemma exclusive_alarmRemindSound (dev : ℕ) (buf : List Char)
    (hidle : s.findsOthersIdle (.alarmRemindSound dev buf)) :
    Exclusive (alarmRemindSoundStore dev buf s).1 := by
  by_cases hacc : s.acceptsRemind
  · obtain ⟨hb, hc, hp⟩ := alarmRemindSoundStore_accepted hacc dev buf
    obtain ⟨hlevel, hcommon⟩ := hidle hacc
    refine ⟨hb ▸ h.alarm, hc ▸ h.common_armed, fun _ => hp, ?_, ?_⟩
    · intro hne
      exact absurd hlevel (hb ▸ hne)
    · intro hpend
      rw [hc, hcommon] at hpend
      cases hpend
  · rw [alarmRemindSoundStore_refused hacc]
    exact { h with }

lemma exclusive_remindTick (hp : s.remind.timer.pending = true) : Exclusive { s with remind :=
      (alarmRemindTimerFn s.gP { s.remind with timer := s.remind.timer.detach }).1 } := by
  have hcommon : s.common.timer.pending = true → False := by
    intro hc
    rw [h.common_alone hc] at hp
    cases hp
  refine ⟨h.alarm, h.common_armed, ?_, fun hne => ?_, fun hc => (hcommon hc).elim⟩
  · unfold alarmRemindTimerFn
    dsimp only
    split_ifs <;> simp_all
  · rw [(h.alarm_alone hne).2] at hp
    cases hp

end

lemma exclusive_of_alarm {s s' : Sound} (h : Exclusive s) (halarm : BeepInv s'.beep)
    (hlevel : s'.beep.alarmLevel = s.beep.alarmLevel) (hc : s'.common = s.common)
    (hr : s'.remind = s.remind) : Exclusive s' := by
  refine ⟨halarm, ?_, ?_, ?_, ?_⟩
  · rw [hc]
    exact h.common_armed
  · rw [hr]
    exact h.remind_armed
  · rw [hc, hr, hlevel]
    exact h.alarm_alone
  · rw [hc, hr]
    exact h.common_alone

lemma pwmSetTimeIntervalStore_others (s : Sound) (dev : ℕ) (buf : List Char) :
    (pwmSetTimeIntervalStore dev buf s).1.common = s.common ∧
      (pwmSetTimeIntervalStore dev buf s).1.remind = s.remind := by
  unfold pwmSetTimeIntervalStore
  dsimp only
  split
  · exact ⟨rfl, rfl⟩
  · split <;> exact ⟨rfl, rfl⟩

lemma exclusive_step {s s' : Sound} (h : Exclusive s)
    (hidle : s.findsOthersIdle e) (hstep : s.react e = some (s', cs)) : Exclusive s' := by
  have halarm := react_alarm h.alarm hstep
  cases e with
  | setLevel dev buf => exact exclusive_setLevel h hidle hstep
  | alarmRemindSound dev buf =>
    cases hstep
    exact exclusive_alarmRemindSound h dev buf hidle
  | commonSound dev buf =>
    cases hstep
    by_cases hacc : s.acceptsCommon
    · obtain ⟨hb, hr, hp⟩ := commonSoundStore_accepted hacc dev buf
      obtain ⟨hlevel, hremind⟩ := hidle hacc
      refine ⟨hb ▸ h.alarm, fun _ => hp, hr ▸ h.remind_armed, ?_, fun _ => hr ▸ hremind⟩
      intro hne
      exact absurd hlevel (hb ▸ hne)
    · rw [commonSoundStore_refused hacc]
      exact { h with }
  | setSoundLevel dev buf =>
    cases hstep
    exact exclusive_of_alarm h halarm.1 (by simpa [SoundEvent.request] using halarm.2) rfl rfl
  | setTimeInterval dev buf =>
    cases hstep
    obtain ⟨hc, hr⟩ := pwmSetTimeIntervalStore_others s dev buf
    exact exclusive_of_alarm h halarm.1 (by simpa [SoundEvent.request] using halarm.2) hc hr
  | beepTick =>
    simp only [react] at hstep
    split at hstep <;> cases hstep
    exact exclusive_of_alarm h halarm.1 (by simpa [SoundEvent.request] using halarm.2) rfl rfl
  | commonTick =>
    simp only [react] at hstep
    split at hstep <;> cases hstep
    rename_i hp
    refine ⟨h.alarm, ?_, h.remind_armed, fun hne => ?_, fun _ => h.common_alone hp⟩
    · unfold commonSoundTimerFn
      dsimp only
      split_ifs <;> simp_all
    · rw [(h.alarm_alone hne).1] at hp
      cases hp
  | remindTick =>
    simp only [react] at hstep
    split at hstep <;> cases hstep
    rename_i hp
    exact exclusive_remindTick h hp

lemma exclusive_run {gP : DevicePtr} {es : List SoundEvent}
    (h : (Sound.machine gP).Guarded Sound.findsOthersIdle (Sound.init gP) es) :
    (Sound.machine gP).Always Exclusive (Sound.init gP) es := by
  refine Machine.always_of_guarded _ ?_ (exclusive_init gP) h
  intro s e s' hs hidle hstep
  obtain ⟨cs, hr⟩ := step_eq_some.mp hstep
  exact exclusive_step hs hidle hr

def Sound.oneSwitch (s : Sound) : Prop :=
  ¬ (s.beep.onceAlarmSwitch = true ∧ s.common.switch = true) ∧
    ¬ (s.beep.onceAlarmSwitch = true ∧ s.remind.switch = true) ∧
    ¬ (s.common.switch = true ∧ s.remind.switch = true)

def Sound.keepsAlarmDevices (s : Sound) (e : SoundEvent) : Prop :=
  s.beep.onceAlarmSwitch = true →
    Call.stop s.gP ∈ s.calls e ∨ Call.stop s.beep.beepDevice ∈ s.calls e → e = .beepTick

lemma level_of_once {b : BeepControl} (h : BeepInv b) (hon : b.onceAlarmSwitch = true) :
    b.alarmLevel ≠ .none := by
  rw [h.once] at hon
  exact (notResting_of_inBurst hon).1

lemma Exclusive.oneSwitch (h : Exclusive s) : s.oneSwitch := by
  refine ⟨?_, ?_, ?_⟩
  · rintro ⟨honce, hon⟩
    have hp := h.common_armed hon
    rw [(h.alarm_alone (level_of_once h.alarm honce)).1] at hp
    cases hp
  · rintro ⟨honce, hon⟩
    have hp := h.remind_armed hon
    rw [(h.alarm_alone (level_of_once h.alarm honce)).2] at hp
    cases hp
  · rintro ⟨hcommon, hremind⟩
    have hp := h.remind_armed hremind
    rw [h.common_alone (h.common_armed hcommon)] at hp
    cases hp

/-- During a burst every store is refused and the other timers are idle, so
nothing but the alarm's handler touches a device. -/
lemma Exclusive.calls_eq_nil (h : Exclusive s)
    (hon : s.beep.onceAlarmSwitch = true) (he : e ≠ .beepTick) : s.calls e = [] := by
  have hlevel := level_of_once h.alarm hon
  obtain ⟨hc, hr⟩ := h.alarm_alone hlevel
  cases e with
  | beepTick => exact absurd rfl he
  | setLevel dev buf =>
    have hon' : (s.beep.claimDevice dev).onceAlarmSwitch = true := hon
    show (pwmSetLevelStore dev buf s).2.1 = []
    unfold pwmSetLevelStore
    cases levelOfText buf with
    | none => rfl
    | some level =>
      cases level with
      | none => simp only [clearLevel, hon', Bool.true_eq_false, and_false, if_false]
      | _ => simp only [raiseLevel, hon', Bool.true_eq_false, and_false, if_false]
  | alarmRemindSound dev buf =>
    have hno : ¬ s.acceptsRemind := by
      rintro ⟨hoff, _⟩
      rw [hon] at hoff
      cases hoff
    simp [calls, react, alarmRemindSoundStore_refused hno]
  | commonSound dev buf =>
    have hno : ¬ s.acceptsCommon := by
      rintro ⟨hoff, _⟩
      simp [hon, h.alarm.master hlevel] at hoff
    simp [calls, react, commonSoundStore_refused hno]
  | commonTick => simp [calls, react, hc]
  | remindTick => simp [calls, react, hr]
  | _ => rfl

/-- In a run whose accepted writes all find the other sources idle, no two switches are ever on
together, and during an alarm burst the carrier and the beep device are stopped by the alarm alone.
-/
theorem one_source_of_alone {gP : DevicePtr} {es : List SoundEvent}
    (h : (Sound.machine gP).Guarded Sound.findsOthersIdle (Sound.init gP) es) :
    (Sound.machine gP).Always Sound.oneSwitch (Sound.init gP) es ∧
      (Sound.machine gP).Guarded Sound.keepsAlarmDevices (Sound.init gP) es := by
  have hinv := exclusive_run h
  refine ⟨Machine.Always.mono _ (fun s hs => hs.oneSwitch) hinv, ?_⟩
  refine Machine.Always.guarded _ ?_ hinv
  intro s e s' hs _ hon hstop
  by_contra he
  rw [hs.calls_eq_nil hon he] at hstop
  simp at hstop

/-- The alarm closes a common sound that is being played. -/
theorem one_source_of_alone_closing :
    (Sound.machine (some 1)).Always Sound.oneSwitch (Sound.init (some 1))
        [.commonSound 0 "5 100 800".toList, .commonTick, .setLevel 0 "5".toList, .beepTick] ∧
      (Sound.machine (some 1)).Guarded Sound.keepsAlarmDevices (Sound.init (some 1))
        [.commonSound 0 "5 100 800".toList, .commonTick, .setLevel 0 "5".toList, .beepTick] := by
  apply one_source_of_alone
  decide +kernel

/-- `alarm_remind_sound_store` looks at two switches; that of the common sound is not one of them.
-/
theorem reminder_overlaps_common_sound : ∃ s, (Sound.machine (some 1)).exec (Sound.init (some 1))
        [.commonSound 0 "5 100 800".toList, .commonTick,
          .alarmRemindSound 0 "500800".toList, .remindTick] = some s ∧
      s.common.switch = true ∧ s.remind.switch = true := by
  refine ⟨_, rfl, ?_, ?_⟩ <;> decide +kernel

end Am335x.Pwm
