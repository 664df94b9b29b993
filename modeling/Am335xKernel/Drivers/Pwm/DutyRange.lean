import Am335xKernel.Drivers.Pwm.Exclusion

/-!
# The duties that the sound sources ask for

Each source takes its duty from `sound_duty`, indexed by a volume that a write selected. The alarm
and the common sound ask for sevenths of the entry. The reminder copies the entry and counts the
copy down by one in its second step, and the entry of `LEVEL_NONE`, which `alarm_remind_sound_store`
selects for every number it does not know, is 0: the reminder then asks for -1 percent.
`pwm_change_freq` sets the duty of the carrier to 80 whatever the volume is. In a run whose
reminders have a volume and whose sounds do not go to the carrier every duty is between 0 and the
entry of its volume.
-/

namespace Am335x.Pwm

/-- `sound_duty[]`. -/
def soundDutyTable : List ℤ := [0, 10, 20, 30, 40, 50, 60, 70, 80, 90, 95, 0]

def SoundLevel.index : SoundLevel → ℕ
  | .none => 0 | .one => 1 | .two => 2 | .three => 3 | .four => 4 | .five => 5
  | .six => 6 | .seven => 7 | .eight => 8 | .nine => 9 | .ten => 10

section

variable (v : SoundLevel)

lemma soundDutyTable_index : soundDutyTable[v.index]? = some (soundDuty v) := by
  cases v <;> rfl

lemma SoundLevel.index_le : v.index ≤ SoundLevel.ten.index := by
  cases v <;> decide

lemma soundDuty_bounds : 0 ≤ soundDuty v ∧ soundDuty v ≤ 100 := by
  cases v <;> decide

end

/-- A duty in percent, at most `duty`; calls for the carrier and other calls do not count. -/
def Call.Within (gP : DevicePtr) (duty : ℤ) : Call → Prop
  | .setDutyPercent p percent => p ≠ gP → 0 ≤ percent ∧ percent ≤ 100 ∧ percent ≤ duty
  | _ => True

def AllWithin (gP : DevicePtr) (duty : ℤ) (cs : List Call) : Prop := ∀ c ∈ cs, c.Within gP duty

section

variable {gP : DevicePtr} {duty : ℤ}

lemma allWithin_nil : AllWithin gP duty [] := by
  intro c hc
  cases hc

variable {cs : List Call}

lemma allWithin_append {ds : List Call} (hc : AllWithin gP duty cs) (hd : AllWithin gP duty ds)
    : AllWithin gP duty (cs ++ ds) := by
  exact List.forall_mem_append.mpr ⟨hc, hd⟩

lemma allWithin_pwmChangeFreq (freq : ℕ) : AllWithin gP duty (pwmChangeFreq gP freq) := by
  cases gP with
  | none => exact allWithin_nil
  | some g => simp [AllWithin, pwmChangeFreq, Call.Within]

lemma allWithin_switch (h : ∀ p percent, Call.setDutyPercent p percent ∉ cs) :
    AllWithin gP duty cs := by
  intro c hc
  cases c with
  | setDutyPercent p percent => exact absurd hc (h p percent)
  | _ => trivial

variable {p : DevicePtr}

lemma allWithin_cons {percent : ℤ} (hle : 0 ≤ percent) (hmax : percent ≤ 100)
    (hduty : percent ≤ duty) (h : AllWithin gP duty cs) :
    AllWithin gP duty (.setDutyPercent p percent :: cs) := by
  exact List.forall_mem_cons.mpr ⟨fun _ => ⟨hle, hmax, hduty⟩, h⟩

lemma allWithin_seventh {k : ℤ} (hle : 0 ≤ duty) (hmax : duty ≤ 100) (hk : 0 ≤ k) (hseven : k ≤ 7) :
    AllWithin gP duty [.setDutyPercent p (duty * k / 7)] := by
  have hnonneg : 0 ≤ duty * k / 7 := Int.ediv_nonneg (mul_nonneg hle hk) (by norm_num)
  have hduty : duty * k / 7 ≤ duty := by
    have hmul : duty * k ≤ duty * 7 := mul_le_mul_of_nonneg_left hseven hle
    omega
  exact allWithin_cons hnonneg (by omega) hduty allWithin_nil

end

section

variable {n : ℕ} (sh : Shape n) (o : Outputs) (interval : ℕ)

lemma Wave.advance_within {gP : DevicePtr} {duty : ℤ} (w : Wave n) (next : Status n) (cnt : ℤ)
    {calls : List Call} (h : AllWithin gP duty calls) :
    AllWithin gP duty (w.advance next cnt calls).2 := by
  unfold Wave.advance
  split
  · exact h
  · exact allWithin_nil

lemma Shape.pulseBranch_within (hle : 0 ≤ o.duty) (hmax : o.duty ≤ 100) (i : Fin n)
    (ph : Phase) (w : Wave n) : AllWithin o.gP o.duty (sh.pulseBranch o interval i ph w).2 := by
  have hstart : AllWithin o.gP o.duty
      [.setDutyPercent o.beepDevice 0, .start o.beepDevice, .start o.gP] :=
    allWithin_cons le_rfl (by norm_num) hle (allWithin_switch (by simp))
  have hstop : AllWithin o.gP o.duty [.stop o.beepDevice, .stop o.gP] :=
    allWithin_switch (by simp)
  cases ph with
  | riseOne =>
    dsimp only [pulseBranch]
    split
    · exact allWithin_append (allWithin_pwmChangeFreq _) hstart
    · exact w.advance_within _ _ hstart
  | keep => exact w.advance_within _ _ (allWithin_cons hle hmax le_rfl allWithin_nil)
  | fallThree =>
    refine w.advance_within _ _ ?_
    rw [show o.duty / 7 = o.duty * 1 / 7 by rw [mul_one]]
    exact allWithin_seventh hle hmax (by norm_num) (by norm_num)
  | finish =>
    dsimp only [pulseBranch]
    split
    · exact w.advance_within _ _ hstop
    · split
      · exact hstop
      · exact allWithin_nil
  | _ =>
    exact w.advance_within _ _ (allWithin_seventh hle hmax (by norm_num) (by norm_num))

lemma Shape.chain_within [NeZero n] (hle : 0 ≤ o.duty) (hmax : o.duty ≤ 100) (w : Wave n) :
    AllWithin o.gP o.duty (sh.chain o interval w).2 := by
  unfold chain
  split
  · exact sh.pulseBranch_within o interval hle hmax _ _ w
  · rw [Wave.restBranch_calls]
    exact allWithin_nil

end

section

variable (gP : DevicePtr)

lemma beepTimerFn_within (b : BeepControl) :
    AllWithin gP (soundDuty b.volume) (beepTimerFn gP b).2 := by
  unfold BeepControl.volume beepTimerFn
  cases b.alarmLevel with
  | none => exact allWithin_nil
  | low =>
    obtain ⟨hle, hmax⟩ := soundDuty_bounds b.lowVolumeControl
    exact lowShape.chain_within ⟨b.beepDevice, gP, _⟩ _ hle hmax _
  | mid =>
    obtain ⟨hle, hmax⟩ := soundDuty_bounds b.midVolumeControl
    exact midShape.chain_within ⟨b.beepDevice, gP, _⟩ _ hle hmax _
  | high =>
    obtain ⟨hle, hmax⟩ := soundDuty_bounds b.highVolumeControl
    rw [highTick_eq]
    exact highShape.chain_within ⟨b.beepDevice, gP, _⟩ _ hle hmax _

variable (c : CommonSoundControl)

lemma commonSoundBranch_within : AllWithin gP (soundDuty c.level) (commonSoundBranch gP c).2 := by
  obtain ⟨hle, hmax⟩ := soundDuty_bounds c.level
  cases hst : c.status with
  | zero =>
    simp only [commonSoundBranch, hst]
    exact allWithin_nil
  | riseOne =>
    simp only [commonSoundBranch, hst]
    exact allWithin_cons le_rfl (by norm_num) hle (allWithin_switch (by simp))
  | keep =>
    simp only [commonSoundBranch, hst]
    split
    · exact allWithin_cons hle hmax le_rfl allWithin_nil
    · exact allWithin_nil
  | finish =>
    simp only [commonSoundBranch, hst]
    split
    · exact allWithin_switch (by simp)
    · exact allWithin_nil
  | _ =>
    simp only [commonSoundBranch, hst]
    split
    · exact allWithin_seventh hle hmax (by norm_num) (by norm_num)
    · exact allWithin_nil

lemma commonSoundTimerFn_calls : (commonSoundTimerFn gP c).2 = (commonSoundBranch gP c).2 := by
  unfold commonSoundTimerFn
  dsimp only
  split <;> rfl

end

/-- What the reminder's copy of the duty keeps: it is never above the entry of
the volume, and positive as long as it is still to be counted down. -/
structure AlarmRemindControl.Counts (a : AlarmRemindControl) : Prop where
  nonneg : 0 ≤ a.duty
  le : a.duty ≤ soundDuty a.level
  pos : a.timer.pending = true → a.status = .start ∨ a.status = .decrease → 1 ≤ a.duty

/-- What a branch of the handler, called with the timer off its list, leaves:
the switch decides whether the timer is armed again. -/
structure AlarmRemindControl.Leaves (a : AlarmRemindControl) : Prop where
  idle : a.timer.pending = false
  nonneg : 0 ≤ a.duty
  le : a.duty ≤ soundDuty a.level
  pos : a.switch = true → a.status = .start ∨ a.status = .decrease → 1 ≤ a.duty

section

variable {gP : DevicePtr} {a : AlarmRemindControl}

lemma alarmRemindBranch_leaves (hidle : a.timer.pending = false) (hnonneg : 0 ≤ a.duty)
    (hle : a.duty ≤ soundDuty a.level)
    (hpos : a.status = .start ∨ a.status = .decrease → 1 ≤ a.duty) :
    AllWithin gP (soundDuty a.level) (alarmRemindBranch gP a).2 ∧
      (alarmRemindBranch gP a).1.Leaves := by
  have hmax := (soundDuty_bounds a.level).2
  have hsame : a.Leaves := ⟨hidle, hnonneg, hle, fun _ => hpos⟩
  cases hst : a.status with
  | none =>
    simp only [alarmRemindBranch, hst]
    exact ⟨allWithin_nil, hsame⟩
  | start =>
    simp only [alarmRemindBranch, hst]
    refine ⟨?_, hidle, hnonneg, hle, fun _ _ => hpos (.inl hst)⟩
    exact allWithin_cons hnonneg (by omega) hle (allWithin_switch (by simp))
  | decrease =>
    by_cases hc : a.cnt ≤ 0
    · have hone := hpos (.inr hst)
      have hdec : CInt.toInt (a.duty - 1) = a.duty - 1 :=
        CInt.toInt_of_lt (by omega) (by omega)
      simp only [alarmRemindBranch, hst, if_pos hc, hdec]
      refine ⟨allWithin_cons (by omega) (by omega) (by omega) allWithin_nil, hidle, ?_, ?_, ?_⟩
      · exact Int.sub_nonneg_of_le hone
      · exact le_trans (Int.sub_le_self _ (by norm_num)) hle
      · simp
    · simp only [alarmRemindBranch, hst, if_neg hc]
      exact ⟨allWithin_nil, hsame⟩
  | keep =>
    by_cases hc : a.cnt ≤ 0
    · simp only [alarmRemindBranch, hst, if_pos hc]
      refine ⟨allWithin_cons hnonneg (by omega) hle allWithin_nil, hidle, hnonneg, hle, ?_⟩
      simp
    · simp only [alarmRemindBranch, hst, if_neg hc]
      exact ⟨allWithin_nil, hsame⟩
  | finish =>
    by_cases hc : a.cnt ≤ 0
    · simp only [alarmRemindBranch, hst, if_pos hc]
      exact ⟨allWithin_switch (by simp), rfl, hnonneg, hle, nofun⟩
    · simp only [alarmRemindBranch, hst, if_neg hc]
      exact ⟨allWithin_nil, hsame⟩

lemma alarmRemind_tick (h : a.Counts) (hp : a.timer.pending = true) :
    AllWithin gP (soundDuty a.level) (alarmRemindTimerFn gP { a with timer := a.timer.detach }).2 ∧
      (alarmRemindTimerFn gP { a with timer := a.timer.detach }).1.Counts := by
  obtain ⟨hcalls, hleaves⟩ : AllWithin gP (soundDuty a.level)
        (alarmRemindBranch gP { a with timer := a.timer.detach }).2 ∧
      (alarmRemindBranch gP { a with timer := a.timer.detach }).1.Leaves :=
    alarmRemindBranch_leaves rfl h.nonneg h.le (h.pos hp)
  unfold alarmRemindTimerFn
  by_cases hs : (alarmRemindBranch gP { a with timer := a.timer.detach }).1.switch = true
  · simp only [if_pos hs]
    exact ⟨hcalls, hleaves.nonneg, hleaves.le, fun _ => hleaves.pos hs⟩
  · simp only [if_neg hs]
    refine ⟨hcalls, hleaves.nonneg, hleaves.le, ?_⟩
    intro hpend
    rw [hleaves.idle] at hpend
    cases hpend

end

def remindVolume (buf : List Char) : SoundLevel :=
  soundLevelOf ((simpleStrtoul buf).1 / 100000 % 256)

def Sound.volume (s : Sound) : SoundEvent → SoundLevel
  | .beepTick => s.beep.volume
  | .commonTick => s.common.level
  | .remindTick => s.remind.level
  | .alarmRemindSound _ buf => remindVolume buf
  | _ => .none

/-- The devices of the three sounds. -/
def Sound.sources (s : Sound) : List DevicePtr :=
  [s.beep.beepDevice, s.common.device, s.remind.device]

/-- Every duty that the step asks for, of a device of the sounds, is a percentage, and at most the
entry of the volume in use, which is an index of a level. -/
def Sound.dutiesInRange (s : Sound) (e : SoundEvent) : Prop :=
  (s.volume e).index ≤ SoundLevel.ten.index ∧
    ∃ duty, soundDutyTable[(s.volume e).index]? = some duty ∧
      ∀ s' cs, s.react e = some (s', cs) → ∀ p ∈ s'.sources, ∀ percent,
        .setDutyPercent p percent ∈ cs → 0 ≤ percent ∧ percent ≤ 100 ∧ percent ≤ duty

def Sound.remindsAloud (s : Sound) : SoundEvent → Prop
  | .alarmRemindSound _ buf => s.acceptsRemind → remindVolume buf ≠ .none
  | _ => True

/-- The device that is written to. -/
def SoundEvent.device : SoundEvent → DevicePtr
  | .setLevel dev _ | .alarmRemindSound dev _ | .commonSound dev _ | .setSoundLevel dev _
  | .setTimeInterval dev _ => some dev
  | _ => none

/-- A reminder has a volume, and the carrier is not written to. -/
def Sound.allows (s : Sound) (e : SoundEvent) : Prop := s.remindsAloud e ∧ e.device ≠ s.gP

instance (s : Sound) (e : SoundEvent) : Decidable (s.allows e) :=
  have : Decidable (s.remindsAloud e) :=
    match e with
    | .alarmRemindSound _ buf =>
      inferInstanceAs (Decidable (s.acceptsRemind → remindVolume buf ≠ .none))
    | .setLevel .. | .commonSound .. | .setSoundLevel .. | .setTimeInterval .. => isTrue trivial
    | .beepTick | .commonTick | .remindTick => isTrue trivial
  inferInstanceAs (Decidable (_ ∧ _))

lemma soundDuty_pos {v : SoundLevel} (h : v ≠ .none) : 1 ≤ soundDuty v := by
  cases v with
  | none => exact absurd rfl h
  | _ => decide

lemma pwmSetLevelStore_within (dev : ℕ) (buf : List Char) (s : Sound) (duty : ℤ) :
    AllWithin s.gP duty (pwmSetLevelStore dev buf s).2.1 := by
  have hclose (c : CommonSoundControl) : AllWithin s.gP duty (closeCommonTimer s.gP c).2 := by
    unfold closeCommonTimer
    split
    · exact allWithin_switch (by simp)
    · exact allWithin_nil
  have hraise (level : AlarmLevel) (t : Sound) (ht : t.gP = s.gP) :
      AllWithin s.gP duty (raiseLevel level t).2 := by
    unfold raiseLevel
    dsimp only
    split
    · rw [ht]
      refine allWithin_append (allWithin_append (hclose _) ?_) (allWithin_pwmChangeFreq _)
      exact allWithin_switch (by simp)
    · exact allWithin_nil
  unfold pwmSetLevelStore
  cases levelOfText buf with
  | none => exact allWithin_nil
  | some level =>
    cases level with
    | none =>
      dsimp only [clearLevel]
      split
      · split
        · exact allWithin_nil
        · exact allWithin_switch (by simp)
      · exact allWithin_nil
    | _ => exact hraise _ _ rfl

variable {s : Sound} {dev : ℕ} {buf : List Char}

lemma alarmRemindSoundStore_counts (h : s.remind.Counts)
    (hvol : s.acceptsRemind → remindVolume buf ≠ .none) :
    (alarmRemindSoundStore dev buf s).1.remind.Counts := by
  by_cases hacc : s.acceptsRemind
  · have hpos := soundDuty_pos (hvol hacc)
    have heq : (alarmRemindSoundStore dev buf s).1.remind = { s.remind with
          device := s.remind.device.or (some dev), level := remindVolume buf,
          duty := soundDuty (remindVolume buf), status := .start,
          timer := s.remind.timer.del.add } := by
      unfold Sound.acceptsRemind at hacc
      simp only [alarmRemindSoundStore, if_pos hacc, remindVolume]
    rw [heq]
    exact ⟨(soundDuty_bounds _).1, le_rfl, fun _ _ => hpos⟩
  · rw [alarmRemindSoundStore_refused hacc]
    exact ⟨h.nonneg, h.le, h.pos⟩

lemma reminder_step {s' : Sound} {e : SoundEvent} {cs : List Call} (h : s.remind.Counts)
    (haloud : s.remindsAloud e) (hstep : s.react e = some (s', cs)) :
    AllWithin s.gP (soundDuty (s.volume e)) cs ∧ s'.remind.Counts := by
  cases e with
  | setLevel dev buf =>
    cases hstep
    rw [(pwmSetLevelStore_others s dev buf).1]
    exact ⟨pwmSetLevelStore_within dev buf s _, h⟩
  | alarmRemindSound dev buf =>
    cases hstep
    refine ⟨?_, alarmRemindSoundStore_counts h haloud⟩
    unfold alarmRemindSoundStore
    dsimp only
    split
    · exact allWithin_append (allWithin_pwmChangeFreq _) (allWithin_switch (by simp))
    · exact allWithin_nil
  | commonSound dev buf =>
    cases hstep
    refine ⟨?_, ?_⟩
    · unfold commonSoundStore
      dsimp only
      split
      · exact allWithin_append (allWithin_pwmChangeFreq _) (allWithin_switch (by simp))
      · exact allWithin_nil
    by_cases hacc : s.acceptsCommon
    · rw [(commonSoundStore_accepted hacc dev buf).2.1]
      exact h
    · rw [commonSoundStore_refused hacc]
      exact h
  | setSoundLevel dev buf =>
    cases hstep
    exact ⟨allWithin_nil, h⟩
  | setTimeInterval dev buf =>
    cases hstep
    rw [(pwmSetTimeIntervalStore_others s dev buf).2]
    exact ⟨allWithin_nil, h⟩
  | beepTick =>
    simp only [Sound.react] at hstep
    split at hstep <;> cases hstep
    exact ⟨beepTimerFn_within s.gP { s.beep with beepTimer := s.beep.beepTimer.detach }, h⟩
  | commonTick =>
    simp only [Sound.react] at hstep
    split at hstep <;> cases hstep
    rw [commonSoundTimerFn_calls]
    exact ⟨commonSoundBranch_within s.gP { s.common with timer := s.common.timer.detach }, h⟩
  | remindTick =>
    simp only [Sound.react] at hstep
    split at hstep <;> cases hstep
    rename_i hp
    exact alarmRemind_tick h hp

lemma or_some (p : DevicePtr) (dev : ℕ) : p.or (some dev) = p ∨ p.or (some dev) = some dev := by
  cases p <;> simp

lemma commonSoundTimerFn_device (gP : DevicePtr) (c : CommonSoundControl) :
    (commonSoundTimerFn gP c).1.device = c.device := by
  unfold commonSoundTimerFn commonSoundBranch
  cases c.status <;> dsimp only <;> split_ifs <;> rfl

lemma alarmRemindTimerFn_device (gP : DevicePtr) (a : AlarmRemindControl) :
    (alarmRemindTimerFn gP a).1.device = a.device := by
  unfold alarmRemindTimerFn alarmRemindBranch
  cases a.status <;> dsimp only <;> split_ifs <;> rfl

/-- A sound gets its device from a write. -/
lemma react_sources {s' : Sound} {e : SoundEvent} {cs : List Call}
    (hstep : s.react e = some (s', cs)) :
    s'.gP = s.gP ∧ ∀ p ∈ s'.sources, p ∈ s.sources ∨ p = e.device := by
  cases e with
  | setLevel dev buf =>
    cases hstep
    have hdevice := or_some s.beep.beepDevice dev
    unfold pwmSetLevelStore
    cases levelOfText buf with
    | none =>
      simp only [Sound.sources, SoundEvent.device, BeepControl.claimDevice]
      grind
    | some level =>
      cases level <;> simp only [clearLevel, raiseLevel, closeCommonTimer, beepTimerInit,
        BeepControl.claimDevice, Sound.sources, SoundEvent.device, BeepControl.resetOthers] <;>
        split_ifs <;> grind
  | alarmRemindSound dev buf =>
    cases hstep
    have hdevice := or_some s.remind.device dev
    unfold alarmRemindSoundStore
    dsimp only [Sound.sources, SoundEvent.device]
    split_ifs <;> grind
  | commonSound dev buf =>
    cases hstep
    have hdevice := or_some s.common.device dev
    unfold commonSoundStore
    dsimp only [Sound.sources, SoundEvent.device]
    split_ifs <;> grind
  | setSoundLevel dev buf =>
    cases hstep
    unfold pwmSetSoundLevelStore
    dsimp only
    split <;> simp [Sound.sources, SoundEvent.device]
  | setTimeInterval dev buf =>
    cases hstep
    unfold pwmSetTimeIntervalStore
    dsimp only
    split_ifs
    · simp [Sound.sources, SoundEvent.device]
    · split <;> simp [Sound.sources, SoundEvent.device]
  | beepTick =>
    simp only [Sound.react] at hstep
    split at hstep <;> cases hstep
    refine ⟨rfl, fun p hp => .inl ?_⟩
    have hdevice : (alarmTick s.gP s.beep).1.beepDevice = s.beep.beepDevice :=
      (alarmTick_settings s.gP s.beep).device
    unfold alarmTick at hdevice
    simpa only [Sound.sources, hdevice] using hp
  | commonTick =>
    simp only [Sound.react] at hstep
    split at hstep <;> cases hstep
    refine ⟨rfl, fun p hp => .inl ?_⟩
    simpa only [Sound.sources, commonSoundTimerFn_device] using hp
  | remindTick =>
    simp only [Sound.react] at hstep
    split at hstep <;> cases hstep
    refine ⟨rfl, fun p hp => .inl ?_⟩
    simpa only [Sound.sources, alarmRemindTimerFn_device] using hp

/-- In every run whose reminders have a volume and whose sounds do not go to the carrier, each step
asks for duties between 0 and 100 only, none of them above the entry of the volume in use. -/
theorem duties_in_range (g : ℕ) (es : List SoundEvent)
    (h : (Sound.machine (some g)).Guarded Sound.allows (Sound.init (some g)) es) :
    (Sound.machine (some g)).Guarded Sound.dutiesInRange (Sound.init (some g)) es := by
  have hstep : ∀ {s s' : Sound} {e : SoundEvent} {cs : List Call}, s.react e = some (s', cs) →
      s.allows e → s.remind.Counts ∧ s.gP = some g ∧ s.gP ∉ s.sources →
        s'.gP = some g ∧ s'.gP ∉ s'.sources := by
    rintro s s' e cs hr hallows ⟨-, hg, hout⟩
    obtain ⟨hgP, hsources⟩ := react_sources hr
    refine ⟨hgP.trans hg, fun hin => ?_⟩
    rw [hgP] at hin
    exact (hsources _ hin).elim hout hallows.2.symm
  refine Machine.guarded_of_guarded
    (I := fun s => s.remind.Counts ∧ s.gP = some g ∧ s.gP ∉ s.sources) _ ?_ ?_
    ⟨⟨le_rfl, le_rfl, nofun⟩, rfl, by simp [Sound.sources, Sound.init]⟩ h
  · intro s e s' hs hallows hnext
    obtain ⟨cs, hr⟩ := step_eq_some.mp hnext
    exact ⟨(reminder_step hs.1 hallows.1 hr).2, hstep hr hallows hs⟩
  · intro s e s' hs hallows hnext
    refine ⟨SoundLevel.index_le _, _, soundDutyTable_index _, ?_⟩
    intro s'' cs hr p hp percent hcall
    refine (reminder_step hs.1 hallows.1 hr).1 _ hcall fun hcarrier => ?_
    rw [hcarrier, ← (react_sources hr).1] at hp
    exact (hstep hr hallows hs).2 hp

/-- A reminder of volume 10, up to its third step. -/
theorem duties_in_range_loud :
    (Sound.machine (some 1)).Guarded Sound.dutiesInRange (Sound.init (some 1))
      [.alarmRemindSound 0 "1000800".toList, .remindTick, .remindTick, .setLevel 0 "5".toList,
        .beepTick] := by
  apply duties_in_range
  decide +kernel

/-- A reminder of frequency 800 whose volume was left out. -/
theorem reminder_leaves_range : ∃ s, (Sound.machine (some 1)).exec (Sound.init (some 1))
        [.alarmRemindSound 0 "800".toList, .remindTick] = some s ∧
      s.calls .remindTick = [.setDutyPercent (some 0) (-1)] := by
  refine ⟨_, rfl, ?_⟩
  decide +kernel

end Am335x.Pwm
