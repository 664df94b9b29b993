import Am335xKernel.Drivers.Pwm.BeepCycle

/-!
# Which alarm request is in force

The switch `once_alarm_switch` is a gate: `pwm_set_level_store` acts on a
request only while it is off, that is, while no burst is being played. A request
that meets a closed gate still returns success and is forgotten.

The invariant behind both is `BeepInv`: the switch is on exactly while the level
in force is inside a burst, the other levels' statuses are at their start, and
the timer is pending exactly while there is a level.
-/

namespace Am335x.Pwm

open BeepControl Sound

def BeepControl.inBurst (b : BeepControl) : Bool :=
  match b.alarmLevel with
  | .none => false
  | .low => b.lowStatus.inBurst
  | .mid => b.midStatus.inBurst
  | .high => b.highStatus.inBurst

structure BeepInv (b : BeepControl) : Prop where
  once : b.onceAlarmSwitch = b.inBurst
  low : b.alarmLevel ≠ .low → b.lowStatus = .start
  mid : b.alarmLevel ≠ .mid → b.midStatus = .start
  high : b.alarmLevel ≠ .high → b.highStatus = .start
  pending : b.beepTimer.pending = true ↔ b.alarmLevel ≠ .none
  master : b.alarmLevel ≠ .none → b.masterAlarmSwitch = true

lemma beepInv_init (gP : DevicePtr) : BeepInv (Sound.init gP).beep := by
  constructor <;> simp [init, inBurst, TimerList.zero]

variable {b : BeepControl} {s : Sound} {level : AlarmLevel} {buf : List Char} {e : SoundEvent}

lemma beepTimerFn_inv (gP : DevicePtr) (h : BeepInv b) :
    BeepInv (beepTimerFn gP { b with beepTimer := b.beepTimer.detach }).1 := by
  have honce := h.once
  have hlow := h.low
  have hmid := h.mid
  have hhigh := h.high
  have hmaster := h.master
  cases hl : b.alarmLevel with
  | none =>
    simp only [inBurst, hl] at honce hlow hmid hhigh
    simp only [beepTimerFn]
    exact ⟨honce, hlow, hmid, hhigh, by simp, by simp⟩
  | low =>
    simp only [inBurst, hl] at honce hmid hhigh hmaster
    simp only [beepTimerFn]
    exact ⟨(lowTick_isTick _ _).once_eq_inBurst honce, by simp, hmid, hhigh, by simp, hmaster⟩
  | mid =>
    simp only [inBurst, hl] at honce hlow hhigh hmaster
    simp only [beepTimerFn]
    exact ⟨(midTick_isTick _ _).once_eq_inBurst honce, hlow, by simp, hhigh, by simp, hmaster⟩
  | high =>
    simp only [inBurst, hl] at honce hlow hmid hmaster
    simp only [beepTimerFn]
    exact ⟨(highTick_isTick _ _).once_eq_inBurst honce, hlow, hmid, by simp, by simp, hmaster⟩

lemma raiseLevel_open (hlevel : level ≠ .none) (h : BeepInv s.beep)
    (hoff : s.beep.onceAlarmSwitch = false) :
    BeepInv (raiseLevel level s).1.beep ∧ (raiseLevel level s).1.beep.alarmLevel = level := by
  by_cases hl : s.beep.alarmLevel = level
  · have hno : ¬ (s.beep.alarmLevel ≠ level ∧ s.beep.onceAlarmSwitch = false) :=
      fun hc => hc.1 hl
    simp only [raiseLevel, if_neg hno]
    exact ⟨⟨h.once, h.low, h.mid, h.high, h.pending, fun _ => rfl⟩, hl⟩
  · have hyes : s.beep.alarmLevel ≠ level ∧ s.beep.onceAlarmSwitch = false := ⟨hl, hoff⟩
    simp only [raiseLevel, if_pos hyes, beepTimerInit]
    refine ⟨?_, trivial⟩
    cases level with
    | none => exact absurd rfl hlevel
    | low =>
      have hst := h.low hl
      constructor <;> simp [resetOthers, inBurst, hoff, hst, Status.inBurst]
    | mid =>
      have hst := h.mid hl
      constructor <;> simp [resetOthers, inBurst, hoff, hst, Status.inBurst]
    | high =>
      have hst := h.high hl
      constructor <;> simp [resetOthers, inBurst, hoff, hst, Status.inBurst]

lemma clearLevel_open (h : BeepInv s.beep) (hoff : s.beep.onceAlarmSwitch = false) :
    BeepInv (clearLevel s).1.beep ∧ (clearLevel s).1.beep.alarmLevel = .none := by
  by_cases hl : s.beep.alarmLevel = .none
  · have hno : ¬ (s.beep.alarmLevel ≠ .none ∧ s.beep.onceAlarmSwitch = false) :=
      fun hc => hc.1 hl
    simp only [clearLevel, if_neg hno]
    exact ⟨h, hl⟩
  · have hyes : s.beep.alarmLevel ≠ .none ∧ s.beep.onceAlarmSwitch = false := ⟨hl, hoff⟩
    simp only [clearLevel, if_pos hyes]
    refine ⟨?_, trivial⟩
    constructor <;> simp [resetOthers, inBurst, hoff]

lemma clearLevel_closed (hon : s.beep.onceAlarmSwitch = true) : clearLevel s = (s, []) := by
  have hno : ¬ (s.beep.alarmLevel ≠ .none ∧ s.beep.onceAlarmSwitch = false) := by
    rw [hon]
    simp
  simp only [clearLevel, if_neg hno]

lemma claimDevice_inv (h : BeepInv b) (dev : ℕ) : BeepInv (b.claimDevice dev) :=
  ⟨h.once, h.low, h.mid, h.high, h.pending, h.master⟩

lemma pwmSetLevelStore_open (h : BeepInv s.beep) (hoff : s.beep.onceAlarmSwitch = false)
    (dev : ℕ) (hbuf : levelOfText buf = some level) : BeepInv (pwmSetLevelStore dev buf s).1.beep ∧
      (pwmSetLevelStore dev buf s).1.beep.alarmLevel = level := by
  have hinv := claimDevice_inv h dev
  simp only [pwmSetLevelStore, hbuf]
  cases level with
  | none => exact clearLevel_open (s := { s with beep := s.beep.claimDevice dev }) hinv hoff
  | _ =>
    exact raiseLevel_open (by simp) (s := { s with beep := s.beep.claimDevice dev })
      hinv hoff

lemma pwmSetLevelStore_closed (h : BeepInv s.beep) (hon : s.beep.onceAlarmSwitch = true)
    (dev : ℕ) (buf : List Char) : BeepInv (pwmSetLevelStore dev buf s).1.beep ∧
      (pwmSetLevelStore dev buf s).1.beep.alarmLevel = s.beep.alarmLevel := by
  have hinv := claimDevice_inv h dev
  have hon' : ({ s with beep := s.beep.claimDevice dev } : Sound).beep.onceAlarmSwitch = true :=
    hon
  unfold pwmSetLevelStore
  cases hbuf : levelOfText buf with
  | none => exact ⟨hinv, rfl⟩
  | some level =>
    cases level with
    | none =>
      simp only [clearLevel_closed hon']
      exact ⟨hinv, rfl⟩
    | _ =>
      have hno : ∀ level, ¬ ((s.beep.claimDevice dev).alarmLevel ≠ level ∧
          (s.beep.claimDevice dev).onceAlarmSwitch = false) := by
        rw [hon']
        simp
      simp only [raiseLevel, if_neg (hno _)]
      exact ⟨⟨hinv.once, hinv.low, hinv.mid, hinv.high, hinv.pending, fun _ => rfl⟩, rfl⟩

def SoundEvent.request : SoundEvent → Option AlarmLevel
  | .setLevel _ buf => levelOfText buf
  | _ => none

def Sound.beginsBurst (s : Sound) (e : SoundEvent) : Prop :=
  s.beep.onceAlarmSwitch = false ∧
    ∃ r, s.react e = some r ∧ r.1.beep.onceAlarmSwitch = true

variable {gP : DevicePtr} {s' : Sound}

lemma step_eq_some : (Sound.machine gP).step s e = some s' ↔ ∃ cs, s.react e = some (s', cs) := by
  simp [machine]

variable {cs : List Call}

/-- Writes and ticks of the other two sources do not touch the alarm, and the
alarm's two other attributes set its device, volumes and intervals only. -/
lemma react_other (hstep : s.react e = some (s', cs)) (hset : ∀ dev buf, e ≠ .setLevel dev buf)
    (htick : e ≠ .beepTick) : ∃ device control low mid high, s'.beep =
      { s.beep with beepDevice := device, timerControl := control, lowVolumeControl := low,
                    midVolumeControl := mid, highVolumeControl := high } := by
  cases e with
  | setLevel dev buf => exact absurd rfl (hset dev buf)
  | beepTick => exact absurd rfl htick
  | alarmRemindSound dev buf =>
    cases hstep
    simp only [alarmRemindSoundStore]
    split <;> exact ⟨_, _, _, _, _, rfl⟩
  | commonSound dev buf =>
    cases hstep
    simp only [commonSoundStore]
    split <;> exact ⟨_, _, _, _, _, rfl⟩
  | setSoundLevel dev buf =>
    cases hstep
    simp only [pwmSetSoundLevelStore]
    split <;> exact ⟨_, _, _, _, _, rfl⟩
  | setTimeInterval dev buf =>
    cases hstep
    simp only [pwmSetTimeIntervalStore]
    split
    · exact ⟨_, _, _, _, _, rfl⟩
    · split <;> exact ⟨_, _, _, _, _, rfl⟩
  | _ =>
    simp only [react] at hstep
    split at hstep <;> cases hstep
    exact ⟨_, _, _, _, _, rfl⟩

lemma react_alarm (h : BeepInv s.beep) (hstep : s.react e = some (s', cs)) : BeepInv s'.beep ∧
      s'.beep.alarmLevel = if s.beep.onceAlarmSwitch then s.beep.alarmLevel
        else e.request.getD s.beep.alarmLevel := by
  cases e with
  | setLevel dev buf =>
    cases hstep
    cases hon : s.beep.onceAlarmSwitch with
    | true => simpa using pwmSetLevelStore_closed h hon dev buf
    | false =>
      cases hbuf : levelOfText buf with
      | none =>
        simp only [SoundEvent.request, pwmSetLevelStore, hbuf]
        exact ⟨claimDevice_inv h dev, rfl⟩
      | some level =>
        simpa [SoundEvent.request, hbuf] using pwmSetLevelStore_open h hon dev hbuf
  | beepTick =>
    simp only [react] at hstep
    split at hstep <;> cases hstep
    refine ⟨beepTimerFn_inv s.gP h, (alarmTick_settings s.gP s.beep).level.trans ?_⟩
    simp [SoundEvent.request]
  | _ =>
    obtain ⟨_, _, _, _, _, hbeep⟩ := react_other hstep (by simp) (by simp)
    rw [hbeep]
    exact ⟨⟨h.once, h.low, h.mid, h.high, h.pending, h.master⟩, by simp [SoundEvent.request]⟩

lemma beepInv_run {es : List SoundEvent}
    (hrun : (Sound.machine gP).exec (Sound.init gP) es = some s) : BeepInv s.beep := by
  refine Machine.Always.last _ (P := fun s => BeepInv s.beep) ?_ hrun
  refine Machine.always_of_step _ (I := fun s : Sound => BeepInv s.beep) ?_ (beepInv_init gP) es
  intro s e s' hs hstep
  obtain ⟨cs, hr⟩ := step_eq_some.mp hstep
  exact (react_alarm hs hr).1

lemma BeepControl.resetOthers_once (b : BeepControl) (l : AlarmLevel) :
    (b.resetOthers l).onceAlarmSwitch = b.onceAlarmSwitch := by
  cases l <;> rfl

lemma pwmSetLevelStore_once (s : Sound) (dev : ℕ) (buf : List Char) :
    (pwmSetLevelStore dev buf s).1.beep.onceAlarmSwitch = s.beep.onceAlarmSwitch := by
  simp only [pwmSetLevelStore]
  split
  · unfold clearLevel
    split
    · exact resetOthers_once _ _
    · rfl
  · simp only [raiseLevel]
    split
    · simp only [beepTimerInit, resetOthers_once]
      rfl
    · rfl
  · rfl

lemma react_once (hstep : s.react e = some (s', cs)) (he : e ≠ .beepTick) :
    s'.beep.onceAlarmSwitch = s.beep.onceAlarmSwitch := by
  cases e with
  | beepTick => exact absurd rfl he
  | setLevel dev buf =>
    cases hstep
    exact pwmSetLevelStore_once s dev buf
  | _ =>
    obtain ⟨_, _, _, _, _, hbeep⟩ := react_other hstep (by simp) (by simp)
    rw [hbeep]

lemma level_of_beginsBurst (h : BeepInv s.beep) (hb : s.beginsBurst e) :
    s.beep.alarmLevel ≠ .none := by
  obtain ⟨hoff, ⟨s', cs⟩, hstep, hon⟩ := hb
  by_cases he : e = .beepTick
  · subst he
    simp only [react] at hstep
    split at hstep
    · rename_i hp
      exact h.pending.mp hp
    · cases hstep
  · rw [react_once hstep he, hoff] at hon
    cases hon

lemma react_beepTick (hp : s.beep.beepTimer.pending = true) :
    ∃ cs, s.react .beepTick = some ({ s with beep := (alarmTick s.gP s.beep).1 }, cs) := by
  simp only [react, hp, if_true]
  exact ⟨_, rfl⟩

/-- `ι` is a machine's state with the sounds `s` in it. -/
lemma exec_ticks {σ ε : Type} (M : Machine σ ε) {e : ε} (ι : Sound → σ)
    (hstep : ∀ s, s.beep.beepTimer.pending = true →
      M.step (ι s) e = some (ι { s with beep := (alarmTick s.gP s.beep).1 })) (k : ℕ) :
    ∀ s : Sound, s.beep.beepTimer.pending = true → s.beep.alarmLevel ≠ .none →
      M.exec (ι s) (List.replicate k e) =
        some (ι { s with beep := (alarmTick s.gP).after s.beep k }) := by
  induction k with
  | zero => intro s _ _; rfl
  | succ k ih =>
    intro s hp hl
    rw [List.replicate_succ, Machine.exec_cons_of_step _ (hstep s hp),
      ih { s with beep := (alarmTick s.gP s.beep).1 } (alarmTick_pending hl)
        (by rw [(alarmTick_settings s.gP s.beep).level]; exact hl)]
    rfl

/-- Ticks of the alarm are ticks of the wave that its level plays. -/
lemma IsPart.finishes {n : ℕ} [NeZero n] {sh : Shape n} {level : AlarmLevel}
    {wave : BeepControl → Wave n} {tick : Outputs → ℕ → Wave n → Wave n × List Call}
    (h : IsPart level wave tick) (htick : ∀ o interval, IsTick sh o interval (tick o interval))
    (gP : DevicePtr) (honce : ∀ c, (wave c).once = c.onceAlarmSwitch)
    (hlevel : b.alarmLevel = level) (hr : (wave b).status ≠ .rest) :
    ∃ k, ((alarmTick gP).after b k).onceAlarmSwitch = false := by
  have hview : ∀ k, wave ((alarmTick gP).after b k) =
      (fun v => (tick (b.outputs gP) b.interval v).1)^[k] (wave b) := by
    intro k
    induction k with
    | zero => rfl
    | succ k ih =>
      have hsame := after_settings gP b k
      rw [Clockwork.after_add, Function.iterate_succ_apply', ← ih, ← hsame.outputs_eq,
        ← hsame.interval_eq]
      exact h.wave gP _ (hsame.level.trans hlevel)
  obtain ⟨k, _, hk⟩ := (htick (b.outputs gP) b.interval).finishes hr
  exact ⟨k, by rw [← honce, hview k, hk]⟩

def BeepControl.notResting (b : BeepControl) : Prop :=
  match b.alarmLevel with
  | .none => True
  | .low => b.lowStatus ≠ .rest
  | .mid => b.midStatus ≠ .rest
  | .high => b.highStatus ≠ .rest

/-- **Every burst of the alarm ends.** -/
lemma alarm_finishes (gP : DevicePtr) (hl : b.alarmLevel ≠ .none) (hr : b.notResting) :
    ∃ k, ((alarmTick gP).after b k).onceAlarmSwitch = false := by
  unfold notResting at hr
  cases hlevel : b.alarmLevel with
  | none => exact absurd hlevel hl
  | low =>
    rw [hlevel] at hr
    exact lowTick_isPart.finishes lowTick_isTick gP (fun _ => rfl) hlevel hr
  | mid =>
    rw [hlevel] at hr
    exact midTick_isPart.finishes midTick_isTick gP (fun _ => rfl) hlevel hr
  | high =>
    rw [hlevel] at hr
    exact highTick_isPart.finishes highTick_isTick gP (fun _ => rfl) hlevel hr

lemma notResting_of_inBurst (h : b.inBurst = true) : b.alarmLevel ≠ .none ∧ b.notResting := by
  unfold inBurst at h
  unfold notResting
  cases hl : b.alarmLevel with
  | none => simp [hl] at h
  | _ =>
    simp only [hl, Status.inBurst_iff] at h
    exact ⟨by simp, h.2⟩

/-- A request for `level` that is written in `s` and is the last one takes
effect: once no burst is in progress the level is in force, and every burst
that begins from then on is of that level (so none, after `"0"`). -/
def RequestKept (gP : DevicePtr) (s : Sound) (dev : ℕ) (buf : List Char)
    (level : AlarmLevel) : Prop :=
  ∀ post : List SoundEvent, (∀ e ∈ post, e.request = none) →
    (Sound.machine gP).Always
      (fun u => u.beep.onceAlarmSwitch = false → u.beep.alarmLevel = level)
      (pwmSetLevelStore dev buf s).1 post ∧
    (Sound.machine gP).Guarded
      (fun u e => u.beginsBurst e → u.beep.alarmLevel = level ∧ level ≠ .none)
      (pwmSetLevelStore dev buf s).1 post

lemma always_level (h : BeepInv s.beep) (hl : s.beep.alarmLevel = level) {post : List SoundEvent}
    (hlater : (Sound.machine gP).Guarded
      (fun u e => e.request ≠ none → u.beep.onceAlarmSwitch = true) s post) :
    (Sound.machine gP).Always (fun u => BeepInv u.beep ∧ u.beep.alarmLevel = level) s post := by
  refine Machine.always_of_guarded _ ?_ ⟨h, hl⟩ hlater
  rintro u e u' ⟨hu, hul⟩ hg hstep
  obtain ⟨cs, hr⟩ := step_eq_some.mp hstep
  obtain ⟨hu', hul'⟩ := react_alarm hu hr
  refine ⟨hu', ?_⟩
  rw [hul']
  cases hreq : e.request with
  | none => simpa using hul
  | some l =>
    have hon : u.beep.onceAlarmSwitch = true := hg (by simp [hreq])
    simpa [hon] using hul

/-- With a carrier, every write of `"0"`, `"1"`, `"3"` or `"5"` returns success; it is kept exactly
if it is made while no burst is in progress or names the level that is in force already. During a
burst the level stays. -/
theorem request_kept_iff_gate {g : ℕ} {pre : List SoundEvent} {s : Sound}
    (hpre : (Sound.machine (some g)).exec (Sound.init (some g)) pre = some s) (dev : ℕ)
    {buf : List Char} {level : AlarmLevel} (hbuf : levelOfText buf = some level) :
    (pwmSetLevelStore dev buf s).2.2 = buf.length ∧ (RequestKept (some g) s dev buf level ↔
        s.beep.onceAlarmSwitch = false ∨ s.beep.alarmLevel = level) ∧
      (s.beep.onceAlarmSwitch = true → ∀ post : List SoundEvent, (∀ e ∈ post, e.request = none) →
        (Sound.machine (some g)).Always (fun u => u.beep.alarmLevel = s.beep.alarmLevel)
          (pwmSetLevelStore dev buf s).1 post) := by
  have hinv := beepInv_run hpre
  have hlater : ∀ {post : List SoundEvent}, (∀ e ∈ post, e.request = none) →
      (Sound.machine (some g)).Guarded
        (fun u e => e.request ≠ none → u.beep.onceAlarmSwitch = true)
        (pwmSetLevelStore dev buf s).1 post := by
    intro post hpost es e fs t t' heq _ _ hreq
    exact absurd (hpost e (by simp [heq])) hreq
  refine ⟨?_, ⟨?_, ?_⟩, ?_⟩
  · simp only [pwmSetLevelStore, hbuf]
    cases level <;> rfl
  · intro hkept
    by_contra hgate
    rw [not_or, Bool.not_eq_false] at hgate
    obtain ⟨hon, hne⟩ := hgate
    obtain ⟨hinv', hlevel'⟩ := pwmSetLevelStore_closed hinv hon dev buf
    have hon' := pwmSetLevelStore_once s dev buf
    rw [hon] at hon'
    -- the burst that hides the request ends, and the old level is still in force
    have hburst : (pwmSetLevelStore dev buf s).1.beep.inBurst = true := by rw [← hinv'.once, hon']
    obtain ⟨hl, hr⟩ := notResting_of_inBurst hburst
    obtain ⟨k, hoff⟩ := alarm_finishes (pwmSetLevelStore dev buf s).1.gP hl hr
    have hrun := exec_ticks (Sound.machine (some g)) id
      (fun s hp => step_eq_some.mpr (react_beepTick hp)) k _ (hinv'.pending.mpr hl) hl
    have hul := (after_settings (pwmSetLevelStore dev buf s).1.gP
      (pwmSetLevelStore dev buf s).1.beep k).level
    have hticks : ∀ e ∈ List.replicate k SoundEvent.beepTick, e.request = none := by
      intro e he
      rw [List.eq_of_mem_replicate he]
      rfl
    have hu := Machine.Always.last _ (hkept _ hticks).1 hrun hoff
    exact hne (hlevel'.symm.trans (hul.symm.trans hu))
  · intro hgate post hpost
    obtain ⟨hinv', hlevel'⟩ : BeepInv (pwmSetLevelStore dev buf s).1.beep ∧
        (pwmSetLevelStore dev buf s).1.beep.alarmLevel = level := by
      cases hon : s.beep.onceAlarmSwitch with
      | false => exact pwmSetLevelStore_open hinv hon dev hbuf
      | true =>
        have hl : s.beep.alarmLevel = level := by simpa [hon] using hgate
        exact hl ▸ pwmSetLevelStore_closed hinv hon dev buf
    have hkeep := always_level hinv' hlevel' (hlater hpost)
    refine ⟨Machine.Always.mono _ (fun u hu _ => hu.2) hkeep, ?_⟩
    refine Machine.Always.guarded _ ?_ hkeep
    rintro u e u' ⟨hu, hul⟩ _ hb
    exact ⟨hul, hul ▸ level_of_beginsBurst hu hb⟩
  · intro hon post hpost
    obtain ⟨hinv', hlevel'⟩ := pwmSetLevelStore_closed hinv hon dev buf
    exact Machine.Always.mono _ (fun u hu => hu.2) (always_level hinv' hlevel' (hlater hpost))

theorem request_kept_before_burst : ∃ s, (Sound.machine (some 1)).exec (Sound.init (some 1))
        [.setLevel 0 "1".toList] = some s ∧ RequestKept (some 1) s 0 "5".toList .high := by
  have hrun : (Sound.machine (some 1)).exec (Sound.init (some 1))
      [.setLevel 0 "1".toList] = some _ := rfl
  refine ⟨_, hrun, (request_kept_iff_gate hrun 0 ?_).2.1.mpr ?_⟩
  · decide
  · decide +kernel

/-- The alarm plays a low burst when `"5"` is written. The write returns success, and when the burst
is over the low level is still in force. -/
theorem request_during_burst_is_forgotten :
    ∃ s t u, (Sound.machine (some 1)).exec (Sound.init (some 1))
        [.setLevel 0 "1".toList, .beepTick] = some s ∧ s.beep.onceAlarmSwitch = true ∧
      (pwmSetLevelStore 0 "5".toList s).2.2 = 1 ∧
      (Sound.machine (some 1)).step s (.setLevel 0 "5".toList) = some t ∧
      (Sound.machine (some 1)).exec t (List.replicate 21 .beepTick) = some u ∧
      u.beep.onceAlarmSwitch = false ∧ u.beep.alarmLevel = .low := by
  refine ⟨_, _, _, rfl, ?_, ?_, rfl, rfl, ?_, ?_⟩ <;> decide +kernel

end Am335x.Pwm
