import Am335xKernel.Drivers.Pwm.AlarmRequests

/-!
# The level store against its timer

`pwm_set_level_store` takes no lock, so the handler of the alarm's timer may run
between any two of its statements. Here the store is the list of its statements,
and the machine keeps the statements that the write in progress has still to
execute. (The system is uniprocessor and not preemptive: a handler call is one
step, and one write is in progress at a time.)

Executed without interruption the statements are the store. A burst that begins
after `"0"` has tested the switch and before it deletes the timer leaves the
switch on for good. Every other cut is harmless.
-/

namespace Am335x.Pwm

open List BeepControl

inductive StoreStmt where
  | claimDevice (dev : ℕ)
  | masterOn
  | ifRaise (level : AlarmLevel)
  | closeCommon
  | delTimer
  | resetLow
  | resetMid
  | resetHigh
  | setLevel (level : AlarmLevel)
  | stopBeep
  | stopCarrier
  | timerInit
  | ifClear
  | masterOff
  | ifCommonOff
  deriving DecidableEq

/-- One statement: the new state, the calls made, and whether the store goes
on to its next statement (an `if` that fails skips the rest of its body, which
is the rest of the store). -/
def StoreStmt.run (s : Sound) : StoreStmt → Sound × List Call × Bool
  | .claimDevice dev => ({ s with beep := s.beep.claimDevice dev }, [], true)
  | .masterOn => ({ s with beep := { s.beep with masterAlarmSwitch := true } }, [], true)
  | .ifRaise level =>
    (s, [], decide (s.beep.alarmLevel ≠ level ∧ s.beep.onceAlarmSwitch = false))
  | .closeCommon =>
    let c := closeCommonTimer s.gP s.common
    ({ s with common := c.1 }, c.2, true)
  | .delTimer => ({ s with beep := { s.beep with beepTimer := s.beep.beepTimer.del } }, [], true)
  | .resetLow => ({ s with beep := { s.beep with lowStatus := .start } }, [], true)
  | .resetMid => ({ s with beep := { s.beep with midStatus := .start } }, [], true)
  | .resetHigh => ({ s with beep := { s.beep with highStatus := .start } }, [], true)
  | .setLevel level => ({ s with beep := { s.beep with alarmLevel := level } }, [], true)
  | .stopBeep => (s, [.stop s.beep.beepDevice], true)
  | .stopCarrier => (s, [.stop s.gP], true)
  | .timerInit => let r := beepTimerInit s.gP s.beep; ({ s with beep := r.1 }, r.2, true)
  | .ifClear =>
    (s, [], decide (s.beep.alarmLevel ≠ .none ∧ s.beep.onceAlarmSwitch = false))
  | .masterOff => ({ s with beep := { s.beep with masterAlarmSwitch := false } }, [], true)
  | .ifCommonOff => (s, [], decide (s.common.switch = false))

def runStmts : List StoreStmt → Sound → Sound × List Call
  | [], s => (s, [])
  | st :: rest, s =>
    let r := st.run s
    if r.2.2 then
      let r' := runStmts rest r.1
      (r'.1, r.2.1 ++ r'.2)
    else (r.1, r.2.1)

def resetStmts : AlarmLevel → List StoreStmt
  | .low => [.resetHigh, .resetMid]
  | .mid => [.resetHigh, .resetLow]
  | .high => [.resetLow, .resetMid]
  | .none => [.resetLow, .resetMid, .resetHigh]

/-- What follows `del_timer_sync` in the branches `"1"`, `"3"` and `"5"`. -/
def raiseTail (level : AlarmLevel) : List StoreStmt :=
  resetStmts level ++ [.setLevel level, .stopBeep, .stopCarrier, .timerInit]

/-- What follows `del_timer_sync` in the branch `"0"`. -/
def clearTail : List StoreStmt :=
  resetStmts .none ++ [.setLevel .none, .masterOff, .ifCommonOff, .stopBeep, .stopCarrier]

def raiseProgram (level : AlarmLevel) : List StoreStmt :=
  .masterOn :: .ifRaise level :: .closeCommon :: .delTimer :: raiseTail level

def clearProgram : List StoreStmt := .ifClear :: .delTimer :: clearTail

def branchProgram (buf : List Char) : List StoreStmt :=
  match levelOfText buf with
  | some .none => clearProgram
  | some level => raiseProgram level
  | none => []

def levelProgram (dev : ℕ) (buf : List Char) : List StoreStmt :=
  .claimDevice dev :: branchProgram buf

variable {s : Sound} {rest : List StoreStmt} {st : StoreStmt} {level : AlarmLevel}

lemma runStmts_cons_true (h : (st.run s).2.2 = true) : runStmts (st :: rest) s =
      ((runStmts rest (st.run s).1).1, (st.run s).2.1 ++ (runStmts rest (st.run s).1).2) := by
  simp [runStmts, h]

lemma runStmts_cons_false (h : (st.run s).2.2 = false) :
    runStmts (st :: rest) s = ((st.run s).1, (st.run s).2.1) := by
  simp [runStmts, h]

open StoreStmt

lemma runStmts_raiseProgram (hlevel : level ≠ .none) (s : Sound) :
    runStmts (raiseProgram level) s = raiseLevel level s := by
  by_cases h : s.beep.alarmLevel ≠ level ∧ s.beep.onceAlarmSwitch = false
  · cases level with
    | none => exact absurd rfl hlevel
    | _ =>
      simp [raiseProgram, raiseTail, resetStmts, runStmts, run, raiseLevel, h,
        beepTimerInit, resetOthers]
  · simp only [raiseProgram, runStmts, run, raiseLevel, if_neg h]
    simp [h]

lemma runStmts_clearProgram (s : Sound) : runStmts clearProgram s = clearLevel s := by
  by_cases h : s.beep.alarmLevel ≠ .none ∧ s.beep.onceAlarmSwitch = false
  · cases hc : s.common.switch <;>
      simp [clearProgram, clearTail, resetStmts, runStmts, run, clearLevel, h, hc, resetOthers]
  · simp only [clearProgram, runStmts, run, clearLevel, if_neg h]
    simp [h]

/-- **The statements make up the store.** -/
lemma runStmts_levelProgram (dev : ℕ) (buf : List Char) (s : Sound) :
    runStmts (levelProgram dev buf) s =
      ((pwmSetLevelStore dev buf s).1, (pwmSetLevelStore dev buf s).2.1) := by
  rw [levelProgram, runStmts_cons_true rfl]
  simp only [run, nil_append, branchProgram, pwmSetLevelStore]
  cases hbuf : levelOfText buf with
  | none => rfl
  | some level =>
    cases level with
    | none => simp only [runStmts_clearProgram]
    | _ => simp only [runStmts_raiseProgram, ne_eq, reduceCtorEq, not_false_eq_true]

/-- The sound machine together with the statements of the write in progress;
`[]` while there is none. -/
structure Race where
  sound : Sound
  rest : List StoreStmt
  deriving DecidableEq

inductive RaceEvent where
  | write (dev : ℕ) (buf : List Char)
  | stmt
  | beepTick
  deriving DecidableEq

def Race.step (r : Race) : RaceEvent → Option Race
  | .write dev buf =>
    match r.rest with
    | [] => some { r with rest := levelProgram dev buf }
    | _ :: _ => none
  | .stmt =>
    match r.rest with
    | [] => none
    | st :: rest =>
      some { sound := (st.run r.sound).1, rest := if (st.run r.sound).2.2 then rest else [] }
  | .beepTick =>
    (r.sound.react .beepTick).map fun q => { r with sound := q.1 }

def Race.init (gP : DevicePtr) (common : CommonSoundControl) (remind : AlarmRemindControl) :
    Race where
  sound := { Sound.init gP with common := common, remind := remind }
  rest := []

def Race.machine (gP : DevicePtr) (common : CommonSoundControl)
    (remind : AlarmRemindControl) : Machine Race RaceEvent where
  init := Race.init gP common remind
  step := Race.step

/-- No burst begins while a write of `"0"` stands between its test of the
switch and its `del_timer_sync`. -/
def Race.sparesClear (r : Race) (e : RaceEvent) : Prop :=
  e = .beepTick → r.rest = .delTimer :: clearTail → ¬ r.sound.beep.AtStart

instance (r : Race) (e : RaceEvent) : Decidable (r.sparesClear e) :=
  inferInstanceAs (Decidable (_ → _ → _))

/-- What holds of the control block while its timer is on duty: the switch is
on only for a level that plays (or is about to begin) a burst. -/
structure Live (b : BeepControl) : Prop where
  once : b.onceAlarmSwitch = true → b.alarmLevel ≠ .none ∧ b.notResting
  low : b.alarmLevel ≠ .low → b.lowStatus = .start
  mid : b.alarmLevel ≠ .mid → b.midStatus = .start
  high : b.alarmLevel ≠ .high → b.highStatus = .start
  pending : b.beepTimer.pending = true ↔ b.alarmLevel ≠ .none

inductive OnDuty (b : BeepControl) : List StoreStmt → Prop
  | idle : OnDuty b []
  | claim (dev : ℕ) (buf : List Char) : OnDuty b (levelProgram dev buf)
  | master (level : AlarmLevel) (hn : level ≠ .none) : OnDuty b (raiseProgram level)
  | testRaise (level : AlarmLevel) (hn : level ≠ .none) :
      OnDuty b (.ifRaise level :: .closeCommon :: .delTimer :: raiseTail level)
  | close (level : AlarmLevel) (hn : level ≠ .none) (hne : b.alarmLevel ≠ level) :
      OnDuty b (.closeCommon :: .delTimer :: raiseTail level)
  | delRaise (level : AlarmLevel) (hn : level ≠ .none) (hne : b.alarmLevel ≠ level) :
      OnDuty b (.delTimer :: raiseTail level)
  | testClear : OnDuty b clearProgram
  | delClear (hoff : b.onceAlarmSwitch = false) : OnDuty b (.delTimer :: clearTail)

/-- Off duty, the timer is not pending, and the statements that are left put
the control block in order; a `timer_init` among them is the last. -/
structure OffDuty (s : Sound) (rest : List StoreStmt) : Prop where
  pending : s.beep.beepTimer.pending = false
  live : Live (runStmts rest s).1.beep
  initLast : .timerInit ∉ rest.dropLast

def RaceInv (r : Race) : Prop :=
  Live r.sound.beep ∧ OnDuty r.sound.beep r.rest ∨ OffDuty r.sound r.rest

lemma raceInv_idle : RaceInv ⟨s, []⟩ ↔ Live s.beep := by
  constructor
  · rintro (⟨h, _⟩ | h)
    · exact h
    · exact h.live
  · intro h
    exact .inl ⟨h, .idle⟩

/-! ### The handler -/

variable {interval n : ℕ} {o : Outputs} {f : Wave n → Wave n × List Call} {sh : Shape n}
  {w : Wave n}

lemma IsTick.once_rest [NeZero n]
    (hf : IsTick sh o interval f) (h : w.once = true → w.status ≠ .rest) :
    (f w).1.once = true → (f w).1.status ≠ .rest := by
  intro hon hrest
  by_cases hst : w.status = .rest
  · rw [hf.rest_once hst] at hon
    exact h hon hst
  · rw [hf.once_of_rest hst hrest] at hon
    cases hon

lemma IsTick.once_of_ne_start [NeZero n]
    (hf : IsTick sh o interval f) (hst : w.status ≠ .start) (hoff : w.once = false)
    : (f w).1.once = false := by
  cases hs : w.status with
  | rest => rw [hf.rest_once hs, hoff]
  | pulse i ph =>
    rw [hf.pulse hs]
    have hout := sh.pulseBranch_outcome o interval i ph w
    generalize (sh.pulseBranch o interval i ph w).1 = r at hout ⊢
    simp only [Wave.dec_once]
    cases hout with
    | begin hi hph => exact absurd (hs.trans (Status.pulse_eq_start.mpr ⟨hi, hph⟩)) hst
    | done _ _ _ => rfl
    | _ => exact hoff

variable {b : BeepControl}

lemma live_tick (gP : DevicePtr) (h : Live b) : Live (alarmTick gP b).1 := by
  obtain ⟨honce, hlow, hmid, hhigh, _⟩ := h
  unfold alarmTick
  unfold notResting at honce
  cases hl : b.alarmLevel with
  | none =>
    simp only [hl] at honce hlow hmid hhigh
    simp only [beepTimerFn]
    constructor <;> simp_all
  | low =>
    simp only [hl] at honce hmid hhigh
    simp only [beepTimerFn]
    refine ⟨fun hon => ⟨by simp, ?_⟩, by simp, hmid, hhigh, by simp⟩
    exact (lowTick_isTick _ _).once_rest (fun h => (honce h).2) hon
  | mid =>
    simp only [hl] at honce hlow hhigh
    simp only [beepTimerFn]
    refine ⟨fun hon => ⟨by simp, ?_⟩, hlow, by simp, hhigh, by simp⟩
    exact (midTick_isTick _ _).once_rest (fun h => (honce h).2) hon
  | high =>
    simp only [hl] at honce hlow hmid
    simp only [beepTimerFn]
    refine ⟨fun hon => ⟨by simp, ?_⟩, hlow, hmid, by simp, by simp⟩
    exact (highTick_isTick _ _).once_rest (fun h => (honce h).2) hon

lemma tick_once_of_not_atStart (gP : DevicePtr) (h : ¬ b.AtStart)
    (hoff : b.onceAlarmSwitch = false) : (alarmTick gP b).1.onceAlarmSwitch = false := by
  unfold AtStart at h
  unfold alarmTick
  cases hl : b.alarmLevel with
  | none => simpa only [beepTimerFn] using hoff
  | low =>
    rw [hl] at h
    simp only [beepTimerFn]
    exact (lowTick_isTick _ _).once_of_ne_start h hoff
  | mid =>
    rw [hl] at h
    simp only [beepTimerFn]
    exact (midTick_isTick _ _).once_of_ne_start h hoff
  | high =>
    rw [hl] at h
    simp only [beepTimerFn]
    exact (highTick_isTick _ _).once_of_ne_start h hoff

variable {r r' : Race}

open Race

lemma Race.step_beepTick (h : r.step .beepTick = some r') : r.sound.beep.beepTimer.pending = true ∧
      r' = { r with sound := { r.sound with beep := (alarmTick r.sound.gP r.sound.beep).1 } } := by
  by_cases hp : r.sound.beep.beepTimer.pending = true
  · obtain ⟨cs, hr⟩ := react_beepTick hp
    simp only [step, hr, Option.map_some, Option.some.injEq] at h
    exact ⟨hp, h.symm⟩
  · simp [step, Sound.react, hp] at h

lemma raceInv_beepTick (h : RaceInv r) (hg : r.sparesClear .beepTick)
    (hstep : r.step .beepTick = some r') : RaceInv r' := by
  obtain ⟨hp, rfl⟩ := step_beepTick hstep
  rcases h with ⟨hlive, hduty⟩ | hoff
  · refine .inl ⟨live_tick r.sound.gP hlive, ?_⟩
    have hlevel := (alarmTick_settings r.sound.gP r.sound.beep).level
    obtain ⟨s, rest⟩ := r
    cases hduty with
    | idle => exact .idle
    | claim dev buf => exact .claim dev buf
    | master level hn => exact .master level hn
    | testRaise level hn => exact .testRaise level hn
    | close level hn hne => exact .close level hn (hlevel.symm ▸ hne)
    | delRaise level hn hne => exact .delRaise level hn (hlevel.symm ▸ hne)
    | testClear => exact .testClear
    | delClear hoff => exact .delClear (tick_once_of_not_atStart _ (hg rfl rfl) hoff)
  · rw [hoff.pending] at hp
    cases hp

/-! ### Statements -/

lemma raceInv_stmt_offDuty (h : OffDuty s (st :: rest)) :
    RaceInv ⟨(st.run s).1, if (st.run s).2.2 then rest else []⟩ := by
  have hlive := h.live
  by_cases hgo : (st.run s).2.2 = true
  · rw [runStmts_cons_true hgo] at hlive
    rw [if_pos hgo]
    rcases rest with _ | ⟨st', rest⟩
    · exact raceInv_idle.mpr hlive
    · have hlast := h.initLast
      rw [dropLast_cons_of_ne_nil (by simp), mem_cons, not_or] at hlast
      refine .inr ⟨?_, hlive, hlast.2⟩
      cases st with
      | timerInit => exact absurd rfl hlast.1
      | delTimer => rfl
      | _ => exact h.pending
  · rw [Bool.not_eq_true] at hgo
    rw [runStmts_cons_false hgo] at hlive
    simp only [hgo, Bool.false_eq_true, if_false]
    exact raceInv_idle.mpr hlive

lemma live_raiseTail (hn : level ≠ .none) (h : Live s.beep) (hne : s.beep.alarmLevel ≠ level) :
    Live (runStmts (raiseTail level) (StoreStmt.delTimer.run s).1).1.beep := by
  cases level with
  | none => exact absurd rfl hn
  | low =>
    have hst := h.low hne
    constructor <;> simp [raiseTail, resetStmts, runStmts, run, beepTimerInit,
      notResting, hst, Status.start]
  | mid =>
    have hst := h.mid hne
    constructor <;> simp [raiseTail, resetStmts, runStmts, run, beepTimerInit,
      notResting, hst, Status.start]
  | high =>
    have hst := h.high hne
    constructor <;> simp [raiseTail, resetStmts, runStmts, run, beepTimerInit,
      notResting, hst, Status.start]

lemma timerInit_last_clearTail : .timerInit ∉ clearTail.dropLast := by decide

lemma raceInv_stmt_onDuty (h : Live s.beep) (hduty : OnDuty s.beep (st :: rest)) :
    RaceInv ⟨(st.run s).1, if (st.run s).2.2 then rest else []⟩ := by
  generalize hprog : st :: rest = prog at hduty
  cases hduty with
  | idle => cases hprog
  | claim dev buf =>
    obtain ⟨rfl, rfl⟩ := cons.inj hprog
    refine .inl ⟨⟨h.once, h.low, h.mid, h.high, h.pending⟩, ?_⟩
    simp only [run, if_true, branchProgram]
    rcases levelOfText buf with _ | level
    · exact .idle
    · cases level with
      | none => exact .testClear
      | _ => exact .master _ (by simp)
  | master level hn =>
    obtain ⟨rfl, rfl⟩ := cons.inj hprog
    exact .inl ⟨⟨h.once, h.low, h.mid, h.high, h.pending⟩, .testRaise level hn⟩
  | testRaise level hn =>
    obtain ⟨rfl, rfl⟩ := cons.inj hprog
    refine .inl ⟨h, ?_⟩
    by_cases hc : s.beep.alarmLevel ≠ level ∧ s.beep.onceAlarmSwitch = false
    · simp only [run, decide_eq_true hc, if_true]
      exact .close level hn hc.1
    · simp only [run, decide_eq_false hc, Bool.false_eq_true, if_false]
      exact .idle
  | close level hn hne =>
    obtain ⟨rfl, rfl⟩ := cons.inj hprog
    exact .inl ⟨h, .delRaise level hn hne⟩
  | delRaise level hn hne =>
    obtain ⟨rfl, rfl⟩ := cons.inj hprog
    exact .inr ⟨rfl, live_raiseTail hn h hne,
      show .timerInit ∉ (raiseTail level).dropLast by cases level <;> decide⟩
  | testClear =>
    obtain ⟨rfl, rfl⟩ := cons.inj hprog
    refine .inl ⟨h, ?_⟩
    by_cases hc : s.beep.alarmLevel ≠ .none ∧ s.beep.onceAlarmSwitch = false
    · simp only [run, decide_eq_true hc, if_true]
      exact .delClear hc.2
    · simp only [run, decide_eq_false hc, Bool.false_eq_true, if_false]
      exact .idle
  | delClear hoff =>
    obtain ⟨rfl, rfl⟩ := cons.inj hprog
    refine .inr ⟨rfl, ?_, timerInit_last_clearTail⟩
    cases hc : s.common.switch <;>
      constructor <;> simp [clearTail, resetStmts, runStmts, run, hoff, hc]

lemma raceInv_step {e : RaceEvent} (h : RaceInv r) (hg : r.sparesClear e)
    (hstep : r.step e = some r') : RaceInv r' := by
  obtain ⟨s, rest⟩ := r
  cases e with
  | beepTick => exact raceInv_beepTick h hg hstep
  | write dev buf =>
    rcases rest with _ | ⟨st, rest⟩
    · cases hstep
      exact .inl ⟨raceInv_idle.mp h, .claim dev buf⟩
    · cases hstep
  | stmt =>
    rcases rest with _ | ⟨st, rest⟩
    · cases hstep
    · cases hstep
      rcases h with ⟨hlive, hduty⟩ | hoff
      · exact raceInv_stmt_onDuty hlive hduty
      · exact raceInv_stmt_offDuty hoff

section

variable {gP : DevicePtr} {common : CommonSoundControl} {remind : AlarmRemindControl}

lemma exec_stmts (rest : List StoreStmt) :
    ∀ s : Sound, ∃ n, (Race.machine gP common remind).exec ⟨s, rest⟩
      (List.replicate n .stmt) = some ⟨(runStmts rest s).1, []⟩ := by
  induction rest with
  | nil => intro s; exact ⟨0, rfl⟩
  | cons st rest ih =>
    intro s
    by_cases hgo : (st.run s).2.2 = true
    · obtain ⟨n, hn⟩ := ih (st.run s).1
      refine ⟨n + 1, ?_⟩
      have hstep : (machine gP common remind).step ⟨s, st :: rest⟩ .stmt =
          some ⟨(st.run s).1, rest⟩ := by
        simp [machine, step, hgo]
      rw [replicate_succ, Machine.exec_cons_of_step _ hstep, hn, runStmts_cons_true hgo]
    · rw [Bool.not_eq_true] at hgo
      refine ⟨1, ?_⟩
      have hstep : (machine gP common remind).step ⟨s, st :: rest⟩ .stmt =
          some ⟨(st.run s).1, []⟩ := by
        simp [machine, step, hgo]
      rw [replicate_one, Machine.exec_cons_of_step _ hstep, runStmts_cons_false hgo]
      rfl

end

def Race.hears (M : Machine Race RaceEvent) (r : Race) : Prop :=
  ∀ (dev : ℕ) (buf : List Char) (level : AlarmLevel), levelOfText buf = some level →
    ∃ k n u, M.exec r (List.replicate k .beepTick ++ .write dev buf :: List.replicate n .stmt) =
      some u ∧ u.rest = [] ∧ u.sound.beep.alarmLevel = level

lemma pwmSetLevelStore_heard (hoff : s.beep.onceAlarmSwitch = false) (dev : ℕ) {buf : List Char}
    (hbuf : levelOfText buf = some level) :
    (pwmSetLevelStore dev buf s).1.beep.alarmLevel = level := by
  have hoff' : (s.beep.claimDevice dev).onceAlarmSwitch = false := hoff
  simp only [pwmSetLevelStore, hbuf]
  by_cases hl : (s.beep.claimDevice dev).alarmLevel = level
  · cases level with
    | none => simp [clearLevel, hl]
    | _ => simp [raiseLevel, hl]
  · cases level with
    | none => simp [clearLevel, hl, hoff']
    | _ => simp [raiseLevel, hl, hoff', beepTimerInit]

lemma hears_of_live {gP : DevicePtr} {common : CommonSoundControl} {remind : AlarmRemindControl}
    (h : Live s.beep) : Race.hears (Race.machine gP common remind) ⟨s, []⟩ := by
  intro dev buf level hbuf
  -- the ticks that end the burst in progress, none if there is none
  obtain ⟨k, u, hticks, hoff⟩ : ∃ k u,
      (machine gP common remind).exec ⟨s, []⟩ (replicate k .beepTick) =
        some ⟨u, []⟩ ∧ u.beep.onceAlarmSwitch = false := by
    by_cases hon : s.beep.onceAlarmSwitch = true
    · obtain ⟨hl, hr⟩ := h.once hon
      obtain ⟨k, hk⟩ := alarm_finishes s.gP hl hr
      refine ⟨k, _, exec_ticks _ (mk · []) (fun s hp => ?_) k s (h.pending.mpr hl) hl, hk⟩
      obtain ⟨cs, hr⟩ := react_beepTick hp
      simp [machine, step, hr]
    · exact ⟨0, s, rfl, by simpa using hon⟩
  obtain ⟨n, hn⟩ : ∃ n, (machine gP common remind).exec ⟨u, levelProgram dev buf⟩
      (replicate n .stmt) = some _ := exec_stmts (levelProgram dev buf) u
  rw [runStmts_levelProgram] at hn
  refine ⟨k, n, ⟨(pwmSetLevelStore dev buf u).1, []⟩, ?_, rfl, pwmSetLevelStore_heard hoff dev hbuf⟩
  refine (Machine.exec_append_eq_some _).mpr ⟨_, hticks, ?_⟩
  rw [Machine.exec_cons_of_step _ rfl]
  exact hn

/-- In a run in which no burst begins while `"0"` is between its test and its `del_timer_sync`,
whenever no write is in progress a switch that is on has a pending timer and a level behind it, and
every future request is heard. -/
theorem switch_is_live {gP : DevicePtr} {common : CommonSoundControl}
    {remind : AlarmRemindControl} {es : List RaceEvent}
    (hg : (Race.machine gP common remind).Guarded Race.sparesClear
      (Race.init gP common remind) es) : (Race.machine gP common remind).Always
      (fun r => r.rest = [] → (r.sound.beep.onceAlarmSwitch = true →
          r.sound.beep.beepTimer.pending = true ∧ r.sound.beep.alarmLevel ≠ .none) ∧
        r.hears (Race.machine gP common remind)) (Race.init gP common remind) es := by
  have hinv := Machine.always_of_guarded _ (fun _ _ _ => raceInv_step)
    (raceInv_idle.mpr (by constructor <;> simp [Sound.init, TimerList.zero])) hg
  refine Machine.Always.mono _ ?_ hinv
  rintro ⟨s, rest⟩ hinv hidle
  subst hidle
  have hlive := raceInv_idle.mp hinv
  refine ⟨?_, hears_of_live hlive⟩
  intro hon
  have hl := (hlive.once hon).1
  exact ⟨hlive.pending.mpr hl, hl⟩

/-- A burst that begins while `"5"` replaces `"1"`, between the test and the
`del_timer_sync` of that write, does no harm. -/
theorem switch_is_live_raising :
    (Race.machine (some 1) (Sound.init (some 1)).common (Sound.init (some 1)).remind).Always
      (fun r => r.rest = [] → (r.sound.beep.onceAlarmSwitch = true →
          r.sound.beep.beepTimer.pending = true ∧ r.sound.beep.alarmLevel ≠ .none) ∧
        r.hears (Race.machine (some 1) (Sound.init (some 1)).common (Sound.init (some 1)).remind))
      (Race.init (some 1) (Sound.init (some 1)).common (Sound.init (some 1)).remind)
      (.write 0 "1".toList :: List.replicate 11 .stmt ++
        .write 0 "5".toList :: List.replicate 3 .stmt ++ .beepTick :: List.replicate 8 .stmt) := by
  apply switch_is_live
  decide +kernel

/-- The low alarm is about to begin a burst when `"0"` is written. The handler runs once after the
test of the switch. When the write is over the switch is on, with no level and no timer behind it.
-/
theorem burst_lost_to_clear : ∃ r, (Race.machine (some 1) (Sound.init (some 1)).common
        (Sound.init (some 1)).remind).exec
        (Race.init (some 1) (Sound.init (some 1)).common (Sound.init (some 1)).remind)
        (.write 0 "1".toList :: List.replicate 11 .stmt ++
          .write 0 "0".toList :: List.replicate 2 .stmt ++
          .beepTick :: List.replicate 9 .stmt) = some r ∧
      r.rest = [] ∧ r.sound.beep.onceAlarmSwitch = true ∧
      r.sound.beep.beepTimer.pending = false ∧ r.sound.beep.alarmLevel = .none := by
  refine ⟨_, rfl, ?_, ?_, ?_, ?_⟩ <;> decide +kernel

end Am335x.Pwm
