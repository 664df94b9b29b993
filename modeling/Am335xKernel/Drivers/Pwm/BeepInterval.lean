import Am335xKernel.Drivers.Pwm.BeepCycle

/-!
# The interval is changed during the rest

`set_time_interval` may be written while an alarm rests. Every tick moves the counter by what the
interval has changed, so that the ticks that have been waited count: `storecnt - cnt` of them
(`RestsFor`). The counter is tested before it is moved. A write that comes when it has run out does
not postpone the burst any more, and intervals whose ticks are no `int` are not followed at all;
without those the burst begins when it should (`Orderly`).
-/

namespace Am335x.Pwm

section

variable {n : ℕ} {interval t e : ℕ} {w : Wave n}

/-- The level rests for the interval `t`, and has waited for `e` ticks. -/
structure Wave.RestsFor (w : Wave n) (t e : ℕ) : Prop where
  status : w.status = .rest
  storecnt : w.storecnt = 100 * t
  cnt : w.cnt = 100 * t - e

lemma restCount_of_lt (h : 100 * interval < 2 ^ 31) : restCount interval = 100 * interval := by
  unfold restCount
  rw [CInt.toInt_of_lt (by omega) (by omega), mul_comm]

lemma Wave.RestsFor.rebase (h : w.RestsFor t e) (ht : 100 * t < 2 ^ 31)
    (hnew : 100 * interval < 2 ^ 31) (he : e < 2 ^ 31) :
    (w.rebase interval).RestsFor interval e := by
  unfold Wave.rebase
  split_ifs with hne
  · constructor
    · exact h.status
    · dsimp only
      exact restCount_of_lt hnew
    · dsimp only
      rw [h.storecnt, h.cnt, CInt.toInt_of_range (by omega) (by omega)]
      omega
  · -- both intervals are the same
    have heq : CInt.toU32 w.storecnt = CInt.toU32 (interval * 100) := by
      by_contra hnot
      exact hne ⟨h.status, hnot⟩
    have htime : t = interval := by
      rw [h.storecnt] at heq
      unfold CInt.toU32 at heq
      rw [Int.emod_eq_of_lt (by omega) (by omega), Int.emod_eq_of_lt (by omega) (by omega)] at heq
      omega
    exact htime ▸ h

lemma Wave.RestsFor.dec (h : w.RestsFor t e) (ht : 100 * t < 2 ^ 31) (he : e < 2 ^ 31) :
    w.dec.RestsFor t (e + 1) := by
  refine ⟨h.status, h.storecnt, ?_⟩
  unfold Wave.dec
  rw [h.cnt, CInt.toInt_of_range (by omega) (by omega)]
  push_cast
  omega

end

def FollowsInterval {n : ℕ} [NeZero n] (tick : Outputs → ℕ → Wave n → Wave n × List Call) : Prop :=
  ∀ (o : Outputs) (w : Wave n) (t interval e : ℕ), w.RestsFor t e → 100 * t < 2 ^ 31 →
    100 * interval < 2 ^ 31 → e < 2 ^ 31 →
    (100 * t ≤ e → (tick o interval w).1.status = .start) ∧
      (e < 100 * t → (tick o interval w).1.RestsFor interval (e + 1))

section

variable {n : ℕ} [NeZero n] {w : Wave n} {t e : ℕ}
  {tick : Outputs → ℕ → Wave n → Wave n × List Call}

lemma Wave.RestsFor.restBranch_of_le (h : w.RestsFor t e) (hle : 100 * t ≤ e) :
    w.restBranch.1 = { w with status := .start } := by
  have hcnt : w.cnt ≤ 0 := by
    rw [h.cnt]
    omega
  unfold Wave.restBranch
  rw [if_pos hcnt]

lemma Wave.RestsFor.restBranch_of_lt (h : w.RestsFor t e) (hlt : e < 100 * t) :
    w.restBranch.1 = w := by
  have hcnt : ¬ w.cnt ≤ 0 := by
    rw [h.cnt]
    omega
  unfold Wave.restBranch
  rw [if_neg hcnt]

lemma followsInterval_of_rebase_dec (sh : Shape n) (htick : ∀ o interval w, (tick o interval w).1 =
      ((sh.chain o interval w).1.rebase interval).dec) : FollowsInterval tick := by
  intro o w t interval e h ht hnew he
  have hchain : sh.chain o interval w = w.restBranch := by
    unfold Shape.chain
    rw [h.status]
  rw [htick, hchain]
  constructor
  · intro hle
    rw [h.restBranch_of_le hle, Wave.dec_status, Wave.rebase_status]
  · intro hlt
    rw [h.restBranch_of_lt hlt]
    exact (h.rebase ht hnew he).dec hnew he

lemma followsInterval_of_dec_rebase (sh : Shape n) (htick : ∀ o interval w, (tick o interval w).1 =
      (sh.chain o interval w).1.dec.rebase interval) : FollowsInterval tick := by
  intro o w t interval e h ht hnew he
  have hchain : sh.chain o interval w = w.restBranch := by
    unfold Shape.chain
    rw [h.status]
  rw [htick, hchain]
  constructor
  · intro hle
    rw [h.restBranch_of_le hle, Wave.rebase_status, Wave.dec_status]
  · intro hlt
    rw [h.restBranch_of_lt hlt]
    exact (h.dec ht he).rebase ht hnew (by omega)

lemma IsTick.restsFor {sh : Shape n} {o : Outputs} {interval : ℕ}
    {f : Wave n → Wave n × List Call} (hf : IsTick sh o interval f) (hw : w.status ≠ .rest)
    (hrest : (f w).1.status = .rest) (hfit : 100 * interval < 2 ^ 31) :
    (f w).1.RestsFor interval 1 := by
  cases hst : w.status with
  | rest => exact absurd hst hw
  | pulse i ph =>
    rw [hf.pulse hst] at hrest ⊢
    have hout := sh.pulseBranch_outcome o interval i ph w
    generalize (sh.pulseBranch o interval i ph w).1 = r at hout hrest ⊢
    rw [Wave.dec_status] at hrest
    cases hout with
    | wait _ _ => exact absurd hrest hw
    | done _ _ _ =>
      have hrests : Wave.RestsFor (n := n)
          ⟨.rest, restCount interval, restCount interval, false⟩ interval 0 := by
        rw [restCount_of_lt hfit]
        exact ⟨rfl, rfl, by simp⟩
      exact hrests.dec hfit (by norm_num)
    | _ => cases hrest

end

lemma highTick_follows : FollowsInterval highTick :=
  followsInterval_of_dec_rebase highShape fun o interval w => by rw [highTick_eq]

def BeepControl.Resting (b : BeepControl) : Prop :=
  match b.alarmLevel with
  | .none => False
  | .low => b.lowStatus = .rest
  | .mid => b.midStatus = .rest
  | .high => b.highStatus = .rest

/-- A text that is written to `set_time_interval`. -/
structure IntervalWrite where
  dev : ℕ
  buf : List Char

def Sound.writeAll (s : Sound) (ws : List IntervalWrite) : Sound :=
  ws.foldl (fun s w => (pwmSetTimeIntervalStore w.dev w.buf s).1) s

def Sound.tick (s : Sound) : Sound := { s with beep := (alarmTick s.gP s.beep).1 }

/-- After `k` ticks. The writes `ws k` come between the tick `k` and the next one. -/
def Sound.waited (s : Sound) (ws : ℕ → List IntervalWrite) : ℕ → Sound
  | 0 => s
  | k + 1 => ((s.waited ws k).writeAll (ws k)).tick

/-- In front of the tick `k + 1`. -/
def Sound.before (s : Sound) (ws : ℕ → List IntervalWrite) (k : ℕ) : Sound :=
  (s.waited ws k).writeAll (ws k)

def Sound.EndsBurst (s : Sound) : Prop := ¬ s.beep.Resting ∧ s.tick.beep.Resting

/-- The next burst begins with the tick `k + 1`. -/
def Sound.BeginsAt (s : Sound) (ws : ℕ → List IntervalWrite) (k : ℕ) : Prop :=
  (s.before ws k).beep.AtStart ∧ ∀ j < k, ¬ (s.before ws j).beep.AtStart

/-- The ticks of all intervals are an `int`, and once the counter has run out the interval does
not grow any more. -/
def Sound.Orderly (s : Sound) (ws : ℕ → List IntervalWrite) : Prop :=
  100 * s.beep.interval < 2 ^ 31 ∧ ∀ k, (s.waited ws k).beep.Resting →
    100 * (s.before ws k).beep.interval < 2 ^ 31 ∧
      ((s.waited ws k).beep.cnt ≤ 0 →
        (s.before ws k).beep.interval ≤ (s.waited ws k).beep.interval)

/-- The level that is set rests for `t`, and has waited for `e` ticks. -/
def BeepControl.RestsFor (b : BeepControl) (t e : ℕ) : Prop :=
  match b.alarmLevel with
  | .none => False
  | .low => b.lowWave.RestsFor t e
  | .mid => b.midWave.RestsFor t e
  | .high => b.highWave.RestsFor t e

section

variable {s : Sound} {b : BeepControl} {t e : ℕ}

lemma pwmSetTimeIntervalStore_eq (dev : ℕ) (buf : List Char) (s : Sound) :
    ∃ times, (pwmSetTimeIntervalStore dev buf s).1 =
      { s with beep := { s.beep with beepDevice := some dev, timerControl := times } } := by
  unfold pwmSetTimeIntervalStore
  dsimp only
  split_ifs
  · exact ⟨_, rfl⟩
  · split <;> exact ⟨_, rfl⟩

lemma writeAll_eq (s : Sound) (ws : List IntervalWrite) : ∃ device times, s.writeAll ws =
      { s with beep := { s.beep with beepDevice := device, timerControl := times } } := by
  induction ws generalizing s with
  | nil => exact ⟨_, _, rfl⟩
  | cons w ws ih =>
    obtain ⟨times, htimes⟩ := pwmSetTimeIntervalStore_eq w.dev w.buf s
    obtain ⟨device, times', hrest⟩ := ih (pwmSetTimeIntervalStore w.dev w.buf s).1
    refine ⟨device, times', hrest.trans ?_⟩
    rw [htimes]

section

variable (ws : List IntervalWrite)

lemma writeAll_atStart : (s.writeAll ws).beep.AtStart ↔ s.beep.AtStart := by
  obtain ⟨device, times, heq⟩ := writeAll_eq s ws
  rw [heq]
  rfl

lemma writeAll_alarmLevel : (s.writeAll ws).beep.alarmLevel = s.beep.alarmLevel := by
  obtain ⟨device, times, heq⟩ := writeAll_eq s ws
  rw [heq]

lemma writeAll_restsFor : (s.writeAll ws).beep.RestsFor t e ↔ s.beep.RestsFor t e := by
  obtain ⟨device, times, heq⟩ := writeAll_eq s ws
  rw [heq]
  rfl

end

lemma BeepControl.RestsFor.resting (h : b.RestsFor t e) : b.Resting := by
  unfold RestsFor at h
  unfold Resting
  cases hlevel : b.alarmLevel with
  | none =>
    rw [hlevel] at h
    exact h
  | _ =>
    rw [hlevel] at h
    exact h.status

lemma BeepControl.RestsFor.cnt (h : b.RestsFor t e) : b.cnt = 100 * t - e := by
  unfold RestsFor at h
  cases hlevel : b.alarmLevel with
  | none =>
    rw [hlevel] at h
    exact h.elim
  | _ =>
    rw [hlevel] at h
    exact h.cnt

lemma BeepControl.Resting.not_atStart (h : b.Resting) : ¬ b.AtStart := by
  unfold Resting at h
  unfold AtStart
  cases hlevel : b.alarmLevel with
  | none => exact id
  | _ =>
    rw [hlevel] at h
    intro hstart
    rw [h] at hstart
    cases hstart

end

section

variable {gP : DevicePtr} {s : Sound} {ws : ℕ → List IntervalWrite} {b : BeepControl} {t e k : ℕ}
  {level : AlarmLevel} {n : ℕ} [NeZero n] {wave : BeepControl → Wave n}
  {f : Outputs → ℕ → Wave n → Wave n × List Call} {sh : Shape n}

lemma IsPart.follows (h : IsPart level wave f) (hfollows : FollowsInterval f)
    (hlevel : b.alarmLevel = level) (hrests : (wave b).RestsFor t e) (ht : 100 * t < 2 ^ 31)
    (hnew : 100 * b.interval < 2 ^ 31) (he : e < 2 ^ 31) :
    (100 * t ≤ e → (wave (alarmTick gP b).1).status = .start) ∧
      (e < 100 * t → (wave (alarmTick gP b).1).RestsFor b.interval (e + 1)) := by
  rw [h.wave gP b hlevel]
  exact hfollows (b.outputs gP) (wave b) t b.interval e hrests ht hnew he

lemma IsPart.restsFor (h : IsPart level wave f)
    (htick : ∀ o interval, IsTick sh o interval (f o interval)) (hlevel : b.alarmLevel = level)
    (hnot : (wave b).status ≠ .rest) (hrest : (wave (alarmTick gP b).1).status = .rest)
    (hfit : 100 * b.interval < 2 ^ 31) : (wave (alarmTick gP b).1).RestsFor b.interval 1 := by
  rw [h.wave gP b hlevel] at hrest ⊢
  exact (htick _ _).restsFor hnot hrest hfit

lemma BeepControl.RestsFor.tick (gP : DevicePtr) (h : b.RestsFor t e) (ht : 100 * t < 2 ^ 31)
    (hnew : 100 * b.interval < 2 ^ 31) (he : e < 2 ^ 31) :
    (100 * t ≤ e → (alarmTick gP b).1.AtStart) ∧
      (e < 100 * t → (alarmTick gP b).1.RestsFor b.interval (e + 1)) := by
  unfold RestsFor at h ⊢
  unfold AtStart
  rw [(alarmTick_settings gP b).level]
  cases hlevel : b.alarmLevel with
  | none =>
    rw [hlevel] at h
    exact h.elim
  | low =>
    rw [hlevel] at h
    exact lowTick_isPart.follows (followsInterval_of_rebase_dec lowShape fun _ _ _ => rfl) hlevel
      h ht hnew he
  | mid =>
    rw [hlevel] at h
    exact midTick_isPart.follows (followsInterval_of_rebase_dec midShape fun _ _ _ => rfl) hlevel
      h ht hnew he
  | high =>
    rw [hlevel] at h
    exact highTick_isPart.follows highTick_follows hlevel h ht hnew he

lemma tick_interval (s : Sound) : s.tick.beep.interval = s.beep.interval :=
  (alarmTick_settings s.gP s.beep).interval_eq

lemma Sound.EndsBurst.restsFor (h : s.EndsBurst) (hfit : 100 * s.tick.beep.interval < 2 ^ 31) :
    s.tick.beep.RestsFor s.tick.beep.interval 1 := by
  obtain ⟨hnot, hrest⟩ := h
  rw [tick_interval] at hfit ⊢
  unfold Sound.tick at hrest ⊢
  unfold BeepControl.Resting at hnot hrest
  unfold BeepControl.RestsFor
  rw [(alarmTick_settings s.gP s.beep).level] at hrest ⊢
  cases hlevel : s.beep.alarmLevel with
  | none =>
    rw [hlevel] at hrest
    exact hrest
  | low =>
    rw [hlevel] at hnot hrest
    exact lowTick_isPart.restsFor lowTick_isTick hlevel hnot hrest hfit
  | mid =>
    rw [hlevel] at hnot hrest
    exact midTick_isPart.restsFor midTick_isTick hlevel hnot hrest hfit
  | high =>
    rw [hlevel] at hnot hrest
    exact highTick_isPart.restsFor highTick_isTick hlevel hnot hrest hfit

end

section

variable {s : Sound} {ws : ℕ → List IntervalWrite} {k : ℕ}

/-- After `k` ticks the rest is not over. -/
structure Sound.Waits (s : Sound) (ws : ℕ → List IntervalWrite) (k : ℕ) : Prop where
  rests : (s.waited ws k).beep.RestsFor (s.waited ws k).beep.interval (k + 1)
  fits : 100 * (s.waited ws k).beep.interval < 2 ^ 31
  lt : k + 1 < 2 ^ 31

lemma Sound.Waits.zero (hend : s.EndsBurst) (hord : s.tick.Orderly ws) : s.tick.Waits ws 0 :=
  ⟨hend.restsFor hord.1, hord.1, by norm_num⟩

lemma Sound.Waits.step (h : s.Waits ws k) (hnew : 100 * (s.before ws k).beep.interval < 2 ^ 31) :
    100 * (s.waited ws k).beep.interval ≤ k + 1 ∧ (s.waited ws (k + 1)).beep.AtStart ∨
      k + 1 < 100 * (s.waited ws k).beep.interval ∧ s.Waits ws (k + 1) := by
  have hrests : (s.before ws k).beep.RestsFor (s.waited ws k).beep.interval (k + 1) :=
    (writeAll_restsFor (ws k)).mpr h.rests
  have hfits := h.fits
  obtain ⟨hend, hgo⟩ := hrests.tick (s.before ws k).gP hfits hnew h.lt
  rcases Nat.lt_or_ge (k + 1) (100 * (s.waited ws k).beep.interval) with hlt | hge
  · have hinterval : (s.waited ws (k + 1)).beep.interval = (s.before ws k).beep.interval :=
      tick_interval _
    refine .inr ⟨hlt, ?_, ?_, (Nat.succ_le_of_lt hlt).trans_lt hfits⟩
    · rw [hinterval]
      exact hgo hlt
    · rw [hinterval]
      exact hnew
  · exact .inl ⟨hge, hend hge⟩

lemma Sound.Orderly.fits (hord : s.Orderly ws) (h : s.Waits ws k) :
    100 * (s.before ws k).beep.interval < 2 ^ 31 := (hord.2 k h.rests.resting).1

lemma Sound.waits_of_not_atStart (h : s.Waits ws 0) (hord : s.Orderly ws)
    (hnot : ∀ j ≤ k, ¬ (s.before ws j).beep.AtStart) : s.Waits ws k := by
  induction k with
  | zero => exact h
  | succ k ih =>
    have hwaits := ih fun j hj => hnot j (by omega)
    rcases hwaits.step (hord.fits hwaits) with ⟨-, hstart⟩ | ⟨-, hnext⟩
    · exact absurd ((writeAll_atStart _).mpr hstart) (hnot (k + 1) le_rfl)
    · exact hnext

lemma waited_interval (hws : ∀ j, ws (j + 1) = []) :
    (s.waited ws (k + 1)).beep.interval = (s.before ws 0).beep.interval := by
  induction k with
  | zero => exact tick_interval _
  | succ k ih =>
    have hstep : (s.waited ws (k + 2)).beep.interval =
        ((s.waited ws (k + 1)).writeAll (ws (k + 1))).beep.interval := tick_interval _
    rw [hstep, hws k]
    exact ih

lemma before_alarmLevel : (s.before ws k).beep.alarmLevel = s.beep.alarmLevel := by
  induction k with
  | zero => exact writeAll_alarmLevel (ws 0)
  | succ k ih =>
    calc (s.before ws (k + 1)).beep.alarmLevel
        = (s.before ws k).tick.beep.alarmLevel := writeAll_alarmLevel (ws (k + 1))
      _ = (s.before ws k).beep.alarmLevel := (alarmTick_settings _ _).level
      _ = s.beep.alarmLevel := ih

end

/-- From the end of a burst on, the next one does not begin before the ticks since then have reached
the interval that is set, and begins at most two ticks after that. -/
theorem interval_followed (s : Sound) (ws : ℕ → List IntervalWrite) (hend : s.EndsBurst)
    (hord : s.tick.Orderly ws) : (∀ k, s.tick.BeginsAt ws k →
        ∃ m ≤ k, 100 * (s.tick.before ws m).beep.interval ≤ m + 1) ∧
      ∀ m, 100 * (s.tick.before ws m).beep.interval ≤ m + 1 →
        ∃ k ≤ m + 2, s.tick.BeginsAt ws k := by
  have hzero := Sound.Waits.zero hend hord
  constructor
  · rintro k ⟨hstart, hfirst⟩
    replace hstart := (writeAll_atStart _).mp hstart
    cases k with
    | zero => exact absurd hstart hzero.rests.resting.not_atStart
    | succ j =>
      have hwaits := Sound.waits_of_not_atStart hzero hord (k := j)
        fun i hi => hfirst i (by omega)
      rcases hwaits.step (hord.fits hwaits) with ⟨hle, -⟩ | ⟨-, hnext⟩
      · have hcnt : (s.tick.waited ws j).beep.cnt ≤ 0 := by
          rw [hwaits.rests.cnt]
          exact sub_nonpos.mpr (by exact_mod_cast hle)
        have hshort := (hord.2 j hwaits.rests.resting).2 hcnt
        exact ⟨j, Nat.le_succ j, (Nat.mul_le_mul_left 100 hshort).trans hle⟩
      · exact absurd hstart hnext.rests.resting.not_atStart
  · intro m hm
    by_cases hstart : ∃ j, j ≤ m + 1 ∧ (s.tick.before ws j).beep.AtStart
    · classical
      have hfind := Nat.find_spec hstart
      refine ⟨Nat.find hstart, by omega, hfind.2, fun i hi hat => ?_⟩
      exact Nat.find_min hstart hi ⟨by omega, hat⟩
    · have hnot : ∀ j ≤ m + 1, ¬ (s.tick.before ws j).beep.AtStart :=
        fun j hj hat => hstart ⟨j, hj, hat⟩
      have hwaits := Sound.waits_of_not_atStart hzero hord hnot
      have hinterval : (s.tick.waited ws (m + 1)).beep.interval =
          (s.tick.before ws m).beep.interval := tick_interval _
      rcases hwaits.step (hord.fits hwaits) with ⟨-, hat⟩ | ⟨hlt, -⟩
      · exact ⟨m + 2, le_rfl, (writeAll_atStart _).mpr hat, fun j hj => hnot j (by omega)⟩
      · rw [hinterval] at hlt
        omega

/-- A text written between the ticks `k` and `k + 1`. -/
def writeOnce (k : ℕ) (text : String) (j : ℕ) : List IntervalWrite :=
  if j = k then [⟨0, text.toList⟩] else []

/-- With an interval of a second the low level is set, and its first burst is about to end. -/
def lowRun : List SoundEvent :=
  [.setTimeInterval 0 "11".toList, .setLevel 0 "1".toList] ++ List.replicate 21 .beepTick

def lowEnd : Sound :=
  ((Sound.machine (some 1)).exec (Sound.init (some 1)) lowRun).getD (Sound.init (some 1))

lemma lowEnd_reached :
    (Sound.machine (some 1)).exec (Sound.init (some 1)) lowRun = some lowEnd := by
  decide +kernel

lemma lowEnd_level : lowEnd.beep.alarmLevel = .low := by decide +kernel

lemma lowEnd_endsBurst : lowEnd.EndsBurst := by
  have hnot : lowEnd.beep.lowStatus ≠ .rest := by decide +kernel
  have hrest : lowEnd.tick.beep.lowStatus = .rest := by decide +kernel
  unfold Sound.EndsBurst BeepControl.Resting
  rw [show lowEnd.tick.beep.alarmLevel = _ from (alarmTick_settings _ _).level, lowEnd_level]
  exact ⟨hnot, hrest⟩

/-- The interval is made two seconds long at the beginning of the rest, and the burst begins within
202 ticks. -/
theorem interval_followed_longer :
    (Sound.machine (some 1)).exec (Sound.init (some 1)) lowRun = some lowEnd ∧
      lowEnd.EndsBurst ∧ (pwmSetTimeIntervalStore 0 "12".toList lowEnd.tick).2 = 2 ∧
      lowEnd.tick.Orderly (writeOnce 0 "12") ∧
      ∃ k ≤ 201, lowEnd.tick.BeginsAt (writeOnce 0 "12") k := by
  have hfirst : (lowEnd.tick.before (writeOnce 0 "12") 0).beep.interval = 2 := by decide +kernel
  have hinterval : ∀ k, (lowEnd.tick.waited (writeOnce 0 "12") (k + 1)).beep.interval = 2 :=
    fun k => (waited_interval fun _ => rfl).trans hfirst
  have hord : lowEnd.tick.Orderly (writeOnce 0 "12") := by
    refine ⟨by decide +kernel, fun k _ => ?_⟩
    cases k with
    | zero =>
      refine ⟨by rw [hfirst]; norm_num, fun hcnt => absurd hcnt ?_⟩
      decide +kernel
    | succ k =>
      have hbefore : (lowEnd.tick.before (writeOnce 0 "12") (k + 1)).beep.interval = 2 :=
        hinterval k
      exact ⟨by rw [hbefore]; norm_num, fun _ => le_rfl⟩
  refine ⟨lowEnd_reached, lowEnd_endsBurst, by decide +kernel, hord, ?_⟩
  refine (interval_followed lowEnd (writeOnce 0 "12") lowEnd_endsBurst hord).2 199 ?_
  have hbefore : (lowEnd.tick.before (writeOnce 0 "12") 199).beep.interval = 2 := hinterval 198
  rw [hbefore]

lemma lowEnd_beginsAt {ws : ℕ → List IntervalWrite} {k : ℕ}
    (hstart : (lowEnd.tick.before ws k).beep.lowStatus = .start)
    (hnot : ∀ j < k, (lowEnd.tick.before ws j).beep.lowStatus ≠ .start) :
    lowEnd.tick.BeginsAt ws k := by
  have hlevel : ∀ j, (lowEnd.tick.before ws j).beep.alarmLevel = .low := fun j =>
    before_alarmLevel.trans ((alarmTick_settings _ _).level.trans lowEnd_level)
  unfold Sound.BeginsAt BeepControl.AtStart
  simp only [hlevel]
  exact ⟨hstart, hnot⟩

/-- Counterexample: right after the end of a burst the text `142949673` is taken, and the `int` of
its 4294967300 ticks is 4, so that the next burst begins with the fifth tick. And an interval
that is made two seconds long in the last jiffy of its second is not followed, since the counter
is looked at before it follows the interval. -/
theorem interval_not_followed :
    (Sound.machine (some 1)).exec (Sound.init (some 1)) lowRun = some lowEnd ∧
    lowEnd.EndsBurst ∧ (lowEnd.tick.BeginsAt (writeOnce 0 "142949673") 4 ∧
      ∀ m ≤ 4, m + 1 < 100 * (lowEnd.tick.before (writeOnce 0 "142949673") m).beep.interval) ∧
    lowEnd.tick.BeginsAt (writeOnce 99 "12") 100 ∧
      ∀ m ≤ 100, m + 1 < 100 * (lowEnd.tick.before (writeOnce 99 "12") m).beep.interval := by
  refine ⟨lowEnd_reached, lowEnd_endsBurst, ⟨lowEnd_beginsAt ?_ ?_, ?_⟩, lowEnd_beginsAt ?_ ?_, ?_⟩
  all_goals decide +kernel

end Am335x.Pwm
