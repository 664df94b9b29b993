import Am335xKernel.Lib.Clockwork
import Am335xKernel.Drivers.Pwm.Sound

/-!
# The pattern of an alarm

With no writes in between, `beep_timer_fn` plays a fixed timetable over and over: the pulses of its
level, the silences between them, and the rest. The timetable of a pulse is `pulseScore`, that of a
cycle `cycleScore`; it begins with the first tick of a burst.
-/

namespace Am335x.Pwm

open List Wave Nat Clockwork BeepControl

def toneScore (o : Outputs) (first : List Call) (keep : ℕ) : List (List Call × ℕ) :=
  [(first ++ [.setDutyPercent o.beepDevice 0, .start o.beepDevice, .start o.gP], 1),
    ([.setDutyPercent o.beepDevice (o.duty * 3 / 7)], 1),
    ([.setDutyPercent o.beepDevice (o.duty * 5 / 7)], 1),
    ([.setDutyPercent o.beepDevice o.duty], keep),
    ([.setDutyPercent o.beepDevice (o.duty * 5 / 7)], 1),
    ([.setDutyPercent o.beepDevice (o.duty * 3 / 7)], 1),
    ([.setDutyPercent o.beepDevice (o.duty / 7)], 1)]

def pulseScore (o : Outputs) (first : List Call) (keep gap : ℕ) : List (List Call × ℕ) :=
  toneScore o first keep ++ [([.stop o.beepDevice, .stop o.gP], gap)]

def pulsesScore (o : Outputs) (first : List Call) (keep : ℕ) : List ℕ → List (List Call × ℕ)
  | [] => []
  | gap :: gaps => pulseScore o first keep gap ++ pulsesScore o [] keep gaps

def AlarmLevel.gaps : AlarmLevel → List ℕ
  | .none | .low => []
  | .mid => [17, 17]
  | .high => [4, 4, 28, 4, 60, 4, 4, 28, 4]

def AlarmLevel.keepTicks : AlarmLevel → ℕ
  | .low => 15
  | _ => 14

def cycleScore (level : AlarmLevel) (o : Outputs) (interval : ℕ) : List (List Call × ℕ) :=
  pulsesScore o (pwmChangeFreq o.gP alarmFred) level.keepTicks
    (level.gaps ++ [100 * interval + 1])

def alarmCycle (level : AlarmLevel) (o : Outputs) (interval : ℕ) : List (List Call) :=
  Clockwork.timeline [] (cycleScore level o interval)

variable {o : Outputs} {keep : ℕ}

lemma length_timeline_pulses (o : Outputs) (hkeep : 0 < keep) (l : List ℕ) (hl : ∀ c ∈ l, 0 < c)
    (first : List Call) : (Clockwork.timeline [] (pulsesScore o first keep l)).length =
      l.length * (keep + 6) + l.sum := by
  induction l generalizing first with
  | nil => simp only [pulsesScore, timeline, flatMap_nil, length_nil, zero_mul, sum_nil, add_zero]
  | cons gap l ih =>
    have hpulse : (timeline [] (pulseScore o first keep gap)).length =
        keep + 6 + gap := by
      have hpos : ∀ p ∈ pulseScore o first keep gap, 0 < p.2 := by
        simp [pulseScore, toneScore, hkeep, hl gap mem_cons_self]
      rw [length_timeline [] hpos]
      simp only [pulseScore, toneScore, cons_append, nil_append, map_cons,
        map_nil, sum_cons, sum_nil]
      omega
    rw [pulsesScore, timeline_append, length_append, hpulse,
      ih fun c hc => hl c (mem_cons_of_mem gap hc), length_cons, sum_cons,
      add_one_mul]
    omega

lemma length_alarmCycle (level : AlarmLevel) (o : Outputs) (interval : ℕ) :
    (alarmCycle level o interval).length =
      (level.gaps.length + 1) * (level.keepTicks + 6) + level.gaps.sum + (100 * interval + 1) := by
  have hkeep : 0 < level.keepTicks := by cases level <;> decide
  have hlevel : ∀ c ∈ level.gaps, 0 < c := by cases level <;> decide
  have hgaps : ∀ c ∈ level.gaps ++ [100 * interval + 1], 0 < c := by
    exact forall_mem_append.mpr ⟨hlevel, forall_mem_singleton.mpr (succ_pos _)⟩
  unfold alarmCycle cycleScore
  rw [length_timeline_pulses o hkeep _ hgaps, length_append, sum_append_nat,
    sum_singleton, length_singleton, add_assoc]

lemma Shape.pulseBranch_of_pos {n : ℕ} {sh : Shape n} {interval : ℕ} {w : Wave n} {i : Fin n}
    {ph : Phase} (hc : 0 < w.cnt) (hne : ¬ (i.val = 0 ∧ ph = .riseOne)) :
    sh.pulseBranch o interval i ph w = (w, []) := by
  have hnot : ¬ w.cnt ≤ 0 := not_le.mpr hc
  cases ph with
  | riseOne =>
    have hi : i.val ≠ 0 := fun hi => hne ⟨hi, rfl⟩
    simp only [pulseBranch, if_neg hi, advance_of_pos hc]
  | finish =>
    simp only [pulseBranch, advance_of_pos hc, if_neg hnot, dite_eq_ite, ite_self]
  | _ => simp only [pulseBranch, advance_of_pos hc]

section

variable {n : ℕ} [NeZero n] {sh : Shape n} {o : Outputs} {interval : ℕ}
  {f : Clockwork (Wave n) (List Call)} {w : Wave n} {i : Fin n} {ph : Phase}

structure Steady (sh : Shape n) (o : Outputs) (interval : ℕ)
    (f : Clockwork (Wave n) (List Call)) : Prop where
  pulse : ∀ {w : Wave n} {i : Fin n} {ph : Phase}, w.status = .pulse i ph →
    f w = ((sh.pulseBranch o interval i ph w).1.dec, (sh.pulseBranch o interval i ph w).2)
  rest : ∀ {w : Wave n}, w.status = .rest → w.storecnt = restCount interval →
    f w = (w.restBranch.1.dec, [])

lemma Wave.restBranch_storecnt (w : Wave n) : w.restBranch.1.storecnt = w.storecnt := by
  unfold Wave.restBranch
  split_ifs <;> rfl

lemma steady_of_rebase_dec (hf : ∀ w, f w = (((sh.chain o interval w).1.rebase interval).dec,
      (sh.chain o interval w).2)) : Steady sh o interval f := by
  refine ⟨(isTick_of_rebase_dec hf).pulse, fun hw hstore => ?_⟩
  rw [hf]
  simp only [Shape.chain, hw]
  rw [rebase_eq_self fun _ => (restBranch_storecnt _).trans hstore, restBranch_calls]

lemma highTick_steady (o : Outputs) (interval : ℕ) :
    Steady highShape o interval (highTick o interval) := by
  refine ⟨(highTick_isTick o interval).pulse, fun hw hstore => ?_⟩
  rw [highTick_eq]
  simp only [Shape.chain, hw]
  rw [rebase_eq_self (w := Wave.dec _) fun _ => (restBranch_storecnt _).trans hstore,
    restBranch_calls]

lemma Steady.wait (hf : Steady sh o interval f) (hne : ¬ (i.val = 0 ∧ ph = .riseOne)) (c : ℕ)
    (hst : w.status = .pulse i ph) (hc : w.cnt = c) (hlt : c < 2 ^ 31) :
    f.Plays w (List.replicate c []) { w with cnt := 0 } := by
  induction c generalizing w with
  | zero =>
    have hw : w = { w with cnt := 0 } := by
      rw [← cast_zero, ← hc]
    rw [← hw]
    exact .nil w
  | succ c ih =>
    have hpos : 0 < w.cnt := by omega
    have hdec : CInt.toInt (w.cnt - 1) = c := by
      rw [CInt.toInt_of_lt (by omega) (by omega)]
      omega
    have hstep : f w = (w.dec, []) := by
      rw [hf.pulse hst, Shape.pulseBranch_of_pos hpos hne]
    exact .cons hstep (ih (w := w.dec) hst hdec (by omega))

variable {calls : List Call} {c keep : ℕ} {ph' : Phase}

section

variable (hf : Steady sh o interval f)
include hf

lemma Steady.branch {w' : Wave n} {j : Fin n}
    (hst : w.status = .pulse i ph) (hbranch : sh.pulseBranch o interval i ph w = (w', calls))
    (hst' : w'.status = .pulse j ph') (hne : ¬ (j.val = 0 ∧ ph' = .riseOne)) (hcnt : w'.cnt = c)
    (hpos : 0 < c) (hlt : c < 2 ^ 31) :
    f.Plays w (calls :: List.replicate (c - 1) []) { w' with cnt := 0 } := by
  have hdec : CInt.toInt (w'.cnt - 1) = (c - 1 : ℕ) := by
    rw [CInt.toInt_of_lt (by omega) (by omega)]
    omega
  have hstep : f w = (w'.dec, calls) := by
    rw [hf.pulse hst, hbranch]
  exact .cons hstep (hf.wait hne (c - 1) (w := w'.dec) hst' hdec (by omega))

lemma Steady.phase (hst : w.status = .pulse i ph) (hcnt : w.cnt ≤ 0)
    (hbranch : sh.pulseBranch o interval i ph w = w.advance (.pulse i ph') c calls)
    (hne : ph' ≠ .riseOne) (hpos : 0 < c) (hlt : c < 2 ^ 31) :
    ∃ w', f.Plays w (Clockwork.timeline [] [(calls, c)]) w' ∧ w'.status = .pulse i ph' ∧
      w'.cnt ≤ 0 := by
  rw [advance_of_le hcnt] at hbranch
  have hplays := hf.branch hst hbranch rfl (fun hand => hne hand.2) rfl hpos hlt
  exact ⟨_, hplays.append (.nil _), rfl, le_rfl⟩

lemma Steady.begin (hst : w.status = .pulse i .riseOne)
    (hcnt : i.val ≠ 0 → w.cnt ≤ 0) : ∃ w', f.Plays w (Clockwork.timeline []
        [((if i.val = 0 then pwmChangeFreq o.gP alarmFred else []) ++
          [.setDutyPercent o.beepDevice 0, .start o.beepDevice, .start o.gP], 1)]) w' ∧
      w'.status = .pulse i .riseTwo ∧ w'.cnt ≤ 0 := by
  by_cases hi : i.val = 0
  · have hbranch : sh.pulseBranch o interval i .riseOne w =
        ({ w with status := .pulse i .riseTwo, once := true, cnt := 1 },
          pwmChangeFreq o.gP alarmFred ++
            [.setDutyPercent o.beepDevice 0, .start o.beepDevice, .start o.gP]) := if_pos hi
    have hplays := hf.branch hst hbranch rfl (by simp) (c := 1) rfl one_pos (by norm_num)
    rw [if_pos hi]
    exact ⟨_, hplays.append (.nil _), rfl, le_rfl⟩
  · have hbranch : sh.pulseBranch o interval i .riseOne w = w.advance (.pulse i .riseTwo) (1 : ℕ)
        [.setDutyPercent o.beepDevice 0, .start o.beepDevice, .start o.gP] := if_neg hi
    rw [if_neg hi]
    exact hf.phase hst (hcnt hi) hbranch (by simp) one_pos (by norm_num)

lemma Steady.tone (hst : w.status = .pulse i .riseOne)
    (hcnt : i.val ≠ 0 → w.cnt ≤ 0) (hkeep : sh.keepTicks = keep) (hpos : 0 < keep)
    (hlt : keep < 2 ^ 31) : ∃ w', f.Plays w (Clockwork.timeline []
        (toneScore o (if i.val = 0 then pwmChangeFreq o.gP alarmFred else []) keep)) w' ∧
      w'.status = .pulse i .finish ∧ w'.cnt ≤ 0 := by
  obtain ⟨w1, h1, hst1, hcnt1⟩ := hf.begin hst hcnt
  obtain ⟨w2, h2, hst2, hcnt2⟩ := hf.phase hst1 hcnt1 (c := 1) rfl (by simp) one_pos (by norm_num)
  obtain ⟨w3, h3, hst3, hcnt3⟩ := hf.phase hst2 hcnt2 (c := 1) rfl (by simp) one_pos (by norm_num)
  have hbranch : sh.pulseBranch o interval i .keep w3 =
      w3.advance (.pulse i .fallOne) keep [.setDutyPercent o.beepDevice o.duty] := by
    rw [← hkeep]
    rfl
  obtain ⟨w4, h4, hst4, hcnt4⟩ := hf.phase hst3 hcnt3 hbranch (by simp) hpos hlt
  obtain ⟨w5, h5, hst5, hcnt5⟩ := hf.phase hst4 hcnt4 (c := 1) rfl (by simp) one_pos (by norm_num)
  obtain ⟨w6, h6, hst6, hcnt6⟩ := hf.phase hst5 hcnt5 (c := 1) rfl (by simp) one_pos (by norm_num)
  obtain ⟨w7, h7, hst7, hcnt7⟩ := hf.phase hst6 hcnt6 (c := 1) rfl (by simp) one_pos (by norm_num)
  refine ⟨w7, ?_, hst7, hcnt7⟩
  exact h1.timeline_append (h2.timeline_append (h3.timeline_append (h4.timeline_append
    (h5.timeline_append (h6.timeline_append h7)))))

lemma Steady.gap (hst : w.status = .pulse i .finish)
    (hcnt : w.cnt ≤ 0) (hi : i.val + 1 < n) (hgap : sh.gap i = c) (hpos : 0 < c)
    (hlt : c < 2 ^ 31) :
    ∃ w', f.Plays w (Clockwork.timeline [] [([.stop o.beepDevice, .stop o.gP], c)]) w' ∧
      w'.status = .pulse ⟨i.val + 1, hi⟩ .riseOne ∧ w'.cnt ≤ 0 := by
  have hbranch : sh.pulseBranch o interval i .finish w =
      ({ w with status := .pulse ⟨i.val + 1, hi⟩ .riseOne, cnt := sh.gap i },
        [.stop o.beepDevice, .stop o.gP]) := by
    show dite _ _ _ = _
    rw [dif_pos hi, advance_of_le hcnt]
  have hplays := hf.branch hst hbranch rfl (fun hand => succ_ne_zero _ hand.1) hgap hpos hlt
  exact ⟨_, hplays.append (.nil _), rfl, le_rfl⟩

lemma Steady.rest_wait (c : ℕ) (hst : w.status = .rest)
    (hstore : w.storecnt = restCount interval) (hcnt : w.cnt = c) (hlt : c < 2 ^ 31) :
    ∃ w', f.Plays w (List.replicate (c + 1) []) w' ∧ w'.status = .start := by
  induction c generalizing w with
  | zero =>
    have hbranch : w.restBranch = ({ w with status := .start }, []) := if_pos hcnt.le
    have hstep : f w = (Wave.dec { w with status := .start }, []) := by
      rw [hf.rest hst hstore, hbranch]
    exact ⟨_, .cons hstep (.nil _), rfl⟩
  | succ c ih =>
    have hpos : 0 < w.cnt := by omega
    have hbranch : w.restBranch = (w, []) := if_neg (not_le.mpr hpos)
    have hdec : CInt.toInt (w.cnt - 1) = c := by
      rw [CInt.toInt_of_lt (by omega) (by omega)]
      omega
    have hstep : f w = (w.dec, []) := by
      rw [hf.rest hst hstore, hbranch]
    obtain ⟨w', hplays, hst'⟩ := ih (w := w.dec) hst hstore hdec (by omega)
    exact ⟨w', .cons hstep hplays, hst'⟩

lemma Steady.finish (hst : w.status = .pulse i .finish)
    (hcnt : w.cnt ≤ 0) (hi : i.val + 1 = n) (hpos : 0 < interval) (hlt : 100 * interval < 2 ^ 31) :
    ∃ w', f.Plays w (Clockwork.timeline []
        [([.stop o.beepDevice, .stop o.gP], 100 * interval + 1)]) w' ∧ w'.status = .start := by
  have hcount : restCount interval = (100 * interval : ℕ) := by
    unfold restCount
    rw [CInt.toInt_of_lt (by omega) (by omega)]
    push_cast
    exact mul_comm _ _
  have hbranch : sh.pulseBranch o interval i .finish w =
      (⟨.rest, restCount interval, restCount interval, false⟩,
        [.stop o.beepDevice, .stop o.gP]) := by
    show dite _ _ _ = _
    rw [dif_neg (by omega), if_pos hcnt]
  have hstep := hf.pulse hst
  rw [hbranch] at hstep
  -- the state at the beginning of the rest
  obtain ⟨v, hv⟩ : ∃ v : Wave n, v =
      Wave.dec ⟨.rest, restCount interval, restCount interval, false⟩ := ⟨_, rfl⟩
  have hstore : v.storecnt = restCount interval := by
    rw [hv, Wave.dec]
  have hdec : v.cnt = (100 * interval - 1 : ℕ) := by
    rw [hv, Wave.dec]
    dsimp only
    rw [hcount, CInt.toInt_of_lt (by omega) (by omega)]
    omega
  rw [← hv] at hstep
  obtain ⟨w', hplays, hst'⟩ :=
    hf.rest_wait (100 * interval - 1) (congrArg Wave.status hv) hstore hdec (by omega)
  refine ⟨w', ?_, hst'⟩
  have hlen : 100 * interval + 1 - 1 = 100 * interval - 1 + 1 := by omega
  unfold timeline
  rw [flatMap_singleton, hlen]
  exact .cons hstep hplays

end

structure Shape.Timed (sh : Shape n) (keep : ℕ) (gaps : List ℕ) : Prop where
  keep_eq : sh.keepTicks = keep
  keep_pos : 0 < keep
  keep_lt : keep < 2 ^ 31
  length_eq : gaps.length + 1 = n
  gap_eq : ∀ i : Fin n, ∀ c, gaps[i.val]? = some c → sh.gap i = c ∧ 0 < c ∧ c < 2 ^ 31

variable {gaps : List ℕ}
  (hf : Steady sh o interval f) (ht : sh.Timed keep gaps) (hpos : 0 < interval)
  (hlt : 100 * interval < 2 ^ 31)

include hf ht hpos hlt in
lemma Steady.pulses (l : List ℕ) (hst : w.status = .pulse i .riseOne)
    (hcnt : i.val ≠ 0 → w.cnt ≤ 0) (hl : gaps.drop i.val = l) :
    ∃ w', f.Plays w (Clockwork.timeline []
        (pulsesScore o (if i.val = 0 then pwmChangeFreq o.gP alarmFred else []) keep
          (l ++ [100 * interval + 1]))) w' ∧ w'.status = .start := by
  have hlen := ht.length_eq
  have hi := i.isLt
  -- induction on the pulses that are left
  induction l generalizing w i with
  | nil =>
    have hdrop := drop_eq_nil_iff.mp hl
    obtain ⟨w1, h1, hst1, hcnt1⟩ := hf.tone hst hcnt ht.keep_eq ht.keep_pos ht.keep_lt
    obtain ⟨w2, h2, hst2⟩ := hf.finish hst1 hcnt1 (by omega) hpos hlt
    exact ⟨w2, (h1.timeline_append h2).timeline_append (.nil _), hst2⟩
  | cons c l ih =>
    have hget : gaps[i.val]? = some c := by
      rw [← List.head?_drop, hl]
      rfl
    have hlt' : i.val < gaps.length := (List.getElem?_eq_some_iff.mp hget).1
    obtain ⟨hgap, hcpos, hclt⟩ := ht.gap_eq i c hget
    obtain ⟨w1, h1, hst1, hcnt1⟩ := hf.tone hst hcnt ht.keep_eq ht.keep_pos ht.keep_lt
    obtain ⟨w2, h2, hst2, hcnt2⟩ := hf.gap hst1 hcnt1 (by omega) hgap hcpos hclt
    have hdrop : gaps.drop (i.val + 1) = l := by
      rw [← tail_drop, hl]
      rfl
    obtain ⟨w3, h3, hst3⟩ := ih hst2 (fun _ => hcnt2) hdrop (by omega)
    exact ⟨w3, (h1.timeline_append h2).timeline_append h3, hst3⟩

include hf ht hpos hlt in
/-- **A cycle**, from the first tick of a burst to the next one. -/
lemma Steady.cycle (hst : w.status = .start) :
    ∃ w', f.Plays w (Clockwork.timeline [] (pulsesScore o (pwmChangeFreq o.gP alarmFred) keep
      (gaps ++ [100 * interval + 1]))) w' ∧ w'.status = .start :=
  hf.pulses ht hpos hlt gaps hst (fun hne => absurd rfl hne) rfl

end

lemma lowShape_timed : lowShape.Timed 15 [] := by
  refine ⟨rfl, by norm_num, by norm_num, rfl, fun i c hc => ?_⟩
  cases hc

lemma midShape_timed : midShape.Timed 14 [17, 17] := by
  refine ⟨rfl, by norm_num, by norm_num, rfl, ?_⟩
  decide

lemma highShape_timed : highShape.Timed 14 [4, 4, 28, 4, 60, 4, 4, 28, 4] := by
  refine ⟨rfl, by norm_num, by norm_num, rfl, ?_⟩
  decide

def BeepControl.interval (b : BeepControl) : ℕ :=
  match b.alarmLevel with
  | .none => 0
  | .low => b.timerControl.lowlevelTime
  | .mid => b.timerControl.midlevelTime
  | .high => b.timerControl.highlevelTime

def BeepControl.volume (b : BeepControl) : SoundLevel :=
  match b.alarmLevel with
  | .none => .none
  | .low => b.lowVolumeControl
  | .mid => b.midVolumeControl
  | .high => b.highVolumeControl

def BeepControl.outputs (gP : DevicePtr) (b : BeepControl) : Outputs :=
  ⟨b.beepDevice, gP, soundDuty b.volume⟩

def BeepControl.AtStart (b : BeepControl) : Prop :=
  match b.alarmLevel with
  | .none => False
  | .low => b.lowStatus = .start
  | .mid => b.midStatus = .start
  | .high => b.highStatus = .start

instance (b : BeepControl) : Decidable b.AtStart := by
  unfold BeepControl.AtStart
  split <;> infer_instance

def alarmTick (gP : DevicePtr) : Clockwork BeepControl (List Call) := fun b =>
  beepTimerFn gP { b with beepTimer := b.beepTimer.detach }

structure SameSettings (b b' : BeepControl) : Prop where
  level : b'.alarmLevel = b.alarmLevel
  device : b'.beepDevice = b.beepDevice
  times : b'.timerControl = b.timerControl
  low : b'.lowVolumeControl = b.lowVolumeControl
  mid : b'.midVolumeControl = b.midVolumeControl
  high : b'.highVolumeControl = b.highVolumeControl

section

variable {gP : DevicePtr} {b b' b'' : BeepControl}

section

variable (h : SameSettings b b')
include h

lemma SameSettings.trans (h' : SameSettings b' b'') : SameSettings b b'' :=
  ⟨h'.level.trans h.level, h'.device.trans h.device, h'.times.trans h.times, h'.low.trans h.low,
    h'.mid.trans h.mid, h'.high.trans h.high⟩

lemma SameSettings.interval_eq : b'.interval = b.interval := by
  unfold interval
  rw [h.level, h.times]

lemma SameSettings.outputs_eq : b'.outputs gP = b.outputs gP := by
  unfold outputs volume
  rw [h.level, h.device, h.low, h.mid, h.high]

end

lemma alarmTick_settings (gP : DevicePtr) (b : BeepControl) :
    SameSettings b (alarmTick gP b).1 := by
  unfold alarmTick beepTimerFn
  cases hlevel : b.alarmLevel <;> exact ⟨hlevel.symm, rfl, rfl, rfl, rfl, rfl⟩

lemma alarmTick_pending (h : b.alarmLevel ≠ .none) :
    (alarmTick gP b).1.beepTimer.pending = true := by
  unfold alarmTick beepTimerFn
  cases hlevel : b.alarmLevel with
  | none => exact absurd hlevel h
  | _ => rfl

structure IsPart (level : AlarmLevel) {n : ℕ} (wave : BeepControl → Wave n)
    (tick : Outputs → ℕ → Wave n → Wave n × List Call) : Prop where
  calls : ∀ gP b, b.alarmLevel = level →
    (alarmTick gP b).2 = (tick (b.outputs gP) b.interval (wave b)).2
  wave : ∀ gP b, b.alarmLevel = level →
    wave (alarmTick gP b).1 = (tick (b.outputs gP) b.interval (wave b)).1

def BeepControl.lowWave (b : BeepControl) : Wave 1 :=
  ⟨b.lowStatus, b.cnt, b.storecnt, b.onceAlarmSwitch⟩

def BeepControl.midWave (b : BeepControl) : Wave 3 :=
  ⟨b.midStatus, b.cnt, b.storecnt, b.onceAlarmSwitch⟩

def BeepControl.highWave (b : BeepControl) : Wave 10 :=
  ⟨b.highStatus, b.cnt, b.storecnt, b.onceAlarmSwitch⟩

lemma lowTick_isPart : IsPart .low BeepControl.lowWave lowTick := by
  constructor <;> intro gP b hlevel <;>
    simp [alarmTick, beepTimerFn, outputs, volume, interval, lowWave, hlevel]

lemma midTick_isPart : IsPart .mid BeepControl.midWave midTick := by
  constructor <;> intro gP b hlevel <;>
    simp [alarmTick, beepTimerFn, outputs, volume, interval, midWave, hlevel]

lemma highTick_isPart : IsPart .high BeepControl.highWave highTick := by
  constructor <;> intro gP b hlevel <;>
    simp [alarmTick, beepTimerFn, outputs, volume, interval, highWave, hlevel]

variable {level : AlarmLevel} {n : ℕ} {tick : Outputs → ℕ → Wave n → Wave n × List Call}
  {wave : BeepControl → Wave n}

lemma IsPart.out_eq (h : IsPart level wave tick) (hlevel : b.alarmLevel = level) (k : ℕ) :
    (alarmTick gP).out b k = Clockwork.out (tick (b.outputs gP) b.interval) (wave b) k := by
  refine out_eq_of_relates (R := fun b' w => SameSettings b b' ∧ w = wave b') ?_
    ⟨⟨rfl, rfl, rfl, rfl, rfl, rfl⟩, rfl⟩ k
  rintro b' _ ⟨hsame, rfl⟩
  have hlevel' := hsame.level.trans hlevel
  have hcalls := h.calls gP b' hlevel'
  have hwave := h.wave gP b' hlevel'
  rw [hsame.outputs_eq, hsame.interval_eq] at hcalls hwave
  exact ⟨hcalls, hsame.trans (alarmTick_settings gP b'), hwave.symm⟩

lemma IsPart.periodic [NeZero n] {sh : Shape n} (h : IsPart level wave tick)
    (hsteady : ∀ o interval, Steady sh o interval (tick o interval))
    (ht : sh.Timed level.keepTicks level.gaps) (hlevel : b.alarmLevel = level)
    (hstart : (wave b).status = .start) (hpos : 0 < b.interval) (hfit : 100 * b.interval < 2 ^ 31)
    (k : ℕ) : (alarmCycle level (b.outputs gP) b.interval)[k %
      (alarmCycle level (b.outputs gP) b.interval).length]? = some ((alarmTick gP).out b k) := by
  rw [h.out_eq hlevel]
  exact out_periodic (S := fun w => w.status = .start)
    (fun w hw => (hsteady _ _).cycle ht hpos hfit hw) hstart (by cases level <;> exact nofun) k

lemma after_settings (gP : DevicePtr) (b : BeepControl) (k : ℕ) :
    SameSettings b ((alarmTick gP).after b k) := by
  induction k generalizing b with
  | zero => exact ⟨rfl, rfl, rfl, rfl, rfl, rfl⟩
  | succ k ih =>
    rw [after_succ]
    exact (alarmTick_settings gP b).trans (ih _)

end

/-- With a level set and a burst about to begin, the calls of the ticks follow the timetable of the
level again and again; every tick arms the timer for the next one. -/
theorem alarm_periodic (gP : DevicePtr) (b : BeepControl) (hstart : b.AtStart)
    (hpos : 1 ≤ b.interval) (hfit : 100 * b.interval < 2 ^ 31) (k : ℕ) :
    (alarmCycle b.alarmLevel (b.outputs gP) b.interval)[k %
        (alarmCycle b.alarmLevel (b.outputs gP) b.interval).length]? =
          some ((alarmTick gP).out b k) ∧
      ((alarmTick gP).after b (k + 1)).beepTimer.pending = true := by
  constructor
  · unfold BeepControl.AtStart at hstart
    cases hlevel : b.alarmLevel with
    | none =>
      rw [hlevel] at hstart
      exact hstart.elim
    | low =>
      rw [hlevel] at hstart
      exact lowTick_isPart.periodic (fun _ _ => steady_of_rebase_dec fun _ => rfl) lowShape_timed
        hlevel hstart hpos hfit k
    | mid =>
      rw [hlevel] at hstart
      exact midTick_isPart.periodic (fun _ _ => steady_of_rebase_dec fun _ => rfl) midShape_timed
        hlevel hstart hpos hfit k
    | high =>
      rw [hlevel] at hstart
      exact highTick_isPart.periodic highTick_steady highShape_timed hlevel hstart hpos hfit k
  · have hlevel : ((alarmTick gP).after b k).alarmLevel ≠ .none := by
      rw [(after_settings gP b k).level]
      intro hnone
      unfold BeepControl.AtStart at hstart
      rw [hnone] at hstart
      exact hstart
    rw [after_add]
    exact alarmTick_pending hlevel

/-- When the low level is written first of all, a burst begins every 2022 ticks. -/
theorem alarm_periodic_low :
    let b := (pwmSetLevelStore 0 "1".toList (Sound.init (some 1))).1.beep
    (b.AtStart ∧ 1 ≤ b.interval ∧ 100 * b.interval < 2 ^ 31) ∧
      (alarmTick (some 1)).out b 2022 = pwmChangeFreq (some 1) alarmFred ++
        [.setDutyPercent (some 0) 0, .start (some 0), .start (some 1)] := by
  intro b
  have hstart : b.AtStart := rfl
  have hplays := (alarm_periodic (some 1) b hstart (by decide) (by decide) 2022).1
  have hlength : (alarmCycle b.alarmLevel (b.outputs (some 1)) b.interval).length = 2022 :=
    length_alarmCycle .low (b.outputs (some 1)) 20
  rw [hlength, mod_self] at hplays
  exact ⟨⟨hstart, by decide, by decide⟩, (Option.some.inj hplays).symm⟩

end Am335x.Pwm
