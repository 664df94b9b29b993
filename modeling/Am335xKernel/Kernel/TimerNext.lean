import Am335xKernel.Kernel.TimerSearch

/-!
# The next timer is never late

`next_timer` caches the earliest time of a timer that is not deferrable. `__mod_timer` moves it to
an earlier timer; when the timer that it belongs to goes away, it becomes `timer_jiffies`, which
makes `get_next_timer_interrupt` search again. All this compares times of 32 bits, so it is right
as long as `next_timer`, `timer_jiffies` and the timers stay within half of the range of each other
(`InRange`).
-/

namespace Am335x.Timer

open Function

open CInt

/-- How far a time is ahead of `timer_jiffies`, as a signed number. -/
def offset (base : Base) (t : ℕ) : ℤ := toInt (t - base.timerJiffies)

def Waiting (base : Base) (id : ℕ) : Prop :=
  (base.timer id).pending = true ∧ (base.timer id).deferrable = false

/-- A time that can be compared with `next_timer`, and is not long past. -/
def Near (base : Base) (id expires : ℕ) : Prop :=
  (base.timer id).deferrable = false →
    -2 ^ 30 ≤ offset base expires ∧ offset base expires < offset base base.nextTimer + 2 ^ 31

def InRange (base : Base) : Op → Prop
  | .modTimer id e => e < 2 ^ 32 ∧
      Near base id (applySlack (base.timer id).slack base.jiffies e)
  | .modTimerPending id e => e < 2 ^ 32 ∧ Near base id e
  | .addTimer id e => e < 2 ^ 32 ∧
      Near base id (applySlack (base.timer id).slack base.jiffies e)
  | .step => base.pc = .outer → -2 ^ 31 + 1 < offset base base.nextTimer
  | .delTimer _ | .tick | .runTimers | .nextInterrupt => True

/-- `next_timer` is the time `N`. A timer that expires before it is found, because `N` has come. -/
structure Next (s : Schedule) (deferrable : ℕ → Bool) (next : ℕ) (N : ℤ) : Prop where
  eq : next = toU32 N
  lt : (s.now : ℤ) - 2 ^ 31 < N
  lt_now : N < s.now + 2 ^ 30
  le : ∀ id d, s.due id = some d → deferrable id = false → N ≤ s.now ∨ N ≤ d.expiry
  recent : ∀ id d, s.due id = some d → deferrable id = false → (d.tick : ℤ) - 2 ^ 30 ≤ d.expiry

section

variable {slack : ℕ → ℤ} {s : Schedule} {base : Base} {id : ℕ} {d : Due}

lemma Inv.offset_eq (h : Inv slack s base) {x : ℤ} (hle : (s.now : ℤ) - 2 ^ 31 ≤ x)
    (hlt : x < s.now + 2 ^ 31) : offset base (toU32 x) = x - s.now := by
  unfold offset toInt
  rw [h.ticks, Int.bmod_def]
  unfold toU32
  split_ifs <;> omega

lemma Inv.offset_eq_diff (h : Inv slack s base) (e : ℕ) :
    offset base e = if diff e (s.now % 2 ^ 32) < 2 ^ 31 then (diff e (s.now % 2 ^ 32) : ℤ)
      else diff e (s.now % 2 ^ 32) - 2 ^ 32 := by
  unfold offset toInt diff
  rw [h.ticks, Int.bmod_def]
  split_ifs <;> omega

lemma offset_lt (base : Base) (t : ℕ) : offset base t < 2 ^ 31 := by
  unfold offset toInt
  rw [Int.bmod_def]
  split_ifs <;> omega

lemma Inv.expiry_dueAt (h : Inv slack s base) {e : ℕ} (he : e < 2 ^ 32) :
    (dueAt s.now e).expiry = s.now + offset base e ∧
      ((dueAt s.now e).tick = s.now ∨ (dueAt s.now e).expiry = (dueAt s.now e).tick) := by
  rw [h.offset_eq_diff]
  by_cases hdiff : diff e (s.now % 2 ^ 32) < 2 ^ 31
  · obtain ⟨htick, hmod⟩ := dueAt_mod s.now he hdiff
    have hexpiry : (dueAt s.now e).expiry = (dueAt s.now e).tick := if_pos hmod
    refine ⟨?_, .inr hexpiry⟩
    rw [if_pos hdiff, hexpiry, htick]
    push_cast
    rfl
  · have htick : (dueAt s.now e).tick = s.now := if_neg hdiff
    have hmod : (dueAt s.now e).tick % 2 ^ 32 ≠ e := by
      rw [htick]
      rintro rfl
      exact hdiff (by unfold diff; omega)
    have hexpiry : (dueAt s.now e).expiry =
        (dueAt s.now e).tick + diff e ((dueAt s.now e).tick % 2 ^ 32) - 2 ^ 32 := if_neg hmod
    refine ⟨?_, .inl htick⟩
    rw [if_neg hdiff, hexpiry, htick, add_sub_assoc]

lemma Inv.tick_range (h : Inv slack s base) (hd : s.due id = some d) :
    s.now ≤ d.tick + 1 ∧ d.tick < s.now + 2 ^ 31 := by
  obtain ⟨p, hp⟩ := h.listed id d hd
  have hat := (h.stored.due_eq hp hd).2
  cases p with
  | work =>
    have htick := hat.1
    omega
  | tv v i =>
    have hle := hat.2.2.1.le_due
    obtain ⟨-, -, -, ⟨-, hlt⟩ | ⟨-, htick, -⟩⟩ := hat <;> omega

end

namespace Next

variable {s : Schedule} {deferrable : ℕ → Bool} {next id e : ℕ} {N : ℤ}

section

variable (h : Next s deferrable next N)
include h

lemma of_due {s' : Schedule} (hnow : s'.now = s.now)
    (hdue : ∀ id d, s'.due id = some d → s.due id = some d) : Next s' deferrable next N := by
  refine ⟨h.eq, ?_, ?_, fun id d hd => ?_, fun id d hd => h.recent id d (hdue id d hd)⟩
  · rw [hnow]
    exact h.lt
  · rw [hnow]
    exact h.lt_now
  · rw [hnow]
    exact h.le id d (hdue id d hd)

lemma remove (id : ℕ) : Next (s.remove id) deferrable next N := by
  refine h.of_due rfl fun i d hd => ?_
  dsimp only [Schedule.remove] at hd
  rcases eq_or_ne i id with rfl | hne
  · rw [update_self] at hd
    cases hd
  · rwa [update_of_ne hne] at hd

lemma put (he : e < 2 ^ 32)
    (htick : (dueAt s.now e).tick = s.now ∨ (dueAt s.now e).expiry = (dueAt s.now e).tick)
    (hnear : deferrable id = false →
      (s.now : ℤ) - 2 ^ 30 ≤ (dueAt s.now e).expiry ∧ (dueAt s.now e).expiry < N + 2 ^ 31) :
    ∃ N', Next (s.put id e) deferrable
      (if timeBefore e next ∧ deferrable id = false then e else next) N' := by
  have heq : e = toU32 (dueAt s.now e).expiry := Due.expires_eq (d := dueAt s.now e) he
  have hlt_now := h.lt_now
  -- the timers after the call, each with what is to be shown
  have hdue : ∀ {P : Due → Prop}, (deferrable id = false → P (dueAt s.now e)) →
      (∀ i d, s.due i = some d → deferrable i = false → P d) →
      ∀ i d, (s.put id e).due i = some d → deferrable i = false → P d := by
    intro P hnew hold i d hd hdef
    dsimp only [Schedule.put] at hd
    rcases eq_or_ne i id with rfl | hne
    · rw [update_self] at hd
      exact Option.some.inj hd ▸ hnew hdef
    · rw [update_of_ne hne] at hd
      exact hold i d hd hdef
  have hrecent := hdue (P := fun d => (d.tick : ℤ) - 2 ^ 30 ≤ d.expiry)
    (fun hdef => by have hge := (hnear hdef).1; omega) h.recent
  have hbefore : deferrable id = false →
      (timeBefore e next = true ↔ (dueAt s.now e).expiry < N) := by
    intro hdef
    obtain ⟨hge, hlt⟩ := hnear hdef
    rw [h.eq]
    nth_rewrite 1 [heq]
    exact timeBefore_toU32 (by omega) hlt
  by_cases hif : timeBefore e next = true ∧ deferrable id = false
  · have hearlier := (hbefore hif.2).mp hif.1
    obtain ⟨hge, -⟩ := hnear hif.2
    refine ⟨(dueAt s.now e).expiry, ?_, ?_, hearlier.trans hlt_now, hdue ?_ ?_, hrecent⟩
    · rw [if_pos hif]
      exact heq
    · show (s.now : ℤ) - 2 ^ 31 < _
      omega
    · exact fun _ => .inr le_rfl
    · intro i d hd hdef
      exact (h.le i d hd hdef).imp hearlier.le.trans hearlier.le.trans
  · rw [if_neg hif]
    refine ⟨N, h.eq, h.lt, hlt_now, hdue (fun hdef => .inr ?_) h.le, hrecent⟩
    exact not_lt.mp fun hlt => hif ⟨(hbefore hdef).mpr hlt, hdef⟩

lemma succ (hlt : (s.now : ℤ) - 2 ^ 31 + 1 < N) (pc : Pc) :
    Next { s with now := s.now + 1, pc := pc } deferrable next N := by
  have hnow := h.lt_now
  refine ⟨h.eq, ?_, ?_, fun id d hd hdef => ?_, h.recent⟩
  · push_cast
    omega
  · push_cast
    omega
  · refine (h.le id d hd hdef).imp_left fun hle => ?_
    push_cast
    omega

end

end Next

/-- The base has a schedule, and its `next_timer` is right for it. -/
def Tracks (slack : ℕ → ℤ) (deferrable : ℕ → Bool) (base : Base) : Prop :=
  (∀ id, (base.timer id).deferrable = deferrable id) ∧
    ∃ s N, Inv slack s base ∧ Next s deferrable base.nextTimer N

section

variable {slack : ℕ → ℤ} {deferrable : ℕ → Bool} {s : Schedule} {base : Base} {id e : ℕ} {N : ℤ}

lemma Next.forgetNext (base : Base) (hnext : Next s deferrable base.nextTimer N)
    (hticks : base.timerJiffies = s.now % 2 ^ 32) (id : ℕ) :
    ∃ N', Next s deferrable (forgetNext base id).nextTimer N' ∧ (N' = s.now ∨ N' = N) := by
  unfold Am335x.Timer.forgetNext
  split_ifs
  · refine ⟨s.now, ?_, .inl rfl⟩
    dsimp only
    rw [hticks]
    exact ⟨(toU32_natCast _).symm, by omega, by omega, fun _ _ _ _ => .inl le_rfl, hnext.recent⟩
  · exact ⟨N, hnext, .inr rfl⟩

lemma Near.expiry (hnear : Near base id e) (h : Inv slack s base)
    (hdef : ∀ id, (base.timer id).deferrable = deferrable id)
    (hnext : Next s deferrable base.nextTimer N) (he : e < 2 ^ 32) (hid : deferrable id = false) :
    (s.now : ℤ) - 2 ^ 30 ≤ (dueAt s.now e).expiry ∧ (dueAt s.now e).expiry < N + 2 ^ 31 := by
  obtain ⟨hge, hlt⟩ := hnear ((hdef id).trans hid)
  have hN := hnext.lt
  have hN' := hnext.lt_now
  rw [hnext.eq, h.offset_eq (by omega) (by omega)] at hlt
  rw [(h.expiry_dueAt he).1]
  constructor
  · omega
  · omega

/-! No call changes whether a timer is deferrable. -/

section

variable (base : Base)

lemma update_deferrable (id expires : ℕ) (pending : Bool) (i : ℕ) :
    (update base.timer id { base.timer id with expires := expires, pending := pending }
      i).deferrable = (base.timer i).deferrable := by
  rcases eq_or_ne i id with rfl | hne
  · rw [update_self]
  · rw [update_of_ne hne]

lemma detachTimer_deferrable (id : ℕ) (clearPending : Bool) (i : ℕ) :
    ((detachTimer base id clearPending).timer i).deferrable = (base.timer i).deferrable := by
  cases clearPending with
  | false => rfl
  | true => exact update_deferrable base id (base.timer id).expires false i

lemma startTimer_deferrable (id e i : ℕ) :
    ((startTimer base id e).timer i).deferrable = (base.timer i).deferrable := by
  rw [startTimer_eq]
  exact update_deferrable base id e true i

lemma forgetNext_timer (id : ℕ) : (forgetNext base id).timer = base.timer := by
  obtain ⟨next, hnext⟩ := forgetNext_eq base id
  rw [hnext]

end

lemma startTimer_nextTimer (hdef : (base.timer id).deferrable = deferrable id) :
    (startTimer base id e).nextTimer =
      if timeBefore e base.nextTimer ∧ deferrable id = false then e else base.nextTimer := by
  rw [startTimer_eq, hdef]

section

variable (h : Tracks slack deferrable base)
include h

lemma Tracks.internalModTimer (hnear : Near base id e) (he : e < 2 ^ 32) (pendingOnly : Bool) :
    Tracks slack deferrable (internalModTimer base id e pendingOnly).1 := by
  obtain ⟨hdef, s, N, hinv, hnext⟩ := h
  have hinv' := (hinv.internalModTimer id he pendingOnly).1
  obtain ⟨hoffset, htick⟩ := hinv.expiry_dueAt he
  have hexpiry := hnear.expiry hinv hdef hnext he
  revert hinv'
  unfold Timer.internalModTimer
  rw [(hinv.timers id).pending_eq]
  cases hdue : s.due id with
  | some d =>
    rw [if_neg fun hand => by cases hand.1]
    intro hinv'
    have hdef' : ∀ i, ((forgetNext (detachTimer base id false) id).timer i).deferrable =
        deferrable i := by
      intro i
      rw [forgetNext_timer, detachTimer_deferrable, hdef]
    obtain ⟨N1, hnext1, hN1⟩ :=
      Next.forgetNext (detachTimer base id false) hnext hinv.ticks id
    -- the old time of the timer may have been the next one
    obtain ⟨N', hnext'⟩ := hnext1.put he htick fun hid => by
      obtain ⟨hge, hlt⟩ := hexpiry hid
      have hoffset_lt := offset_lt base e
      refine ⟨hge, ?_⟩
      rcases hN1 with rfl | rfl
      · omega
      · exact hlt
    rw [← startTimer_nextTimer (hdef' id)] at hnext'
    exact ⟨fun i => (startTimer_deferrable _ id e i).trans (hdef' i), _, N', hinv', hnext'⟩
  | none =>
    cases pendingOnly with
    | true => exact fun _ => ⟨hdef, s, N, hinv, hnext⟩
    | false =>
      rw [if_neg fun hand => by cases hand.2]
      intro hinv'
      obtain ⟨N', hnext'⟩ := hnext.put he htick hexpiry
      rw [← startTimer_nextTimer (hdef id)] at hnext'
      exact ⟨fun i => (startTimer_deferrable base id e i).trans (hdef i), _, N', hinv', hnext'⟩

lemma Tracks.modTimer (he : e < 2 ^ 32)
    (hnear : Near base id (applySlack (base.timer id).slack base.jiffies e)) :
    Tracks slack deferrable (modTimer base id e).1 := by
  unfold Timer.modTimer
  dsimp only
  split_ifs
  · exact h
  · exact h.internalModTimer hnear (applySlack_lt _ _ he) false

lemma Tracks.delTimer (id : ℕ) : Tracks slack deferrable (delTimer base id).1 := by
  obtain ⟨hdef, s, N, hinv, hnext⟩ := h
  have hinv' := (hinv.delTimer id).1
  revert hinv'
  unfold Timer.delTimer
  split_ifs
  · intro hinv'
    obtain ⟨N', hnext', -⟩ :=
      Next.forgetNext (detachTimer base id true) hnext hinv.ticks id
    refine ⟨fun i => ?_, _, N', hinv', hnext'.remove id⟩
    rw [forgetNext_timer, detachTimer_deferrable, hdef]
  · exact fun _ => ⟨hdef, s, N, hinv, hnext⟩

lemma Tracks.runStep {base' : Base} {r : Reply}
    (hlate : base.pc = .outer → -2 ^ 31 + 1 < offset base base.nextTimer)
    (hcall : runStep base = some (base', r)) : Tracks slack deferrable base' := by
  obtain ⟨hdef, s, N, hinv, hnext⟩ := h
  have hpc : s.pc ≠ .idle := by
    intro hidle
    unfold Timer.runStep at hcall
    rw [hinv.pc_eq, hidle] at hcall
    cases hcall
  obtain ⟨base'', r', hcall', -, hinv'⟩ := hinv.runStep hpc
  cases hcall'.symm.trans hcall
  clear hcall'
  have hN := hnext.lt
  have hN' := hnext.lt_now
  revert hinv'
  unfold Timer.runStep at hcall
  cases hs : base.pc with
  | idle =>
    rw [hs] at hcall
    cases hcall
  | outer =>
    have hlate' := hlate hs
    rw [hnext.eq, hinv.offset_eq (by omega) (by omega)] at hlate'
    rw [hs] at hcall
    split_ifs at hcall
    · cases hcall
      obtain ⟨b, hb, -⟩ := cascadeAll_spec hinv.ticks
        (fun id d hd => (hinv.timers id).expires_eq d hd) hinv.stored
      intro hinv'
      refine ⟨fun i => ?_, _, N, hinv', ?_⟩
      · unfold iteration
        rw [hb]
        exact hdef i
      · unfold iteration
        rw [hb]
        exact hnext.succ (by omega) .inner
    · cases hcall
      exact fun hinv' => ⟨hdef, _, N, hinv', hnext.of_due rfl fun _ _ hd => hd⟩
  | inner =>
    rw [hs] at hcall
    cases hwork : base.vec .work with
    | nil =>
      rw [hwork] at hcall
      cases hcall
      exact fun hinv' => ⟨hdef, _, N, hinv', hnext.of_due rfl fun _ _ hd => hd⟩
    | cons id rest =>
      rw [hwork] at hcall
      cases hcall
      intro hinv'
      refine ⟨fun i => ?_, _, N, hinv', (hnext.remove id).of_due rfl fun _ _ hd => hd⟩
      exact (detachTimer_deferrable base id true i).trans (hdef i)
  | callback =>
    rw [hs] at hcall
    cases hcall
    exact fun hinv' => ⟨hdef, _, N, hinv', hnext.of_due rfl fun _ _ hd => hd⟩

end

lemma Inv.on_of_due (h : Inv slack s base) (hpc : s.pc = .idle) {d : Due}
    (hd : s.due id = some d) (hid : (base.timer id).deferrable = false) :
    ∃ v, On s base v id d ∧ (s.now < d.tick → d.expiry = d.tick) := by
  obtain ⟨p, hp⟩ := h.listed id d hd
  cases p with
  | work =>
    rw [h.work_nil (.inl hpc)] at hp
    cases hp
  | tv v i =>
    exact ⟨v, ⟨⟨i, mem_candidates.mpr ⟨hp, hid⟩⟩, hd⟩, (h.stored.due_eq hp hd).2.expiry_eq⟩

lemma Next.all_recent (hnext : Next s deferrable base.nextTimer N)
    (hdef : ∀ id, (base.timer id).deferrable = deferrable id) : Recent s base :=
  fun id d hd hid => hnext.recent id d hd ((hdef id).symm.trans hid)

lemma Tracks.getNextTimerInterrupt (h : Tracks slack deferrable base) (hpc : base.pc = .idle) :
    Tracks slack deferrable (getNextTimerInterrupt base).1 := by
  obtain ⟨hdef, s, N, hinv, hnext⟩ := h
  have hmax : nextTimerMaxDelta = 2 ^ 30 - 1 := rfl
  unfold Timer.getNextTimerInterrupt
  split_ifs
  · obtain ⟨R, hR, hearliest⟩ := nextTimerInterrupt_spec hinv (hnext.all_recent hdef)
    have hge := hearliest.ge
    have hle := hearliest.le_max
    refine ⟨hdef, s, R, { hinv with }, hR, by omega, by omega, fun id d hd hid => ?_, hnext.recent⟩
    obtain ⟨v, hon, hexpiry⟩ := hinv.on_of_due (hinv.pc_eq.symm.trans hpc) hd ((hdef id).trans hid)
    have htick := hearliest.le v id d hon
    rcases Nat.lt_or_ge s.now d.tick with hlt | hge
    · exact .inr ((hexpiry hlt).symm ▸ htick)
    · exact .inl (by omega)
  · exact ⟨hdef, s, N, hinv, hnext⟩

lemma Tracks.call (h : Tracks slack deferrable base) {base' : Base} {op : Op} {r : Reply}
    (hrange : InRange base op) (hcall : call base op = some (base', r)) :
    Tracks slack deferrable base' := by
  unfold Timer.call at hcall
  cases op with
  | modTimer id e =>
    dsimp only at hcall
    split_ifs at hcall
    cases hcall
    exact h.modTimer hrange.1 hrange.2
  | modTimerPending id e =>
    dsimp only at hcall
    split_ifs at hcall
    cases hcall
    exact h.internalModTimer hrange.2 hrange.1 true
  | addTimer id e =>
    dsimp only at hcall
    split_ifs at hcall
    obtain ⟨p, hp, hret⟩ := Option.map_eq_some_iff.mp hcall
    unfold addTimer at hp
    split_ifs at hp
    cases hp
    cases hret
    exact h.modTimer hrange.1 hrange.2
  | delTimer id =>
    dsimp only at hcall
    split_ifs at hcall
    cases hcall
    exact h.delTimer id
  | tick =>
    cases hcall
    obtain ⟨hdef, s, N, hinv, hnext⟩ := h
    refine ⟨hdef, { s with jiffies := plus s.jiffies 1 }, N, { hinv with jiffies_eq := ?_ },
      hnext.of_due rfl fun _ _ hd => hd⟩
    rw [hinv.jiffies_eq]
  | runTimers =>
    dsimp only at hcall
    split_ifs at hcall with hpc
    cases hcall
    obtain ⟨hdef, s, N, hinv, hnext⟩ := h
    exact ⟨hdef, { s with pc := .outer }, N, { hinv with
      pc_eq := rfl
      work_nil := fun _ => hinv.work_nil (.inl (hinv.pc_eq.symm.trans hpc)) },
      hnext.of_due rfl fun _ _ hd => hd⟩
  | step => exact h.runStep hrange hcall
  | nextInterrupt =>
    dsimp only at hcall
    split_ifs at hcall with hpc
    cases hcall
    exact h.getNextTimerInterrupt hpc

lemma Tracks.init (jiffies : ℕ) (timer : ℕ → TimerList) :
    Tracks (fun id => (timer id).slack) (fun id => (timer id).deferrable) (init jiffies timer) :=
  ⟨fun _ => rfl, Schedule.init jiffies, jiffies, Inv.init jiffies timer, {
    eq := (toU32_natCast jiffies).symm
    lt := sub_lt_self _ (by norm_num)
    lt_now := lt_add_of_pos_right _ (by norm_num)
    le := fun _ _ hd => by cases hd
    recent := fun _ _ hd => by cases hd }⟩

lemma Next.waiting (hnext : Next s deferrable base.nextTimer N) (h : Inv slack s base)
    (hdef : ∀ id, (base.timer id).deferrable = deferrable id) (hwait : Waiting base id) :
    ∃ d, s.due id = some d ∧ offset base (base.timer id).expires = d.expiry - s.now ∧
      deferrable id = false := by
  have hpending := hwait.1
  rw [(h.timers id).pending_eq, Option.isSome_iff_exists] at hpending
  obtain ⟨d, hd⟩ := hpending
  have hid := (hdef id).symm.trans hwait.2
  have hrecent := hnext.recent id d hd hid
  obtain ⟨hle, hlt⟩ := h.tick_range hd
  have hexpiry := d.expiry_le
  obtain ⟨p, hp⟩ := h.listed id d hd
  refine ⟨d, hd, ?_, hid⟩
  rw [(h.timers id).expires_eq d hd, Due.expires_eq (h.stored.due_eq hp hd).1]
  exact h.offset_eq (by omega) (by omega)

end

/-- As long as the times stay comparable, `next_timer` is not later than any timer that has to be
found, unless it has come; `__next_timer_interrupt` gives the earliest of them, up to
`NEXT_TIMER_MAX_DELTA`, and a time that has come if there is one in the past. -/
theorem next_timer_never_late {jiffies : ℕ} {timer : ℕ → TimerList} {base : Base}
    (h : call.Reach InRange (init jiffies timer) base) :
    (0 < offset base base.nextTimer → ∀ id, Waiting base id →
        offset base base.nextTimer ≤ offset base (base.timer id).expires) ∧ (base.pc = .idle →
        ((∀ id, Waiting base id → 0 ≤ offset base (base.timer id).expires) →
          IsLeast (insert (nextTimerMaxDelta : ℤ)
              {t | ∃ id, Waiting base id ∧ t = offset base (base.timer id).expires})
            (offset base (nextTimerInterrupt base))) ∧
        ((∃ id, Waiting base id ∧ offset base (base.timer id).expires < 0) →
          offset base (nextTimerInterrupt base) ≤ 0)) := by
  obtain ⟨hdef, s, N, hinv, hnext⟩ := h.invariant (Tracks.init jiffies timer)
    fun _ _ _ _ htracks hrange hcall => htracks.call hrange hcall
  have hN := hnext.lt
  have hN' := hnext.lt_now
  have hmax : nextTimerMaxDelta = 2 ^ 30 - 1 := rfl
  constructor
  · intro hpos id hwait
    obtain ⟨d, hd, hoffset, hid⟩ := hnext.waiting hinv hdef hwait
    rw [hnext.eq, hinv.offset_eq (by omega) (by omega)] at hpos ⊢
    have hle := hnext.le id d hd hid
    omega
  · intro hpc
    obtain ⟨R, hR, hearliest⟩ := nextTimerInterrupt_spec hinv (hnext.all_recent hdef)
    have hge := hearliest.ge
    have hle := hearliest.le_max
    rw [hR, hinv.offset_eq (by omega) (by omega)]
    have hfound : ∀ id d, s.due id = some d → Waiting base id → R ≤ d.tick ∧
        (s.now < d.tick → d.expiry = d.tick) := by
      intro id d hd hwait
      obtain ⟨v, hon, hexpiry⟩ := hinv.on_of_due (hinv.pc_eq.symm.trans hpc) hd hwait.2
      exact ⟨hearliest.le v id d hon, hexpiry⟩
    constructor
    · intro hpast
      refine ⟨?_, ?_⟩
      · rcases hearliest.attained with heq | ⟨j, id, d, hon, heq⟩
        · exact .inl (by omega)
        · obtain ⟨i, hmem⟩ := hon.mem
          have hwait : Waiting base id := by
            refine ⟨?_, (mem_candidates.mp hmem).2⟩
            rw [(hinv.timers id).pending_eq, hon.due_eq]
            rfl
          obtain ⟨d', hd', hoffset, -⟩ := hnext.waiting hinv hdef hwait
          cases hd'.symm.trans hon.due_eq
          exact .inr ⟨id, hwait, by omega⟩
      · rintro t (rfl | ⟨id, hwait, rfl⟩)
        · omega
        · obtain ⟨d, hd, hoffset, -⟩ := hnext.waiting hinv hdef hwait
          obtain ⟨hle', hexpiry⟩ := hfound id d hd hwait
          have hnot := hpast id hwait
          rcases Nat.lt_or_ge s.now d.tick with hlt | hge'
          · have heq := hexpiry hlt
            omega
          · omega
    · rintro ⟨id, hwait, hpast⟩
      obtain ⟨d, hd, hoffset, -⟩ := hnext.waiting hinv hdef hwait
      obtain ⟨hle', hexpiry⟩ := hfound id d hd hwait
      rcases Nat.lt_or_ge s.now d.tick with hlt | hge'
      · have heq := hexpiry hlt
        omega
      · omega

def plainTimer : TimerList := ⟨0, false, 0, false⟩

/-- The earlier one of two timers is found. -/
theorem next_timer_never_late_two : ∃ base, call.Reach InRange (init 0 fun _ => plainTimer) base ∧
    offset base base.nextTimer = 5 ∧ Waiting base 2 ∧
      ∀ id, Waiting base id → 5 ≤ offset base (base.timer id).expires := by
  have hreach : ∃ base, call.Reach InRange (init 0 fun _ => plainTimer) base ∧
      offset base base.nextTimer = 5 ∧ Waiting base 2 :=
    ⟨_, .call (i := .nextInterrupt) (.call (i := .addTimer 2 9)
      (.call (i := .addTimer 1 5) .start ⟨by decide, fun _ => by decide⟩ rfl)
      ⟨by decide, fun _ => by decide⟩ rfl) trivial rfl, by decide, rfl, rfl⟩
  obtain ⟨base, hreach, hnext, hwait⟩ := hreach
  have hall := (next_timer_never_late hreach).1
  rw [hnext] at hall
  exact ⟨base, hreach, hnext, hwait, hall (by decide)⟩

/-- With `next_timer` left behind, a timer almost `2 ^ 31` ticks ahead passes for an earlier one:
the timer that expires in four ticks would be slept over. And a timer that has expired is found like
any other. -/
theorem next_timer_late : (∃ base rs, call.run (init 0 fun _ => plainTimer)
        [.runTimers, .step, .step, .step, .addTimer 1 5, .addTimer 2 (2 ^ 31)] = some (base, rs) ∧
      0 < offset base base.nextTimer ∧ Waiting base 1 ∧
      offset base (base.timer 1).expires < offset base base.nextTimer) ∧
    ∃ base rs, call.run (init 1 fun _ => plainTimer) [.addTimer 1 0] = some (base, rs) ∧
      base.pc = .idle ∧ offset base (base.timer 1).expires < 0 ∧ (∀ id, Waiting base id → id = 1) ∧
      offset base (nextTimerInterrupt base) < nextTimerMaxDelta := by
  refine ⟨⟨_, _, rfl, by decide, ⟨rfl, rfl⟩, by decide⟩,
    (modTimer (init 1 fun _ => plainTimer) 1 0).1, _, rfl, rfl, by decide, ?_, by decide⟩
  have htimer : (modTimer (init 1 fun _ => plainTimer) 1 0).1.timer =
      update (fun _ => plainTimer) 1 ⟨0, false, 0, true⟩ := rfl
  intro id hwait
  by_contra hne
  have hpending := hwait.1
  rw [htimer, update_of_ne hne] at hpending
  cases hpending

end Am335x.Timer
