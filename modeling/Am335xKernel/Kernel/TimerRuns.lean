import Am335xKernel.Kernel.TimerWheel

/-!
# Every timer runs in its tick

For its users the wheel is a table of the pending timers, each with the tick in which it is due
(`Schedule`). `__run_timers` takes one tick after the other, calls the functions of just the timers
that are due, and leaves a tick only when there are no more of them.
-/

namespace Am335x.Timer

open Function Buckets

/-- The pending timers. `now` is the tick that comes next; while `__run_timers` is in its inner
loop, that is the one behind the tick that it runs. -/
structure Schedule where
  jiffies : ℕ
  now : ℕ
  due : ℕ → Option Due
  pc : Pc

def Schedule.put (s : Schedule) (id expires : ℕ) : Schedule :=
  { s with due := update s.due id (some (dueAt s.now expires)) }

def Schedule.modify (s : Schedule) (id expires : ℕ) : Schedule :=
  if (s.due id).map Due.expires = some expires then s else s.put id expires

def Schedule.remove (s : Schedule) (id : ℕ) : Schedule :=
  { s with due := update s.due id none }

/-- One step of `__run_timers`. -/
def Schedule.advance (s : Schedule) : Reply → Schedule
  | .iteration => { s with now := s.now + 1, pc := .inner }
  | .finished => { s with pc := .idle }
  | .called id => { s.remove id with pc := .callback }
  | .returned => { s with pc := .inner }
  | .drained => { s with pc := .outer }
  | _ => s

/-- Timers are set and deleted while the lock is free. A step of `__run_timers` begins a tick once
`jiffies` has come to it. In the tick, it calls the function of a timer that is due then, or has
called all of them. -/
def wheelContract (slack : ℕ → ℤ) : Contract Schedule Op Reply where
  allowed s
    | .modTimer _ e => s.pc.unlocked = true ∧ e < 2 ^ 32
    | .modTimerPending _ e => s.pc.unlocked = true ∧ e < 2 ^ 32
    | .addTimer id e => s.pc.unlocked = true ∧ e < 2 ^ 32 ∧ s.due id = none
    | .delTimer _ => s.pc.unlocked = true
    | .tick => True
    | .runTimers => s.pc = .idle
    | .step => s.pc ≠ .idle
    | .nextInterrupt => s.pc = .idle
  ok s
    | .modTimer id _, r => r = .ret (if (s.due id).isSome then 1 else 0)
    | .modTimerPending id _, r => r = .ret (if (s.due id).isSome then 1 else 0)
    | .addTimer _ _, r => r = .ret 0
    | .delTimer id, r => r = .ret (if (s.due id).isSome then 1 else 0)
    | .tick, r => r = .done
    | .runTimers, r => r = .done
    | .step, r =>
      match s.pc with
      | .idle => False
      | .outer => r = if timeAfterEq s.jiffies (s.now % 2 ^ 32) then .iteration else .finished
      | .inner =>
        (∃ id d, r = .called id ∧ s.due id = some d ∧ d.tick + 1 = s.now) ∨
          r = .drained ∧ ∀ id d, s.due id = some d → s.now ≤ d.tick
      | .callback => r = .returned
    | .nextInterrupt, r => ∃ n, r = .ret n
  next s
    | .modTimer id e, _ => s.modify id (applySlack (slack id) s.jiffies e)
    | .modTimerPending id e, _ => if s.due id = none then s else s.put id e
    | .addTimer id e, _ => s.modify id (applySlack (slack id) s.jiffies e)
    | .delTimer id, _ => s.remove id
    | .tick, _ => { s with jiffies := plus s.jiffies 1 }
    | .runTimers, _ => { s with pc := .outer }
    | .step, r => s.advance r
    | .nextInterrupt, _ => s

/-- The schedule is that of the base. In the tick in which a timer is due, `timer_jiffies` is the
time when it expires, unless that had passed when it was added. -/
structure Shows (s : Schedule) (base : Base) : Prop where
  ticks : base.timerJiffies = s.now % 2 ^ 32
  pending : ∀ id, (base.timer id).pending = (s.due id).isSome
  expires : ∀ id d, s.due id = some d → (base.timer id).expires = d.expires ∧
    (d.tick % 2 ^ 32 = d.expires ∨ d.Passed)

structure Matches (slack : ℤ) (t : TimerList) (d : Option Due) : Prop where
  slack_eq : t.slack = slack
  pending_eq : t.pending = d.isSome
  expires_eq : ∀ x, d = some x → t.expires = x.expires

structure Inv (slack : ℕ → ℤ) (s : Schedule) (base : Base) : Prop where
  jiffies_eq : base.jiffies = s.jiffies
  ticks : base.timerJiffies = s.now % 2 ^ 32
  pc_eq : base.pc = s.pc
  timers : ∀ id, Matches (slack id) (base.timer id) (s.due id)
  stored : Stored s.due s.now base.vec
  listed : ∀ id d, s.due id = some d → ∃ p, id ∈ base.vec p
  work_nil : s.pc = .idle ∨ s.pc = .outer → base.vec .work = []

section

variable {slack : ℕ → ℤ} {s : Schedule} {base : Base} {id e : ℕ}

lemma Inv.shows (h : Inv slack s base) : Shows s base := by
  refine ⟨h.ticks, fun id => (h.timers id).pending_eq, fun id d hd => ?_⟩
  obtain ⟨p, hp⟩ := h.listed id d hd
  exact ⟨(h.timers id).expires_eq d hd, (h.stored.due_eq hp hd).2.tick_mod⟩

lemma matches_update {timer : ℕ → TimerList} {due : ℕ → Option Due} {t : TimerList}
    {d : Option Due} (h : ∀ i, Matches (slack i) (timer i) (due i)) (hid : Matches (slack id) t d)
    (i : ℕ) : Matches (slack i) (update timer id t i) (update due id d i) := by
  rcases eq_or_ne i id with rfl | hne
  · rw [update_self, update_self]
    exact hid
  · rw [update_of_ne hne, update_of_ne hne]
    exact h i

section

variable {due : ℕ → Option Due} {now : ℕ} {b : Place → List ℕ}

section

variable (h : Stored due now b)
include h

lemma Stored.not_mem (hnone : due id = none) (p : Place) : id ∉ b p := by
  intro hmem
  obtain ⟨d, hd, -⟩ := h.place p id hmem
  rw [hnone] at hd
  cases hd

lemma Stored.remove (id : ℕ) : Stored (update due id none) now (Buckets.drop b id) := by
  refine ⟨h.apart.drop id, fun p i hmem => ?_⟩
  obtain ⟨hold, hne⟩ := h.apart.mem_drop.mp hmem
  rw [update_of_ne hne]
  exact h.place p i hold

lemma Stored.add (hnone : due id = none) (he : e < 2 ^ 32) :
    Stored (update due id (some (dueAt now e))) now
      (Buckets.push b (listFor (now % 2 ^ 32) e) id) := by
  refine ⟨h.apart.push (h.not_mem hnone) _, fun p i hmem => ?_⟩
  rcases mem_push.mp hmem with hold | ⟨rfl, rfl⟩
  · have hne : i ≠ id := fun heq => h.not_mem hnone p (heq ▸ hold)
    rw [update_of_ne hne]
    exact h.place p i hold
  · rw [update_self]
    exact ⟨dueAt now e, rfl, he, (listFor_spec now he).1⟩

lemma Stored.drop_eq (hnone : due id = none) : Buckets.drop b id = b := by
  funext p
  exact List.erase_of_not_mem (h.not_mem hnone p)

end

end

lemma Inv.remove (h : Inv slack s base) (id next : ℕ) : Inv slack (s.remove id) { base with
      nextTimer := next
      vec := Buckets.drop base.vec id
      timer := update base.timer id { base.timer id with pending := false } } := by
  have hid : Matches (slack id) { base.timer id with pending := false } none :=
    ⟨(h.timers id).slack_eq, rfl, fun x hx => by cases hx⟩
  refine ⟨h.jiffies_eq, h.ticks, h.pc_eq, matches_update h.timers hid, h.stored.remove id,
    fun i d hd => ?_, fun hpc => ?_⟩
  · dsimp only [Schedule.remove] at hd
    have hne : i ≠ id := by
      rintro rfl
      rw [update_self] at hd
      cases hd
    rw [update_of_ne hne] at hd
    obtain ⟨p, hp⟩ := h.listed i d hd
    exact ⟨p, h.stored.apart.mem_drop.mpr ⟨hp, hne⟩⟩
  · show (base.vec .work).erase id = []
    rw [h.work_nil hpc]
    rfl

lemma Inv.put (h : Inv slack s base) (id next : ℕ) (he : e < 2 ^ 32) :
    Inv slack (s.put id e) { base with
      nextTimer := next
      vec := Buckets.push (Buckets.drop base.vec id) (listFor base.timerJiffies e) id
      timer := update base.timer id
        { base.timer id with expires := e, pending := true } } := by
  have hid : Matches (slack id) { base.timer id with expires := e, pending := true }
      (some (dueAt s.now e)) :=
    ⟨(h.timers id).slack_eq, rfl, fun x hx => by rw [← Option.some.inj hx]; rfl⟩
  have hstored := (h.stored.remove id).add (update_self id none s.due) he
  rw [update_idem] at hstored
  refine ⟨h.jiffies_eq, h.ticks, h.pc_eq, matches_update h.timers hid, ?_, fun i d hd => ?_,
    fun hpc => ?_⟩
  · rw [h.ticks]
    exact hstored
  · rcases eq_or_ne i id with rfl | hne
    · exact ⟨_, mem_push.mpr (.inr ⟨rfl, rfl⟩)⟩
    · dsimp only [Schedule.put] at hd
      rw [update_of_ne hne] at hd
      obtain ⟨p, hp⟩ := h.listed i d hd
      exact ⟨p, mem_push.mpr (.inl (h.stored.apart.mem_drop.mpr ⟨hp, hne⟩))⟩
  · have hne : Place.work ≠ listFor base.timerJiffies e := (listFor_ne_work _ _).symm
    show push _ _ id Place.work = []
    rw [push, update_of_ne hne, drop, h.work_nil hpc]
    rfl

/-! The functions of the source. -/

lemma startTimer_eq (base : Base) (id e : ℕ) : startTimer base id e = { base with
      nextTimer := if timeBefore e base.nextTimer ∧ (base.timer id).deferrable = false then e
        else base.nextTimer
      vec := Buckets.push base.vec (listFor base.timerJiffies e) id
      timer := update base.timer id
        { base.timer id with expires := e, pending := true } } := by
  simp only [startTimer, internalAddTimer, update_self]
  split_ifs
  · simp
  · simp

lemma forgetNext_eq (base : Base) (id : ℕ) : ∃ next, forgetNext base id =
    { base with nextTimer := next } := by
  unfold forgetNext
  split_ifs
  · exact ⟨_, rfl⟩
  · exact ⟨base.nextTimer, rfl⟩

lemma Inv.internalModTimer (h : Inv slack s base) (id : ℕ) (he : e < 2 ^ 32) (pendingOnly : Bool) :
    Inv slack (if s.due id = none ∧ pendingOnly = true then s else s.put id e)
        (internalModTimer base id e pendingOnly).1 ∧
      (internalModTimer base id e pendingOnly).2 = if (s.due id).isSome then 1 else 0 := by
  have hpending := (h.timers id).pending_eq
  unfold Timer.internalModTimer
  rw [hpending]
  cases hdue : s.due id with
  | some d =>
    rw [if_neg fun hand => by cases hand.1]
    refine ⟨?_, rfl⟩
    obtain ⟨next, hnext⟩ := forgetNext_eq (detachTimer base id false) id
    simp only [Option.isSome_some, if_true]
    rw [hnext, startTimer_eq]
    exact h.put id _ he
  | none =>
    refine ⟨?_, ?_⟩
    · cases pendingOnly with
      | true => exact h
      | false =>
        simp only [Option.isSome_none, Bool.false_eq_true, if_false, and_false]
        have hput := h.put id (if timeBefore e base.nextTimer ∧
          (base.timer id).deferrable = false then e else base.nextTimer) he
        rw [h.stored.drop_eq hdue] at hput
        rw [startTimer_eq]
        exact hput
    · cases pendingOnly <;> rfl

lemma roundSlack_lt {limit : ℕ} (he : e < 2 ^ 32) (hlimit : limit < 2 ^ 32) :
    roundSlack e limit < 2 ^ 32 := by
  unfold roundSlack
  dsimp only
  split_ifs
  · exact he
  · exact (Nat.div_mul_le_self _ _).trans_lt hlimit

lemma applySlack_lt (slack : ℤ) (jiffies : ℕ) (he : e < 2 ^ 32) :
    applySlack slack jiffies e < 2 ^ 32 := by
  have hplus : ∀ x, plus e x < 2 ^ 32 := fun x => Nat.mod_lt _ (by decide)
  unfold applySlack
  split_ifs
  · exact roundSlack_lt he (hplus _)
  · exact he
  · exact roundSlack_lt he (hplus _)

section

variable (h : Inv slack s base)
include h

lemma Inv.modTimer (id : ℕ) (he : e < 2 ^ 32) :
    Inv slack (s.modify id (applySlack (slack id) s.jiffies e)) (modTimer base id e).1 ∧
      (modTimer base id e).2 = if (s.due id).isSome then 1 else 0 := by
  have hlt := applySlack_lt (slack id) s.jiffies he
  have hmatch := h.timers id
  unfold Timer.modTimer Schedule.modify
  rw [hmatch.slack_eq, h.jiffies_eq, hmatch.pending_eq]
  cases hdue : s.due id with
  | none =>
    rw [if_neg nofun, if_neg nofun]
    have hmod := h.internalModTimer id hlt false
    rw [if_neg nofun, hdue] at hmod
    exact hmod
  | some d =>
    rw [hmatch.expires_eq d hdue]
    by_cases heq : d.expires = applySlack (slack id) s.jiffies e
    · rw [if_pos (by simp [heq]), if_pos ⟨rfl, heq⟩]
      exact ⟨h, rfl⟩
    · rw [if_neg (by simp [heq]), if_neg fun hand => heq hand.2]
      have hmod := h.internalModTimer id hlt false
      rw [if_neg nofun, hdue] at hmod
      exact hmod

lemma Inv.delTimer (id : ℕ) : Inv slack (s.remove id) (delTimer base id).1 ∧
      (delTimer base id).2 = if (s.due id).isSome then 1 else 0 := by
  unfold Timer.delTimer
  rw [(h.timers id).pending_eq]
  cases hdue : s.due id with
  | some d =>
    obtain ⟨next, hnext⟩ := forgetNext_eq (detachTimer base id true) id
    simp only [Option.isSome_some, if_true, and_true]
    rw [hnext]
    exact h.remove id next
  | none =>
    have hsame : s.remove id = s := by
      unfold Schedule.remove
      rw [← hdue, update_eq_self]
    rw [hsame]
    exact ⟨h, rfl⟩

/-- **The next tick.** The timers that are due are on the work list. -/
lemma Inv.iteration (hpc : s.pc = .outer) :
    Inv slack { s with now := s.now + 1, pc := .inner } (iteration base) := by
  have hexp : ∀ id d, s.due id = some d → (base.timer id).expires = d.expires := fun id d hd =>
    (h.timers id).expires_eq d hd
  obtain ⟨b, hb, hre, hclear⟩ := cascadeAll_spec h.ticks hexp h.stored
  have hslot : base.timerJiffies &&& tvrMask = wheel.slot 0 s.now := by
    rw [and_tvrMask, h.ticks, slot_mod (by omega)]
  have hiter : Timer.iteration base = { base with
      timerJiffies := plus base.timerJiffies 1
      vec := move b (.tv 0 (wheel.slot 0 s.now)) .work
      pc := .inner } := by
    unfold Timer.iteration
    rw [hb, hslot]
  rw [hiter]
  refine ⟨h.jiffies_eq, ?_, rfl, h.timers, ⟨hre.stored.apart.move _ _, fun p id hid => ?_⟩,
    fun id d hd => ?_, fun hpc => ?_⟩
  · show (base.timerJiffies + 1) % 2 ^ 32 = (s.now + 1) % 2 ^ 32
    rw [h.ticks, Nat.mod_add_mod]
  · rcases mem_move.mp hid with ⟨rfl, hold⟩ | ⟨hne, hne', hold⟩
    · -- the list of the tick
      obtain ⟨d, hd, hlt, hat⟩ := hre.stored.place _ id hold
      have htick : d.tick = s.now := by
        have heq := hat.2.2.1.start_eq_iff.mpr ⟨Nat.one_dvd _, hat.2.1.symm⟩
        rwa [wheel.start_zero] at heq
      exact ⟨d, hd, hlt, by rw [htick], hat.tick_mod⟩
    · obtain ⟨d, hd, hlt, hat⟩ := hre.stored.place _ id hold
      refine ⟨d, hd, hlt, ?_⟩
      cases p with
      | work => exact absurd rfl hne
      | tv v i => exact hat.succ (fun hv => hclear v hv i id d hold hd) hne'
  · obtain ⟨p, hp⟩ := (hre.mem_iff id).mpr (h.listed id d hd)
    by_cases heq : p = .tv 0 (wheel.slot 0 s.now)
    · subst heq
      refine ⟨.work, ?_⟩
      show id ∈ move b _ Place.work Place.work
      exact mem_move.mpr (.inl ⟨rfl, hp⟩)
    · refine ⟨p, mem_move.mpr (.inr ⟨?_, heq, hp⟩)⟩
      rintro rfl
      rw [hre.work_iff, h.work_nil (.inr hpc)] at hp
      cases hp
  · rcases hpc with hpc | hpc <;> cases hpc

lemma Inv.runStep (hpc : s.pc ≠ .idle) :
    ∃ base' r, runStep base = some (base', r) ∧ (wheelContract slack).ok s .step r ∧
      Inv slack (s.advance r) base' := by
  have hpc' := h.pc_eq
  unfold Timer.runStep
  cases hs : s.pc with
  | idle => exact absurd hs hpc
  | outer =>
    rw [hpc', hs]
    split_ifs with hafter
    · refine ⟨_, _, rfl, ?_, h.iteration hs⟩
      simp only [wheelContract, hs]
      rw [← h.jiffies_eq, ← h.ticks, if_pos hafter]
    · refine ⟨_, _, rfl, ?_, { h with pc_eq := rfl, work_nil := fun _ => h.work_nil (.inr hs) }⟩
      simp only [wheelContract, hs]
      rw [← h.jiffies_eq, ← h.ticks, if_neg hafter]
  | inner =>
    rw [hpc', hs]
    cases hwork : base.vec .work with
    | nil =>
      refine ⟨_, _, rfl, ?_, { h with pc_eq := rfl, work_nil := fun _ => hwork }⟩
      simp only [wheelContract, hs]
      refine .inr ⟨trivial, fun id d hd => ?_⟩
      obtain ⟨p, hp⟩ := h.listed id d hd
      have hat := (h.stored.due_eq hp hd).2
      cases p with
      | work =>
        rw [hwork] at hp
        cases hp
      | tv v i => exact hat.2.2.1.le_due
    | cons id rest =>
      have hmem : id ∈ base.vec .work := hwork ▸ List.mem_cons_self
      obtain ⟨d, hd, -, hat⟩ := h.stored.place .work id hmem
      have hremove := h.remove id base.nextTimer
      refine ⟨_, _, rfl, ?_, { hremove with pc_eq := rfl, work_nil := fun hor => ?_ }⟩
      · simp only [wheelContract, hs]
        exact .inl ⟨id, d, rfl, hd, hat.1⟩
      · rcases hor with hor | hor <;> cases hor
  | callback =>
    rw [hpc', hs]
    refine ⟨_, _, rfl, ?_, { h with pc_eq := rfl, work_nil := fun hor => ?_ }⟩
    · simp [wheelContract, hs]
    · rcases hor with hor | hor <;> cases hor

lemma Inv.call {op : Op} (ha : (wheelContract slack).allowed s op) :
    ∃ base' r, call base op = some (base', r) ∧ (wheelContract slack).ok s op r ∧
      Inv slack ((wheelContract slack).next s op r) base' := by
  unfold Timer.call
  cases op with
  | modTimer id e =>
    obtain ⟨hinv, hret⟩ := h.modTimer id ha.2
    dsimp only
    rw [h.pc_eq, if_pos ha.1]
    exact ⟨_, _, rfl, congrArg Reply.ret hret, hinv⟩
  | modTimerPending id e =>
    obtain ⟨hinv, hret⟩ := h.internalModTimer id ha.2 true
    dsimp only
    rw [h.pc_eq, if_pos ha.1]
    refine ⟨_, _, rfl, congrArg Reply.ret hret, ?_⟩
    simp only [and_true] at hinv
    exact hinv
  | addTimer id e =>
    obtain ⟨hinv, hret⟩ := h.modTimer id ha.2.1
    have hpending := (h.timers id).pending_eq
    rw [ha.2.2] at hpending hret
    dsimp only
    rw [h.pc_eq, if_pos ha.1]
    unfold Timer.addTimer
    rw [hpending]
    exact ⟨_, _, rfl, congrArg Reply.ret hret, hinv⟩
  | delTimer id =>
    obtain ⟨hinv, hret⟩ := h.delTimer id
    have hpc : s.pc.unlocked = true := ha
    dsimp only
    rw [h.pc_eq, if_pos hpc]
    exact ⟨_, _, rfl, congrArg Reply.ret hret, hinv⟩
  | tick =>
    refine ⟨_, _, rfl, rfl, { h with jiffies_eq := ?_ }⟩
    show plus base.jiffies 1 = plus s.jiffies 1
    rw [h.jiffies_eq]
  | runTimers =>
    have hpc : s.pc = .idle := ha
    rw [h.pc_eq, if_pos hpc]
    exact ⟨_, _, rfl, rfl, { h with pc_eq := rfl, work_nil := fun _ => h.work_nil (.inl hpc) }⟩
  | step => exact h.runStep ha
  | nextInterrupt =>
    have hpc : s.pc = .idle := ha
    dsimp only
    rw [h.pc_eq, if_pos hpc]
    refine ⟨_, _, rfl, ⟨_, rfl⟩, ?_⟩
    unfold getNextTimerInterrupt
    split_ifs
    · exact { h with }
    · exact h

end

end

def Schedule.init (jiffies : ℕ) : Schedule := ⟨jiffies % 2 ^ 32, jiffies, fun _ => none, .idle⟩

lemma Inv.init (jiffies : ℕ) (timer : ℕ → TimerList) :
    Inv (fun id => (timer id).slack) (Schedule.init jiffies) (init jiffies timer) where
  jiffies_eq := rfl
  ticks := rfl
  pc_eq := rfl
  timers id := ⟨rfl, rfl, fun x hx => by cases hx⟩
  stored := ⟨Buckets.Apart.empty, fun p id hmem => by cases hmem⟩
  listed id d hd := by cases hd
  work_nil _ := rfl

/-- Over any calls that set and delete timers, also from the functions of timers, and any ticks,
`__run_timers` calls the function of a pending timer in the tick in which it is due, and does not
leave the tick before; no other function is called. -/
theorem timers_run_when_due (jiffies : ℕ) (timer : ℕ → TimerList) (ops : List Op) :
    call.Keeps (wheelContract fun id => (timer id).slack) Shows (Schedule.init jiffies)
      (init jiffies timer) ops :=
  Component.keeps_of_step (I := Inv fun id => (timer id).slack) (fun _ _ h => h.shows)
    (fun _ _ _ h ha => h.call ha) (Inv.init jiffies timer) ops

theorem timers_run_when_due_tick : ∃ s base rs, call.run (init 0 fun _ => ⟨0, false, 0, false⟩)
    [.addTimer 1 5, .tick, .runTimers, .step] = some (base, rs) ∧ Shows s base := by
  refine (timers_run_when_due 0 _ [.addTimer 1 5, .tick, .runTimers, .step]).run ?_
  simp [Contract.Allows, wheelContract, Schedule.init, Schedule.modify, Schedule.put, Pc.unlocked]

end Am335x.Timer
