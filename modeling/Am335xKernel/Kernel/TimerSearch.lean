import Am335xKernel.Lib.CInt
import Am335xKernel.Kernel.TimerRuns

/-!
# The search for the next timer

`__next_timer_interrupt` goes through the lists of a level in the order of their time, up to the
first one with a timer. If that is behind the next cascade, a list of the level above is as early,
and only that one: the first of its level that has not been cascaded. What the search has found so
far, with the first `v` levels done, is said by `Found`; at its end there is no earlier timer
(`Earliest`).

Times are integers here, and `toU32` brings them into 32 bits.
-/

namespace Am335x.Timer

open CInt List Nat

lemma toU32_natCast (n : ℕ) : toU32 n = n % 2 ^ 32 := by
  unfold toU32
  omega

lemma diff_toU32 (x y : ℤ) : diff (toU32 x) (toU32 y) = toU32 (x - y) := by
  unfold diff toU32
  omega

lemma plus_toU32 (x : ℤ) (n : ℕ) : plus (toU32 x) n = toU32 (x + n) := by
  unfold plus toU32
  omega

lemma timeBefore_toU32 {x y : ℤ} (h : y ≤ x + 2 ^ 31) (h' : x < y + 2 ^ 31) :
    timeBefore (toU32 x) (toU32 y) = true ↔ x < y := by
  unfold timeBefore timeAfterEq
  rw [diff_toU32, Bool.not_eq_true', decide_eq_false_iff_not]
  unfold toU32
  omega

def Due.expiry (d : Due) : ℤ :=
  if d.tick % 2 ^ 32 = d.expires then d.tick
  else d.tick + diff d.expires (d.tick % 2 ^ 32) - 2 ^ 32

lemma Due.expires_eq {d : Due} (h : d.expires < 2 ^ 32) : d.expires = toU32 d.expiry := by
  unfold expiry
  split_ifs with heq
  · rw [toU32_natCast, heq]
  · have hadd := add_diff d.tick h
    unfold toU32
    omega

lemma Due.expiry_le (d : Due) : d.expiry ≤ d.tick := by
  unfold expiry
  split_ifs
  · exact le_rfl
  · have hlt := diff_lt d.expires (d.tick % 2 ^ 32)
    omega

lemma At.expiry_eq {now v i : ℕ} {d : Due} (h : At now d (.tv v i)) (hlt : now < d.tick) :
    d.expiry = d.tick := by
  obtain ⟨-, -, -, ⟨hmod, -⟩ | ⟨-, htick, -⟩⟩ := h
  · exact if_pos hmod
  · omega

lemma foldl_earliest {x : ℕ → ℕ} {t : ℕ → ℤ} {a : ℤ} {l : List ℕ}
    (hx : ∀ id ∈ l, x id = toU32 (t id)) (hle : ∀ id ∈ l, a ≤ t id)
    (hlt : ∀ id ∈ l, t id < a + 2 ^ 31) {R : ℤ} (hR : R < a + 2 ^ 31)
    (hnear : ∀ id ∈ l, t id < R + 2 ^ 31) :
    ∃ R', l.foldl (fun expires id => if timeBefore (x id) expires then x id else expires)
        (toU32 R) = toU32 R' ∧ R' ≤ R ∧ (∀ id ∈ l, R' ≤ t id) ∧ (R' = R ∨ ∃ id ∈ l, R' = t id) := by
  induction l generalizing R with
  | nil => exact ⟨R, rfl, le_rfl, nofun, .inl rfl⟩
  | cons id l ih =>
    obtain ⟨hxid, hx⟩ := forall_mem_cons.mp hx
    obtain ⟨hleid, hle⟩ := forall_mem_cons.mp hle
    obtain ⟨hltid, hlt⟩ := forall_mem_cons.mp hlt
    obtain ⟨hnearid, hnear⟩ := forall_mem_cons.mp hnear
    have hbefore : timeBefore (x id) (toU32 R) = true ↔ t id < R := by
      rw [hxid]
      exact timeBefore_toU32 (by omega) hnearid
    rw [foldl_cons]
    by_cases hid : t id < R
    · rw [if_pos (hbefore.mpr hid), hxid]
      have hnear' : ∀ i ∈ l, t i < t id + 2 ^ 31 := by
        intro i hi
        have hlti := hlt i hi
        omega
      obtain ⟨R', hfold, hle', hall, hor⟩ := ih hx hle hlt hltid hnear'
      refine ⟨R', hfold, hle'.trans hid.le, forall_mem_cons.mpr ⟨hle', hall⟩, .inr ?_⟩
      rcases hor with rfl | ⟨i, hi, heq⟩
      · exact ⟨id, mem_cons_self, rfl⟩
      · exact ⟨i, mem_cons_of_mem id hi, heq⟩
    · rw [if_neg fun htrue => hid (hbefore.mp htrue)]
      obtain ⟨R', hfold, hle', hall, hor⟩ := ih hx hle hlt hR hnear
      refine ⟨R', hfold, hle', forall_mem_cons.mpr ⟨by omega, hall⟩, ?_⟩
      exact hor.imp_right fun ⟨i, hi, heq⟩ => ⟨i, mem_cons_of_mem id hi, heq⟩

structure On (s : Schedule) (base : Base) (v id : ℕ) (d : Due) : Prop where
  mem : ∃ i, id ∈ candidates base (.tv v i)
  due_eq : s.due id = some d

/-- No timer has expired more than `2 ^ 30` ticks before it was added. -/
def Recent (s : Schedule) (base : Base) : Prop :=
  ∀ id d, s.due id = some d → (base.timer id).deferrable = false → (d.tick : ℤ) - 2 ^ 30 ≤ d.expiry

section

variable {slack : ℕ → ℤ} {s : Schedule} {base : Base} {v id : ℕ} {d : Due} {p : Place}

lemma mem_candidates :
    id ∈ candidates base p ↔ id ∈ base.vec p ∧ (base.timer id).deferrable = false := by
  unfold candidates
  rw [mem_filter, Bool.not_eq_true']

section

variable (h : Inv slack s base)
include h

lemma Inv.at_of_mem (hmem : id ∈ candidates base p) :
    ∃ d, s.due id = some d ∧ At s.now d p ∧ (base.timer id).expires = toU32 d.expiry := by
  obtain ⟨d, hd, hlt, hat⟩ := h.stored.place p id (mem_candidates.mp hmem).1
  exact ⟨d, hd, hat, ((h.timers id).expires_eq d hd).trans (Due.expires_eq hlt)⟩

lemma On.at_slot (hon : On s base v id d) : id ∈ candidates base (.tv v (wheel.slot v d.tick)) ∧
      At s.now d (.tv v (wheel.slot v d.tick)) := by
  obtain ⟨i, hi⟩ := hon.mem
  obtain ⟨d', hd', hat, -⟩ := h.at_of_mem hi
  cases hd'.symm.trans hon.due_eq
  obtain rfl := hat.2.1
  exact ⟨hi, hat⟩

section

variable (hon : On s base (v + 1) id d)
include hon

lemma On.block : wheel.first (v + 1) s.now ≤ d.tick / wheel.span (v + 1) ∧
      d.tick / wheel.span (v + 1) < wheel.first (v + 1) s.now + 64 ∧
      id ∈ candidates base (.tv (v + 1) (d.tick / wheel.span (v + 1) % 64)) := by
  obtain ⟨hmem, hat⟩ := hon.at_slot h
  exact ⟨hat.2.2.1.first_le, hat.2.2.1.div_lt, hmem⟩

lemma On.block_eq {j : ℕ} (hj : j < 64)
    (hslot : wheel.slot (v + 1) d.tick = (wheel.first (v + 1) s.now + j) % 64) :
    d.tick / wheel.span (v + 1) = wheel.first (v + 1) s.now + j := by
  obtain ⟨hle, hlt, -⟩ := hon.block h
  have hmod : d.tick / wheel.span (v + 1) % 64 = (wheel.first (v + 1) s.now + j) % 64 := hslot
  omega

lemma On.expiry_eq : d.expiry = d.tick := by
  obtain ⟨-, -, -, ⟨hmod, -⟩ | ⟨hzero, -⟩⟩ := (hon.at_slot h).2
  · exact if_pos hmod
  · cases hzero

end

lemma On.le_tick (hon : On s base v id d) : s.now ≤ d.tick ∧ d.tick < s.now + 2 ^ 31 := by
  obtain ⟨-, -, hplaced, ⟨-, hlt⟩ | ⟨-, htick, -⟩⟩ := (hon.at_slot h).2
  · exact ⟨hplaced.le_due, hlt⟩
  · omega

end

end

/-- With the levels below `v` done, `R` is the earliest time. If there was a timer, it is due before
the second list of the next level begins. -/
structure Found (s : Schedule) (base : Base) (v : ℕ) (found : Bool) (R : ℤ) : Prop where
  le : ∀ j < v, ∀ id d, On s base j id d → R ≤ d.tick
  le_max : R ≤ s.now + nextTimerMaxDelta
  ge : (s.now : ℤ) - 2 ^ 30 ≤ R
  attained : R = s.now + nextTimerMaxDelta ∨ ∃ j id d, On s base j id d ∧ R = d.expiry
  none_found : found = false →
    R = s.now + nextTimerMaxDelta ∧ ∀ j < v, ∀ id d, ¬ On s base j id d
  near : found = true → ∃ j id d, j < v ∧ On s base j id d ∧
    d.tick < (wheel.first v s.now + 1) * wheel.span v

structure Earliest (s : Schedule) (base : Base) (R : ℤ) : Prop where
  le : ∀ j id d, On s base j id d → R ≤ d.tick
  le_max : R ≤ s.now + nextTimerMaxDelta
  ge : (s.now : ℤ) - 2 ^ 30 ≤ R
  attained : R = s.now + nextTimerMaxDelta ∨ ∃ j id d, On s base j id d ∧ R = d.expiry

section

variable {slack : ℕ → ℤ} {s : Schedule} {base : Base} {v : ℕ} {found : Bool} {R : ℤ}

lemma first_succ (v n : ℕ) : wheel.first (v + 2) n = (wheel.first (v + 1) n + 63) / 64 := by
  refine eq_of_forall_ge_iff fun c => ?_
  rw [TimingWheel.first_succ_le_iff]
  show wheel.first (v + 1) n ≤ c * 64 ↔ _
  omega

lemma span_succ_succ (v : ℕ) : wheel.span (v + 2) = wheel.span (v + 1) * 64 := rfl

variable (h : Inv slack s base) (hF : Found s base (v + 1) found R) {index slot x fuel : ℕ} {j : ℕ}

include h hF in
lemma earliest_spec (hv : v < 4) (hj : j < 64) (hfirst : found = true → j = 0) :
    ∃ R', earliest base (.tv (v + 1) ((wheel.first (v + 1) s.now + j) % 64)) (toU32 R) = toU32 R' ∧
      R' ≤ R ∧ (s.now : ℤ) - 2 ^ 30 ≤ R' ∧ (∀ id d, On s base (v + 1) id d →
        d.tick / wheel.span (v + 1) = wheel.first (v + 1) s.now + j → R' ≤ d.tick) ∧
      (R' = R ∨ ∃ id d, On s base (v + 1) id d ∧ R' = d.expiry) := by
  -- the timers of the list, each with its time
  have hlist : ∀ id ∈ candidates base (.tv (v + 1) ((wheel.first (v + 1) s.now + j) % 64)),
      ∃ d, On s base (v + 1) id d ∧ (base.timer id).expires = toU32 d.expiry ∧
        d.tick / wheel.span (v + 1) = wheel.first (v + 1) s.now + j ∧
        ((s.due id).map Due.expiry).getD 0 = d.expiry := by
    intro id hmem
    obtain ⟨d, hd, hat, hexp⟩ := h.at_of_mem hmem
    have hon : On s base (v + 1) id d := ⟨⟨_, hmem⟩, hd⟩
    refine ⟨d, hon, hexp, hon.block_eq h hj hat.2.1.symm, ?_⟩
    rw [hd]
    rfl
  have hnear : ∀ id d, On s base (v + 1) id d →
      d.tick / wheel.span (v + 1) = wheel.first (v + 1) s.now + j → (d.tick : ℤ) < R + 2 ^ 31 := by
    intro id d hon hblock
    cases hfound : found with
    | false =>
      have hR := (hF.none_found hfound).1
      have hlt := (hon.le_tick h).2
      omega
    | true =>
      have hspan : wheel.span (v + 1) ≤ 2 ^ 26 := by
        rw [span_succ]
        exact Nat.pow_le_pow_right (by decide) (by show 8 + v * 6 ≤ 26; omega)
      have htick := wheel.lt_start_add (v + 1) d.tick
      have hfirst' := TimingWheel.first_mul_lt (W := wheel) (v := v + 1) (n := s.now)
      rw [TimingWheel.start, hblock, hfirst hfound, add_zero] at htick
      have hge := hF.ge
      omega
  have hR := hF.le_max
  have hmax : nextTimerMaxDelta = 2 ^ 30 - 1 := rfl
  obtain ⟨R', hfold, hle, hall, hor⟩ := foldl_earliest
    (x := fun id => (base.timer id).expires) (t := fun id => ((s.due id).map Due.expiry).getD 0)
    (a := s.now) (l := candidates base (.tv (v + 1) ((wheel.first (v + 1) s.now + j) % 64)))
    (R := R) (fun id hmem => by
      obtain ⟨d, -, hexp, -, hget⟩ := hlist id hmem
      rw [hget, hexp])
    (fun id hmem => by
      obtain ⟨d, hon, -, -, hget⟩ := hlist id hmem
      have hle := (hon.le_tick h).1
      rw [hget, hon.expiry_eq h]
      omega)
    (fun id hmem => by
      obtain ⟨d, hon, -, -, hget⟩ := hlist id hmem
      have hlt := (hon.le_tick h).2
      rw [hget, hon.expiry_eq h]
      omega)
    (by omega)
    (fun id hmem => by
      obtain ⟨d, hon, -, hblock, hget⟩ := hlist id hmem
      rw [hget, hon.expiry_eq h]
      exact hnear id d hon hblock)
  refine ⟨R', hfold, hle, ?_, fun id d hon hblock => ?_, ?_⟩
  · rcases hor with rfl | ⟨id, hmem, rfl⟩
    · exact hF.ge
    · obtain ⟨d, hon, -, -, hget⟩ := hlist id hmem
      have hle := (hon.le_tick h).1
      rw [hget, hon.expiry_eq h]
      omega
  · have hmem : id ∈ candidates base (.tv (v + 1) ((wheel.first (v + 1) s.now + j) % 64)) := by
      rw [← hblock]
      exact (hon.block h).2.2
    have hle := hall id hmem
    rw [hon.due_eq] at hle
    exact hle.trans d.expiry_le
  · refine hor.imp_right ?_
    rintro ⟨id, hmem, heq⟩
    obtain ⟨d, hon, -, -, hget⟩ := hlist id hmem
    exact ⟨id, d, hon, heq.trans hget⟩

def Searched (s : Schedule) (base : Base) (v : ℕ) : Search → Prop
  | .stop e => ∃ R, e = toU32 R ∧ Earliest s base R
  | .next found e => ∃ R, e = toU32 R ∧ Found s base v found R

include h hF in
lemma Found.next {R' : ℤ} (hj : j < 64) (hle : R' ≤ R) (hge : (s.now : ℤ) - 2 ^ 30 ≤ R')
    (hslot : ∀ id d, On s base (v + 1) id d →
      d.tick / wheel.span (v + 1) = wheel.first (v + 1) s.now + j → R' ≤ d.tick)
    (hor : R' = R ∨ ∃ id d, On s base (v + 1) id d ∧ R' = d.expiry)
    (hempty : ∀ id d, On s base (v + 1) id d →
      wheel.first (v + 1) s.now + j ≤ d.tick / wheel.span (v + 1))
    (htimer : ∃ k id d, k < v + 2 ∧ On s base k id d ∧
      d.tick < (wheel.first (v + 1) s.now + j + 1) * wheel.span (v + 1)) :
    Found s base (v + 2) true R' ∧
      (wheel.first (v + 1) s.now + j < wheel.first (v + 2) s.now * 64 → Earliest s base R') := by
  obtain ⟨k, id0, d0, hk, hon0, hlt0⟩ := htimer
  have hpos := wheel.span_pos (v + 1)
  have hfirst : wheel.first (v + 1) s.now ≤ wheel.first (v + 2) s.now * 64 := by
    rw [first_succ]
    omega
  have hR0 : R' ≤ d0.tick := by
    rcases Nat.lt_succ_iff_lt_or_eq.mp hk with hk | rfl
    · exact hle.trans (hF.le k hk id0 d0 hon0)
    · have hblock := hempty id0 d0 hon0
      have hlt := (div_lt_iff_lt_mul hpos).mpr hlt0
      exact hslot id0 d0 hon0 (by omega)
  -- a timer that is due when the list has ended
  have hlater : ∀ d : Due, (wheel.first (v + 1) s.now + j + 1) * wheel.span (v + 1) ≤ d.tick →
      R' ≤ d.tick := by
    intro d hd
    omega
  have hlevel : ∀ id d, On s base (v + 1) id d → R' ≤ d.tick := by
    intro id d hon
    rcases (hempty id d hon).eq_or_lt with heq | hlt
    · exact hslot id d hon heq.symm
    · refine hlater d ((mul_le_mul_right _ (succ_le_of_lt hlt)).trans ?_)
      exact div_mul_le_self d.tick _
  have hlower : ∀ i < v + 2, ∀ id d, On s base i id d → R' ≤ d.tick := by
    intro i hi id d hon
    rcases Nat.lt_succ_iff_lt_or_eq.mp hi with hi | rfl
    · exact hle.trans (hF.le i hi id d hon)
    · exact hlevel id d hon
  have hattained : R' = s.now + nextTimerMaxDelta ∨ ∃ i id d, On s base i id d ∧ R' = d.expiry := by
    rcases hor with rfl | ⟨id, d, hon, heq⟩
    · exact hF.attained
    · exact .inr ⟨v + 1, id, d, hon, heq⟩
  refine ⟨⟨hlower, hle.trans hF.le_max, hge, hattained, nofun,
    fun _ => ⟨k, id0, d0, hk, hon0, hlt0.trans_le ?_⟩⟩, fun hbefore =>
      ⟨fun i id d hon => ?_, hle.trans hF.le_max, hge, hattained⟩⟩
  · rw [span_succ_succ, mul_comm (wheel.span (v + 1)), ← mul_assoc]
    exact mul_le_mul_right _ (by omega)
  · rcases lt_or_ge i (v + 2) with hi | hi
    · exact hlower i hi id d hon
    · refine hlater d (le_trans ?_ ((hon.at_slot h).2.2.2.1.first_mul_le hi))
      rw [span_succ_succ, mul_comm (wheel.span (v + 1)), ← mul_assoc]
      exact mul_le_mul_right _ (by omega)

include h in
lemma Found.skip (hF : Found s base (v + 1) false R) (hempty : ∀ id d, On s base (v + 1) id d →
      wheel.first (v + 1) s.now + 64 ≤ d.tick / wheel.span (v + 1)) :
    Found s base (v + 2) false R := by
  obtain ⟨hR, hlower⟩ := hF.none_found rfl
  have hall : ∀ i < v + 2, ∀ id d, ¬ On s base i id d := by
    intro i hi id d hon
    rcases Nat.lt_succ_iff_lt_or_eq.mp hi with hi | rfl
    · exact hlower i hi id d hon
    · exact absurd (hon.block h).2.1 (not_lt.mpr (hempty id d hon))
  exact ⟨fun i hi id d hon => absurd hon (hall i hi id d), hF.le_max, hF.ge, hF.attained,
    fun _ => ⟨hR, hall⟩, nofun⟩

/-! One turn of the search, on a list without a timer. -/

lemma search_of_empty (hempty : candidates base (.tv v slot) = []) :
    search base v index false x (fuel + 1) slot = if (slot + 1) % 64 = index then .next false x
      else search base v index false x fuel ((slot + 1) % 64) := by
  have hmask : slot + 1 &&& tvnMask = (slot + 1) % 64 := and_two_pow_sub_one_eq_mod _ 6
  have hx : earliest base (.tv v slot) x = x := by
    unfold earliest
    rw [hempty]
    rfl
  have hfalse : (false || !(candidates base (.tv v slot)).isEmpty) = false := by
    rw [hempty]
    rfl
  rw [search]
  rw [hfalse, hmask, hx, if_neg nofun]

include h hF in
/-- **A level.** The lists in front of the one at `j` are empty. -/
lemma search_spec (hv : v < 4) (fuel : ℕ) (hj : fuel + j = 64) (hfirst : found = true → j = 0)
    (hempty : ∀ id d, On s base (v + 1) id d →
      wheel.first (v + 1) s.now + j ≤ d.tick / wheel.span (v + 1)) :
    Searched s base (v + 2) (search base (v + 1) (wheel.first (v + 1) s.now % 64) found (toU32 R)
      fuel ((wheel.first (v + 1) s.now + j) % 64)) := by
  induction fuel generalizing j with
  | zero =>
    have hfalse : found = false := by
      rw [← Bool.not_eq_true]
      intro htrue
      have hzero := hfirst htrue
      omega
    subst hfalse
    obtain rfl : j = 64 := by omega
    exact ⟨R, rfl, hF.skip h hempty⟩
  | succ fuel ih =>
    by_cases hfound : found = true ∨
        candidates base (.tv (v + 1) ((wheel.first (v + 1) s.now + j) % 64)) ≠ []
    · obtain ⟨R', hR', hle, hge, hslot, hor⟩ := earliest_spec h hF hv (by omega) hfirst
      have htimer : ∃ k id d, k < v + 2 ∧ On s base k id d ∧
          d.tick < (wheel.first (v + 1) s.now + j + 1) * wheel.span (v + 1) := by
        rcases hfound with htrue | hne
        · obtain ⟨k, id, d, hk, hon, hlt⟩ := hF.near htrue
          rw [hfirst htrue]
          exact ⟨k, id, d, lt_succ_of_lt hk, hon, hlt⟩
        · obtain ⟨id, hmem⟩ := exists_mem_of_ne_nil _ hne
          obtain ⟨d, hd, hat, -⟩ := h.at_of_mem hmem
          have hon : On s base (v + 1) id d := ⟨⟨_, hmem⟩, hd⟩
          have hblock := hon.block_eq h (by omega) hat.2.1.symm
          refine ⟨v + 1, id, d, lt_succ_self _, hon, ?_⟩
          rw [← hblock, add_one_mul]
          exact wheel.lt_start_add (v + 1) d.tick
      obtain ⟨hnext, hstop⟩ := hF.next h (by omega) hle hge hslot hor hempty htimer
      have htrue : (found || !(candidates base
          (.tv (v + 1) ((wheel.first (v + 1) s.now + j) % 64))).isEmpty) = true := by
        rw [Bool.or_eq_true, Bool.not_eq_true', isEmpty_eq_false_iff]
        exact hfound
      unfold search
      dsimp only
      rw [htrue, if_pos rfl, hR']
      split_ifs with hwrap
      · exact ⟨R', rfl, hnext⟩
      · refine ⟨R', rfl, hstop ?_⟩
        rw [first_succ]
        omega
    · obtain ⟨hfalse, hnil⟩ := not_or.mp hfound
      rw [Bool.not_eq_true] at hfalse
      subst hfalse
      have hempty' : ∀ id d, On s base (v + 1) id d →
          wheel.first (v + 1) s.now + (j + 1) ≤ d.tick / wheel.span (v + 1) := by
        intro id d hon
        refine lt_of_le_of_ne (hempty id d hon) ?_
        intro (heq : wheel.first (v + 1) s.now + j = d.tick / wheel.span (v + 1))
        have hmem := (hon.block h).2.2
        rw [← heq, not_not.mp hnil] at hmem
        cases hmem
      have hmod : ((wheel.first (v + 1) s.now + j) % 64 + 1) % 64 =
          (wheel.first (v + 1) s.now + (j + 1)) % 64 := by omega
      rw [search_of_empty (not_not.mp hnil), hmod]
      split_ifs with hlast
      · obtain rfl : j = 63 := by omega
        exact ⟨R, rfl, hF.skip h hempty'⟩
      · exact ih (by omega) nofun hempty'

lemma searchUp_spec (h : Inv slack s base) (k : ℕ) {v : ℕ} (hk : k + v = 4) {t : ℕ}
    (ht : t % 64 ^ k = wheel.first (v + 1) s.now % 64 ^ k) (hlt : t ≤ 2 ^ 24)
    (hF : Found s base (v + 1) found R) :
    ∃ R', searchUp base found (toU32 R) t k (v + 1) = toU32 R' ∧ Earliest s base R' := by
  induction k generalizing v t found R with
  | zero =>
    refine ⟨R, rfl, fun j id d hon => hF.le j ?_ id d hon, hF.le_max, hF.ge, hF.attained⟩
    have hlt := (hon.at_slot h).2.1
    omega
  | succ k ih =>
    have hindex : t % 64 = wheel.first (v + 1) s.now % 64 := by
      have hdvd : 64 ∣ 64 ^ (k + 1) := Dvd.intro_left (64 ^ k) rfl
      rw [← mod_mod_of_dvd t hdvd, ht, mod_mod_of_dvd _ hdvd]
    have hmask : t &&& tvnMask = wheel.first (v + 1) s.now % 64 := by
      rw [← hindex]
      exact and_two_pow_sub_one_eq_mod _ 6
    have hup : (if t % 64 ≠ 0 then plus t (tvnSize - t % 64) else t) >>> tvnBits =
        (t + 63) / 64 := by
      have hsize : tvnSize = 64 := rfl
      have hbits : tvnBits = 6 := rfl
      rw [shiftRight_eq_div_pow, hbits, hsize]
      unfold plus
      split_ifs with hne
      · omega
      · omega
    have hfirst : (t + 63) / 64 % 64 ^ k = wheel.first (v + 2) s.now % 64 ^ k := by
      have hmul : (64 : ℕ) ^ (k + 1) = 64 * 64 ^ k := by rw [pow_succ, mul_comm]
      rw [first_succ, ← mod_mul_right_div_self, ← mod_mul_right_div_self, ← hmul,
        add_mod, ht, ← add_mod]
    have hsearch : Searched s base (v + 2) (search base (v + 1)
        (wheel.first (v + 1) s.now % 64) found (toU32 R) 64 (wheel.first (v + 1) s.now % 64)) :=
      search_spec h hF (by omega) 64 (j := 0) rfl (fun _ => rfl) fun id d hon =>
        (hon.block h).1
    unfold searchUp
    dsimp only
    rw [hmask]
    have hsize : tvnSize = 64 := rfl
    rw [hsize] at hup ⊢
    rw [hindex] at hup
    cases hresult : search base (v + 1) (wheel.first (v + 1) s.now % 64) found (toU32 R) 64
        (wheel.first (v + 1) s.now % 64) with
    | stop e =>
      rw [hresult] at hsearch
      exact hsearch
    | next found' e =>
      rw [hresult] at hsearch
      obtain ⟨R', rfl, hF'⟩ := hsearch
      rw [hup]
      exact ih (by omega) hfirst (by omega) hF'

lemma findFirst_spec (h : Inv slack s base) (fuel : ℕ) (hj : fuel + j = 256)
    (hempty : ∀ id d, On s base 0 id d → s.now + j ≤ d.tick) :
    match findFirst base (s.now % 256) fuel ((s.now + j) % 256) with
    | none => ∀ id d, ¬ On s base 0 id d
    | some (slot, e) => ∃ i id d, i < 256 ∧ slot = (s.now + i) % 256 ∧ On s base 0 id d ∧
        d.tick = s.now + i ∧ e = toU32 d.expiry ∧
        ∀ id d, On s base 0 id d → s.now + i ≤ d.tick := by
  have hend : ∀ {id d}, On s base 0 id d → d.tick < s.now + 256 := fun hon =>
    (hon.at_slot h).2.2.2.1.lt
  have hblock : ∀ {id d i}, On s base 0 id d → i < 256 → wheel.slot 0 d.tick = (s.now + i) % 256 →
      d.tick = s.now + i := by
    intro id d i hon hi hslot
    have hle := (hon.le_tick h).1
    have hlt := hend hon
    have hmod : d.tick / 1 % 256 = (s.now + i) % 256 := hslot
    rw [Nat.div_one] at hmod
    omega
  induction fuel generalizing j with
  | zero =>
    intro id d hon
    have hle := hempty id d hon
    have hlt := hend hon
    omega
  | succ fuel ih =>
    unfold findFirst
    cases hcand : candidates base (.tv 0 ((s.now + j) % 256)) with
    | cons id l =>
      have hmem : id ∈ candidates base (.tv 0 ((s.now + j) % 256)) := hcand ▸ mem_cons_self
      obtain ⟨d, hd, hat, hexp⟩ := h.at_of_mem hmem
      have hon : On s base 0 id d := ⟨⟨_, hmem⟩, hd⟩
      exact ⟨j, id, d, by omega, rfl, hon, hblock hon (by omega) hat.2.1.symm, hexp, hempty⟩
    | nil =>
      have hmask : (s.now + j) % 256 + 1 &&& tvrMask = (s.now + (j + 1)) % 256 := by
        have hand : (s.now + j) % 256 + 1 &&& tvrMask = ((s.now + j) % 256 + 1) % 256 :=
          and_two_pow_sub_one_eq_mod _ 8
        omega
      have hempty' : ∀ id d, On s base 0 id d → s.now + (j + 1) ≤ d.tick := by
        intro id d hon
        refine lt_of_le_of_ne (hempty id d hon) ?_
        intro heq
        have hmem := (hon.at_slot h).1
        have hslot : wheel.slot 0 d.tick = (s.now + j) % 256 := by
          rw [← heq]
          show (s.now + j) / 1 % 256 = _
          rw [Nat.div_one]
        rw [hslot, hcand] at hmem
        cases hmem
      rw [hmask]
      by_cases hlast : (s.now + (j + 1)) % 256 = s.now % 256
      · rw [if_pos hlast]
        intro id d hon
        have hle := hempty' id d hon
        have hlt := hend hon
        omega
      · rw [if_neg hlast]
        exact ih (by omega) hempty'

/-- **`__next_timer_interrupt`** gives the earliest time. -/
lemma nextTimerInterrupt_spec (h : Inv slack s base) (hrecent : Recent s base) :
    ∃ R, nextTimerInterrupt base = toU32 R ∧ Earliest s base R := by
  have hfirst : s.now ≤ wheel.first 1 s.now * 256 := TimingWheel.le_first_mul (v := 1)
  have hmax : nextTimerMaxDelta = 2 ^ 30 - 1 := rfl
  have hsize : tvrSize = 256 := rfl
  have hmask : base.timerJiffies &&& tvrMask = s.now % 256 := by
    have hand : s.now % 2 ^ 32 &&& tvrMask = s.now % 2 ^ 32 % 256 :=
      and_two_pow_sub_one_eq_mod _ 8
    rw [h.ticks, hand, mod_mod_of_dvd _ (by decide)]
  -- the other levels
  have hup : ∀ found R, Found s base 1 found R → ∃ R',
      searchUp base found (toU32 R) ((if s.now % 256 ≠ 0 then
        plus base.timerJiffies (256 - s.now % 256) else base.timerJiffies) >>> tvrBits) 4 1 =
        toU32 R' ∧ Earliest s base R' := by
    intro found R hF
    refine searchUp_spec h 4 rfl ?_ ?_ hF
    · have hbits : tvrBits = 8 := rfl
      have hmod : s.now % 2 ^ 32 % 256 = s.now % 256 := mod_mod_of_dvd _ (by decide)
      rw [shiftRight_eq_div_pow, hbits, h.ticks, ← hmod]
      have hfirst : wheel.first 1 s.now = (s.now + 255) / 256 := rfl
      rw [hfirst]
      unfold plus
      split_ifs <;> omega
    · have hbits : tvrBits = 8 := rfl
      rw [shiftRight_eq_div_pow, hbits, h.ticks]
      unfold plus
      split_ifs <;> omega
  have hfind := findFirst_spec h 256 (j := 0) rfl fun id d hon => (hon.le_tick h).1
  rw [Nat.add_zero] at hfind
  unfold nextTimerInterrupt
  dsimp only
  rw [hmask, hsize]
  cases hresult : findFirst base (s.now % 256) 256 (s.now % 256) with
  | none =>
    rw [hresult] at hfind
    have hplus : plus base.timerJiffies nextTimerMaxDelta =
        toU32 ((s.now : ℤ) + nextTimerMaxDelta) := by
      rw [h.ticks, ← toU32_natCast, plus_toU32]
    rw [hplus]
    refine hup false _ ⟨?_, le_rfl, by omega, .inl rfl, fun _ => ⟨rfl, ?_⟩, ?_⟩
    · intro j hj id d hon
      obtain rfl := lt_one_iff.mp hj
      exact absurd hon (hfind id d)
    · intro j hj
      obtain rfl := lt_one_iff.mp hj
      exact hfind
    · exact nofun
  | some p =>
    obtain ⟨slot, e⟩ := p
    rw [hresult] at hfind
    obtain ⟨i, id, d, hi, rfl, hon, htick, rfl, hall⟩ := hfind
    have hle := d.expiry_le
    have hge := hrecent id d hon.due_eq (mem_candidates.mp (hon.at_slot h).1).2
    have hlower : ∀ j < 1, ∀ id d', On s base j id d' → d.expiry ≤ d'.tick := by
      intro j hj id' d' hon'
      obtain rfl := lt_one_iff.mp hj
      have := hall id' d' hon'
      omega
    have hattained : d.expiry = s.now + nextTimerMaxDelta ∨
        ∃ j id d', On s base j id d' ∧ d.expiry = d'.expiry := .inr ⟨0, id, d, hon, rfl⟩
    dsimp only
    by_cases hwrap : s.now % 256 = 0 ∨ (s.now + i) % 256 < s.now % 256
    · rw [if_pos hwrap]
      refine hup true _ ⟨hlower, by omega, by omega, hattained, nofun,
        fun _ => ⟨0, id, d, one_pos, hon, ?_⟩⟩
      show d.tick < (wheel.first 1 s.now + 1) * 256
      omega
    · rw [if_neg hwrap]
      refine ⟨d.expiry, rfl, ?_, by omega, by omega, hattained⟩
      intro j id' d' hon'
      rcases lt_or_ge j 1 with hj | hj
      · exact hlower j hj id' d' hon'
      -- a timer on another level waits for the next cascade
      · have hcascade : wheel.first 1 s.now * 256 ≤ d'.tick :=
          (hon'.at_slot h).2.2.2.1.first_mul_le hj
        omega

end

end Am335x.Timer
