import Am335xKernel.Lib.TimingWheel
import Am335xKernel.Kernel.Timer

/-!
# Where the timers are

Time goes on beyond 32 bits here: `now` is the number of the tick that `timer_jiffies` stands for,
and every pending timer has a tick in which it is due (`Due`). A timer that expires in less than
`2 ^ 31` ticks is due when it expires, one that has expired already in the next tick (`dueAt`).

The vectors are a timing wheel, and every timer is where the wheel may have it (`At`). A cascade
puts the timers of a list anew, which makes room for the next tick (`Ahead`).
-/

namespace Am335x.Timer

open Nat TimingWheel Buckets

/-- `tv1` has 256 lists, the others have 64. -/
def wheel : TimingWheel where
  size v := if v = 0 then tvrSize else tvnSize
  size_pos v := by split_ifs <;> decide

lemma span_succ (n : ℕ) : wheel.span (n + 1) = 2 ^ (tvrBits + n * tvnBits) := by
  induction n with
  | zero => rfl
  | succ n ih =>
    rw [span, ih]
    show 2 ^ (tvrBits + n * tvnBits) * 2 ^ tvnBits = _
    rw [← pow_add]
    congr 1
    rw [add_one_mul, add_assoc]

lemma index_eq (t n : ℕ) : index t n = wheel.slot (n + 1) t := by
  unfold index slot
  rw [shiftRight_eq_div_pow, Nat.and_two_pow_sub_one_eq_mod, span_succ]
  rfl

lemma and_tvrMask (t : ℕ) : t &&& tvrMask = wheel.slot 0 t := by
  unfold slot
  rw [Nat.and_two_pow_sub_one_eq_mod, span, Nat.div_one]
  rfl

variable {v i now e : ℕ}

lemma slot_mod (hv : v < 5) (d : ℕ) : wheel.slot v (d % 2 ^ 32) = wheel.slot v d := by
  have hdvd : wheel.span v * wheel.size v ∣ 2 ^ 32 := by
    show wheel.span (v + 1) ∣ 2 ^ 32
    rw [span_succ]
    exact pow_dvd_pow 2 (by show 8 + v * 6 ≤ 32; omega)
  unfold slot
  rw [← mod_mul_right_div_self, ← mod_mul_right_div_self, mod_mod_of_dvd _ hdvd]

section

variable {n k e : ℕ}

lemma diff_lt (a b : ℕ) : diff a b < 2 ^ 32 := Nat.mod_lt _ (by decide)

lemma add_diff (n : ℕ) (he : e < 2 ^ 32) : (n + diff e (n % 2 ^ 32)) % 2 ^ 32 = e := by
  unfold diff
  omega

lemma diff_eq (hle : n ≤ k) (hlt : k < n + 2 ^ 32) : diff (k % 2 ^ 32) (n % 2 ^ 32) = k - n := by
  unfold diff
  omega

end

structure Due where
  expires : ℕ
  tick : ℕ
  deriving DecidableEq

def dueAt (now expires : ℕ) : Due where
  expires := expires
  tick :=
    if diff expires (now % 2 ^ 32) < 2 ^ 31 then now + diff expires (now % 2 ^ 32) else now

def Due.Passed (d : Due) : Prop := 2 ^ 31 ≤ diff d.expires (d.tick % 2 ^ 32)

def At (now : ℕ) (d : Due) : Place → Prop
  | .tv v i => v < 5 ∧ i = wheel.slot v d.tick ∧ wheel.Placed now v d.tick ∧
      (d.tick % 2 ^ 32 = d.expires ∧ d.tick < now + 2 ^ 31 ∨ v = 0 ∧ d.tick = now ∧ d.Passed)
  | .work => d.tick + 1 = now ∧ (d.tick % 2 ^ 32 = d.expires ∨ d.Passed)

def Ahead (now : ℕ) (d : Due) : Place → Prop
  | .tv v _ => v ≠ 0 → now < wheel.start v d.tick
  | .work => True

variable {d : Due} {p : Place}

lemma At.ahead (h : At now d (.tv v i)) (hnot : ¬ (wheel.span v ∣ now ∧ i = wheel.slot v now))
    : now < wheel.start v d.tick := by
  obtain ⟨-, hi, hplaced, -⟩ := h
  refine lt_of_le_of_ne hplaced.le fun heq => hnot ?_
  rw [hi]
  exact hplaced.start_eq_iff.mp heq.symm

lemma At.succ (h : At now d (.tv v i)) (hahead : v ≠ 0 → now < wheel.start v d.tick)
    (hne : Place.tv v i ≠ .tv 0 (wheel.slot 0 now)) : At (now + 1) d (.tv v i) := by
  obtain ⟨hv, hi, hplaced, hor⟩ := h
  have hstart : now < wheel.start v d.tick := by
    rcases eq_or_ne v 0 with rfl | hne'
    · refine At.ahead ⟨hv, hi, hplaced, hor⟩ fun hand => hne ?_
      rw [hand.2]
    · exact hahead hne'
  refine ⟨hv, hi, hplaced.succ hstart.ne', ?_⟩
  rcases hor with ⟨hmod, hlt⟩ | ⟨rfl, htick, -⟩
  · exact .inl ⟨hmod, by omega⟩
  · rw [wheel.start_zero] at hstart
    omega

lemma At.tick_mod (h : At now d p) : d.tick % 2 ^ 32 = d.expires ∨ d.Passed := by
  cases p with
  | tv v i => exact h.2.2.2.imp And.left fun h => h.2.2
  | work => exact h.2

lemma At.dueAt_eq (h : At now d (.tv v i)) (hv : v ≠ 0) : dueAt now d.expires = d := by
  obtain ⟨-, -, hplaced, ⟨hmod, hlt⟩ | ⟨heq, -⟩⟩ := h
  · have hdiff := diff_eq hplaced.le_due (hlt.trans (by omega))
    rw [hmod] at hdiff
    have hle := hplaced.le_due
    unfold dueAt
    rw [hdiff, if_pos (by omega), Nat.add_sub_cancel' hle]
  · exact absurd heq hv

lemma dueAt_mod (now : ℕ) (he : e < 2 ^ 32) (h : diff e (now % 2 ^ 32) < 2 ^ 31) :
    (dueAt now e).tick = now + diff e (now % 2 ^ 32) ∧ (dueAt now e).tick % 2 ^ 32 = e := by
  have htick : (dueAt now e).tick = now + diff e (now % 2 ^ 32) := if_pos h
  exact ⟨htick, htick ▸ add_diff now he⟩

lemma at_of_dist (he : e < 2 ^ 32) (hv : v < 5)
    (hfar : v ≠ 0 → wheel.span v ≤ diff e (now % 2 ^ 32))
    (hnear : diff e (now % 2 ^ 32) < wheel.span (v + 1)) (hlt : diff e (now % 2 ^ 32) < 2 ^ 31) :
    At now (dueAt now e) (.tv v (wheel.slot v e)) ∧
      Ahead now (dueAt now e) (.tv v (wheel.slot v e)) := by
  obtain ⟨htick, hmod⟩ := dueAt_mod now he hlt
  have hslot : wheel.slot v e = wheel.slot v (dueAt now e).tick := by
    rw [← slot_mod hv (dueAt now e).tick, hmod]
  have hnext : (dueAt now e).tick < now + wheel.span (v + 1) := by omega
  have hplaced : wheel.Placed now v (dueAt now e).tick := by
    rcases eq_or_ne v 0 with rfl | hne
    · exact TimingWheel.Placed.zero (by omega) hnext
    · have hdist := hfar hne
      exact ⟨(lt_start_of_add_le (by omega)).le, hnext⟩
  refine ⟨⟨hv, hslot, hplaced, .inl ⟨hmod, by omega⟩⟩, fun hne => ?_⟩
  have hdist := hfar hne
  exact lt_start_of_add_le (by omega)

lemma listFor_spec (now : ℕ) (he : e < 2 ^ 32) : At now (dueAt now e) (listFor (now % 2 ^ 32) e) ∧
      Ahead now (dueAt now e) (listFor (now % 2 ^ 32) e) := by
  have hspan1 : wheel.span 1 = 2 ^ 8 := rfl
  have hspan2 : wheel.span 2 = 2 ^ 14 := rfl
  have hspan3 : wheel.span 3 = 2 ^ 20 := rfl
  have hspan4 : wheel.span 4 = 2 ^ 26 := rfl
  have hspan5 : wheel.span 5 = 2 ^ 32 := rfl
  unfold listFor
  simp only [and_tvrMask, index_eq, shiftLeft_eq, one_mul]
  by_cases h0 : diff e (now % 2 ^ 32) < tvrSize
  · rw [if_pos h0]
    exact at_of_dist he (by omega) (fun h => absurd rfl h) h0 (h0.trans (by decide))
  rw [if_neg h0]
  by_cases h1 : diff e (now % 2 ^ 32) < 2 ^ (tvrBits + tvnBits)
  · rw [if_pos h1]
    exact at_of_dist he (by omega) (fun _ => not_lt.mp h0) h1 (h1.trans (by decide))
  rw [if_neg h1]
  by_cases h2 : diff e (now % 2 ^ 32) < 2 ^ (tvrBits + 2 * tvnBits)
  · rw [if_pos h2]
    exact at_of_dist he (by omega) (fun _ => not_lt.mp h1) h2 (h2.trans (by decide))
  rw [if_neg h2]
  by_cases h3 : diff e (now % 2 ^ 32) < 2 ^ (tvrBits + 3 * tvnBits)
  · rw [if_pos h3]
    exact at_of_dist he (by omega) (fun _ => not_lt.mp h2) h3 (h3.trans (by decide))
  rw [if_neg h3]
  split_ifs with hpast
  · have htick : (dueAt now e).tick = now := if_neg (not_lt.mpr hpast)
    refine ⟨⟨by omega, ?_, ?_, .inr ⟨rfl, htick, ?_⟩⟩, fun h => absurd rfl h⟩
    · rw [htick, slot_mod (by omega)]
    · rw [htick]
      exact TimingWheel.Placed.zero le_rfl (by omega)
    · unfold Due.Passed
      rw [htick]
      exact hpast
  · exact at_of_dist he (by omega) (fun _ => not_lt.mp h3)
      (diff_lt _ _) (not_le.mp hpast)

lemma listFor_ne_work (t e : ℕ) : listFor t e ≠ .work := by
  unfold listFor
  dsimp only
  split_ifs <;> exact nofun

structure Stored (due : ℕ → Option Due) (now : ℕ) (b : Place → List ℕ) : Prop where
  apart : Buckets.Apart b
  place : ∀ p id, id ∈ b p → ∃ d, due id = some d ∧ d.expires < 2 ^ 32 ∧ At now d p

structure Rearranged (due : ℕ → Option Due) (now : ℕ) (b b' : Place → List ℕ) : Prop where
  stored : Stored due now b'
  mem_iff : ∀ id, (∃ p, id ∈ b' p) ↔ ∃ p, id ∈ b p
  work_iff : ∀ id, id ∈ b' .work ↔ id ∈ b .work

def Clear (due : ℕ → Option Due) (now : ℕ) (b : Place → List ℕ) (v : ℕ) : Prop :=
  ∀ i id d, id ∈ b (.tv v i) → due id = some d → now < wheel.start v d.tick

section

variable {due : ℕ → Option Due} {now v : ℕ} {b b' b'' : Place → List ℕ} {f : ℕ → Place}

lemma Rearranged.refl (h : Stored due now b) : Rearranged due now b b :=
  ⟨h, fun _ => Iff.rfl, fun _ => Iff.rfl⟩

lemma Rearranged.trans (h : Rearranged due now b b') (h' : Rearranged due now b' b'') :
    Rearranged due now b b'' :=
  ⟨h'.stored, fun id => (h'.mem_iff id).trans (h.mem_iff id),
    fun id => (h'.work_iff id).trans (h.work_iff id)⟩

variable {id : ℕ} {d : Due}

section

variable (h : Stored due now b)
include h

lemma Stored.due_eq (hmem : id ∈ b p) (hd : due id = some d) : d.expires < 2 ^ 32 ∧ At now d p := by
  obtain ⟨d', hd', hlt, hat⟩ := h.place p id hmem
  cases hd'.symm.trans hd
  exact ⟨hlt, hat⟩

lemma Stored.replaced (hv : v ≠ 0) {i : ℕ} (hmem : id ∈ b (.tv v i))
    (hd : due id = some d) : At now d (listFor (now % 2 ^ 32) d.expires) ∧
      Ahead now d (listFor (now % 2 ^ 32) d.expires) := by
  obtain ⟨hlt, hat⟩ := h.due_eq hmem hd
  have hspec := listFor_spec now hlt
  rwa [hat.dueAt_eq hv] at hspec

/-- **A cascade.** -/
lemma Stored.rehash
    (hf : ∀ id d, due id = some d → f id = listFor (now % 2 ^ 32) d.expires) (hv : v ≠ 0)
    (hdvd : wheel.span v ∣ now) :
    Rearranged due now b (Buckets.rehash b f (.tv v (wheel.slot v now))) ∧
      Clear due now (Buckets.rehash b f (.tv v (wheel.slot v now))) v ∧
      ∀ j, j ≠ 0 → Clear due now b j →
        Clear due now (Buckets.rehash b f (.tv v (wheel.slot v now))) j := by
  -- what a timer that was put anew has for its place
  have hnew : ∀ id p, id ∈ b (.tv v (wheel.slot v now)) → f id = p →
      ∃ d, due id = some d ∧ d.expires < 2 ^ 32 ∧ At now d p ∧ Ahead now d p := by
    intro id p hmem hp
    obtain ⟨d, hd, hlt, -⟩ := h.place _ id hmem
    rw [hf id d hd] at hp
    subst hp
    exact ⟨d, hd, hlt, h.replaced hv hmem hd⟩
  have hclear : ∀ j, j ≠ 0 → (j = v ∨ Clear due now b j) →
      Clear due now (Buckets.rehash b f (.tv v (wheel.slot v now))) j := by
    intro j hj hor i id d hmem hd
    rcases mem_rehash.mp hmem with ⟨hold, hne⟩ | ⟨hold, hp⟩
    · rcases hor with rfl | hold'
      · refine (h.due_eq hold hd).2.ahead fun hand => hne ?_
        rw [hand.2]
      · exact hold' i id d hold hd
    · obtain ⟨d', hd', -, -, hahead⟩ := hnew id _ hold hp
      cases hd'.symm.trans hd
      exact hahead hj
  refine ⟨⟨⟨h.apart.rehash f _, fun p id hmem => ?_⟩, fun id => ⟨?_, ?_⟩, fun id => ?_⟩,
    hclear v hv (.inl rfl), fun j hj hold => hclear j hj (.inr hold)⟩
  · rcases mem_rehash.mp hmem with ⟨hold, -⟩ | ⟨hold, hp⟩
    · exact h.place p id hold
    · obtain ⟨d, hd, hlt, hat, -⟩ := hnew id p hold hp
      exact ⟨d, hd, hlt, hat⟩
  · rintro ⟨p, hmem⟩
    rcases mem_rehash.mp hmem with ⟨hold, -⟩ | ⟨hold, -⟩
    · exact ⟨p, hold⟩
    · exact ⟨_, hold⟩
  · rintro ⟨p, hmem⟩
    rcases eq_or_ne p (.tv v (wheel.slot v now)) with rfl | hne
    · exact ⟨f id, mem_rehash.mpr (.inr ⟨hmem, rfl⟩)⟩
    · exact ⟨p, mem_rehash.mpr (.inl ⟨hmem, hne⟩)⟩
  · rw [mem_rehash]
    constructor
    · rintro (⟨hold, -⟩ | ⟨hold, hp⟩)
      · exact hold
      · obtain ⟨d, hd, -⟩ := h.place _ id hold
        rw [hf id d hd] at hp
        exact absurd hp (listFor_ne_work _ _)
    · exact fun hold => .inl ⟨hold, nofun⟩

end

end

lemma foldl_internalAddTimer (base : Base) (l : List ℕ) :
    l.foldl internalAddTimer base = { base with
      vec := Buckets.pushAll base.vec
        (fun id => listFor base.timerJiffies (base.timer id).expires) l } := by
  induction l generalizing base with
  | nil => rfl
  | cons id l ih =>
    rw [List.foldl_cons, ih]
    rfl

section

variable {base : Base} {due : ℕ → Option Due} {now : ℕ}
  {v : ℕ} (ht : base.timerJiffies = now % 2 ^ 32)
  (hexp : ∀ id d, due id = some d → (base.timer id).expires = d.expires)
  (h : Stored due now base.vec)

variable (base) in
include ht hexp h in
lemma cascade_spec (hv : v ≠ 0) (hdvd : wheel.span v ∣ now)
    (hclear : ∀ j, j ≠ 0 → j < v → Clear due now base.vec j) :
    ∃ b, cascade base v (wheel.slot v now) = { base with vec := b } ∧
      Rearranged due now base.vec b ∧ ∀ j, j ≠ 0 → j < v + 1 → Clear due now b j := by
  unfold cascade
  rw [foldl_internalAddTimer]
  have hf : ∀ id d, due id = some d →
      listFor base.timerJiffies (base.timer id).expires = listFor (now % 2 ^ 32) d.expires :=
    fun id d hd => by rw [ht, hexp id d hd]
  obtain ⟨hre, hself, hlower⟩ := h.rehash hf hv hdvd
  refine ⟨_, rfl, hre, fun j hj hlt => ?_⟩
  rcases Nat.lt_succ_iff_lt_or_eq.mp hlt with hlt | rfl
  · exact hlower j hj (hclear j hj hlt)
  · exact hself

lemma Rearranged.clear_above {b b' : Place → List ℕ} (h : Rearranged due now b b')
    (hne : wheel.slot v now ≠ 0) (hclear : ∀ j, j ≠ 0 → j < v + 1 → Clear due now b' j) (j : ℕ)
    (hj : j ≠ 0) : Clear due now b' j := by
  rcases lt_or_ge j (v + 1) with hlt | hge
  · exact hclear j hj hlt
  · intro _ _ _ hmem hd
    refine (h.stored.due_eq hmem hd).2.ahead fun hand => hne ?_
    exact (span_succ_dvd.mp ((wheel.span_dvd hge).trans hand.1)).2

include ht hexp h in
/-- **The cascades.** No list above the first level is due any more. -/
lemma cascadeAll_spec :
    ∃ b, cascadeAll base = { base with vec := b } ∧ Rearranged due now base.vec b ∧
      ∀ j, j ≠ 0 → Clear due now b j := by
  have hnone : ∀ j, j ≠ 0 → j < 1 → Clear due now base.vec j := fun j hj hlt =>
    absurd (lt_one_iff.mp hlt) hj
  unfold cascadeAll
  have hslot : ∀ v, v < 5 → wheel.slot v base.timerJiffies = wheel.slot v now := fun v hv => by
    rw [ht, slot_mod hv]
  simp only [and_tvrMask, index_eq]
  rw [hslot 0 (by omega), hslot (0 + 1) (by omega), hslot (1 + 1) (by omega),
    hslot (2 + 1) (by omega), hslot (3 + 1) (by omega)]
  by_cases h0 : wheel.slot 0 now ≠ 0
  · rw [if_pos h0]
    exact ⟨_, rfl, .refl h, (Rearranged.refl h).clear_above h0 hnone⟩
  rw [if_neg h0]
  have hdvd1 : wheel.span 1 ∣ now :=
    span_succ_dvd.mpr ⟨one_dvd now, not_not.mp h0⟩
  obtain ⟨b1, hb1, hre1, hclear1⟩ := cascade_spec base ht hexp h (by omega) hdvd1 hnone
  rw [hb1]
  by_cases h1 : wheel.slot 1 now ≠ 0
  · rw [if_pos h1]
    exact ⟨_, rfl, hre1, hre1.clear_above h1 hclear1⟩
  rw [if_neg h1]
  have hdvd2 : wheel.span 2 ∣ now := span_succ_dvd.mpr ⟨hdvd1, not_not.mp h1⟩
  obtain ⟨b2, hb2, hre2, hclear2⟩ := cascade_spec { base with vec := b1 } ht hexp
    hre1.stored (by omega) hdvd2 hclear1
  rw [hb2]
  by_cases h2 : wheel.slot 2 now ≠ 0
  · rw [if_pos h2]
    exact ⟨_, rfl, hre1.trans hre2, hre2.clear_above h2 hclear2⟩
  rw [if_neg h2]
  have hdvd3 : wheel.span 3 ∣ now := span_succ_dvd.mpr ⟨hdvd2, not_not.mp h2⟩
  obtain ⟨b3, hb3, hre3, hclear3⟩ := cascade_spec { base with vec := b2 } ht hexp
    hre2.stored (by omega) hdvd3 hclear2
  rw [hb3]
  by_cases h3 : wheel.slot 3 now ≠ 0
  · rw [if_pos h3]
    exact ⟨_, rfl, (hre1.trans hre2).trans hre3, hre3.clear_above h3 hclear3⟩
  rw [if_neg h3]
  have hdvd4 : wheel.span 4 ∣ now := span_succ_dvd.mpr ⟨hdvd3, not_not.mp h3⟩
  obtain ⟨b4, hb4, hre4, hclear4⟩ := cascade_spec { base with vec := b3 } ht hexp
    hre3.stored (by omega) hdvd4 hclear3
  refine ⟨b4, hb4, ((hre1.trans hre2).trans hre3).trans hre4, fun j hj => ?_⟩
  rcases lt_or_ge j 5 with hlt | hge
  · exact hclear4 j hj hlt
  · intro i id d hmem hd
    -- there are no more levels
    exact absurd (hre4.stored.due_eq hmem hd).2.1 (not_lt.mpr hge)

end

end Am335x.Timer
