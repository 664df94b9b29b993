import Am335xKernel.Kernel.IdrMap

/-!
# The search for an id

`sub_alloc` walks down to the id it is given, past slots that are full; where a
layer has no space left it goes back up, to the next id that the layer above has a
slot for. `At` is where it is: on the path of an id, in a tree that holds the map
`g`. Nothing that it passes is free, so that what it finds is the first free id.

It goes back up from a layer only if the id has a digit other than 0 there or
below: into a layer that is searched from its first slot on it has gone because
there is space. So every return clears one more digit, which bounds the loop.
-/

namespace Am335x.Ids

open DigitPath Ptr List Nat

variable {α : Type*} {N l id id' m : ℕ} {p q : Layer (Ptr α)} {f : Frame α}
  {path : List (Frame α)} {g : ℕ → Option α} {idFree : List (Layer (Ptr α))} {F : α → Prop}

/-- At a layer with `l` layers below it, on the path of `id`, in a tree with `N`
layers that holds `g`. -/
structure At (F : α → Prop) (N : ℕ) (g : ℕ → Option α) (l id : ℕ) (p : Layer (Ptr α))
    (path : List (Frame α)) : Prop where
  wf : (Ptr.layer p).WfBy F (l + 1)
  path_ok : PathOk F N l path
  not_full : path ≠ [] → ¬ FullBy F (l + 1) (Ptr.layer p)
  follows : Follows id l path
  get_eq : pathGet l path ((Ptr.layer p).get (l + 1)) = g

namespace At

section

variable (hat : At F N g l id p path)
include hat

lemma lt : l < N := by
  have hlen := hat.path_ok.length
  omega

lemma get_of_div {j : ℕ} (hdiv : id / idrSize ^ (l + 1) = j / idrSize ^ (l + 1)) :
    g j = (Ptr.layer p).get (l + 1) j := by
  rw [← hat.get_eq, pathGet_of_follows (hat.follows.congr hdiv)]

lemma top : (Ptr.layer (rebuild p path)).WfBy F N ∧ (Ptr.layer (rebuild p path)).get N = g := by
  refine ⟨hat.path_ok.rebuild_wf hat.wf hat.not_full, ?_⟩
  rw [← hat.path_ok.length, get_rebuild, hat.get_eq]

end

lemma of_top (hwf : (Ptr.layer p).WfBy F (l + 1)) (hget : (Ptr.layer p).get (l + 1) = g) (id : ℕ) :
    At F (l + 1) g l id p [] :=
  ⟨hwf, rfl, fun hne => absurd rfl hne, trivial, hget⟩

section

variable (hat : At F N g (l + 1) id p path) (hm : m < idrSize) (hbit : p.bitmap m = false)
  (hdiv : id / idrSize ^ (l + 2) = id' / idrSize ^ (l + 2)) (hslot : slotOf (l + 1) id' = m)
include hat hm hbit hdiv hslot

lemma down (hchild : p.ary m = .layer q) : At F N g l id' q ((p, m) :: path) := by
  have hused : (p.ary m).isNull = false := hchild ▸ rfl
  refine ⟨?_, ⟨Frame.ok_of_used hat.wf hm hbit hused, hat.path_ok⟩, fun _ hfull => ?_,
    ⟨hslot.symm, hat.follows.congr hdiv⟩, ?_⟩
  · rw [← hchild]
    exact hat.wf.slots.slot m hm
  · rw [← hchild, ← hat.wf.slots.bit_iff m hm, hbit] at hfull
    cases hfull
  · rw [← hat.get_eq]
    refine congrArg (pathGet (l + 1) path) (funext fun j => ?_)
    split_ifs with heq
    · rw [get_layer (p := p), ← heq, hchild]
    · rfl

lemma down_new (hnull : p.ary m = .null) (hq : q.Blank) :
    At F N g l id' { q with layer := l } (({ p with count := p.count + 1 }, m) :: path) := by
  refine ⟨hq.wf l, ⟨Frame.ok_of_new hat.wf hm hbit hnull, hat.path_ok⟩,
    fun _ => hq.not_full (l + 1) l, ⟨hslot.symm, hat.follows.congr hdiv⟩, ?_⟩
  rw [← hat.get_eq]
  refine congrArg (pathGet (l + 1) path) (funext fun j => ?_)
  split_ifs with heq
  · rw [hq.get, get_layer, ← heq, hnull, get_null]
  · rfl

end

lemma up (hat : At F N g l id p (f :: path))
    (hdiv : id / idrSize ^ (l + 2) = id' / idrSize ^ (l + 2)) :
    At F N g (l + 1) id' (f.plug p) path := by
  have hnot := hat.not_full nofun
  refine ⟨hat.path_ok.1.plug_wf hat.wf hnot, hat.path_ok.2,
    fun _ => hat.path_ok.1.not_full hat.wf hnot, hat.follows.2.congr hdiv, ?_⟩
  rw [← hat.get_eq]
  exact congrArg (pathGet (l + 1) path) (funext fun j => f.get_plug p l j)

lemma passed (hat : At F N g l id p path) (hm : m ≤ idrSize)
    (hbits : ∀ i, slotOf l id ≤ i → i < m → p.bitmap i = true) {j : ℕ} (hle : id ≤ j)
    (hlt : j < withDigit idrBits l id m) : Takes F (g j) := by
  obtain ⟨hdiv, hge, hslot⟩ := digit_of_lt_withDigit hm hle hlt
  rw [hat.get_of_div hdiv.symm, get_layer]
  exact (hat.wf.slots.bit_iff _ digit_lt).mp (hbits _ hge hslot) j

end At

/-- The search from `id` on has ended as it should. -/
def Good (F : α → Prop) (N : ℕ) (g : ℕ → Option α) (id : ℕ) : Alloc α → Prop
  | .found id' p path idFree =>
    At F N g 0 id' p path ∧ id ≤ id' ∧ id' < idrSize ^ N ∧ ¬ Takes F (g id') ∧
      (∀ j, id ≤ j → j < id' → Takes F (g j)) ∧ ∀ q ∈ idFree, q.Blank
  | .needToGrow id' top idFree =>
    id' = idrSize ^ N ∧ (∀ j, id ≤ j → j < idrSize ^ N → Takes F (g j)) ∧
      (Ptr.layer top).WfBy F N ∧ (Ptr.layer top).get N = g ∧ ∀ q ∈ idFree, q.Blank
  | .noMoreSpace _ _ => False
  | .noLayer top => (Ptr.layer top).WfBy F N ∧ (Ptr.layer top).get N = g

lemma Good.of_le {r : Alloc α} (hr : Good F N g id' r) (hle : id ≤ id')
    (hpassed : ∀ j, id ≤ j → j < id' → Takes F (g j)) : Good F N g id r := by
  have hfrom : ∀ k, (∀ j, id' ≤ j → j < k → Takes F (g j)) →
      ∀ j, id ≤ j → j < k → Takes F (g j) := by
    intro k hk j hj hlt
    rcases lt_or_ge j id' with h | h
    · exact hpassed j hj h
    · exact hk j h hlt
  cases r with
  | found k p path idFree =>
    obtain ⟨hat, hk, hlt, hnone, htaken, hfree⟩ := hr
    exact ⟨hat, hle.trans hk, hlt, hnone, hfrom k htaken, hfree⟩
  | needToGrow k top idFree =>
    obtain ⟨hk, htaken, hrest⟩ := hr
    exact ⟨hk, hfrom _ htaken, hrest⟩
  | _ => exact hr

section

variable {fuel layers : ℕ}

lemma chosen_spec (hm : m < idrSize) (hge : slotOf l id ≤ m) :
    id ≤ chosen l id m ∧ id / idrSize ^ (l + 1) = chosen l id m / idrSize ^ (l + 1) ∧
      slotOf l (chosen l id m) = m ∧ (chosen l id m = id ∨ chosen l id m % idrSize ^ l = 0) ∧
      ∀ j, id ≤ j → j < chosen l id m → j < withDigit idrBits l id m := by
  unfold chosen
  dsimp only
  rw [xor_shiftLeft hm]
  split_ifs with hne
  · have hlt : id < withDigit idrBits l id m := lt_withDigit (lt_of_le_of_ne hge (Ne.symm hne))
    exact ⟨hlt.le, (withDigit_div hm).symm, digit_withDigit hm, .inr withDigit_mod,
      fun j _ hj => hj⟩
  · exact ⟨le_rfl, rfl, (not_not.mp hne).symm, .inl rfl, fun j hj hlt => by omega⟩

lemma pow_le_max (hN : N ≤ maxLevel - 1) : idrSize ^ N ≤ 2 ^ 30 := by
  have hle : idrSize ^ N ≤ idrSize ^ (maxLevel - 1) := Nat.pow_le_pow_right (by decide) hN
  exact hle.trans (by decide)

lemma limit_le_iff : (2 ^ (N * idrBits) : ℤ) ≤ (id : ℕ) ↔ idrSize ^ N ≤ id := by
  rw [mul_comm, pow_mul]
  exact_mod_cast Iff.rfl

section

variable (hat : At F N g l id p path) (hN : N ≤ maxLevel - 1) (hid : id < idrSize ^ N)
  (hfree : ∀ q ∈ idFree, q.Blank)
include hat hN hid hfree

lemma subAllocLoop_enter (fuel : ℕ)
    (hspace : p.bitmap.findNextZeroBit idrSize (slotOf l id) < idrSize) :
    (∃ r, subAllocLoop N (fuel + 1) l id (.layer p) path idFree = some r ∧ Good F N g id r) ∨
      ∃ l' id' q path' idFree', l = l' + 1 ∧ subAllocLoop N (fuel + 1) l id (.layer p) path idFree =
          subAllocLoop N fuel l' id' (.layer q) path' idFree' ∧
        At F N g l' id' q path' ∧ ¬ FullBy F l (Ptr.layer q) ∧ id' < idrSize ^ N ∧
        (∀ q ∈ idFree', q.Blank) ∧ id ≤ id' ∧ (∀ j, id ≤ j → j < id' → Takes F (g j)) ∧
        (id' = id ∨ id' % idrSize ^ l = 0) := by
  obtain ⟨m, hm⟩ : ∃ m, p.bitmap.findNextZeroBit idrSize (slotOf l id) = m := ⟨_, rfl⟩
  rcases p.bitmap.findNextZeroBit_cases (digit_lt (w := idrBits) (h := l) (i := id)).le with
    ⟨hfull, -⟩ | ⟨hge, hlt, hbit⟩
  · exact absurd hfull hspace.ne
  rw [hm] at hge hlt hbit
  obtain ⟨hle, hdiv, hslot, hzeros, hpast⟩ := chosen_spec hlt hge
  have hpassed : ∀ j, id ≤ j → j < chosen l id m → Takes F (g j) := by
    intro j hj hjlt
    refine hat.passed hlt.le (fun i hi hi' => ?_) hj (hpast j hj hjlt)
    exact Bitmap.of_lt_findNextZeroBit hi (hm ▸ hi')
  have hid' : chosen l id m < idrSize ^ N := lt_pow_congr hdiv hid hat.lt
  have hmax : chosen l id m < maxIdBit := (hid'.trans_le (pow_le_max hN)).trans (by decide)
  rw [subAllocLoop]
  simp only [hm, if_neg hlt.ne, if_neg (not_le.mpr hmax)]
  cases l with
  | zero =>
    refine .inl ⟨_, rfl, ?_, hle, hid', ?_, hpassed, hfree⟩
    · exact { hat with follows := hat.follows.congr hdiv }
    · -- the bit says that there is no pointer
      have hnot : ¬ FullBy F 0 (p.ary m) := by
        rw [← hat.wf.slots.bit_iff m hlt, hbit]
        exact nofun
      rw [hat.get_of_div hdiv, get_layer, hslot]
      intro htakes
      refine hnot fun j => ?_
      have hagree : Agree idrBits 0 (chosen 0 id m) j := trivial
      rwa [get_congr hagree]
  | succ l =>
    have hwf := hat.wf.slots.slot m hlt
    rcases hwf.null_or_layer with hnull | ⟨q, hchild⟩
    · rw [hnull]
      cases idFree with
      | nil => exact .inl ⟨_, rfl, hat.top⟩
      | cons q idFree =>
        have hq : q.Blank := hfree q mem_cons_self
        have hrest : ∀ q ∈ idFree, q.Blank := fun q hq => hfree q (mem_cons_of_mem _ hq)
        exact .inr ⟨l, _, _, _, _, rfl, rfl,
          hat.down_new hlt hbit hdiv hslot hnull hq, hq.not_full (l + 1) l, hid', hrest, hle,
          hpassed, hzeros⟩
    · have hdown := hat.down hlt hbit hdiv hslot hchild
      rw [hchild]
      exact .inr ⟨l, _, _, _, _, rfl, rfl, hdown,
        hdown.not_full nofun, hid', hfree, hle, hpassed, hzeros⟩

lemma subAllocLoop_sure (hspace : ¬ FullBy F (l + 1) (Ptr.layer p))
    (hzeros : id % idrSize ^ (l + 1) = 0)
    (hfuel : l < fuel) :
    ∃ r, subAllocLoop N fuel l id (.layer p) path idFree = some r ∧ Good F N g id r := by
  induction fuel generalizing l id p path idFree with
  | zero => omega
  | succ fuel ih =>
    obtain ⟨hlow, hslot⟩ := mod_pow_succ_eq_zero.mp hzeros
    have hlt : p.bitmap.findNextZeroBit idrSize (slotOf l id) < idrSize := by
      rcases p.bitmap.findNextZeroBit_cases (digit_lt (w := idrBits) (h := l) (i := id)).le with
        ⟨-, hall⟩ | ⟨-, hlt, -⟩
      · refine absurd (hat.wf.slots.isFull_iff.mp ?_) hspace
        refine all_eq_true.mpr fun i hi => hall i ?_ (mem_range.mp hi)
        exact hslot ▸ zero_le i
      · exact hlt
    rcases subAllocLoop_enter hat hN hid hfree fuel hlt with hdone |
      ⟨l', id', q, path', idFree', rfl, heq, hat', hspace', hid', hfree', hle, hpassed, hmod⟩
    · exact hdone
    · have hzeros' : id' % idrSize ^ (l' + 1) = 0 := by
        rcases hmod with rfl | hmod
        · exact hlow
        · exact hmod
      obtain ⟨r, hr, hgood⟩ := ih hat' hid' hfree' hspace' hzeros' (by omega)
      exact ⟨r, heq.trans hr, hgood.of_le hle hpassed⟩

/-- A layer without space for `id` or later ones: the search goes on at the next id
of the layer above, or needs another layer. -/
lemma subAllocLoop_leave (fuel : ℕ)
    (hfull : p.bitmap.findNextZeroBit idrSize (slotOf l id) = idrSize) :
    (∃ r, subAllocLoop N (fuel + 1) l id (.layer p) path idFree = some r ∧ Good F N g id r) ∨
      ∃ l' id' q path', l < l' ∧ l' < N ∧ subAllocLoop N (fuel + 1) l id (.layer p) path idFree =
          subAllocLoop N fuel l' id' (.layer q) path' idFree ∧
        At F N g l' id' q path' ∧ id' < idrSize ^ N ∧ id ≤ id' ∧
        (∀ j, id ≤ j → j < id' → Takes F (g j)) ∧ id' % idrSize ^ (l + 1) = 0 := by
  have hpassed : ∀ j, id ≤ j → j < withDigit idrBits l id idrSize → Takes F (g j) := by
    intro j hj hlt
    refine hat.passed le_rfl (fun i hi hi' => ?_) hj hlt
    exact Bitmap.of_lt_findNextZeroBit hi (hfull ▸ hi')
  have hle : withDigit idrBits l id idrSize ≤ idrSize ^ N := withDigit_carry_le hid hat.lt
  have hmax := hle.trans (pow_le_max hN)
  have hcarry : ((id ||| 2 ^ (idrBits * (l + 1)) - 1) + 1) % 2 ^ 32 =
      withDigit idrBits l id idrSize := by
    rw [or_add_one]
    exact mod_eq_of_lt (hmax.trans_lt (by decide))
  have hint : CInt.toInt (withDigit idrBits l id idrSize : ℕ) =
      (withDigit idrBits l id idrSize : ℕ) :=
    CInt.toInt_of_lt (Int.natCast_nonneg _) (by exact_mod_cast hmax.trans_lt (by decide))
  have hgt : id < withDigit idrBits l id idrSize := lt_withDigit digit_lt
  have hzeros : withDigit idrBits l id idrSize % idrSize ^ (l + 1) = 0 := by
    rw [withDigit_carry, mul_mod_left]
  rw [subAllocLoop]
  dsimp only
  rw [if_pos hfull, hcarry, hint]
  by_cases hgrow : idrSize ^ N ≤ withDigit idrBits l id idrSize
  · rw [if_pos (limit_le_iff.mpr hgrow)]
    have heq := le_antisymm hle hgrow
    exact .inl ⟨_, rfl, heq, heq ▸ hpassed, hat.top.1, hat.top.2, hfree⟩
  · rw [if_neg fun h => hgrow (limit_le_iff.mp h)]
    rw [not_le] at hgrow
    refine .inr ?_
    cases path with
    | nil =>
      -- at the top there is a next id only behind all the ids of the tree
      obtain rfl : l + 1 = N := hat.path_ok
      rw [mod_eq_of_lt hgrow] at hzeros
      omega
    | cons f path =>
      have hlt : l + 1 < N := by
        have hlen := hat.path_ok.2.length
        omega
      rw [shiftRight_eq_div_pow, shiftRight_eq_div_pow, pow_mul]
      by_cases hdiv : id / idrSize ^ (l + 2) = withDigit idrBits l id idrSize / idrSize ^ (l + 2)
      · exact ⟨l + 1, _, _, _, l.lt_succ_self, hlt, if_pos hdiv, hat.up hdiv, hgrow, hgt.le,
          hpassed, hzeros⟩
      · obtain ⟨hwf, hget⟩ := hat.top
        obtain ⟨N, rfl⟩ : ∃ M, N = M + 1 := ⟨N - 1, by omega⟩
        exact ⟨N, _, _, _, by omega, N.lt_succ_self, if_neg hdiv, At.of_top hwf hget _, hgrow,
          hgt.le, hpassed, hzeros⟩

/-- **The search finds the first free id, or there is none.** -/
lemma subAllocLoop_spec {z : ℕ} (hz : z ≤ l) (hzeros : id % idrSize ^ z = 0)
    (hfuel : (N - z) * (N + 1) + l < fuel) :
    ∃ r, subAllocLoop N fuel l id (.layer p) path idFree = some r ∧ Good F N g id r := by
  induction fuel generalizing l id p path idFree z with
  | zero => omega
  | succ fuel ih =>
    rcases (Bitmap.findNextBit_le _ _ _ :
      p.bitmap.findNextZeroBit idrSize (slotOf l id) ≤ idrSize).lt_or_eq with hlt | hfull
    · rcases subAllocLoop_enter hat hN hid hfree fuel hlt with hdone |
        ⟨l', id', q, path', idFree', rfl, heq, hat', hspace', hid', hfree', hle, hpassed, hmod⟩
      · exact hdone
      · have hnext : ∃ r, subAllocLoop N fuel l' id' (.layer q) path' idFree' = some r ∧
            Good F N g id' r := by
          by_cases hsure : id' % idrSize ^ (l' + 1) = 0
          · exact subAllocLoop_sure hat' hN hid' hfree' hspace' hsure (by omega)
          · obtain rfl := hmod.resolve_right hsure
            have hz' : z ≤ l' := by
              by_contra hlt
              obtain rfl : z = l' + 1 := by omega
              exact hsure hzeros
            exact ih hat' hid' hfree' hz' hzeros (by omega)
        obtain ⟨r, hr, hgood⟩ := hnext
        exact ⟨r, heq.trans hr, hgood.of_le hle hpassed⟩
    · rcases subAllocLoop_leave hat hN hid hfree fuel hfull with hdone |
        ⟨l', id', q, path', hlt, hlt', heq, hat', hid', hle, hpassed, hmod⟩
      · exact hdone
      · -- a digit more is zero
        have hstep : (N - (l + 1)) * (N + 1) + (N + 1) ≤ (N - z) * (N + 1) := by
          rw [← succ_mul]
          exact mul_le_mul_right _ (by omega)
        have hz' : l + 1 ≤ l' := hlt
        obtain ⟨r, hr, hgood⟩ := ih hat' hid' hfree hz' hmod (by omega)
        exact ⟨r, heq.trans hr, hgood.of_le hle hpassed⟩

end

lemma subAlloc_spec (hwf : (Ptr.layer p).WfBy F N) (hN : N ≤ maxLevel - 1)
    (hid : id < idrSize ^ N) (hfree : ∀ q ∈ idFree, q.Blank) :
    ∃ r, subAlloc N id (.layer p) idFree = some r ∧ Good F N ((Ptr.layer p).get N) id r := by
  cases N with
  | zero => exact hwf.elim
  | succ N =>
    refine subAllocLoop_spec (z := 0) (At.of_top hwf rfl id) hN hid hfree (zero_le _)
      (by rw [pow_zero, mod_one]) ?_
    have hle : N + 1 ≤ 6 := hN
    calc (N + 1 - 0) * (N + 1 + 1) + N
        ≤ 6 * 7 + 5 :=
          Nat.add_le_add (Nat.mul_le_mul hle (Nat.succ_le_succ hle)) (Nat.le_of_succ_le_succ hle)
      _ < subAllocFuel := by decide

end

end Am335x.Ids
