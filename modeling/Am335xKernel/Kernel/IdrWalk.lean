import Mathlib.Data.Nat.Size
import Mathlib.Order.Iterate
import Am335xKernel.Kernel.IdrRuns

/-!
# The stack of the walks over all ids

`idr_for_each`, `idr_get_next` and `idr_remove_all` keep the layers above the one
they are at in `pa[]`, and go up by as many as the next id has bits (or changed
bits). An id behind the last one has a bit more than the layers account for, and
`*--paa` reads `pa[-1]`.
-/

namespace Am335x.Ids

open DigitPath

variable {α β : Type*}

/-- The variables of a walk: `n` is `IDR_BITS * h`, and `pa` has the entries below `paa`, the
last one first. `bad`: an access to `pa[]` was outside of it or read what was not pushed. -/
structure Walk (α : Type*) where
  h : ℕ
  id : ℕ
  p : Ptr α
  pa : List (Ptr α)
  bad : Bool

namespace Walk

/-- The loop down, to `stop` layers above the items; `h` is that of the walk. -/
def descend (stop : ℕ) : ℕ → Walk α → Option (Walk α)
  | 0, w => some w
  | h + 1, w =>
    if stop ≤ h then
      match w.p with
      | .null => some w
      | .item _ => none
      | .layer q => descend stop h
        { w with
          h := h, p := q.ary (digit idrBits h w.id), pa := w.p :: w.pa
          bad := w.bad || decide (maxLevel ≤ w.pa.length) }
    else some w

/-- `n += IDR_BITS; p = *--paa`, where `junk` is in `pa[-1]`. -/
def pop (junk : Ptr α) (w : Walk α) : Walk α :=
  match w.pa with
  | [] => { w with h := w.h + 1, p := junk, bad := true }
  | q :: pa => { w with h := w.h + 1, p := q, pa := pa }

/-- The loop up, while `n < bits`. -/
def climb (junk : Ptr α) (bits : ℕ) : ℕ → Walk α → Walk α
  | 0, w => w
  | k + 1, w => if w.h * idrBits < bits then climb junk bits k (w.pop junk) else w

/-- The walk up to `max`: what it ends with, if `visit` ends it, and whether it was `bad`.
`bits` says how far it goes up from one id to the next. -/
def run (stop max : ℕ) (bits : ℕ → ℕ → ℕ) (visit : ℕ → Ptr α → Option β) (junk : Ptr α) :
    ℕ → Walk α → Option (Option β × Bool)
  | 0, _ => none
  | fuel + 1, w =>
    if w.id < max then
      (w.descend stop w.h).bind fun w =>
        match if w.p.isNull then none else visit w.id w.p with
        | some b => some (some b, w.bad)
        | none =>
          let id := w.id + 2 ^ (w.h * idrBits)
          run stop max bits visit junk fuel
            (climb junk (bits w.id id) (bits w.id id) { w with id := id })
    else some (none, w.bad)

end Walk

namespace Idr

abbrev max (idp : Idr α) : ℕ := 2 ^ (idp.layers * idrBits)

def walk (idp : Idr α) (stop : ℕ) (bits : ℕ → ℕ → ℕ) (visit : ℕ → Ptr α → Option β)
    (junk : Ptr α) (id : ℕ) : Option (Option β × Bool) :=
  Walk.run stop idp.max bits visit junk (idp.max + 1) ⟨idp.layers, id, idp.top, [], false⟩

/-- `idr_for_each`: the error, if it is not 0. -/
def forEach (idp : Idr α) (junk : Ptr α) (fn : ℕ → Ptr α → ℤ) : Option (Option ℤ × Bool) :=
  idp.walk 0 (fun _ id => id.size) (fun id p => if fn id p = 0 then none else some (fn id p)) junk 0

/-- `idr_get_next`: the new `*nextidp` and the pointer. -/
def getNext (idp : Idr α) (junk : Ptr α) (nextid : ℕ) : Option (Option (ℕ × Ptr α) × Bool) :=
  if idp.top.isNull then some (none, false)
  else idp.walk 0 (fun _ id => id.size) (fun id p => some (id, p)) junk nextid

/-- `idr_remove_all`. -/
def removeAll (idp : Idr α) (junk : Ptr α) : Option (Idr α × Bool) :=
  (idp.walk 1 (fun old id => (id ^^^ old).size) (fun _ _ => (none : Option Empty)) junk 0).map
    fun r => ({ idp with top := .null, layers := 0 }, r.2)

end Idr

/-- How many layers above the items the path to an id ends. -/
def Ptr.missing : ℕ → Ptr α → ℕ → ℕ
  | h + 1, .layer p, id => missing h (p.ary (slotOf h id)) id
  | h, _, _ => h

abbrev Idr.missing (idp : Idr α) (id : ℕ) : ℕ := idp.top.missing idp.layers id

/-- The id that a walk comes to from `id`. It does not go to the start of the next layer. -/
def Idr.after (idp : Idr α) (id : ℕ) : ℕ := id + idrSize ^ idp.missing id

/-- `P` holds of the items that a walk comes to from `id`. -/
def Idr.Passes (idp : Idr α) (P : ℕ → α → Prop) (id : ℕ) : Prop :=
  ∀ n a, idp.after^[n] id < idp.max →
    idp.top.get idp.layers (idp.after^[n] id) = some a → P (idp.after^[n] id) a

/-- `p`, `h` layers above the items, is on the path to `id`. -/
structure Idr.Under (idp : Idr α) (id h : ℕ) (p : Ptr α) : Prop where
  wf : p.Wf h
  get_eq : ∀ k, k / idrSize ^ h = id / idrSize ^ h → idp.top.get idp.layers k = p.get h k
  missing_eq : ∀ k, k / idrSize ^ h = id / idrSize ^ h → idp.missing k = p.missing h k

namespace Idr

variable {idp : Idr α} {h id j : ℕ} {p : Ptr α} {q : Layer (Ptr α)}

lemma Under.down (hu : idp.Under id (h + 1) (.layer q)) : idp.Under id h (q.ary (slotOf h id)) := by
  have hslot : ∀ k, k / idrSize ^ h = id / idrSize ^ h →
      k / idrSize ^ (h + 1) = id / idrSize ^ (h + 1) ∧ slotOf h k = slotOf h id := by
    intro k hk
    unfold slotOf
    rw [pow_succ, ← Nat.div_div_eq_div_mul, ← Nat.div_div_eq_div_mul, digit_eq, digit_eq]
    exact ⟨congrArg (· / _) hk, congrArg (· % _) hk⟩
  refine ⟨hu.wf.2.slot _ digit_lt, fun k hk => ?_, fun k hk => ?_⟩
  · obtain ⟨hup, hdigit⟩ := hslot k hk
    rw [hu.get_eq k hup, Ptr.get_layer, hdigit]
  · obtain ⟨hup, hdigit⟩ := hslot k hk
    rw [hu.missing_eq k hup, Ptr.missing, hdigit]

lemma Under.move (hu : idp.Under id h p) (hdiv : id / idrSize ^ h = j / idrSize ^ h) :
    idp.Under j h p :=
  ⟨hu.wf, fun k hk => hu.get_eq k (hk.trans hdiv.symm),
    fun k hk => hu.missing_eq k (hk.trans hdiv.symm)⟩

lemma lt_after : id < idp.after id := Nat.lt_add_of_pos_right (Nat.pow_pos (by decide))

lemma le_iterate_after (n : ℕ) : id ≤ idp.after^[n] id :=
  Function.id_le_iterate_of_id_le (fun _ => lt_after.le) n id

end Idr

/-- The layers on the path to an id, from `h` layers above the items on up. -/
def Levels (idp : Idr α) (id : ℕ) : ℕ → List (Ptr α) → Prop
  | _, [] => True
  | h, p :: pa => idp.Under id h p ∧ Levels idp id (h + 1) pa

lemma Levels.move {idp : Idr α} {i j h : ℕ} {pa : List (Ptr α)} (hpa : Levels idp i h pa)
    (hdiv : i / idrSize ^ h = j / idrSize ^ h) : Levels idp j h pa := by
  induction pa generalizing h with
  | nil => trivial
  | cons p pa ih =>
    refine ⟨hpa.1.move hdiv, ih hpa.2 ?_⟩
    rw [pow_succ, ← Nat.div_div_eq_div_mul, ← Nat.div_div_eq_div_mul, hdiv]

namespace Walk

/-- `p` and the entries of `pa` are one above the other on the path to `id`, up to the top. -/
structure At (idp : Idr α) (id : ℕ) (w : Walk α) : Prop where
  depth : w.h + w.pa.length = idp.layers
  path : Levels idp id w.h (w.p :: w.pa)
  good : w.bad = false

variable {idp : Idr α} {id n : ℕ} {junk : Ptr α} {w : Walk α}

/-- With all the layers the walk comes down to the item, or to where the path ends. -/
lemma At.descend (stop : ℕ) (hL : idp.layers < 7) (hw : w.At idp w.id) {h : ℕ} (hh : w.h = h) :
    ∃ w', w.descend stop h = some w' ∧ w'.At idp w.id ∧ w'.id = w.id ∧
      (stop = 0 → w'.h = idp.missing w.id ∧
        w'.p = .ofOption (idp.top.get idp.layers w.id)) := by
  induction h generalizing w with
  | zero =>
    refine ⟨w, rfl, hw, rfl, fun _ => ?_⟩
    obtain ⟨hu, -⟩ := hw.path
    rw [hu.get_eq _ rfl, hu.missing_eq _ rfl, hh] at *
    refine ⟨by cases w.p <;> rfl, (Ptr.wfBy_every.mpr (hh ▸ hu.wf)).item_of_zero _⟩
  | succ h ih =>
    obtain ⟨hu, hpa⟩ := hw.path
    have hdepth := hw.depth
    rw [hh] at hu hpa hdepth
    unfold Walk.descend
    split_ifs with hstop
    · obtain hp | ⟨q, hp⟩ := (Ptr.wfBy_every.mpr hu.wf).null_or_layer
      · rw [hp] at hu ⊢
        refine ⟨w, rfl, hw, rfl, fun _ => ?_⟩
        rw [hu.get_eq _ rfl, hu.missing_eq _ rfl, hh, hp]
        exact ⟨rfl, rfl⟩
      · rw [hp] at hu ⊢
        refine ih ⟨?_, ⟨hu.down, hu, hpa⟩, ?_⟩ rfl
        · exact (Nat.succ_add_eq_add_succ h _).symm.trans hdepth
        · rw [hw.good, Bool.false_or, decide_eq_false_iff_not]
          exact not_le.mpr (by omega : w.pa.length < 7)
    · exact ⟨w, rfl, hw, rfl, fun hzero => absurd (hzero ▸ Nat.zero_le h) hstop⟩

lemma climb_kept (k : ℕ) :
    (climb junk n k w).id = w.id ∧ (w.bad = true → (climb junk n k w).bad = true) := by
  induction k generalizing w with
  | zero => exact ⟨rfl, fun hbad => hbad⟩
  | succ k ih =>
    unfold Walk.climb
    split_ifs
    · rw [ih.1]
      unfold pop
      split
      · exact ⟨rfl, fun _ => ih.2 rfl⟩
      · exact ⟨rfl, fun hbad => ih.2 hbad⟩
    · exact ⟨rfl, fun hbad => hbad⟩

lemma At.climb (junk : Ptr α) (hw : w.At idp id) {k : ℕ} (hk : n ≤ (w.h + k) * 5) :
    if n ≤ idp.layers * 5 then (climb junk n k w).At idp id ∧ n ≤ (climb junk n k w).h * 5
    else (climb junk n k w).bad = true := by
  induction k generalizing w with
  | zero =>
    have hdepth := hw.depth
    rw [if_pos (by omega)]
    exact ⟨hw, hk⟩
  | succ k ih =>
    obtain ⟨h, id, p, pa, bad⟩ := w
    have hdepth : h + pa.length = idp.layers := hw.depth
    unfold Walk.climb
    by_cases hlt : h * 5 < n
    · rw [if_pos hlt]
      cases pa with
      | nil =>
        rw [if_neg (by rw [← hdepth]; exact not_le.mpr hlt)]
        exact (climb_kept k).2 rfl
      | cons q pa =>
        refine ih ⟨(Nat.succ_add_eq_add_succ h _).trans hdepth, hw.path.2, hw.good⟩ ?_
        exact hk.trans_eq (congrArg (· * 5) (Nat.succ_add_eq_add_succ h k).symm)
    · rw [if_neg hlt, if_pos (by omega)]
      exact ⟨hw, not_lt.mp hlt⟩

/-- How far `bits` goes up from one id to the next. -/
structure Climbs (idp : Idr α) (bits : ℕ → ℕ → ℕ) : Prop where
  inside : ∀ {i j}, i < idp.max → j < idp.max → bits i j ≤ idp.layers * 5
  outside : ∀ {i j}, i < idp.max → idp.max ≤ j → idp.layers * 5 < bits i j
  same : ∀ {i j h}, i < j → bits i j ≤ h * 5 → i / idrSize ^ h = j / idrSize ^ h

/-- **A walk** leaves `pa[]` exactly if no visit ends it; and it visits the items that it comes to
from one id after the other. -/
lemma At.run {bits : ℕ → ℕ → ℕ} (stop : ℕ) (visit : ℕ → Ptr α → Option β)
    (junk : Ptr α) (hL : idp.layers < 7) (hbits : Climbs idp bits) {fuel : ℕ}
    (hw : w.At idp w.id) (hid : w.id < idp.max) (hfuel : idp.max < fuel + w.id) :
    ∃ r bad, run stop idp.max bits visit junk fuel w = some (r, bad) ∧ (bad = true ↔ r = none) ∧
      (stop = 0 → (r = none ↔ idp.Passes (fun k a => visit k (.item a) = none) w.id)) := by
  induction fuel generalizing w with
  | zero => omega
  | succ fuel ih =>
    obtain ⟨w1, hdown, hw1, hsame, hitem⟩ := hw.descend stop hL rfl
    rw [← hsame] at hfuel hitem hw1 ⊢
    unfold Walk.run
    rw [← hsame] at hid
    rw [if_pos (hsame ▸ hid), hdown, Option.bind_some]
    have hvisit : stop = 0 → ((if w1.p.isNull then none else visit w1.id w1.p) = none ↔
        ∀ a, idp.top.get idp.layers w1.id = some a → visit w1.id (.item a) = none) := by
      intro hstop
      rw [(hitem hstop).2]
      cases idp.top.get idp.layers w1.id <;> simp [Ptr.ofOption, Ptr.isNull]
    split
    next b heq =>
      refine ⟨_, w1.bad, rfl, by simp [hw1.good], fun hstop => ?_⟩
      refine iff_of_false (Option.some_ne_none b) fun hall => ?_
      rw [(hvisit hstop).mpr fun a => hall 0 a hid] at heq
      cases heq
    next heq =>
      have hstep : 0 < 2 ^ (w1.h * idrBits) := Nat.two_pow_pos _
      have hafter : stop = 0 → w1.id + 2 ^ (w1.h * idrBits) = idp.after w1.id := by
        intro hstop
        rw [Idr.after, (hitem hstop).1, mul_comm, pow_mul]
      dsimp only
      generalize 2 ^ (w1.h * idrBits) = step at hstep hafter ⊢
      generalize hw2 : { w1 with id := w1.id + step } = w2
      have hid2 : w2.id = w1.id + step := by rw [← hw2]
      have hat : w2.At idp w1.id := by
        rw [← hw2]
        exact ⟨hw1.depth, hw1.path, hw1.good⟩
      have hclimb := hat.climb junk (n := bits w1.id (w1.id + step))
        (k := bits w1.id (w1.id + step)) (by omega)
      have hkept : (Walk.climb junk (bits w1.id (w1.id + step)) (bits w1.id (w1.id + step)) w2).id =
        w1.id + step := (climb_kept _).1.trans hid2
      generalize Walk.climb junk _ _ w2 = w3 at hclimb hkept ⊢
      rcases lt_or_ge (w1.id + step) idp.max with hlt | hge
      · rw [if_pos (hbits.inside hid hlt)] at hclimb
        obtain ⟨hat', hhigh⟩ := hclimb
        have hmoved := hat'.path.move (hbits.same (Nat.lt_add_of_pos_right hstep) hhigh)
        obtain ⟨r, bad, hrun, hbad, hfirst⟩ := ih ⟨hat'.depth, hkept ▸ hmoved, hat'.good⟩
          (hkept ▸ hlt) (by omega)
        refine ⟨r, bad, hrun, hbad, fun hstop => (hfirst hstop).trans ?_⟩
        rw [hkept, hafter hstop]
        refine ⟨fun hall n a => ?_, fun hall n => hall (n + 1)⟩
        cases n with
        | zero => exact fun _ => (hvisit hstop).mp heq a
        | succ n => exact hall n a
      · -- behind the last id there are more bits than layers
        obtain ⟨fuel, rfl⟩ : ∃ k, fuel = k + 1 := ⟨fuel - 1, by omega⟩
        rw [if_neg (not_le.mpr (hbits.outside hid hge))] at hclimb
        refine ⟨none, _, if_neg ?_, iff_of_true hclimb rfl, fun hstop => ?_⟩
        · rw [hkept]
          exact not_lt.mpr hge
        refine iff_of_true rfl fun n a hlt => ?_
        cases n with
        | zero => exact (hvisit hstop).mp heq a
        | succ n =>
          rw [Function.iterate_succ_apply, ← hafter hstop] at hlt
          exact absurd (hge.trans (Idr.le_iterate_after n)) (not_le.mpr hlt)

end Walk

lemma Idr.Inv.walk {idp : Idr α} (hinv : idp.Inv) (stop : ℕ) {id : ℕ} {bits : ℕ → ℕ → ℕ}
    (visit : ℕ → Ptr α → Option β) (junk : Ptr α) (hbits : Walk.Climbs idp bits)
    (hid : id < idp.max) :
    ∃ r bad, idp.walk stop bits visit junk id = some (r, bad) ∧ (bad = true ↔ r = none) ∧
      (stop = 0 → (r = none ↔ idp.Passes (fun k a => visit k (.item a) = none) id)) := by
  refine Walk.At.run (w := ⟨idp.layers, id, idp.top, [], false⟩) stop visit junk
    (Nat.lt_succ_of_le hinv.layers_le) hbits ⟨rfl, ⟨⟨hinv.wf, ?_, ?_⟩, trivial⟩, rfl⟩ hid ?_
  · exact fun _ _ => rfl
  · exact fun _ _ => rfl
  · exact Nat.lt_add_right id (by omega)

lemma lt_size_xor {n i j : ℕ} (hi : i < 2 ^ n) (hj : 2 ^ n ≤ j) : n < (j ^^^ i).size := by
  refine Nat.lt_size.mpr (not_lt.mp fun hlt => ?_)
  have hback : (j ^^^ i) ^^^ i < 2 ^ n := Nat.xor_lt_two_pow hlt hi
  rw [Nat.xor_xor_cancel_right] at hback
  omega

lemma climbs_size (idp : Idr α) : Walk.Climbs idp fun _ id => id.size where
  inside _ hj := Nat.size_le.mpr hj
  outside _ hj := Nat.lt_size.mpr hj
  same {i j h} hij hle := by
    have hj : j < idrSize ^ h := by
      rw [idrSize, ← pow_mul, mul_comm]
      exact Nat.size_le.mp hle
    rw [Nat.div_eq_of_lt hj, Nat.div_eq_of_lt (hij.trans hj)]

lemma climbs_xor (idp : Idr α) : Walk.Climbs idp fun old id => (id ^^^ old).size where
  inside hi hj := Nat.size_le.mpr (Nat.xor_lt_two_pow hj hi)
  outside := lt_size_xor
  same {i j h} _ hle := by
    have hlt : j ^^^ i < 2 ^ (idrBits * h) := mul_comm h idrBits ▸ Nat.size_le.mp hle
    have hzero : (j ^^^ i) >>> (idrBits * h) = 0 := by
      rw [Nat.shiftRight_eq_div_pow, Nat.div_eq_of_lt hlt]
    rw [Nat.shiftRight_xor_distrib, Nat.xor_eq_zero_iff, Nat.shiftRight_eq_div_pow,
      Nat.shiftRight_eq_div_pow, pow_mul] at hzero
    exact hzero.symm

namespace Idr

variable {idp : Idr α} {id j h : ℕ}

lemma missing_le {c : Ptr α} : c.missing h id ≤ h := by
  induction h generalizing c with
  | zero => cases c <;> exact le_rfl
  | succ h ih =>
    cases c with
    | layer p => exact ih.trans h.le_succ
    | _ => exact le_rfl

lemma missing_of_get {c : Ptr α} {a : α} (hget : c.get h id = some a) : c.missing h id = 0 := by
  induction h generalizing c with
  | zero => cases c <;> rfl
  | succ h ih =>
    cases c with
    | layer p => exact ih hget
    | _ => cases hget

/-- An id that is in the same layer has a path as long. -/
lemma missing_lt {c : Ptr α} {l : ℕ} (hl : h ≤ l)
    (hdiv : id / idrSize ^ h = j / idrSize ^ h) (hlt : c.missing l id < h) : c.missing l j < h := by
  induction l generalizing c with
  | zero => exact (Nat.not_lt_zero _ (hlt.trans_le hl)).elim
  | succ l ih =>
    cases c with
    | layer p =>
      obtain hl | rfl := Nat.le_succ_iff.mp hl
      · have hslot : slotOf l id = slotOf l j := by
          obtain ⟨d, rfl⟩ := Nat.exists_eq_add_of_le hl
          unfold slotOf
          rw [digit_eq, digit_eq, pow_add, ← Nat.div_div_eq_div_mul, ← Nat.div_div_eq_div_mul]
          exact congrArg (· / _ % _) hdiv
        rw [Ptr.missing, hslot] at hlt
        exact ih hl hlt
      · exact Nat.lt_succ_of_le (missing_le (c := p.ary (slotOf l j)))
    | _ => exact absurd (hlt.trans_le hl) (lt_irrefl (l + 1))

/-- From the start of what is missing, the next id is such a start too. -/
lemma aligned_after (h : idrSize ^ idp.missing id ∣ id) :
    idrSize ^ idp.missing (idp.after id) ∣ idp.after id := by
  rcases le_or_gt (idp.missing (idp.after id)) (idp.missing id) with
    hle | hlt
  · have hpow := pow_dvd_pow idrSize hle
    exact Nat.dvd_add (hpow.trans h) hpow
  have hne : id / idrSize ^ idp.missing (idp.after id) ≠
      idp.after id / idrSize ^ idp.missing (idp.after id) :=
    fun heq => (missing_lt missing_le heq hlt).false
  unfold after at hne hlt ⊢
  generalize idp.missing (id + _) = s at *
  generalize idp.missing id = r at *
  obtain ⟨m, rfl⟩ := h
  obtain ⟨d, rfl⟩ := Nat.exists_eq_add_of_le hlt.le
  have hpos : 0 < idrSize ^ r := Nat.pow_pos (by decide)
  rw [← Nat.mul_succ, pow_add] at hne ⊢
  rw [Nat.mul_div_mul_left _ _ hpos, Nat.mul_div_mul_left _ _ hpos, Nat.succ_div] at hne
  refine Nat.mul_dvd_mul_left _ (by_contra fun hnot => hne ?_)
  rw [if_neg hnot, add_zero]

/-- From there on a walk comes to all the items. -/
lemma exists_iterate_after (h : idrSize ^ idp.missing id ∣ id) (hle : id ≤ j)
    {a : α} (hget : idp.top.get idp.layers j = some a) : ∃ n, idp.after^[n] id = j := by
  induction hd : j - id using Nat.strong_induction_on generalizing id with | _ d ih
  obtain rfl | hlt := hle.eq_or_lt
  · exact ⟨0, rfl⟩
  have hnext : idp.after id ≤ j := by
    by_contra hgt
    have hblock : j / idrSize ^ idp.missing id =
        id / idrSize ^ idp.missing id := by
      obtain ⟨m, hm⟩ := h
      have hpos : 0 < idrSize ^ idp.missing id := Nat.pow_pos (by decide)
      unfold after at hgt
      generalize idrSize ^ idp.missing id = b at *
      subst hm
      rw [Nat.mul_div_cancel_left _ hpos]
      exact Nat.div_eq_of_lt_le (by rw [mul_comm]; exact hle) (by rw [mul_comm, mul_add]; omega)
    rcases Nat.eq_zero_or_pos (idp.missing id) with hzero | hpos
    · rw [after, hzero, pow_zero] at hgt
      omega
    · exact (missing_lt missing_le hblock ((missing_of_get hget).trans_lt hpos)).false
  have hless : id < idp.after id := lt_after
  obtain ⟨n, hn⟩ := ih _ (by omega) (aligned_after h) hnext rfl
  exact ⟨n + 1, hn⟩

lemma Inv.find_below (hinv : idp.Inv) (hlt : id < idp.max) :
    idp.find id = some (idp.top.get idp.layers id) := by
  rw [max, mul_comm, pow_mul] at hlt
  have hmax := hlt.trans_le (pow_le_max hinv.layers_le)
  rw [hinv.find, Nat.mod_eq_of_lt (hmax.trans (by decide)), get, held_of_lt hlt]

lemma Inv.find_above (hinv : idp.Inv) (hid : id < maxIdBit) (hle : idp.max ≤ id) :
    idp.find id = some none := by
  rw [max, mul_comm, pow_mul] at hle
  rw [hinv.find, Nat.mod_eq_of_lt hid, get, held_of_le hle]

lemma Inv.aligned_start (hinv : idp.Inv) (hlt : id < idp.max)
    (h : id = 0 ∨ ∃ a, idp.find (id - 1) = some (some a)) : idrSize ^ idp.missing id ∣ id := by
  rcases h with rfl | ⟨a, hfind⟩
  · exact dvd_zero _
  cases id with
  | zero => exact dvd_zero _
  | succ k =>
    rw [Nat.add_sub_cancel, hinv.find_below (Nat.lt_of_succ_lt hlt)] at hfind
    have hzero : idp.missing k = 0 := missing_of_get (Option.some.inj hfind)
    have hnext : _ ∣ idp.after k := aligned_after (by rw [hzero]; exact one_dvd _)
    rwa [after, hzero, pow_zero] at hnext

lemma Inv.passes_iff (hinv : idp.Inv) (h : idrSize ^ idp.missing id ∣ id) (P : ℕ → α → Prop) :
    idp.Passes P id ↔ ∀ k < maxIdBit, id ≤ k → ∀ a, idp.find k = some (some a) → P k a := by
  constructor
  · intro hall k hk hle a hfind
    rcases lt_or_ge k idp.max with hlt | hge
    · rw [hinv.find_below hlt] at hfind
      obtain ⟨n, rfl⟩ := exists_iterate_after h hle (Option.some.inj hfind)
      exact hall n a hlt (Option.some.inj hfind)
    · rw [hinv.find_above hk hge] at hfind
      cases hfind
  · intro hall n a hlt hget
    refine hall _ ?_ (le_iterate_after n) a (by rw [hinv.find_below hlt, hget])
    refine hlt.trans_le ?_
    rw [max, mul_comm, pow_mul]
    exact (pow_le_max hinv.layers_le).trans (by decide)

end Idr

/-- **The stack of the walks** is left exactly by those that come to the end of the ids.
`idr_get_next` can come there past an item, but not from 0 or from the id behind an item. -/
theorem walks_keep_iff (idp : Idr α) (hidp : idp.Reachable) (junk : Ptr α) :
    (∀ fn, ∃ error bad, idp.forEach junk fn = some (error, bad) ∧ (bad = true ↔
      ∀ k < maxIdBit, ∀ a, idp.find k = some (some a) → fn k (.item a) = 0)) ∧
      (∀ nextid, ∃ r bad, idp.getNext junk nextid = some (r, bad) ∧
        (bad = true ↔ idp.top ≠ .null ∧ nextid < idp.max ∧ ∀ n a,
          idp.after^[n] nextid < idp.max → idp.find (idp.after^[n] nextid) ≠ some (some a)) ∧
        ((nextid = 0 ∨ ∃ a, idp.find (nextid - 1) = some (some a)) →
          (bad = true ↔ idp.top ≠ .null ∧ nextid < idp.max ∧
            ∀ k < maxIdBit, nextid ≤ k → ∀ a, idp.find k ≠ some (some a)))) ∧
      idp.removeAll junk = some ({ idp with top := .null, layers := 0 }, true) := by
  have hinv := hidp.inv
  refine ⟨fun fn => ?_, fun nextid => ?_, ?_⟩
  · obtain ⟨r, bad, hwalk, hbad, hfirst⟩ := hinv.walk 0
      (fun id p => if fn id p = 0 then none else some (fn id p)) junk (climbs_size idp)
      (Nat.two_pow_pos _)
    refine ⟨r, bad, hwalk, hbad.trans ((hfirst rfl).trans ?_)⟩
    refine (hinv.passes_iff (dvd_zero _) fun k a =>
      (if fn k (.item a) = 0 then none else some (fn k (.item a))) = none).trans ?_
    simp
  · unfold Idr.getNext
    split_ifs with htop
    · exact ⟨none, false, rfl, by simp [Ptr.isNull_iff.mp htop]⟩
    rw [Ptr.isNull_iff] at htop
    rcases lt_or_ge nextid idp.max with hlt | hge
    swap
    · exact ⟨none, false, if_neg (not_lt.mpr hge), by simp [hge]⟩
    obtain ⟨r, bad, hwalk, hbad, hfirst⟩ := hinv.walk 0
      (fun id p => some (id, p)) junk (climbs_size idp) hlt
    refine ⟨r, bad, hwalk, ?_, fun hstart => ?_⟩
    · rw [hbad, hfirst rfl, and_iff_right htop, and_iff_right hlt]
      refine forall₃_congr fun n a hn => ?_
      simp [hinv.find_below hn]
    · rw [hbad, hfirst rfl, and_iff_right htop, and_iff_right hlt]
      refine (hinv.passes_iff (hinv.aligned_start hlt hstart) fun k a =>
        some (k, Ptr.item a) = none).trans ?_
      simp
  · obtain ⟨r, bad, hwalk, hbad, -⟩ := hinv.walk 1 (fun _ _ => (none : Option Empty))
      junk (climbs_xor idp) (Nat.two_pow_pos _)
    obtain rfl : r = none := Subsingleton.elim _ _
    rw [Idr.removeAll, hwalk, Option.map_some, hbad.mpr rfl]

theorem walks_one : ∃ idp : Idr Char, idp.find 0 = some (some 'a') ∧
    (∃ error, idp.forEach .null (fun _ _ => 1) = some (error, false)) ∧
    ∃ r, idp.getNext .null 0 = some (r, false) := by
  obtain ⟨idp, hidp, hfind, -⟩ := one_allocated
  obtain ⟨heach, hnext, -⟩ := walks_keep_iff idp hidp .null
  refine ⟨idp, hfind, ?_, ?_⟩
  · obtain ⟨error, bad, hwalk, hbad⟩ := heach fun _ _ => 1
    refine ⟨error, hwalk.trans ?_⟩
    rw [Bool.eq_false_iff.mpr fun h => absurd (hbad.mp h 0 (by decide) 'a' hfind) (by decide)]
  · obtain ⟨r, bad, hwalk, -, hbad⟩ := hnext 0
    refine ⟨r, hwalk.trans ?_⟩
    rw [Bool.eq_false_iff.mpr fun h =>
      ((hbad (.inl rfl)).mp h).2.2 0 (by decide) le_rfl 'a' hfind]

/-- Over the empty idr `idr_for_each` reads `pa[-1]`. -/
theorem walk_reads_below : Idr.init.forEach (.null : Ptr Char) (fun _ _ => 0) =
    some (none, true) := rfl

end Am335x.Ids
