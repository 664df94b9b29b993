import Am335xKernel.Lib.Refinement
import Am335xKernel.Kernel.IdrAccess

/-!
# The idr as a map

What the users of an idr rely on is the `contract`: an allocation gives the first id
that is free from `starting_id` on, and an id is found with the pointer that it was
last given.

The layers reach up to `2 ^ 30`. If all ids from `starting_id` up to there are
allocated, the search starts over at the first slot and `idr_get_new_above` returns
an id with bit 30 set, under which nothing is found. So the contract is kept as long
as an allocation is made only while there is an id left for it (`Spare`). A NULL
pointer takes up an id, but is none of the children that a layer counts; `Spare`
leaves it out too.
-/

namespace Am335x.Ids

open Function Option

open DigitPath Ptr

variable {α : Type*}

inductive Call (α : Type*) where
  | preGet (mem : ℕ)
  | getNewAbove (ptr : Option α) (startingId : ℕ)
  | replace (ptr : Option α) (id : ℕ)
  | find (id : ℕ)
  | remove (id : ℕ)

inductive Reply (α : Type*) where
  | errno (e : ℤ)
  | id (k : ℕ)
  | ptr (x : Option α)
  deriving DecidableEq

def toPtr : Ptr α → Option (Option α)
  | .null => some none
  | .item a => some (some a)
  | .layer _ => none

def Idr.call : Component (Idr α) (Call α) (Reply α)
  | idp, .preGet mem => some ((idp.preGet mem).1, .errno (idp.preGet mem).2)
  | idp, .getNewAbove ptr startingId =>
    (idp.getNewAbove ptr startingId).map fun r => (r.1, r.2.elim .errno .id)
  | idp, .replace ptr id =>
    (idp.replace ptr id).bind fun r =>
      match r.2 with
      | .inl e => some (r.1, .errno e)
      | .inr old => (toPtr old).map fun x => (r.1, .ptr x)
  | idp, .find id => (idp.find id).map fun x => (idp, .ptr x)
  | idp, .remove id => (idp.remove id).map fun idp' => (idp', .errno 0)

abbrev Bound (α : Type*) := ℕ → Option (Option α)

/-- The calls are made with any `int`; only ids that are allocated are removed. -/
def Bound.Allowed (s : Bound α) : Call α → Prop
  | .preGet _ => True
  | .getNewAbove _ startingId => startingId < 2 ^ 32 ∧ CInt.toInt startingId < 2 ^ 30
  | .replace _ id => id < 2 ^ 32
  | .find id => id < 2 ^ 32
  | .remove id => id < 2 ^ 32 ∧ s (id % maxIdBit) ≠ none

def Bound.Answers (s : Bound α) : Call α → Reply α → Prop
  | .preGet _, r => r = .errno 0 ∨ r = .errno 1
  | .getNewAbove _ startingId, r => (∃ e < 0, r = .errno e) ∨
      ∃ k : ℕ, r = .id k ∧ CInt.toInt startingId ≤ k ∧ s k = none ∧
        ∀ j : ℕ, CInt.toInt startingId ≤ j → j < k → s j ≠ none
  | .replace _ id, r => (∃ old, s (id % maxIdBit) = some old ∧ r = .ptr old) ∨
      (s (id % maxIdBit) = none ∧ ∃ e < 0, r = .errno e)
  | .find id, r => r = .ptr (s (id % maxIdBit)).join
  | .remove _, r => r = .errno 0

def Bound.next (s : Bound α) : Call α → Reply α → Bound α
  | .getNewAbove ptr _, .id k => update s k (some ptr)
  | .replace ptr id, .ptr _ => update s (id % maxIdBit) (some ptr)
  | .remove id, _ => update s (id % maxIdBit) none
  | _, _ => s

def contract : Contract (Bound α) (Call α) (Reply α) where
  allowed := Bound.Allowed
  ok := Bound.Answers
  next := Bound.next

def Bound.Spare (s : Bound α) : Call α → Prop
  | .getNewAbove ptr startingId => ptr ≠ none ∧ ∃ k < 2 ^ 30, startingId ≤ k ∧ s k = none
  | .replace ptr _ => ptr ≠ none
  | _ => True

/-- All ids are found as they were bound, and the layers are right: a bit is set
where all below is allocated, counts are exact, and the top is at its distance. -/
structure Idr.Right (s : Bound α) (idp : Idr α) : Prop where
  find_eq : ∀ id < maxIdBit, idp.find id = some (s id).join
  bound_iff : ∀ id < maxIdBit, s id ≠ none ↔ idp.get id ≠ none
  layers_wf : idp.top.Wf idp.layers
  top_layer : ∀ p, idp.top = .layer p → p.layer + 1 = idp.layers

namespace Idr

variable {idp : Idr α} {s : Bound α} {ptr : Option α}

def Holds (s : Bound α) (idp : Idr α) : Prop := idp.Inv ∧ s = fun id => (idp.get id).map some

lemma Holds.right (h : Holds s idp) : idp.Right s := by
  obtain ⟨hinv, rfl⟩ := h
  refine ⟨fun id hid => ?_, fun id _ => ?_, hinv.wf, fun p htop => ?_⟩
  · rw [hinv.find, Nat.mod_eq_of_lt hid]
    cases idp.get id <;> rfl
  · simp
  · obtain ⟨l, hl⟩ := (invBy_every.mpr hinv).layers_of_layer htop
    have hwf := hinv.wf
    rw [htop, hl] at hwf
    rw [hwf.1, hl]

lemma map_update (g : ℕ → Option α) (k : ℕ) (x : Option α) :
    (fun id => (update g k x id).map some) = update (fun id => (g id).map some) k (x.map some) := by
  funext j
  rcases eq_or_ne j k with rfl | hne
  · rw [update_self, update_self]
  · rw [update_of_ne hne, update_of_ne hne]

variable (h : Holds s idp)
include h

lemma Holds.getNewAbove {startingId : ℕ} (hspare : s.Spare (.getNewAbove ptr startingId)) :
    ∃ idp' r, idp.call (.getNewAbove ptr startingId) = some (idp', r) ∧
      s.Answers (.getNewAbove ptr startingId) r ∧
      Holds (s.next (.getNewAbove ptr startingId) r) idp' := by
  obtain ⟨hinv, rfl⟩ := h
  obtain ⟨hptr, k, hk, hle, hfree⟩ := hspare
  obtain ⟨a, rfl⟩ := ne_none_iff_exists'.mp hptr
  have hleft : ∃ k, startingId ≤ k ∧ k < 2 ^ 30 ∧ idp.get k = none :=
    ⟨k, hle, hk, map_eq_none_iff.mp hfree⟩
  have hint : CInt.toInt startingId = startingId :=
    CInt.toInt_of_lt (Int.natCast_nonneg _) (by exact_mod_cast (hle.trans_lt hk).trans (by decide))
  obtain ⟨idp', r, hnew, hinv', hcase⟩ := hinv.getNewAbove a hleft
  refine ⟨idp', _, by rw [call, hnew]; rfl, ?_⟩
  rcases hcase with ⟨rfl, hget⟩ | ⟨id, rfl, hge, hnone, htaken, hget⟩
  · refine ⟨.inl ⟨eagain, by decide, rfl⟩, hinv', ?_⟩
    rw [hget]
    rfl
  · refine ⟨.inr ⟨id, rfl, ?_, map_eq_none_iff.mpr hnone, fun j hj hlt => ?_⟩, hinv', ?_⟩
    · rw [hint]
      exact_mod_cast hge
    · rw [hint] at hj
      have htaken' := htaken j (by exact_mod_cast hj) hlt
      exact fun hnone => htaken' (map_eq_none_iff.mp hnone)
    · rw [hget, map_update]
      rfl

lemma Holds.replace (hptr : ptr ≠ none) (id : ℕ) :
    ∃ idp' r, idp.call (.replace ptr id) = some (idp', r) ∧ s.Answers (.replace ptr id) r ∧
      Holds (s.next (.replace ptr id) r) idp' := by
  obtain ⟨hinv, rfl⟩ := h
  obtain ⟨a, rfl⟩ := ne_none_iff_exists'.mp hptr
  cases hget : idp.get (id % maxIdBit) with
  | none =>
    obtain ⟨e, he, hreplace⟩ := hinv.replace_absent (some a) hget
    refine ⟨idp, .errno e, by rw [call, hreplace]; rfl, .inr ⟨?_, e, he, rfl⟩, hinv, rfl⟩
    exact map_eq_none_iff.mpr hget
  | some b =>
    obtain ⟨idp', hreplace, hinv', hget'⟩ := hinv.replace_present a hget
    refine ⟨idp', .ptr (some b), by rw [call, hreplace]; rfl, .inl ⟨some b, ?_, rfl⟩, hinv', ?_⟩
    · exact map_eq_some_iff.mpr ⟨b, hget, rfl⟩
    · rw [hget', map_update]
      rfl

lemma Holds.step (c : Call α) (hallowed : (contract.when Bound.Spare).allowed s c) :
    ∃ idp' r, idp.call c = some (idp', r) ∧ contract.ok s c r ∧
      Holds (contract.next s c r) idp' := by
  cases c with
  | preGet mem =>
    obtain ⟨hinv, rfl⟩ := h
    obtain ⟨hinv', hget⟩ := (invBy_every.mpr hinv).preGet mem
    refine ⟨_, _, rfl, ?_, invBy_every.mp hinv', ?_⟩
    · show Reply.errno (if _ then 0 else 1) = .errno 0 ∨ Reply.errno (if _ then 0 else 1) = .errno 1
      split_ifs
      · exact .inl rfl
      · exact .inr rfl
    · rw [hget]
      rfl
  | getNewAbove ptr startingId => exact h.getNewAbove hallowed.2
  | replace ptr id => exact h.replace hallowed.2 id
  | find id =>
    obtain ⟨hinv, rfl⟩ := h
    refine ⟨idp, _, by rw [call, hinv.find]; rfl, ?_, hinv, rfl⟩
    show Reply.ptr _ = .ptr ((idp.get (id % maxIdBit)).map some).join
    cases idp.get (id % maxIdBit) <;> rfl
  | remove id =>
    obtain ⟨hinv, rfl⟩ := h
    obtain ⟨a, hget⟩ : ∃ a, idp.get (id % maxIdBit) = some a := by
      refine ne_none_iff_exists'.mp fun hnone => hallowed.1.2 ?_
      exact map_eq_none_iff.mpr hnone
    obtain ⟨idp', hremove, hinv', hget'⟩ := hinv.remove hget
    refine ⟨idp', .errno 0, by rw [call, hremove]; rfl, rfl, hinv', ?_⟩
    rw [hget', map_update]
    rfl

end Idr

/-- **The idr is a map**, as long as there is an id left for every allocation. -/
theorem idr_keeps_contract (calls : List (Call α)) :
    Idr.call.Keeps (contract.when Bound.Spare) (Idr.Right) (fun _ => none) Idr.init calls :=
  Component.keeps_of_step (I := Idr.Holds) (fun _ _ h => h.right) (fun _ _ c h => h.step c)
    ⟨Idr.invBy_every.mp Idr.InvBy.init, by funext id; rw [Idr.get, Idr.init, held_null]; rfl⟩ calls

theorem idr_keeps_contract_five : ∃ s idp rs, Idr.call.run Idr.init
    [.preGet 14, .getNewAbove (some 'a') 5, .find 5] = some (idp, rs) ∧ Idr.Right s idp := by
  refine (idr_keeps_contract [.preGet 14, .getNewAbove (some 'a') 5, .find 5]).run ?_
  have hfree : ∃ k < 2 ^ 30, 5 ≤ k := ⟨5, by decide⟩
  simpa [Contract.Allows, Contract.when, contract, Bound.Allowed, Bound.Spare, Bound.next,
    CInt.toInt] using fun _ _ => hfree

/-- The last id of the layers is allocated twice: the second time it is `2 ^ 30` that
is returned, under which nothing is found, and the pointer is found under 0. -/
theorem allocated_behind_last_layer : ¬ Idr.call.Keeps contract (Idr.Right) (fun _ => none) Idr.init
      [.preGet 14, .getNewAbove (some 'a') (2 ^ 30 - 1), .preGet 14,
        .getNewAbove (some 'b') (2 ^ 30 - 1)] := by
  have hstart : 2 ^ 30 - 1 < 2 ^ 32 ∧ CInt.toInt ((2 ^ 30 - 1 : ℕ) : ℤ) < 2 ^ 30 := by decide
  rintro ⟨-, h⟩
  obtain ⟨idp1, r1, hcall1, -, -, h⟩ := h trivial
  obtain ⟨idp2, r2, hcall2, -, -, h⟩ := h hstart
  obtain ⟨idp3, r3, hcall3, -, -, h⟩ := h trivial
  obtain ⟨idp4, r4, hcall4, -, hright⟩ := h hstart
  have hrun : Idr.call.run Idr.init [.preGet 14, .getNewAbove (some 'a') (2 ^ 30 - 1), .preGet 14,
      .getNewAbove (some 'b') (2 ^ 30 - 1)] = some (idp4, [r1, r2, r3, r4]) := by
    simp only [Component.run_cons_eq_some]
    exact ⟨idp1, r1, _, hcall1, ⟨idp2, r2, _, hcall2, ⟨idp3, r3, _, hcall3,
      ⟨idp4, r4, _, hcall4, rfl, rfl⟩, rfl⟩, rfl⟩, rfl⟩
  have hwrong : (Idr.call.run Idr.init [.preGet 14, .getNewAbove (some 'a') (2 ^ 30 - 1),
      .preGet 14, .getNewAbove (some 'b') (2 ^ 30 - 1)]).any
      (fun p => decide (p.2.getLast? = some (.id (2 ^ 30)) ∧ p.1.find (2 ^ 30) = some none)) =
        true := by
    decide +kernel
  obtain ⟨⟨idp, replies⟩, heq, hdecide⟩ := (any_eq_true _ _).mp hwrong
  obtain ⟨hlast, hnull⟩ := of_decide_eq_true hdecide
  rw [hrun] at heq
  cases heq
  cases hlast
  have hfind := hright.find_eq (2 ^ 30) (by decide)
  rw [hnull] at hfind
  cases some.inj hfind

/-- An allocation is for an item, and made while there is an id left for it. -/
def Idr.Serves (idp : Idr α) : Call α → Prop
  | .getNewAbove ptr startingId =>
    ptr ≠ none ∧ ∃ k < 2 ^ 30, startingId ≤ k ∧ idp.find k = some none
  | .replace ptr _ => ptr ≠ none
  | _ => True

lemma Idr.Inv.call {idp idp' : Idr α} {c : Call α} {r : Reply α} (hinv : idp.Inv)
    (hserves : idp.Serves c) (hcall : idp.call c = some (idp', r)) : idp'.Inv := by
  have hholds : Holds (fun id => (idp.get id).map some) idp := ⟨hinv, rfl⟩
  cases c with
  | preGet mem =>
    cases hcall
    exact invBy_every.mp ((invBy_every.mpr hinv).preGet mem).1
  | getNewAbove ptr startingId =>
    obtain ⟨hptr, k, hk, hle, hfree⟩ := hserves
    rw [hinv.find, Nat.mod_eq_of_lt (hk.trans (by decide))] at hfree
    obtain ⟨_, _, hnew, -, hholds'⟩ := hholds.getNewAbove
      ⟨hptr, k, hk, hle, map_eq_none_iff.mpr (some.inj hfree)⟩
    cases hnew.symm.trans hcall
    exact hholds'.1
  | replace ptr id =>
    obtain ⟨_, _, hreplace, -, hholds'⟩ := hholds.replace hserves id
    cases hreplace.symm.trans hcall
    exact hholds'.1
  | find id =>
    obtain ⟨_, -, heq⟩ := map_eq_some_iff.mp hcall
    cases heq
    exact hinv
  | remove id =>
    obtain ⟨idp1, hremove, hinv', -⟩ := hinv.remove_any id
    rw [Idr.call, hremove] at hcall
    cases hcall
    exact hinv'

/-- The idrs that calls lead to which `Idr.Serves` allows. -/
def Idr.Reachable (idp : Idr α) : Prop := Idr.call.Reach Idr.Serves Idr.init idp

lemma Idr.Reachable.inv {idp : Idr α} (h : idp.Reachable) : idp.Inv :=
  h.invariant (invBy_every.mp InvBy.init) fun _ _ _ _ hinv => hinv.call

section

variable {p : Layer (Ptr α)} {path : List (Frame α)} {idFree : List (Layer (Ptr α))}
  {fuel layers id : ℕ}

lemma rebuild_layer {q : Layer (Ptr α)} (h : p.layer = q.layer) :
    (rebuild p path).layer = (rebuild q path).layer := by
  induction path generalizing p q with
  | nil => exact h
  | cons f path ih => exact ih rfl

lemma markFull_layer : (markFull id p path).layer = (rebuild p path).layer := by
  induction path generalizing id p with
  | nil => rfl
  | cons f path ih =>
    unfold markFull
    dsimp only
    split_ifs
    · exact ih.trans (rebuild_layer rfl)
    · exact rebuild_layer rfl

/-- Without regard to the ids that are left: where the layer at the top is. -/
def Alloc.Below (top : ℕ) : Alloc α → Prop
  | .found id p path _ => id < maxIdBit ∧ (rebuild p path).layer = top
  | .needToGrow _ p _ => p.layer = top
  | _ => True

lemma subAllocLoop_below {l top : ℕ} {r : Alloc α} (htop : (rebuild p path).layer = top)
    (h : subAllocLoop layers fuel l id (.layer p) path idFree = some r) : r.Below top := by
  induction fuel generalizing l id p path idFree with
  | zero => cases h
  | succ fuel ih =>
    unfold subAllocLoop at h
    dsimp only at h
    split_ifs at h with hnone hgrow hup hmax
    · cases h
      exact htop
    · cases path with
      | nil => cases h
      | cons f path => exact ih (p := f.plug p) htop h
    · cases path with
      | nil => cases h
      | cons f path => exact @ih _ [] _ _ _ htop h
    · cases h
      trivial
    · cases l with
      | zero =>
        cases h
        exact ⟨not_le.mp hmax, htop⟩
      | succ l =>
        cases hchild : p.ary (p.bitmap.findNextZeroBit idrSize (digit idrBits (l + 1) id)) with
        | null =>
          simp only [hchild] at h
          cases idFree with
          | nil =>
            cases h
            trivial
          | cons new idFree =>
            refine @ih _ ((_, _) :: path) _ _ _ (Eq.trans ?_ htop) h
            exact @rebuild_layer _ _ path _ rfl
        | item a =>
          simp only [hchild] at h
          cases fuel <;> cases h
        | layer q =>
          simp only [hchild] at h
          refine ih (Eq.trans ?_ htop) h
          exact @rebuild_layer _ _ path _ rfl

lemma growLoop_below {built : ℕ} {q : Layer (Ptr α)} {idFree' : List (Layer (Ptr α))}
    (h : growLoop id fuel built (p.layer + 1) p idFree = .done q layers idFree')
    (hle : p.layer < 6) : q.layer + 1 = layers ∧ q.layer < 6 := by
  induction fuel generalizing p built idFree with
  | zero =>
    cases h
    exact ⟨rfl, hle⟩
  | succ fuel ih =>
    unfold growLoop at h
    split_ifs at h with hroom hcount
    · exact ih (p := { p with layer := p.layer + 1 }) h hroom.1
    · cases idFree with
      | nil => cases h
      | cons new idFree => exact ih (p := above new p _) h hroom.1
    · cases h
      exact ⟨rfl, hle⟩

lemma buildUp_below {idp : Idr α} (htop : ∀ p, idp.top = .layer p → p.layer + 1 = idp.layers ∧
    p.layer < 6) (h : buildUp idp id = some (.done p layers idFree)) :
    p.layer + 1 = layers ∧ p.layer < 6 := by
  unfold buildUp at h
  cases hcase : idp.top with
  | null =>
    cases hfree : idp.idFree with
    | nil => simp [hcase, hfree] at h
    | cons q rest =>
      simp only [hcase, hfree, Option.some.injEq] at h
      exact growLoop_below (p := { q with layer := 0 }) h (Nat.zero_lt_succ 5)
  | item a => simp [hcase] at h
  | layer q =>
    obtain ⟨hlayers, hlt⟩ := htop q hcase
    simp only [hcase, ← hlayers, Option.some.injEq] at h
    exact growLoop_below h hlt

lemma getEmptySlot_below {idp idp' : Idr α} {id' : ℕ}
    (htop : ∀ p, idp.top = .layer p → p.layer + 1 = idp.layers ∧ p.layer < 6)
    (h : getEmptySlot fuel idp id = some (idp', .found id' p path)) :
    id' < maxIdBit ∧ (rebuild p path).layer < 6 := by
  induction fuel generalizing idp id with
  | zero => cases h
  | succ fuel ih =>
    unfold getEmptySlot at h
    cases hbuild : buildUp idp id with
    | none => simp only [hbuild, reduceCtorEq] at h
    | some grown =>
      simp only [hbuild] at h
      cases grown with
      | noLayer top idFree => cases h
      | done q layers idFree =>
        have hdone := buildUp_below htop hbuild
        dsimp only at h
        cases halloc : subAlloc layers id (.layer q) idFree with
        | none => simp only [halloc, reduceCtorEq] at h
        | some r =>
          have hbelow : r.Below q.layer := subAllocLoop_below rfl halloc
          simp only [halloc] at h
          cases r with
          | found id'' p' path' idFree' =>
            cases h
            exact ⟨hbelow.1, hbelow.2.trans_lt hdone.2⟩
          | needToGrow id'' top idFree' =>
            refine ih (fun p hp => ?_) h
            cases hp
            rw [show top.layer = q.layer from hbelow]
            exact hdone
          | _ => cases h

lemma Idr.Inv.getNewAbove_below {idp idp' : Idr α} {ptr : Option α} {startingId : ℕ}
    (hinv : idp.Inv) (h : idp.getNewAbove ptr startingId = some (idp', .inr id)) :
    id < maxIdBit ∧ ∃ q, idp'.top = .layer q ∧ q.layer < 6 := by
  have htop : ∀ p, idp.top = .layer p → p.layer + 1 = idp.layers ∧ p.layer < 6 := by
    intro p hp
    have hlayer := (show Holds _ idp from ⟨hinv, rfl⟩).right.top_layer p hp
    exact ⟨hlayer, hlayer.trans_le hinv.layers_le⟩
  unfold Idr.getNewAbove at h
  cases hslot : getEmptySlot (maxLevel + 1) idp startingId with
  | none => simp only [hslot, reduceCtorEq] at h
  | some r =>
    obtain ⟨idp1, slot⟩ := r
    simp only [hslot] at h
    cases slot with
    | failed errno => cases h
    | found id' p path =>
      obtain ⟨hlt, hlayer⟩ := getEmptySlot_below htop hslot
      cases h
      refine ⟨hlt, _, rfl, ?_⟩
      rw [markFull_layer]
      have hsame : (rebuild (p.install (id &&& (idrSize - 1)) (ofOption ptr)) path).layer =
          (rebuild p path).layer := rebuild_layer rfl
      omega

end

/-- **A new id** is free and not below `starting_id`, and the pointer is found under it,
as long as there is an id left. -/
theorem new_id_right (idp : Idr α) (hidp : idp.Reachable) (a : α) (startingId : ℕ)
    (idp' : Idr α) (id : ℕ) (hnew : idp.getNewAbove (some a) startingId = some (idp', .inr id)) :
    (startingId ≤ id ∧ idp.find id = some none ∧ idp'.find id = some (some a) ∧
      ∀ j < maxIdBit, j ≠ id → idp'.find j = idp.find j) ↔
        ∃ k < 2 ^ 30, startingId ≤ k ∧ idp.find k = some none := by
  have hinv := hidp.inv
  constructor
  · rintro ⟨hle, hfree, hfound, -⟩
    refine ⟨id, not_le.mp fun hlarge => ?_, hle, hfree⟩
    obtain ⟨hlt, q, htop, hq⟩ := hinv.getNewAbove_below hnew
    have hreach : 2 ^ ((q.layer + 1) * idrBits) ≤ id % maxIdBit := by
      rw [Nat.mod_eq_of_lt hlt]
      exact (Nat.pow_le_pow_right (by decide) (Nat.mul_le_mul_right _ hq)).trans hlarge
    simp only [Idr.find, htop, if_pos hreach] at hfound
    cases hfound
  rintro ⟨k, hk, hle, hfree⟩
  rw [hinv.find, Nat.mod_eq_of_lt (hk.trans (by decide))] at hfree
  obtain ⟨_, _, hnew', hinv', hcase⟩ := hinv.getNewAbove a ⟨k, hle, hk, some.inj hfree⟩
  cases hnew'.symm.trans hnew
  obtain ⟨herr, -⟩ | ⟨id', heq, hge, hnone, htaken, hget⟩ := hcase
  · cases herr
  cases heq
  have hlt : id < maxIdBit := by
    by_contra hlarge
    exact htaken k hle (hk.trans_le (le_trans (by decide) (not_lt.mp hlarge))) (some.inj hfree)
  simp only [hinv.find, hinv'.find, hget, Nat.mod_eq_of_lt hlt, hnone, update_self, true_and]
  refine ⟨hge, fun j hj hne => ?_⟩
  rw [Nat.mod_eq_of_lt hj, update_of_ne hne]

theorem new_id_seven : ∃ idp', (Idr.init.preGet 14).1.getNewAbove (some 'a') 7 =
    some (idp', .inr 7) ∧ idp'.find 7 = some (some 'a') := by
  have hreply : ((Idr.init.preGet 14).1.getNewAbove (some 'a') 7).map (·.2) = some (.inr 7) := by
    decide +kernel
  obtain ⟨⟨idp', _⟩, hnew, rfl⟩ := map_eq_some_iff.mp hreply
  have hright := (new_id_right _ (.call (i := .preGet 14) .start trivial rfl) 'a' 7 idp' 7
    hnew).mpr ⟨7, by decide, le_rfl, rfl⟩
  exact ⟨idp', hnew, hright.2.2.1⟩

/-- The id returned for `starting_id = 2 ^ 30` is not found. -/
theorem new_id_not_found : ((Idr.init.preGet 14).1.getNewAbove (some 'a') (2 ^ 30)).map
    (fun r => (r.2, r.1.find (2 ^ 30))) = some (.inr (2 ^ 30), some none) := by
  decide +kernel

lemma one_allocated : ∃ idp : Idr Char, idp.Reachable ∧ idp.find 0 = some (some 'a') ∧
    idp.find 5 = some none ∧ idp.layers = 1 := by
  have hreply : ((Idr.init.preGet 14).1.getNewAbove (some 'a') 0).map
      (fun r => (r.1.find 0, r.1.find 5, r.1.layers)) = some (some (some 'a'), some none, 1) := by
    decide +kernel
  obtain ⟨⟨idp, r⟩, hnew, heq⟩ := map_eq_some_iff.mp hreply
  simp only [Prod.mk.injEq] at heq
  refine ⟨idp, .call (i := .getNewAbove (some 'a') 0) (r := r.elim .errno .id)
    (.call (i := .preGet 14) .start trivial rfl) ⟨nofun, 0, by decide, le_rfl, rfl⟩ ?_, heq⟩
  rw [Idr.call, hnew]
  rfl

end Am335x.Ids
