import Am335xKernel.Lib.Refinement
import Am335xKernel.Lib.SlotCount

/-!
# The lru_cache of active objects

`lib/lru_cache.c` keeps a set of elements that carry labels. An element in use has
a reference count; one that is not in use stays in the cache until its place is
needed for another label. Changing a label takes two calls: `lc_get` takes an
element out of its list and out of the hash table, and `lc_changed` puts it back
with the new label. Only one such change may be pending.

Elements are their indices `lc_index`. The lists have the heads of the source in
front. The counters that are only printed (hits, misses, ...) are left out.
-/

namespace Am335x.LruCache

open Function Option Nat

def lcFree : ℕ := 2 ^ 32 - 1

def lcMaxActive : ℕ := 2 ^ 24

/-- `struct lru_cache`, with the fields of its elements. -/
structure Cache where
  nrElements : ℕ
  refcnt : ℕ → ℕ
  number : ℕ → ℕ
  inUse : List ℕ
  lru : List ℕ
  free : List ℕ
  slot : ℕ → List ℕ
  used : ℕ
  dirty : Bool
  starving : Bool
  changing : Option ℕ
  newNumber : ℕ

/-- `lc_create`: the elements are put in front of the free list one by one. -/
def lcCreate (eCount : ℕ) : Option Cache :=
  if eCount > lcMaxActive then none
  else some
    { nrElements := eCount
      refcnt := fun _ => 0
      number := fun _ => lcFree
      inUse := []
      lru := []
      free := (List.range eCount).reverse
      slot := fun _ => []
      used := 0
      dirty := false
      starving := false
      changing := none
      newNumber := lcFree }

namespace Cache

/-- `list_del`, from whichever list the element is on. -/
def listDel (lc : Cache) (e : ℕ) : Cache :=
  { lc with
    inUse := lc.inUse.filter (· ≠ e)
    lru := lc.lru.filter (· ≠ e)
    free := lc.free.filter (· ≠ e) }

/-- `hlist_del` and `hlist_del_init` -/
def hlistDel (lc : Cache) (e : ℕ) : Cache :=
  { lc with slot := fun k => (lc.slot k).filter (· ≠ e) }

/-- `lc_find` -/
def find (lc : Cache) (enr : ℕ) : Option ℕ :=
  (lc.slot (enr % lc.nrElements)).find? fun e => lc.number e = enr

/-- `lc_evict` -/
def evict (lc : Cache) : Option (Cache × ℕ) :=
  lc.lru.getLast?.map fun e => ((lc.listDel e).hlistDel e, e)

/-- `lc_get_unused_element` -/
def getUnusedElement (lc : Cache) : Option (Cache × ℕ) :=
  match lc.free.head? with
  | none => lc.evict
  | some e => some (lc.listDel e, e)

/-- `lc_unused_element_available` -/
def unusedElementAvailable (lc : Cache) : Bool :=
  !lc.free.isEmpty || !lc.lru.isEmpty

/-- One reference more, where `refcnt` and `used` are of type `unsigned`. -/
def ref (lc : Cache) (e : ℕ) : Cache :=
  { lc with
    refcnt := update lc.refcnt e ((lc.refcnt e + 1) % 2 ^ 32)
    used := if lc.refcnt e = 0 then (lc.used + 1) % 2 ^ 32 else lc.used }

def touch (lc : Cache) (e : ℕ) : Cache :=
  let lc := (lc.ref e).listDel e
  { lc with inUse := e :: lc.inUse }

/-- The end of `lc_get`, when there is an element for the new label. -/
def startChange (lc : Cache) (e enr : ℕ) : Cache :=
  { lc.ref e with
    starving := false
    changing := some e
    newNumber := enr }

def lcGet (lc : Cache) (enr : ℕ) : Option (Cache × Option ℕ) :=
  if lc.nrElements = 0 then none
  else if lc.starving then some (lc, none)
  else
    match lc.find enr with
    | some e => some (lc.touch e, some e)
    | none =>
      if ¬ lc.unusedElementAvailable then some ({ lc with starving := true }, none)
      else if lc.dirty then some (lc, none)
      else
        match getUnusedElement { lc with dirty := true } with
        | none => none
        | some (lc, e) =>
          if (lc.refcnt e + 1) % 2 ^ 32 ≠ 1 then none else some (lc.startChange e enr, some e)

def lcTryGet (lc : Cache) (enr : ℕ) : Option (Cache × Option ℕ) :=
  if lc.nrElements = 0 then none
  else if lc.starving then some (lc, none)
  else
    match lc.find enr with
    | some e => some (lc.touch e, some e)
    | none => some (lc, none)

def lcChanged (lc : Cache) (e : ℕ) : Option Cache :=
  if lc.nrElements = 0 ∨ lc.changing ≠ some e ∨ lc.nrElements ≤ e then none
  else some
    { lc with
      number := update lc.number e lc.newNumber
      inUse := e :: lc.inUse
      slot := update lc.slot (lc.newNumber % lc.nrElements)
        (e :: lc.slot (lc.newNumber % lc.nrElements))
      changing := none
      newNumber := lcFree
      dirty := false }

def retire (lc : Cache) (e : ℕ) : Cache :=
  let lc := lc.listDel e
  { lc with
    lru := e :: lc.lru
    used := (lc.used + (2 ^ 32 - 1)) % 2 ^ 32
    starving := false }

def lcPut (lc : Cache) (e : ℕ) : Option (Cache × ℕ) :=
  if lc.nrElements = 0 ∨ lc.nrElements ≤ e ∨ lc.refcnt e = 0 ∨ lc.changing = some e then none
  else
    let lc := { lc with refcnt := update lc.refcnt e (lc.refcnt e - 1) }
    if lc.refcnt e = 0 then some (lc.retire e, lc.refcnt e) else some (lc, lc.refcnt e)

def lcDel (lc : Cache) (e : ℕ) : Option Cache :=
  if lc.nrElements = 0 ∨ lc.nrElements ≤ e ∨ lc.refcnt e ≠ 0 then none
  else
    let lc := ({ lc with number := update lc.number e lcFree }.hlistDel e).listDel e
    some { lc with free := e :: lc.free }

end Cache

inductive Call where
  | get (enr : ℕ)
  | tryGet (enr : ℕ)
  | changed (e : ℕ)
  | put (e : ℕ)
  | del (e : ℕ)

inductive Reply where
  | element (e : Option ℕ)
  | refcnt (n : ℕ)
  | none

def Cache.call : Component Cache Call Reply
  | lc, .get enr => (lc.lcGet enr).map fun p => (p.1, .element p.2)
  | lc, .tryGet enr => (lc.lcTryGet enr).map fun p => (p.1, .element p.2)
  | lc, .changed e => (lc.lcChanged e).map fun lc => (lc, .none)
  | lc, .put e => (lc.lcPut e).map fun p => (p.1, .refcnt p.2)
  | lc, .del e => (lc.lcDel e).map fun lc => (lc, .none)

def Cache.Hashed (lc : Cache) (e : ℕ) : Prop := ∃ k, e ∈ lc.slot k

structure Inv (lc : Cache) : Prop where
  size : lc.nrElements ≤ lcMaxActive
  nodup_inUse : lc.inUse.Nodup
  nodup_lru : lc.lru.Nodup
  nodup_free : lc.free.Nodup
  inUse : ∀ e, e ∈ lc.inUse ↔ lc.Hashed e ∧ lc.refcnt e ≠ 0
  lru : ∀ e, e ∈ lc.lru ↔ lc.Hashed e ∧ lc.refcnt e = 0
  free : ∀ e, e ∈ lc.free ↔ e < lc.nrElements ∧ ¬ lc.Hashed e ∧ lc.changing ≠ some e
  unused : ∀ e ∈ lc.free, lc.number e = lcFree ∧ lc.refcnt e = 0
  dirty : lc.dirty = lc.changing.isSome
  changing : ∀ e, lc.changing = some e →
    e < lc.nrElements ∧ ¬ lc.Hashed e ∧ lc.refcnt e ≠ 0 ∧
      ∀ e', lc.Hashed e' → lc.number e' ≠ lc.newNumber
  hashed : ∀ k, ∀ e ∈ lc.slot k, e < lc.nrElements ∧ k = lc.number e % lc.nrElements
  labels : ∀ e e', lc.Hashed e → lc.Hashed e' → lc.number e = lc.number e' → e = e'
  used : lc.used = Nat.count (fun e => lc.refcnt e ≠ 0) lc.nrElements

variable {lc : Cache}

lemma Inv.create {eCount : ℕ} (h : lcCreate eCount = some lc) : Inv lc := by
  rw [lcCreate] at h
  by_cases hsize : eCount > lcMaxActive
  · rw [if_pos hsize] at h
    cases h
  rw [if_neg hsize] at h
  cases h
  have hnone : ∀ e, ¬ ∃ k : ℕ, e ∈ (fun _ => [] : ℕ → List ℕ) k := by
    rintro e ⟨k, hk⟩
    exact List.not_mem_nil hk
  constructor
  case size => exact not_lt.mp hsize
  case nodup_inUse => exact List.nodup_nil
  case nodup_lru => exact List.nodup_nil
  case nodup_free => exact List.nodup_reverse.mpr List.nodup_range
  case inUse => exact fun e => ⟨nofun, fun he => absurd he.1 (hnone e)⟩
  case lru => exact fun e => ⟨nofun, fun he => absurd he.1 (hnone e)⟩
  case free =>
    intro e
    rw [List.mem_reverse, List.mem_range]
    exact ⟨fun he => ⟨he, hnone e, nofun ∘ Eq.symm⟩, fun he => he.1⟩
  case unused => exact fun e _ => ⟨rfl, rfl⟩
  case dirty => rfl
  case changing => exact fun e he => absurd he.symm nofun
  case hashed => exact nofun
  case labels => exact fun e e' he => absurd he (hnone e)
  case used => exact (count_false _).symm

section

variable {lc : Cache} {e enr : ℕ} {x n : ℕ}

lemma mem_filter_ne {l : List ℕ} : x ∈ l.filter (· ≠ e) ↔ x ∈ l ∧ x ≠ e := by
  rw [List.mem_filter, decide_eq_true_eq]

lemma Inv.hashed_lt (h : Inv lc) (he : lc.Hashed e) : e < lc.nrElements := by
  obtain ⟨k, hk⟩ := he
  exact (h.hashed k e hk).1

lemma Inv.find_none (h : Inv lc) (hfind : lc.find enr = none) :
    ∀ x, lc.Hashed x → lc.number x ≠ enr := by
  rintro x ⟨k, hk⟩ rfl
  obtain ⟨-, rfl⟩ := h.hashed k x hk
  exact List.find?_eq_none.mp hfind x hk (decide_eq_true rfl)

lemma Inv.place (h : Inv lc) (he : e < lc.nrElements) :
    lc.Hashed e ∨ e ∈ lc.free ∨ lc.changing = some e := by
  by_cases hhash : lc.Hashed e
  · exact .inl hhash
  by_cases hchg : lc.changing = some e
  · exact .inr (.inr hchg)
  · exact .inr (.inl ((h.free e).mpr ⟨he, hhash, hchg⟩))

lemma Inv.used_lt (h : Inv lc) : lc.used + 1 < 2 ^ 32 := by
  have hcount : lc.used ≤ lc.nrElements := h.used ▸ count_le _
  have hsize := h.size
  rw [lcMaxActive] at hsize
  omega

lemma Inv.used_ref (h : Inv lc) (he : e < lc.nrElements) (href : lc.refcnt e + 1 < 2 ^ 32) :
    (lc.ref e).used = Nat.count (fun x => (lc.ref e).refcnt x ≠ 0) lc.nrElements := by
  have hself : (lc.ref e).refcnt e = lc.refcnt e + 1 := by
    show update lc.refcnt e _ e = _
    rw [update_self, mod_eq_of_lt href]
  have hother : ∀ x, x ≠ e → (lc.ref e).refcnt x = lc.refcnt x :=
    fun x hx => update_of_ne hx _ _
  by_cases hzero : lc.refcnt e = 0
  · show (if lc.refcnt e = 0 then (lc.used + 1) % 2 ^ 32 else lc.used) = _
    rw [if_pos hzero, mod_eq_of_lt h.used_lt, h.used]
    refine (SlotCount.count_add_one he (not_not_intro hzero) ?_ fun x _ hx => ?_).symm
    · rw [hself]
      exact succ_ne_zero _
    · rw [hother x hx]
  · show (if lc.refcnt e = 0 then (lc.used + 1) % 2 ^ 32 else lc.used) = _
    rw [if_neg hzero, h.used]
    refine SlotCount.count_congr fun x _ => ?_
    by_cases hx : x = e
    · rw [hx, hself]
      exact ⟨fun _ => succ_ne_zero _, fun _ => hzero⟩
    · rw [hother x hx]

section
variable {l : List ℕ} {P Q : ℕ → Prop} (hmem : ∀ x, x ∈ l ↔ P x)
  (hsame : ∀ x, x ≠ e → (P x ↔ Q x))
include hmem hsame

lemma mem_drop (he : ¬ Q e) (x : ℕ) : x ∈ l.filter (· ≠ e) ↔ Q x := by
  rw [mem_filter_ne, hmem]
  by_cases hx : x = e
  · rw [hx]
    exact iff_of_false (fun hr => hr.2 rfl) he
  · rw [hsame x hx]
    exact and_iff_left hx

lemma mem_move (he : Q e) (x : ℕ) : x ∈ e :: l.filter (· ≠ e) ↔ Q x := by
  rw [List.mem_cons, mem_filter_ne, hmem]
  by_cases hx : x = e
  · rw [hx]
    exact iff_of_true (.inl rfl) he
  · rw [hsame x hx, or_iff_right hx]
    exact and_iff_left hx

end

lemma nodup_move {l : List ℕ} (h : l.Nodup) : (e :: l.filter (· ≠ e)).Nodup :=
  List.nodup_cons.mpr ⟨fun hmem => (mem_filter_ne.mp hmem).2 rfl, h.filter _⟩

lemma Inv.touch (h : Inv lc) (he : lc.Hashed e) (href : lc.refcnt e + 1 < 2 ^ 32) :
    Inv (lc.touch e) := by
  have hself : (lc.touch e).refcnt e = lc.refcnt e + 1 := by
    show update lc.refcnt e _ e = _
    rw [update_self, mod_eq_of_lt href]
  have hother : ∀ x, x ≠ e → (lc.touch e).refcnt x = lc.refcnt x :=
    fun x hx => update_of_ne hx _ _
  have hnotchg : lc.changing ≠ some e := fun hchg => (h.changing e hchg).2.1 he
  constructor
  case size => exact h.size
  case nodup_inUse => exact nodup_move h.nodup_inUse
  case nodup_lru => exact h.nodup_lru.filter _
  case nodup_free => exact h.nodup_free.filter _
  case inUse =>
    refine mem_move h.inUse (fun x hx => ?_) ⟨he, hself ▸ succ_ne_zero _⟩
    exact and_congr_right fun _ => by rw [hother x hx]
  case lru =>
    refine mem_drop h.lru (fun x hx => ?_) fun hr => succ_ne_zero _ (hself ▸ hr.2)
    exact and_congr_right fun _ => by rw [hother x hx]
  case free => exact mem_drop h.free (fun _ _ => Iff.rfl) fun hr => hr.2.1 he
  case unused =>
    intro x hx
    obtain ⟨hx, hne⟩ := mem_filter_ne.mp hx
    rw [hother x hne]
    exact h.unused x hx
  case dirty => exact h.dirty
  case changing =>
    intro x hx
    have hne : x ≠ e := fun heq => hnotchg (heq ▸ hx)
    rw [hother x hne]
    exact h.changing x hx
  case hashed => exact h.hashed
  case labels => exact h.labels
  case used => exact h.used_ref (h.hashed_lt he) href

def Cache.takeOut (lc : Cache) (e : ℕ) : Cache := (lc.listDel e).hlistDel e

lemma hashed_takeOut : (lc.takeOut e).Hashed x ↔ lc.Hashed x ∧ x ≠ e := by
  constructor
  · rintro ⟨k, hk⟩
    obtain ⟨hk, hne⟩ := mem_filter_ne.mp hk
    exact ⟨⟨k, hk⟩, hne⟩
  · rintro ⟨⟨k, hk⟩, hne⟩
    exact ⟨k, mem_filter_ne.mpr ⟨hk, hne⟩⟩

lemma takeOut_of_not_hashed (he : ¬ lc.Hashed e) : lc.takeOut e = lc.listDel e := by
  have hslot : (fun k => (lc.slot k).filter (· ≠ e)) = lc.slot := by
    funext k
    refine List.filter_eq_self.mpr fun x hx => decide_eq_true ?_
    rintro rfl
    exact he ⟨k, hx⟩
  show { lc.listDel e with slot := fun k => (lc.slot k).filter (· ≠ e) } = _
  rw [hslot]
  rfl

open Cache

lemma Inv.getUnusedElement (h : Inv lc) (hav : lc.unusedElementAvailable = true) :
    ∃ e, Cache.getUnusedElement { lc with dirty := true } =
        some ({ lc.takeOut e with dirty := true }, e) ∧
      e < lc.nrElements ∧ lc.refcnt e = 0 := by
  rcases hhead : lc.free.head? with - | e
  · have hlru : lc.lru ≠ [] := by
      intro hnil
      rw [Cache.unusedElementAvailable, List.head?_eq_none_iff.mp hhead, hnil] at hav
      cases hav
    obtain ⟨e, he⟩ := isSome_iff_exists.mp (List.getLast?_isSome.mpr hlru)
    obtain ⟨hhash, hzero⟩ := (h.lru e).mp (List.mem_of_getLast? he)
    refine ⟨e, ?_, h.hashed_lt hhash, hzero⟩
    simp only [Cache.getUnusedElement, hhead, Cache.evict, he]
    rfl
  · have hmem : e ∈ lc.free := List.mem_of_head? hhead
    refine ⟨e, ?_, ((h.free e).mp hmem).1, (h.unused e hmem).2⟩
    rw [takeOut_of_not_hashed ((h.free e).mp hmem).2.1]
    simp only [Cache.getUnusedElement, hhead]
    rfl

lemma Inv.startChange (h : Inv lc) (he : e < lc.nrElements) (hzero : lc.refcnt e = 0)
    (hclean : lc.dirty = false) (hnew : ∀ x, lc.Hashed x → lc.number x ≠ enr) :
    Inv (Cache.startChange { lc.takeOut e with dirty := true } e enr) := by
  have hnone : lc.changing = none := by
    have hdirty := h.dirty
    rw [hclean] at hdirty
    exact isSome_eq_false_iff.mp hdirty.symm |> isNone_iff_eq_none.mp
  have hself : (Cache.startChange { lc.takeOut e with dirty := true } e enr).refcnt e = 1 := by
    show update lc.refcnt e ((lc.refcnt e + 1) % 2 ^ 32) e = 1
    rw [update_self, hzero]
    rfl
  have hother : ∀ x, x ≠ e →
      (Cache.startChange { lc.takeOut e with dirty := true } e enr).refcnt x = lc.refcnt x :=
    fun x hx => update_of_ne hx _ _
  have hhash : ∀ x, (Cache.startChange { lc.takeOut e with dirty := true } e enr).Hashed x ↔
      lc.Hashed x ∧ x ≠ e := fun x => hashed_takeOut
  constructor
  case size => exact h.size
  case nodup_inUse => exact h.nodup_inUse.filter _
  case nodup_lru => exact h.nodup_lru.filter _
  case nodup_free => exact h.nodup_free.filter _
  case inUse =>
    refine mem_drop h.inUse (fun x hx => ?_) fun hr => ((hhash e).mp hr.1).2 rfl
    rw [hhash, and_iff_left hx, hother x hx]
  case lru =>
    refine mem_drop h.lru (fun x hx => ?_) fun hr => ((hhash e).mp hr.1).2 rfl
    rw [hhash, and_iff_left hx, hother x hx]
  case free =>
    refine mem_drop h.free (fun x hx => ?_) fun hr => hr.2.2 rfl
    rw [hhash, and_iff_left hx, hnone]
    refine and_congr_right fun _ => and_congr_right fun _ => iff_of_true nofun ?_
    exact fun heq => hx (Option.some.inj heq).symm
  case unused =>
    intro x hx
    obtain ⟨hx, hne⟩ := mem_filter_ne.mp hx
    rw [hother x hne]
    exact h.unused x hx
  case dirty => rfl
  case changing =>
    intro x hx
    cases hx
    refine ⟨he, fun hx => ((hhash e).mp hx).2 rfl, ?_, fun x hx => hnew x ((hhash x).mp hx).1⟩
    rw [hself]
    exact one_ne_zero
  case hashed => exact fun k x hx => h.hashed k x (mem_filter_ne.mp hx).1
  case labels => exact fun x y hx hy => h.labels x y ((hhash x).mp hx).1 ((hhash y).mp hy).1
  case used => exact h.used_ref he (by rw [hzero]; decide)

lemma mem_changed {j k : ℕ} {slot : ℕ → List ℕ} :
    x ∈ update slot k (e :: slot k) j ↔ x ∈ slot j ∨ x = e ∧ j = k := by
  by_cases hjk : j = k
  · rw [hjk, update_self, List.mem_cons, or_comm, and_iff_left rfl]
  · rw [update_of_ne hjk]
    simp [hjk]

lemma hashed_changed {k : ℕ} {slot : ℕ → List ℕ} :
    (∃ j, x ∈ update slot k (e :: slot k) j) ↔ (∃ j, x ∈ slot j) ∨ x = e := by
  simp [mem_changed, exists_or]

variable {lc' : Cache}

def Kept (lc lc' : Cache) : Prop :=
  ∀ e, lc.Hashed e → lc.refcnt e ≠ 0 → lc'.Hashed e ∧ lc'.number e = lc.number e

lemma Kept.of_eq (hslot : lc'.slot = lc.slot) (hnumber : lc'.number = lc.number) : Kept lc lc' := by
  rintro e ⟨k, hk⟩ -
  exact ⟨⟨k, hslot ▸ hk⟩, by rw [hnumber]⟩

section

variable (h : Inv lc)
include h

lemma Inv.changed (hcall : lc.lcChanged e = some lc') : Inv lc' ∧ Kept lc lc' := by
  rw [lcChanged] at hcall
  split at hcall
  · cases hcall
  rename_i hbug
  obtain ⟨-, hchg, -⟩ := not_or.mp hbug |>.imp_right not_or.mp
  have hchg : lc.changing = some e := not_not.mp hchg
  obtain ⟨he, hout, hcnt, hnew⟩ := h.changing e hchg
  cases hcall
  have hnumber : ∀ x, lc.Hashed x → update lc.number e lc.newNumber x = lc.number x := by
    intro x hx
    have hne : x ≠ e := fun heq => hout (heq ▸ hx)
    exact update_of_ne hne _ _
  refine ⟨?_, fun x hx _ => ⟨hashed_changed.mpr (.inl hx), hnumber x hx⟩⟩
  constructor
  case size => exact h.size
  case nodup_inUse =>
    exact List.nodup_cons.mpr ⟨fun hmem => hout ((h.inUse e).mp hmem).1, h.nodup_inUse⟩
  case nodup_lru => exact h.nodup_lru
  case nodup_free => exact h.nodup_free
  case inUse =>
    intro x
    refine List.mem_cons.trans ?_
    rw [h.inUse]
    refine Iff.trans ?_ (and_congr_left' hashed_changed.symm)
    by_cases hx : x = e
    · subst hx
      exact ⟨fun _ => ⟨.inr rfl, hcnt⟩, fun _ => .inl rfl⟩
    · exact ⟨fun hr => ⟨.inl (hr.resolve_left hx).1, (hr.resolve_left hx).2⟩,
        fun hr => .inr ⟨hr.1.resolve_right hx, hr.2⟩⟩
  case lru =>
    intro x
    rw [h.lru]
    refine Iff.trans ?_ (and_congr_left' hashed_changed.symm)
    refine ⟨fun hr => ⟨.inl hr.1, hr.2⟩, fun hr => ⟨hr.1.resolve_right ?_, hr.2⟩⟩
    rintro rfl
    exact hcnt hr.2
  case free =>
    intro x
    rw [h.free]
    refine Iff.trans ?_ (and_congr_right fun _ => and_congr_left' (not_congr hashed_changed.symm))
    refine ⟨fun hr => ⟨hr.1, ?_, nofun ∘ Eq.symm⟩, fun hr => ⟨hr.1, ?_, ?_⟩⟩
    · rintro (hx | rfl)
      · exact hr.2.1 hx
      · exact hr.2.2 hchg
    · exact fun hx => hr.2.1 (.inl hx)
    · rw [hchg]
      exact fun heq => hr.2.1 (.inr (Option.some.inj heq).symm)
  case unused =>
    intro x hx
    have hne : x ≠ e := by
      rintro rfl
      exact ((h.free x).mp hx).2.2 hchg
    exact ⟨(update_of_ne hne _ _).trans (h.unused x hx).1, (h.unused x hx).2⟩
  case dirty => rfl
  case changing => exact fun x hx => absurd hx.symm nofun
  case hashed =>
    intro k x hx
    rcases mem_changed.mp hx with hx | ⟨rfl, rfl⟩
    · refine ⟨(h.hashed k x hx).1, ?_⟩
      show k = update lc.number e lc.newNumber x % _
      rw [hnumber x ⟨k, hx⟩]
      exact (h.hashed k x hx).2
    · refine ⟨he, ?_⟩
      show _ = update lc.number x lc.newNumber x % _
      rw [update_self]
  case labels =>
    intro x y hx hy heq
    have heq : update lc.number e lc.newNumber x = update lc.number e lc.newNumber y := heq
    rcases hashed_changed.mp hx with hx' | hxe <;> rcases hashed_changed.mp hy with hy' | hye
    · rw [hnumber x hx', hnumber y hy'] at heq
      exact h.labels x y hx' hy' heq
    · rw [hnumber x hx', hye, update_self] at heq
      exact absurd heq (hnew x hx')
    · rw [hnumber y hy', hxe, update_self] at heq
      exact absurd heq.symm (hnew y hy')
    · exact hxe.trans hye.symm
  case used => exact h.used

lemma Inv.unref (hcnt : lc.refcnt e ≠ 0) (hleft : lc.refcnt e - 1 ≠ 0) :
    Inv { lc with refcnt := update lc.refcnt e (lc.refcnt e - 1) } := by
  have hzero : ∀ x, update lc.refcnt e (lc.refcnt e - 1) x = 0 ↔ lc.refcnt x = 0 := by
    intro x
    by_cases hx : x = e
    · rw [hx, update_self]
      exact ⟨fun heq => absurd heq hleft, fun heq => absurd heq hcnt⟩
    · rw [update_of_ne hx]
  refine
    { h with
      inUse := fun x => (h.inUse x).trans (and_congr_right fun _ => not_congr (hzero x).symm)
      lru := fun x => (h.lru x).trans (and_congr_right fun _ => (hzero x).symm)
      unused := fun x hx => ⟨(h.unused x hx).1, (hzero x).mpr (h.unused x hx).2⟩
      changing := fun x hx => ?_
      used := h.used.trans (SlotCount.count_congr fun x _ => not_congr (hzero x).symm) }
  obtain ⟨hlt, hout, hheld, hnew⟩ := h.changing x hx
  exact ⟨hlt, hout, fun heq => hheld ((hzero x).mp heq), hnew⟩

lemma Inv.retire (hcnt : lc.refcnt e = 1) (hhash : lc.Hashed e) :
    Inv (Cache.retire { lc with refcnt := update lc.refcnt e 0 } e) := by
  have hother : ∀ x, x ≠ e → update lc.refcnt e 0 x = lc.refcnt x :=
    fun x hx => update_of_ne hx _ _
  have hself : update lc.refcnt e 0 e = 0 := update_self _ _ _
  have hheld : lc.refcnt e ≠ 0 := hcnt ▸ one_ne_zero
  have hnotchg : lc.changing ≠ some e := fun hchg => (h.changing e hchg).2.1 hhash
  constructor
  case size => exact h.size
  case nodup_inUse => exact h.nodup_inUse.filter _
  case nodup_lru => exact nodup_move h.nodup_lru
  case nodup_free => exact h.nodup_free.filter _
  case inUse =>
    refine mem_drop h.inUse (fun x hx => ?_) fun hr => hr.2 hself
    exact and_congr_right fun _ => not_congr (by rw [← hother x hx]; rfl)
  case lru =>
    refine mem_move h.lru (fun x hx => ?_) ⟨hhash, hself⟩
    exact and_congr_right fun _ => by rw [← hother x hx]; rfl
  case free => exact mem_drop h.free (fun _ _ => Iff.rfl) fun hr => hr.2.1 hhash
  case unused =>
    intro x hx
    obtain ⟨hx, hne⟩ := mem_filter_ne.mp hx
    exact ⟨(h.unused x hx).1, (hother x hne).trans (h.unused x hx).2⟩
  case dirty => exact h.dirty
  case changing =>
    intro x hx
    obtain ⟨hlt, hout, hheld, hnew⟩ := h.changing x hx
    have hne : x ≠ e := fun heq => hnotchg (heq ▸ hx)
    exact ⟨hlt, hout, fun heq => hheld ((hother x hne).symm.trans heq), hnew⟩
  case hashed => exact h.hashed
  case labels => exact h.labels
  case used =>
    have hcount := SlotCount.count_add_one (p := fun x => update lc.refcnt e 0 x ≠ 0)
      (h.hashed_lt hhash) (not_not_intro hself) hheld fun x _ hx => by rw [hother x hx]
    have hused := h.used
    have hlt := h.used_lt
    rw [hcount] at hused
    show (lc.used + (2 ^ 32 - 1)) % 2 ^ 32 =
      count (fun x => update lc.refcnt e 0 x ≠ 0) lc.nrElements
    omega

lemma Inv.put (hcall : lc.lcPut e = some (lc', n)) : Inv lc' ∧ Kept lc lc' := by
  rw [lcPut] at hcall
  split at hcall
  · cases hcall
  rename_i hbug
  simp only [not_or] at hbug
  obtain ⟨-, he, hcnt, hchg⟩ := hbug
  have hhash : lc.Hashed e := by
    rcases h.place (not_le.mp he) with hhash | hfree | hpending
    · exact hhash
    · exact absurd (h.unused e hfree).2 hcnt
    · exact absurd hpending hchg
  simp only [update_self] at hcall
  split at hcall
  · rename_i hlast
    cases hcall
    have hone : lc.refcnt e = 1 := by omega
    rw [hlast]
    exact ⟨h.retire hone hhash, Kept.of_eq rfl rfl⟩
  · rename_i hleft
    cases hcall
    exact ⟨h.unref hcnt hleft, Kept.of_eq rfl rfl⟩

lemma Inv.del (hcall : lc.lcDel e = some lc') : Inv lc' ∧ Kept lc lc' := by
  rw [lcDel] at hcall
  split at hcall
  · cases hcall
  rename_i hbug
  simp only [not_or, not_not] at hbug
  obtain ⟨-, he, hzero⟩ := hbug
  cases hcall
  have hhash : ∀ x, (∃ k, x ∈ (lc.slot k).filter (· ≠ e)) ↔ lc.Hashed x ∧ x ≠ e :=
    fun x => hashed_takeOut
  have hkept := fun x hx => ((hhash x).trans (and_iff_left hx)).symm
  have hgone := fun hr => ((hhash e).mp hr).2 rfl
  have hnumber : ∀ x, x ≠ e → update lc.number e lcFree x = lc.number x :=
    fun x hx => update_of_ne hx _ _
  have hnotchg : lc.changing ≠ some e := fun hchg => (h.changing e hchg).2.2.1 hzero
  refine ⟨?_, fun x hx hcnt => ?_⟩
  swap
  · have hne : x ≠ e := fun heq => hcnt (heq ▸ hzero)
    exact ⟨(hhash x).mpr ⟨hx, hne⟩, hnumber x hne⟩
  constructor
  case size => exact h.size
  case nodup_inUse => exact h.nodup_inUse.filter _
  case nodup_lru => exact h.nodup_lru.filter _
  case nodup_free => exact nodup_move h.nodup_free
  case inUse =>
    exact mem_drop h.inUse (fun x hx => and_congr_left' (hkept x hx)) fun hr => hgone hr.1
  case lru => exact mem_drop h.lru (fun x hx => and_congr_left' (hkept x hx)) fun hr => hgone hr.1
  case free =>
    refine mem_move h.free (fun x hx => ?_) ⟨not_le.mp he, hgone, hnotchg⟩
    exact and_congr_right fun _ => and_congr_left' (not_congr (hkept x hx))
  case unused =>
    intro x hx
    by_cases hne : x = e
    · rw [hne]
      exact ⟨update_self _ _ _, hzero⟩
    · obtain ⟨hx, -⟩ := mem_filter_ne.mp ((List.mem_cons.mp hx).resolve_left hne)
      exact ⟨(hnumber x hne).trans (h.unused x hx).1, (h.unused x hx).2⟩
  case dirty => exact h.dirty
  case changing =>
    intro x hx
    obtain ⟨hlt, hout, hheld, hnew⟩ := h.changing x hx
    refine ⟨hlt, fun hh => hout ((hhash x).mp hh).1, hheld, fun y hy => ?_⟩
    obtain ⟨hy, hne⟩ := (hhash y).mp hy
    exact fun heq => hnew y hy ((hnumber y hne).symm.trans heq)
  case hashed =>
    intro k x hx
    obtain ⟨hx, hne⟩ := mem_filter_ne.mp hx
    refine ⟨(h.hashed k x hx).1, ?_⟩
    show k = update lc.number e lcFree x % _
    rw [hnumber x hne]
    exact (h.hashed k x hx).2
  case labels =>
    intro x y hx hy heq
    obtain ⟨hx, hxe⟩ := (hhash x).mp hx
    obtain ⟨hy, hye⟩ := (hhash y).mp hy
    exact h.labels x y hx hy ((hnumber x hxe).symm.trans (heq.trans (hnumber y hye)))
  case used => exact h.used

end

/-- What the callers see to: elements are put when they are held, deleted when they are
not, and a change is finished for the element that is pending. -/
def Legal (lc : Cache) : Call → Prop
  | .get enr => enr < 2 ^ 32
  | .tryGet enr => enr < 2 ^ 32
  | .changed e => lc.changing = some e
  | .put e => e < lc.nrElements ∧ lc.refcnt e ≠ 0 ∧ lc.changing ≠ some e
  | .del e => e < lc.nrElements ∧ lc.refcnt e = 0

def Counted (lc : Cache) : Call → Prop
  | .get enr => ∀ e, lc.find enr = some e → lc.refcnt e + 1 < 2 ^ 32
  | .tryGet enr => ∀ e, lc.find enr = some e → lc.refcnt e + 1 < 2 ^ 32
  | _ => True

variable {r : Option ℕ}

lemma Inv.get (h : Inv lc) (hcount : Counted lc (.get enr)) (hcall : lc.lcGet enr = some (lc', r))
    : Inv lc' ∧ Kept lc lc' := by
  rw [lcGet] at hcall
  split at hcall
  · cases hcall
  split at hcall
  · cases hcall
    exact ⟨h, Kept.of_eq rfl rfl⟩
  rcases hfind : lc.find enr with - | e
  · simp only [hfind] at hcall
    split at hcall
    -- nothing to be had: only a flag changes
    · cases hcall
      exact ⟨⟨h.size, h.nodup_inUse, h.nodup_lru, h.nodup_free, h.inUse, h.lru, h.free, h.unused,
        h.dirty, h.changing, h.hashed, h.labels, h.used⟩, Kept.of_eq rfl rfl⟩
    · rename_i hav
      split at hcall
      · cases hcall
        exact ⟨h, Kept.of_eq rfl rfl⟩
      · rename_i hclean
        obtain ⟨e, hunused, he, hzero⟩ := h.getUnusedElement (not_not.mp hav)
        simp only [hunused] at hcall
        split at hcall
        · cases hcall
        cases hcall
        have hclean : lc.dirty = false := Bool.eq_false_iff.mpr hclean
        refine ⟨h.startChange he hzero hclean (h.find_none hfind), fun x hx hcnt => ?_⟩
        have hne : x ≠ e := fun heq => hcnt (heq ▸ hzero)
        exact ⟨hashed_takeOut.mpr ⟨hx, hne⟩, rfl⟩
  · simp only [hfind] at hcall
    cases hcall
    exact ⟨h.touch ⟨_, List.mem_of_find?_eq_some hfind⟩ (hcount e hfind), Kept.of_eq rfl rfl⟩

lemma Inv.tryGet (h : Inv lc) (hcount : Counted lc (.tryGet enr))
    (hcall : lc.lcTryGet enr = some (lc', r)) : Inv lc' ∧ Kept lc lc' := by
  rw [lcTryGet] at hcall
  split at hcall
  · cases hcall
  split at hcall
  · cases hcall
    exact ⟨h, Kept.of_eq rfl rfl⟩
  rcases hfind : lc.find enr with - | e
  · simp only [hfind] at hcall
    cases hcall
    exact ⟨h, Kept.of_eq rfl rfl⟩
  · simp only [hfind] at hcall
    cases hcall
    exact ⟨h.touch ⟨_, List.mem_of_find?_eq_some hfind⟩ (hcount e hfind), Kept.of_eq rfl rfl⟩

/-- **One call.** -/
lemma Inv.call {r : Reply} (h : Inv lc) (c : Call) (hcount : Counted lc c)
    (hcall : lc.call c = some (lc', r)) : Inv lc' ∧ Kept lc lc' := by
  cases c with
  | get enr =>
    obtain ⟨⟨lc1, e⟩, hget, heq⟩ := map_eq_some_iff.mp hcall
    cases heq
    exact h.get hcount hget
  | tryGet enr =>
    obtain ⟨⟨lc1, e⟩, hget, heq⟩ := map_eq_some_iff.mp hcall
    cases heq
    exact h.tryGet hcount hget
  | changed e =>
    obtain ⟨lc1, hchg, heq⟩ := map_eq_some_iff.mp hcall
    cases heq
    exact h.changed hchg
  | put e =>
    obtain ⟨⟨lc1, n⟩, hput, heq⟩ := map_eq_some_iff.mp hcall
    cases heq
    exact h.put hput
  | del e =>
    obtain ⟨lc1, hdel, heq⟩ := map_eq_some_iff.mp hcall
    cases heq
    exact h.del hdel

end

structure Right (lc : Cache) : Prop where
  /-- Each element is on one list, unless it is the one that is being changed. -/
  lists : ∀ e < lc.nrElements, lc.inUse.count e + lc.lru.count e + lc.free.count e =
    if lc.changing = some e then 0 else 1
  changing : ∀ e, lc.changing = some e → lc.dirty = true
  inUse : ∀ e, e ∈ lc.inUse ↔ lc.Hashed e ∧ 0 < lc.refcnt e
  lru : ∀ e, e ∈ lc.lru ↔ lc.Hashed e ∧ lc.refcnt e = 0
  free : ∀ e ∈ lc.free, ¬ lc.Hashed e ∧ lc.number e = lcFree
  used : lc.used = Nat.count (fun e => 0 < lc.refcnt e) lc.nrElements
  labels : ∀ e e', lc.Hashed e → lc.Hashed e' → lc.number e = lc.number e' → e = e'

lemma Inv.right (h : Inv lc) : Right lc where
  lists e he := by
    rw [h.nodup_inUse.count, h.nodup_lru.count, h.nodup_free.count]
    have hin := h.inUse e
    have hlru := h.lru e
    have hfree := h.free e
    by_cases hhash : lc.Hashed e
    · have hchg : lc.changing ≠ some e := fun hchg => (h.changing e hchg).2.1 hhash
      have hnot : e ∉ lc.free := fun hmem => (hfree.mp hmem).2.1 hhash
      rw [if_neg hnot, if_neg hchg]
      by_cases hcnt : lc.refcnt e = 0
      · rw [if_neg fun hmem => (hin.mp hmem).2 hcnt, if_pos (hlru.mpr ⟨hhash, hcnt⟩)]
      · rw [if_pos (hin.mpr ⟨hhash, hcnt⟩), if_neg fun hmem => hcnt (hlru.mp hmem).2]
    · rw [if_neg fun hmem => hhash (hin.mp hmem).1, if_neg fun hmem => hhash (hlru.mp hmem).1]
      by_cases hchg : lc.changing = some e
      · rw [if_pos hchg, if_neg fun hmem => (hfree.mp hmem).2.2 hchg]
      · rw [if_neg hchg, if_pos (hfree.mpr ⟨he, hhash, hchg⟩)]
  changing e he := by rw [h.dirty, he]; rfl
  inUse e := by rw [h.inUse, Nat.pos_iff_ne_zero]
  lru := h.lru
  free e he := ⟨((h.free e).mp he).2.1, (h.unused e he).1⟩
  used := h.used.trans (SlotCount.count_congr fun e _ => Nat.pos_iff_ne_zero.symm)
  labels := h.labels

/-- One element that is held `k` times under the label 5. -/
def heldOne (k : ℕ) : Cache :=
  { nrElements := 1
    refcnt := update (fun _ => 0) 0 k
    number := update (fun _ => lcFree) 0 5
    inUse := [0]
    lru := []
    free := []
    slot := update (fun _ => []) 0 [0]
    used := 1
    dirty := false
    starving := false
    changing := none
    newNumber := lcFree }

def freshOne : Cache :=
  { heldOne 0 with
    number := fun _ => lcFree
    refcnt := fun _ => 0
    inUse := []
    free := [0]
    slot := fun _ => []
    used := 0 }

def pendingOne : Cache :=
  { heldOne 1 with
    number := fun _ => lcFree
    inUse := []
    slot := fun _ => []
    dirty := true
    changing := some 0
    newNumber := 5 }

lemma five_legal (lc : Cache) : Legal lc (.get 5) := by
  show 5 < 2 ^ 32
  decide

lemma heldOne_start {P : Cache → Call → Prop} (hget : P freshOne (.get 5))
    (hchanged : P pendingOne (.changed 0)) : Cache.call.Reach P freshOne (heldOne 1) := by
  have hpending : freshOne.call (.get 5) = some (pendingOne, .element (some 0)) := rfl
  have hheld : pendingOne.call (.changed 0) = some (heldOne 1, .none) := rfl
  exact (Component.Reach.start.call hget hpending).call hchanged hheld

/-- **Reachable states.** As long as no counter overflows, everything fits together, and
no element that is in use is evicted or gets another label. -/
theorem lru_cache_right (eCount : ℕ) (lc0 lc : Cache) (hcreate : lcCreate eCount = some lc0)
    (hreach : Cache.call.Reach (fun lc c => Legal lc c ∧ Counted lc c) lc0 lc) :
    Right lc ∧ ∀ c lc' r, Legal lc c → Counted lc c → lc.call c = some (lc', r) → Kept lc lc' := by
  have hinv : Inv lc := hreach.invariant (Inv.create hcreate)
    fun _ _ c _ h ha hcall => (h.call c ha.2 hcall).1
  exact ⟨hinv.right, fun c lc' r _ hcount hcall => (hinv.call c hcount hcall).2⟩

/-- Two elements are held under two labels, and one of them is put back. -/
theorem lru_cache_right_two : ∃ lc0 lc, lcCreate 2 = some lc0 ∧
    Cache.call.Reach (fun lc c => Legal lc c ∧ Counted lc c) lc0 lc ∧ lc.inUse.length = 1 ∧
      lc.lru.length = 1 ∧ Right lc := by
  have hcreate : ∃ lc0, lcCreate 2 = some lc0 := ⟨_, rfl⟩
  obtain ⟨lc0, hcreate⟩ := hcreate
  have hreach : ∃ lc, Cache.call.Reach (fun lc c => Legal lc c ∧ Counted lc c) lc0 lc ∧
      lc.inUse.length = 1 ∧ lc.lru.length = 1 := by
    cases hcreate
    exact ⟨_, .call (i := .put 1) (.call (i := .changed 0) (.call (i := .get 6)
      (.call (i := .changed 1) (.call (i := .get 5) .start ⟨five_legal _, nofun⟩ rfl)
      ⟨rfl, trivial⟩ rfl) ⟨show 6 < 2 ^ 32 by decide, nofun⟩ rfl) ⟨rfl, trivial⟩ rfl)
      ⟨⟨by decide, by decide, by decide⟩, trivial⟩ rfl, rfl, rfl⟩
  obtain ⟨lc, hreach, hinUse, hlru⟩ := hreach
  exact ⟨lc0, lc, hcreate, hreach, hinUse, hlru, (lru_cache_right 2 lc0 lc hcreate hreach).1⟩

lemma heldOne_get {k : ℕ} (hk : k ≠ 0) :
    (heldOne k).call (.get 5) = some (heldOne ((k + 1) % 2 ^ 32), .element (some 0)) := by
  have hslot : (heldOne k).slot (5 % 1) = [0] := by
    show update (fun _ => ([] : List ℕ)) 0 [0] 0 = [0]
    rw [update_self]
  have hfind : (heldOne k).find 5 = some 0 := by
    show ((heldOne k).slot (5 % 1)).find? _ = _
    rw [hslot]
    rfl
  have htouch : (heldOne k).touch 0 = heldOne ((k + 1) % 2 ^ 32) := by
    have hcnt : (heldOne k).refcnt 0 = k := by
      show update (fun _ : ℕ => 0) 0 k 0 = k
      rw [update_self]
    simp only [Cache.touch, Cache.ref, hcnt, if_neg hk]
    simp only [heldOne, Cache.listDel, update_idem]
    rfl
  have hget : (heldOne k).lcGet 5 = some (heldOne ((k + 1) % 2 ^ 32), some 0) := by
    rw [← htouch, Cache.lcGet]
    simp only [hfind]
    rfl
  rw [Cache.call, hget]
  rfl

lemma heldOne_reach {lc0 : Cache} (hreach : Cache.call.Reach Legal lc0 (heldOne 1)) (k : ℕ)
    (hk : k < 2 ^ 32 - 1) : Cache.call.Reach Legal lc0 (heldOne (k + 1)) := by
  induction k with
  | zero => exact hreach
  | succ k ih =>
    have hget := heldOne_get (succ_ne_zero k)
    rw [mod_eq_of_lt (by omega)] at hget
    exact (ih (by omega)).call (five_legal _) hget

/-- The counter of references overflows: the element is in use, but nobody holds it. -/
theorem references_overflow :
    ∃ lc0 lc, lcCreate 1 = some lc0 ∧ Cache.call.Reach Legal lc0 lc ∧ ¬ Right lc := by
  have hcreate : lcCreate 1 = some freshOne := rfl
  have hstart : Cache.call.Reach Legal freshOne (heldOne 1) := heldOne_start (five_legal _) rfl
  have hlast := heldOne_reach hstart (2 ^ 32 - 2) (by decide)
  have hzero : (heldOne (2 ^ 32 - 2 + 1)).call (.get 5) =
      some (heldOne 0, .element (some 0)) := heldOne_get (by decide)
  refine ⟨freshOne, heldOne 0, hcreate, hlast.call (five_legal _) hzero, fun hright => ?_⟩
  have hheld := ((hright.inUse 0).mp List.mem_cons_self).2
  cases hheld

section

open List

/-- What `lc_create` frees; an element by its index. -/
inductive Freed where
  | element (i : ℕ) | lc | elements | slots
  deriving DecidableEq

/-- The loop that frees elements, from an `i` on that has been decremented. -/
def freeLoop : ℕ → List Freed
  | 0 => []
  | i + 1 => .element (i + 1) :: freeLoop i

/-- `lc_create`, where the allocation `n` may fail; those of the elements begin with 3. Whether
there is a cache, and what has been freed. -/
def lcCreateWith (alloc : ℕ → Bool) (cacheObjSize eSize eCount : ℕ) : Bool × List Freed :=
  if cacheObjSize < eSize ∨ lcMaxActive < eCount then (false, [])
  else if alloc 0 = false then (false, [])
  else if alloc 1 = false then (false, [.slots])
  else if alloc 2 = false then (false, [.elements, .slots])
  else
    match (List.range eCount).find? fun i => alloc (i + 3) = false with
    | none => (true, [])
    | some i => (false, freeLoop ((i + (2 ^ 32 - 1)) % 2 ^ 32) ++ [.lc, .elements, .slots])

variable {alloc : ℕ → Bool} {cacheObjSize eSize eCount k i n : ℕ}

/-- The first allocation that fails is the one of the element `k`. -/
structure FailsAt (alloc : ℕ → Bool) (cacheObjSize eSize eCount k : ℕ) : Prop where
  size : eSize ≤ cacheObjSize
  count : eCount ≤ lcMaxActive
  lt : k < eCount
  before : ∀ i < k + 3, alloc i = true
  fails : alloc (k + 3) = false

lemma mem_freeLoop : .element i ∈ freeLoop n ↔ 0 < i ∧ i ≤ n := by
  induction n with
  | zero => simp [freeLoop, Nat.pos_iff_ne_zero]
  | succ n ih =>
    simp only [freeLoop, mem_cons, Freed.element.injEq, ih]
    omega

lemma FailsAt.lcCreateWith_eq (h : FailsAt alloc cacheObjSize eSize eCount k) :
    lcCreateWith alloc cacheObjSize eSize eCount =
      (false, freeLoop ((k + (2 ^ 32 - 1)) % 2 ^ 32) ++ [.lc, .elements, .slots]) := by
  have hfind : (range eCount).find? (fun i => alloc (i + 3) = false) = some k := by
    rw [find?_range_eq_some]
    refine ⟨decide_eq_true h.fails, mem_range.mpr h.lt, fun j hj => ?_⟩
    simp [h.before (j + 3) (by omega)]
  unfold lcCreateWith
  rw [if_neg (by have := h.size; have := h.count; omega), h.before 0 (by omega),
    h.before 1 (by omega), h.before 2 (by omega), hfind]
  rfl

/-- **`lc_create`** frees just the elements it has allocated only if all are: otherwise the
element 0 is left, or without any element all that lies behind the table is freed. -/
theorem lc_create_frees_iff (alloc : ℕ → Bool) (cacheObjSize eSize eCount : ℕ) :
    (∀ k, FailsAt alloc cacheObjSize eSize eCount k →
      (lcCreateWith alloc cacheObjSize eSize eCount).1 = false ∧
        (lcCreateWith alloc cacheObjSize eSize eCount).2.Perm
          ((List.range k).map .element ++ [.lc, .elements, .slots])) ↔
      ∀ k, ¬ FailsAt alloc cacheObjSize eSize eCount k := by
  refine ⟨fun h k hfails => ?_, fun h k hfails => absurd hfails (h k)⟩
  have hperm := (h k hfails).2
  rw [hfails.lcCreateWith_eq] at hperm
  cases k with
  | zero =>
    have hmem := hperm.mem_iff.mp (mem_append_left _ (mem_freeLoop (i := 1).mpr (by decide)))
    simp at hmem
  | succ k =>
    have hmem : Freed.element 0 ∈ _ := hperm.mem_iff.mpr (by simp)
    rcases mem_append.mp hmem with hmem | hmem
    · exact absurd (mem_freeLoop.mp hmem).1 (lt_irrefl 0)
    · simp at hmem

/-- The second of two elements cannot be allocated: the first one is not freed. -/
theorem lc_create_leaks :
    lcCreateWith (fun n => n ≠ 4) 8 8 2 = (false, [.lc, .elements, .slots]) := by
  decide

end

end Am335x.LruCache
