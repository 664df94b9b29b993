import Mathlib.Data.List.FinRange

/-!
# Tables whose entries carry their keys

A table is a fixed number of slots. An entry tells its own key, or that it has
none (a free slot). If no key occurs twice, the table is a finite map, and
`lookup` is its value at a key.
-/

namespace KeyedTable

open Function Option

variable {n : ℕ} {ε κ : Type*} {key : ε → Option κ} {t : Fin n → ε}

/-- The first slot whose entry satisfies `p`. -/
def search (p : ε → Bool) (t : Fin n → ε) : Option (Fin n) :=
  (List.finRange n).find? fun i => p (t i)

variable {p : ε → Bool} {i : Fin n}

lemma search_eq_some (h : search p t = some i) : p (t i) = true :=
  List.find?_some (p := fun i => p (t i)) h

lemma search_eq_none (h : search p t = none) (i : Fin n) : p (t i) = false := by
  have hi := List.find?_eq_none.mp h i (List.mem_finRange i)
  rwa [Bool.not_eq_true] at hi

def UniqueKeys (key : ε → Option κ) (t : Fin n → ε) : Prop :=
  ∀ i j, key (t i) ≠ none → key (t i) = key (t j) → i = j

variable {e : ε}

lemma unique_update (h : UniqueKeys key t)
    (hfresh : ∀ j, j ≠ i → key e ≠ none → key (t j) ≠ key e) : UniqueKeys key (update t i e) := by
  intro j l hj heq
  by_cases hji : j = i
  · subst hji
    by_cases hlj : l = j
    · exact hlj.symm
    · rw [update_self] at hj heq
      rw [update_of_ne hlj] at heq
      exact absurd heq.symm (hfresh l hlj hj)
  · rw [update_of_ne hji] at hj heq
    by_cases hli : l = i
    · rw [hli, update_self] at heq
      exact absurd heq (hfresh j hji (heq ▸ hj))
    · rw [update_of_ne hli] at heq
      exact h j l hj heq

variable {f : ε → ε}

lemma unique_map (h : UniqueKeys key t) (hf : ∀ e, key (f e) = none ∨ key (f e) = key e) :
    UniqueKeys key (f ∘ t) := by
  intro i j hi heq
  have hkey : ∀ l, key (f (t l)) ≠ none → key (f (t l)) = key (t l) := fun l hl =>
    (hf (t l)).resolve_left hl
  have hj : key (f (t j)) ≠ none := fun hj => hi (heq.trans hj)
  apply h i j
  · rw [← hkey i hi]
    exact hi
  · rw [← hkey i hi, ← hkey j hj]
    exact heq

variable [DecidableEq κ]

instance (key : ε → Option κ) (t : Fin n → ε) : Decidable (UniqueKeys key t) :=
  inferInstanceAs (Decidable (∀ _ _, _))

def lookup (key : ε → Option κ) (t : Fin n → ε) (k : κ) : Option ε :=
  (search (fun e => key e == some k) t).map t

variable {k : κ}

section

variable (h : search (fun e => key e == some k) t = some i)
include h

lemma search_key : key (t i) = some k := by
  have hi := search_eq_some h
  rwa [beq_iff_eq] at hi

lemma lookup_of_search : lookup key t k = some (t i) := by
  rw [lookup, h, map_some]

end

lemma lookup_eq_none_iff : lookup key t k = none ↔ ∀ i, key (t i) ≠ some k := by
  rw [lookup, map_eq_none_iff]
  constructor
  · intro h i hi
    have hi' := search_eq_none h i
    rw [hi, beq_self_eq_true] at hi'
    cases hi'
  · intro h
    apply List.find?_eq_none.mpr
    intro i _ hi
    exact h i (beq_iff_eq.mp hi)

lemma UniqueKeys.lookup_eq_some (h : UniqueKeys key t) (hi : key (t i) = some k) :
    lookup key t k = some (t i) := by
  cases hs : search (fun e => key e == some k) t with
  | none =>
    have hi' := search_eq_none hs i
    rw [hi, beq_self_eq_true] at hi'
    cases hi'
  | some j =>
    have hj := search_key hs
    obtain rfl : i = j := h i j (by rw [hi]; exact nofun) (hi.trans hj.symm)
    exact lookup_of_search hs

lemma key_of_lookup (h : lookup key t k = some e) : key e = some k := by
  rw [lookup, map_eq_some_iff] at h
  obtain ⟨i, hi, rfl⟩ := h
  exact search_key hi

variable {i : Fin n} {e : ε}

lemma lookup_update_self (h : UniqueKeys key (update t i e)) (hk : key e = some k) :
    lookup key (update t i e) k = some e := by
  have hi : key (update t i e i) = some k := by rw [update_self, hk]
  rw [h.lookup_eq_some hi, update_self]

lemma lookup_update_of_ne (h : UniqueKeys key (update t i e)) (hnew : key e ≠ some k)
    (hold : key (t i) ≠ some k) : lookup key (update t i e) k = lookup key t k := by
  cases hl : lookup key t k with
  | none =>
    rw [lookup_eq_none_iff] at hl ⊢
    intro j
    by_cases hji : j = i
    · rw [hji, update_self]
      exact hnew
    · rw [update_of_ne hji]
      exact hl j
  | some x =>
    rw [lookup, map_eq_some_iff] at hl
    obtain ⟨j, hj, rfl⟩ := hl
    have hkey := search_key hj
    have hji : j ≠ i := by
      rintro rfl
      exact hold hkey
    have hj' : key (update t i e j) = some k := by
      rw [update_of_ne hji, hkey]
    rw [h.lookup_eq_some hj', update_of_ne hji]

lemma lookup_update_old (h : UniqueKeys key t) (hold : key (t i) = some k) (hnew : key e ≠ some k)
    : lookup key (update t i e) k = none := by
  rw [lookup_eq_none_iff]
  intro j hj
  by_cases hji : j = i
  · rw [hji, update_self] at hj
    exact hnew hj
  · rw [update_of_ne hji] at hj
    exact hji (h j i (by rw [hj]; exact nofun) (hj.trans hold.symm))

lemma lookup_map (h : UniqueKeys key t) (hf : ∀ e, key (f e) = none ∨ key (f e) = key e) (k : κ) :
    lookup key (f ∘ t) k = ((lookup key t k).map f).filter fun e => key e == some k := by
  cases hl : lookup key t k with
  | none =>
    rw [lookup_eq_none_iff] at hl
    show lookup key (f ∘ t) k = none
    rw [lookup_eq_none_iff]
    intro i hi
    rcases hf (t i) with hnone | hsame
    · rw [comp_apply, hnone] at hi
      cases hi
    · exact hl i (hsame.symm.trans hi)
  | some x =>
    rw [lookup, map_eq_some_iff] at hl
    obtain ⟨i, hi, rfl⟩ := hl
    have hkey := search_key hi
    rw [map_some, filter_some]
    split
    · rename_i hfi
      exact (unique_map h hf).lookup_eq_some (beq_iff_eq.mp hfi)
    · rename_i hfi
      rw [lookup_eq_none_iff]
      intro j hj
      have hjk : key (t j) = some k := by
        rcases hf (t j) with hnone | hsame
        · rw [comp_apply, hnone] at hj
          cases hj
        · exact hsame.symm.trans hj
      obtain rfl : i = j := h i j (by rw [hkey]; exact nofun)
        (hkey.trans hjk.symm)
      exact hfi (beq_iff_eq.mpr hj)

end KeyedTable
