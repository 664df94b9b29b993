import Mathlib.Data.Nat.Count

/-!
# Counting the slots of an array

Nodes of trees carry the number of their slots that satisfy some predicate.
`Nat.count p n` is that number; the lemmas here say how it changes when a single
slot does.
-/

namespace SlotCount

variable {p q : ℕ → Prop} [DecidablePred p] [DecidablePred q] {n i : ℕ}

open Nat

lemma count_congr (h : ∀ j < n, p j ↔ q j) : Nat.count p n = Nat.count q n :=
  le_antisymm (count_mono_left fun j hj => (h j hj).mp)
    (count_mono_left fun j hj => (h j hj).mpr)

lemma count_add_one (hi : i < n) (hp : ¬ p i) (hq : q i) (h : ∀ j < n, j ≠ i → (p j ↔ q j)) :
    Nat.count q n = Nat.count p n + 1 := by
  induction n with
  | zero => omega
  | succ n ih =>
    rw [count_succ, count_succ]
    rcases Nat.lt_succ_iff_lt_or_eq.mp hi with hlt | rfl
    · have hn : p n ↔ q n := h n (by omega) hlt.ne'
      rw [ih hlt fun j hj => h j (by omega)]
      by_cases hpn : p n
      · rw [if_pos hpn, if_pos (hn.mp hpn)]
      · rw [if_neg hpn, if_neg fun hqn => hpn (hn.mpr hqn)]
    · have hbelow : count p i = count q i :=
        count_congr fun j hj => h j (by omega) hj.ne
      rw [if_neg hp, if_pos hq, hbelow]

lemma count_pos (hi : i < n) (hp : p i) : 0 < Nat.count p n :=
  Nat.pos_of_ne_zero (Nat.count_ne_iff_exists.mpr ⟨i, hi, hp⟩)

lemma eq_of_count_eq_one (h : Nat.count p n = 1) (hi : i < n) (hp : p i) {j : ℕ} (hj : j < n)
    (hpj : p j) : j = i := by
  by_contra hne
  have hone : count (fun k => p k ∧ k ≠ i) n + 1 = count p n := by
    refine (count_add_one hi (fun hk => hk.2 rfl) hp ?_).symm
    intro k _ hk
    exact and_iff_left hk
  have hpos : 0 < count (fun k => p k ∧ k ≠ i) n := count_pos hj ⟨hpj, hne⟩
  omega

end SlotCount
