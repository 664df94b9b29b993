import Mathlib.Data.List.Basic

/-!
# Numbers whose digits say whether there is a next one

The digits of a number stand in a row of cells, the lowest one first. A cell holds a digit and
whether the next cell belongs to the number; what is in the cells behind the last one does not
matter. The last digit of a number is not 0 (`Chain`).

`carry` adds one. If all digits are full it takes another cell, and it fails if there is none.
`borrow` subtracts one, and says whether there is anything left.
-/

structure Cell where
  digit : ℕ
  more : Bool
deriving DecidableEq

namespace DigitChain

open List Nat

/-- The number in base `b`. -/
def value (b : ℕ) : List Cell → ℕ
  | [] => 0
  | c :: cs => c.digit + if c.more then b * value b cs else 0

def Chain (b : ℕ) : List Cell → Prop
  | [] => False
  | c :: cs => c.digit < b ∧ if c.more then Chain b cs else 0 < c.digit

def carry (b : ℕ) : List Cell → Option (List Cell)
  | [] => none
  | c :: cs =>
    if c.digit + 1 < b then some (⟨c.digit + 1, c.more⟩ :: cs)
    else if c.more then (carry b cs).map (⟨0, true⟩ :: ·)
    else match cs with
    | [] => none
    | _ :: cs => some (⟨0, true⟩ :: ⟨1, false⟩ :: cs)

def borrow (b : ℕ) : List Cell → List Cell × Bool
  | [] => ([], false)
  | c :: cs =>
    if c.digit = 0 then (⟨b - 1, (borrow b cs).2⟩ :: (borrow b cs).1, true)
    else (⟨c.digit - 1, c.more⟩ :: cs, c.more || decide (c.digit ≠ 1))

variable {b : ℕ} {c : Cell} {cs cs' ds : List Cell}

@[simp] lemma value_more (d : ℕ) : value b (⟨d, true⟩ :: cs) = d + b * value b cs := rfl

@[simp] lemma value_last (d : ℕ) : value b (⟨d, false⟩ :: cs) = d := rfl

@[simp] lemma chain_more (d : ℕ) : Chain b (⟨d, true⟩ :: cs) ↔ d < b ∧ Chain b cs := Iff.rfl

@[simp] lemma chain_last (d : ℕ) : Chain b (⟨d, false⟩ :: cs) ↔ d < b ∧ 0 < d := Iff.rfl

lemma Chain.value_pos (h : Chain b cs) : 0 < value b cs := by
  induction cs with
  | nil => exact h.elim
  | cons c cs ih =>
    obtain ⟨d, more⟩ := c
    cases more with
    | false => exact h.2
    | true =>
      rw [value_more]
      have hpos := Nat.mul_pos (Nat.zero_lt_of_lt h.1) (ih h.2)
      omega

lemma Chain.append (h : Chain b cs) (ds : List Cell) : Chain b (cs ++ ds) := by
  induction cs with
  | nil => exact h.elim
  | cons c cs ih =>
    obtain ⟨d, more⟩ := c
    cases more with
    | false => exact h
    | true => exact ⟨h.1, ih h.2⟩

lemma Chain.value_append (h : Chain b cs) (ds : List Cell) : value b (cs ++ ds) = value b cs := by
  induction cs with
  | nil => exact h.elim
  | cons c cs ih =>
    obtain ⟨d, more⟩ := c
    cases more with
    | false => rfl
    | true =>
      show d + b * value b (cs ++ ds) = d + b * value b cs
      rw [ih h.2]

lemma length_carry (hc : carry b cs = some cs') : cs'.length = cs.length := by
  induction cs generalizing cs' with
  | nil => cases hc
  | cons c cs ih =>
    unfold carry at hc
    split_ifs at hc with hroom hmore
    · cases hc
      rfl
    · obtain ⟨ds, hds, rfl⟩ := Option.map_eq_some_iff.mp hc
      rw [length_cons, length_cons, ih hds]
    · cases cs with
      | nil => cases hc
      | cons d cs =>
        cases hc
        rfl

/-- **Adding one.** -/
lemma Chain.carry (hb : 1 < b) (h : Chain b cs) (hc : carry b cs = some cs') :
    Chain b cs' ∧ value b cs' = value b cs + 1 := by
  induction cs generalizing cs' with
  | nil => cases hc
  | cons c cs ih =>
    obtain ⟨d, more⟩ := c
    unfold DigitChain.carry at hc
    split_ifs at hc with hroom hmore
    · cases hc
      cases more with
      | false => exact ⟨⟨hroom, succ_pos d⟩, rfl⟩
      | true =>
        refine ⟨⟨hroom, h.2⟩, ?_⟩
        rw [value_more, value_more]
        exact Nat.add_right_comm _ _ _
    · obtain ⟨ds, hds, rfl⟩ := Option.map_eq_some_iff.mp hc
      obtain rfl : more = true := hmore
      obtain ⟨hchain, hvalue⟩ := ih h.2 hds
      refine ⟨⟨zero_lt_of_lt hb, hchain⟩, ?_⟩
      have hd : d + 1 = b := Nat.le_antisymm h.1 (Nat.not_lt.mp hroom)
      rw [value_more, value_more, hvalue, Nat.mul_add_one, Nat.zero_add, ← hd]
      omega
    · obtain rfl : more = false := by simpa using hmore
      have hd : d + 1 = b := Nat.le_antisymm h.1 (Nat.not_lt.mp hroom)
      cases cs with
      | nil => cases hc
      | cons e cs =>
        cases hc
        refine ⟨⟨Nat.zero_lt_of_lt hb, hb, Nat.one_pos⟩, ?_⟩
        rw [value_more, value_last, value_last, Nat.mul_one, Nat.zero_add, hd]

lemma Chain.carry_append (h : Chain b cs) (x : Cell) (ds : List Cell) :
    ∃ cs', DigitChain.carry b (cs ++ x :: ds) = some cs' := by
  induction cs with
  | nil => exact h.elim
  | cons c cs ih =>
    obtain ⟨d, more⟩ := c
    rw [cons_append]
    unfold DigitChain.carry
    split_ifs with hroom hmore
    · exact ⟨_, rfl⟩
    · obtain rfl : more = true := hmore
      obtain ⟨cs', hcs'⟩ := ih h.2
      rw [hcs']
      exact ⟨_, rfl⟩
    · cases cs <;> exact ⟨_, rfl⟩

lemma length_borrow (b : ℕ) (cs : List Cell) : (borrow b cs).1.length = cs.length := by
  induction cs with
  | nil => rfl
  | cons c cs ih =>
    unfold borrow
    split_ifs
    · rw [length_cons, length_cons, ih]
    · rfl

/-- **Subtracting one.** -/
lemma Chain.borrow (hb : 1 < b) (h : Chain b cs) :
    ((borrow b cs).2 = true ∧ Chain b (borrow b cs).1 ∧
      value b (borrow b cs).1 + 1 = value b cs) ∨ (borrow b cs).2 = false ∧ value b cs = 1 := by
  induction cs with
  | nil => exact h.elim
  | cons c cs ih =>
    obtain ⟨d, more⟩ := c
    unfold DigitChain.borrow
    by_cases hd : d = 0
    · -- a last digit is not 0
      subst hd
      obtain rfl : more = true := by
        cases more with
        | false => exact absurd h.2 (Nat.lt_irrefl 0)
        | true => rfl
      rw [if_pos rfl]
      refine .inl ⟨rfl, ?_⟩
      rcases ih h.2 with ⟨hleft, hchain, hvalue⟩ | ⟨hleft, hvalue⟩
      · rw [hleft, chain_more, value_more, value_more, ← hvalue, mul_add_one]
        exact ⟨⟨by omega, hchain⟩, by omega⟩
      · rw [hleft, chain_last, value_last, value_more, hvalue, Nat.mul_one]
        exact ⟨⟨by omega, by omega⟩, by omega⟩
    · rw [if_neg hd]
      have hlt := h.1
      cases more with
      | true =>
        refine .inl ⟨rfl, ⟨by dsimp only at hlt ⊢; omega, h.2⟩, ?_⟩
        rw [value_more, value_more]
        dsimp only
        omega
      | false =>
        by_cases hone : d = 1
        · exact .inr ⟨by simp [hone], hone⟩
        · refine .inl ⟨by simp [hone], ?_, ?_⟩
          · rw [chain_last]
            dsimp only at hlt ⊢
            omega
          · rw [value_last, value_last]
            dsimp only
            omega

end DigitChain
