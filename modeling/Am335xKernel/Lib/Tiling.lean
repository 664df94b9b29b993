import Mathlib.Algebra.Order.Ring.Nat

/-!
# A line cut into pieces

A list of pieces that have a length each says where every piece begins: behind all in front of it.
`layout` puts the beginnings beside the pieces. Pieces do not overlap, they fill the line, and to
cut a piece, or to join two, is to replace a part of the list by one of the same length.
-/

namespace Tiling

open List

variable {α : Type*} (len : α → ℕ)

def total (l : List α) : ℕ := (l.map len).sum

/-- The pieces with where they begin, the first one at `off`. -/
def layout : ℕ → List α → List (ℕ × α)
  | _, [] => []
  | off, a :: l => (off, a) :: layout (off + len a) l

variable {len} {a b : α} {l l' A C : List α} {o o' off : ℕ}

@[simp] lemma total_nil : total len ([] : List α) = 0 := rfl

@[simp] lemma total_cons : total len (a :: l) = len a + total len l := by
  unfold total
  rw [map_cons, sum_cons]

@[simp] lemma total_append : total len (l ++ l') = total len l + total len l' := by
  unfold total
  rw [map_append, sum_append]

lemma len_le_total (h : a ∈ l) : len a ≤ total len l := by
  obtain ⟨A, C, rfl⟩ := append_of_mem h
  rw [total_append, total_cons]
  omega

lemma mem_layout_cons :
    (o, b) ∈ layout len off (a :: l) ↔ o = off ∧ b = a ∨ (o, b) ∈ layout len (off + len a) l := by
  show (o, b) ∈ (off, a) :: layout len (off + len a) l ↔ _
  rw [mem_cons, Prod.mk.injEq]

lemma layout_append :
    layout len off (l ++ l') = layout len off l ++ layout len (off + total len l) l' := by
  induction l generalizing off with
  | nil => rfl
  | cons a l ih =>
    show (off, a) :: layout len (off + len a) (l ++ l') = _
    rw [ih, total_cons, ← Nat.add_assoc]
    rfl

lemma mem_layout_append : (o, a) ∈ layout len off (l ++ l') ↔
      (o, a) ∈ layout len off l ∨ (o, a) ∈ layout len (off + total len l) l' := by
  rw [layout_append, mem_append]

lemma mem_layout_middle (len : α → ℕ) (A C : List α) (off : ℕ) (a : α) :
    (off + total len A, a) ∈ layout len off (A ++ a :: C) :=
  mem_layout_append.mpr (.inr (mem_layout_cons.mpr (.inl ⟨rfl, rfl⟩)))

section

variable (h : (o, a) ∈ layout len off l)
include h

lemma exists_split : ∃ A C, l = A ++ a :: C ∧ o = off + total len A := by
  induction l generalizing off with
  | nil => cases h
  | cons b l ih =>
    rcases mem_layout_cons.mp h with ⟨rfl, rfl⟩ | h
    · exact ⟨[], l, rfl, rfl⟩
    · obtain ⟨A, C, rfl, rfl⟩ := ih h
      refine ⟨b :: A, C, rfl, ?_⟩
      rw [total_cons, Nat.add_assoc]

lemma le_of_mem_layout : off ≤ o := by
  obtain ⟨A, C, -, rfl⟩ := exists_split h
  exact Nat.le_add_right off _

lemma end_le_total : o + len a ≤ off + total len l := by
  obtain ⟨A, C, rfl, rfl⟩ := exists_split h
  rw [total_append, total_cons]
  omega

lemma apart_or_eq (h' : (o', b) ∈ layout len off l) :
    o + len a ≤ o' ∨ o' + len b ≤ o ∨ o = o' ∧ a = b := by
  induction l generalizing off with
  | nil => cases h
  | cons c l ih =>
    rcases mem_layout_cons.mp h with ⟨rfl, rfl⟩ | h
    · rcases mem_layout_cons.mp h' with ⟨rfl, rfl⟩ | h'
      · exact .inr (.inr ⟨rfl, rfl⟩)
      · exact .inl (le_of_mem_layout h')
    · rcases mem_layout_cons.mp h' with ⟨rfl, rfl⟩ | h'
      · exact .inr (.inl (le_of_mem_layout h))
      · exact ih h h'

lemma end_le_of_lt (h' : (o', b) ∈ layout len off l) (hlt : o < o') : o + len a ≤ o' := by
  have := apart_or_eq h h'
  omega

end

end Tiling
