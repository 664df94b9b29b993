import Mathlib.Data.List.Nodup

/-!
# Buckets

Things are kept in lists, one list for each key, and no thing is in two places. Things are put at
the end of a list (`push`), taken out wherever they are (`drop`), and a whole list is emptied, with
all that was in it put to new places (`rehash`) or to one other place (`move`).
-/

namespace Buckets

open Function List

variable {κ α : Type*} [DecidableEq κ]

def push (b : κ → List α) (k : κ) (a : α) : κ → List α := update b k (b k ++ [a])

def drop [DecidableEq α] (b : κ → List α) (a : α) : κ → List α := fun k => (b k).erase a

def pushAll (b : κ → List α) (f : α → κ) (l : List α) : κ → List α :=
  l.foldl (fun b a => push b (f a) a) b

def rehash (b : κ → List α) (f : α → κ) (k : κ) : κ → List α :=
  pushAll (update b k []) f (b k)

def move (b : κ → List α) (k k' : κ) : κ → List α :=
  update (update b k []) k' (b k)

variable {b : κ → List α} {a a' : α} {k k' : κ} {f : α → κ} {l : List α}

lemma mem_push : a' ∈ push b k a k' ↔ a' ∈ b k' ∨ a' = a ∧ k' = k := by
  unfold push
  rcases eq_or_ne k' k with rfl | hne
  · rw [update_self, mem_append, mem_singleton, and_iff_left rfl]
  · rw [update_of_ne hne, or_iff_left fun h => hne h.2]

lemma mem_pushAll : a ∈ pushAll b f l k ↔ a ∈ b k ∨ a ∈ l ∧ f a = k := by
  unfold pushAll
  induction l generalizing b with
  | nil => simp
  | cons c l ih =>
    rw [foldl_cons, ih, mem_push, mem_cons]
    constructor
    · rintro ((h | ⟨rfl, rfl⟩) | h)
      · exact .inl h
      · exact .inr ⟨.inl rfl, rfl⟩
      · exact .inr ⟨.inr h.1, h.2⟩
    · rintro (h | ⟨rfl | h, rfl⟩)
      · exact .inl (.inl h)
      · exact .inl (.inr ⟨rfl, rfl⟩)
      · exact .inr ⟨h, rfl⟩

lemma mem_rehash : a ∈ rehash b f k k' ↔ a ∈ b k' ∧ k' ≠ k ∨ a ∈ b k ∧ f a = k' := by
  unfold rehash
  rw [mem_pushAll]
  refine or_congr_left ?_
  rcases eq_or_ne k' k with rfl | hne
  · rw [update_self]
    simp
  · rw [update_of_ne hne, and_iff_left hne]

lemma mem_move {p : κ} : a ∈ move b k k' p ↔ p = k' ∧ a ∈ b k ∨ p ≠ k' ∧ p ≠ k ∧ a ∈ b p := by
  unfold move
  rcases eq_or_ne p k' with rfl | hne
  · rw [update_self]
    simp
  · rw [update_of_ne hne]
    rcases eq_or_ne p k with rfl | hne'
    · rw [update_self]
      simp [hne]
    · rw [update_of_ne hne']
      simp [hne, hne']

structure Apart (b : κ → List α) : Prop where
  nodup : ∀ k, (b k).Nodup
  unique : ∀ k k' a, a ∈ b k → a ∈ b k' → k = k'

omit [DecidableEq κ] in
lemma Apart.empty : Apart fun _ : κ => ([] : List α) := ⟨fun _ => nodup_nil, nofun⟩

section

variable (h : Apart b)
include h

lemma Apart.push (hnot : ∀ k, a ∉ b k) (k : κ) : Apart (push b k a) := by
  refine ⟨fun k' => ?_, fun k1 k2 c h1 h2 => ?_⟩
  · unfold Buckets.push
    rcases eq_or_ne k' k with rfl | hne
    · rw [update_self]
      refine nodup_append.mpr ⟨h.nodup k', nodup_singleton a, fun c hc d hd => ?_⟩
      rintro rfl
      exact hnot k' (mem_singleton.mp hd ▸ hc)
    · rw [update_of_ne hne]
      exact h.nodup k'
  · rcases mem_push.mp h1 with hold1 | ⟨rfl, rfl⟩
    · rcases mem_push.mp h2 with hold2 | ⟨rfl, -⟩
      · exact h.unique k1 k2 c hold1 hold2
      · exact absurd hold1 (hnot k1)
    · rcases mem_push.mp h2 with hold2 | ⟨-, rfl⟩
      · exact absurd hold2 (hnot k2)
      · rfl

lemma Apart.pushAll (hl : l.Nodup) (hnot : ∀ a ∈ l, ∀ k, a ∉ b k) (f : α → κ) :
    Apart (pushAll b f l) := by
  induction l generalizing b with
  | nil => exact h
  | cons c l ih =>
    obtain ⟨hc, hl⟩ := nodup_cons.mp hl
    refine ih (h.push (hnot c mem_cons_self) (f c)) hl fun a ha k hmem => ?_
    rcases mem_push.mp hmem with hmem | ⟨rfl, -⟩
    · exact hnot a (mem_cons_of_mem c ha) k hmem
    · exact hc ha

lemma Apart.clear (k : κ) : Apart (update b k []) := by
  have hsub : ∀ k' a, a ∈ update b k [] k' → a ∈ b k' := by
    intro k' a ha
    rcases eq_or_ne k' k with rfl | hne
    · rw [update_self] at ha
      cases ha
    · rwa [update_of_ne hne] at ha
  refine ⟨fun k' => ?_, fun k1 k2 a h1 h2 => h.unique k1 k2 a (hsub k1 a h1) (hsub k2 a h2)⟩
  rcases eq_or_ne k' k with rfl | hne
  · rw [update_self]
    exact nodup_nil
  · rw [update_of_ne hne]
    exact h.nodup k'

lemma Apart.rehash (f : α → κ) (k : κ) : Apart (rehash b f k) := by
  refine (h.clear k).pushAll (h.nodup k) (fun a ha k' hmem => ?_) f
  rcases eq_or_ne k' k with rfl | hne
  · rw [update_self] at hmem
    cases hmem
  · rw [update_of_ne hne] at hmem
    exact hne (h.unique k' k a hmem ha)

lemma Apart.move (k k' : κ) : Apart (move b k k') := by
  refine ⟨fun p => ?_, fun p q a hp hq => ?_⟩
  · unfold Buckets.move
    rcases eq_or_ne p k' with rfl | hne
    · rw [update_self]
      exact h.nodup k
    · rw [update_of_ne hne]
      exact (h.clear k).nodup p
  · rcases mem_move.mp hp with ⟨hpk', hap⟩ | ⟨-, hpk, hap⟩
    · rcases mem_move.mp hq with ⟨hqk', -⟩ | ⟨-, hqk, haq⟩
      · rw [hpk', hqk']
      · exact absurd (h.unique q k a haq hap) hqk
    · rcases mem_move.mp hq with ⟨-, haq⟩ | ⟨-, -, haq⟩
      · exact absurd (h.unique p k a hap haq) hpk
      · exact h.unique p q a hap haq

end

section

variable [DecidableEq α]

omit [DecidableEq κ] in
lemma Apart.mem_drop (h : Apart b) : a' ∈ drop b a k ↔ a' ∈ b k ∧ a' ≠ a := by
  unfold Buckets.drop
  rw [(h.nodup k).mem_erase_iff, and_comm]

omit [DecidableEq κ] in
lemma Apart.drop (h : Apart b) (a : α) : Apart (drop b a) := by
  refine ⟨fun k => (h.nodup k).erase a, fun k1 k2 c h1 h2 => ?_⟩
  exact h.unique k1 k2 c (h.mem_drop.mp h1).1 (h.mem_drop.mp h2).1

end

end Buckets
