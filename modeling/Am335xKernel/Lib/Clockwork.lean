import Mathlib.Algebra.Order.Ring.Nat

/-!
# Machines that are driven by a clock

A tick takes such a machine to its next state and has an output. `Plays` says what the next ticks
put out and where they lead to. If they lead back to where they can begin anew, the outputs are
periodic.
-/

def Clockwork (σ α : Type*) := σ → σ × α

namespace Clockwork

open List

variable {σ α : Type*} {f : Clockwork σ α} {s t u : σ} {a : α} {l l' : List α}

def after (f : Clockwork σ α) (s : σ) (k : ℕ) : σ := (fun v => (f v).1)^[k] s

def out (f : Clockwork σ α) (s : σ) (k : ℕ) : α := (f (f.after s k)).2

section

variable (f : Clockwork σ α)

lemma after_succ (s : σ) (k : ℕ) : f.after s (k + 1) = f.after (f s).1 k :=
  Function.iterate_succ_apply _ k s

lemma after_add (s : σ) (m k : ℕ) : f.after s (m + k) = f.after (f.after s m) k := by
  unfold after
  rw [Nat.add_comm, Function.iterate_add_apply]

end

/-- From `s`, the next ticks put out `l` and lead to a state. -/
inductive Plays (f : Clockwork σ α) : σ → List α → σ → Prop
  | nil (s : σ) : Plays f s [] s
  | cons {s t u : σ} {a : α} {l : List α} (h : f s = (t, a)) (h' : Plays f t l u) :
      Plays f s (a :: l) u

lemma Plays.append (h : f.Plays s l t) (h' : f.Plays t l' u) : f.Plays s (l ++ l') u := by
  induction h with
  | nil => exact h'
  | cons hstep _ ih => exact .cons hstep (ih h')

lemma Plays.after_eq (h : f.Plays s l t) : f.after s l.length = t := by
  induction h with
  | nil => rfl
  | cons hstep _ ih => rw [length_cons, after_succ, hstep, ih]

lemma Plays.out_eq (h : f.Plays s l t) {k : ℕ} (hk : k < l.length) : l[k]? = some (f.out s k) := by
  induction h generalizing k with
  | nil => cases hk
  | cons hstep _ ih =>
    cases k with
    | zero =>
      unfold out after
      rw [Function.iterate_zero_apply, hstep]
      rfl
    | succ k =>
      rw [List.getElem?_cons_succ, ih (Nat.lt_of_succ_lt_succ hk)]
      unfold out
      rw [after_succ, hstep]

lemma out_periodic {S : σ → Prop} (hplays : ∀ s, S s → ∃ t, f.Plays s l t ∧ S t)
    (hs : S s) (hne : l ≠ []) (k : ℕ) : l[k % l.length]? = some (f.out s k) := by
  have hpos : 0 < l.length := length_pos_iff.mpr hne
  induction k using Nat.strongRecOn generalizing s with
  | ind k ih =>
    obtain ⟨t, hl, ht⟩ := hplays s hs
    rcases Nat.lt_or_ge k l.length with hlt | hge
    · rw [Nat.mod_eq_of_lt hlt]
      exact hl.out_eq hlt
    · obtain ⟨m, rfl⟩ := Nat.exists_eq_add_of_le hge
      rw [Nat.add_mod_left, ih m (by omega) ht, out, out, after_add, hl.after_eq]

lemma out_eq_of_relates {τ : Type*} {g : Clockwork τ α} {R : σ → τ → Prop}
    (hstep : ∀ s t, R s t → (f s).2 = (g t).2 ∧ R (f s).1 (g t).1) {s : σ} {t : τ} (h : R s t)
    (k : ℕ) : f.out s k = g.out t k := by
  induction k generalizing s t with
  | zero => exact (hstep s t h).1
  | succ k ih =>
    unfold out
    rw [after_succ, after_succ]
    exact ih (hstep s t h).2

/-- The outputs of a timetable: each entry is an output, and the number of ticks until the next
one. All other ticks put out `silent`. -/
def timeline (silent : α) (score : List (α × ℕ)) : List α :=
  score.flatMap fun p => p.1 :: List.replicate (p.2 - 1) silent

lemma timeline_append (silent : α) (score score' : List (α × ℕ)) :
    timeline silent (score ++ score') = timeline silent score ++ timeline silent score' :=
  flatMap_append

lemma Plays.timeline_append {silent : α} {score score' : List (α × ℕ)}
    (h : f.Plays s (timeline silent score) t) (h' : f.Plays t (timeline silent score') u) :
    f.Plays s (timeline silent (score ++ score')) u := by
  rw [Clockwork.timeline_append]
  exact h.append h'

lemma length_timeline (silent : α) {score : List (α × ℕ)} (h : ∀ p ∈ score, 0 < p.2) :
    (timeline silent score).length = (score.map Prod.snd).sum := by
  induction score with
  | nil => rfl
  | cons p score ih =>
    have hp := h p mem_cons_self
    have htail := ih fun q hq => h q (mem_cons_of_mem p hq)
    unfold timeline at htail ⊢
    rw [flatMap_cons, length_append, htail, length_cons, length_replicate, map_cons, sum_cons]
    omega

end Clockwork
