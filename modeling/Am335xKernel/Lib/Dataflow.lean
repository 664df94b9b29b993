import Mathlib.Data.Set.Basic

/-!
# One-pass analysis of programs that only jump forward

A program is a sequence of nodes. A node changes what is known by its
`transfer`, may name jump targets, and may let control fall to the next node.
When no jump goes backward one pass over the nodes is enough: the pass carries
what is known on falling into the next node and, for every node, the meet of
what was known at the jumps to it.
-/

namespace Dataflow

open Function

structure Domain (α β : Type*) where
  meet : α → α → α
  top : α
  facts : α → Set β
  meet_left : ∀ a b, facts (meet a b) ⊆ facts a
  meet_right : ∀ a b, facts (meet a b) ⊆ facts b

structure Node (α : Type*) where
  transfer : α → α
  targets : List ℕ
  falls : Bool

namespace Node

/-- Control can go from node `i` to node `j`. -/
def Edge {α : Type*} (nodes : ℕ → Node α) (i j : ℕ) : Prop :=
  j ∈ (nodes i).targets ∨ (nodes i).falls = true ∧ j = i + 1

end Node

structure Pass (α : Type*) where
  masks : ℕ → α
  cur : α

namespace Domain

variable {α β : Type*} (D : Domain α β)

/-- What is known on entry to node `i`, just before it is visited. -/
def input (p : Pass α) (i : ℕ) : α := D.meet p.cur (p.masks i)

def narrow (out : α) (masks : ℕ → α) (t : ℕ) : ℕ → α :=
  update masks t (D.meet (masks t) out)

def visit (p : Pass α) (i : ℕ) (nd : Node α) : Pass α :=
  let out := nd.transfer (D.input p i)
  { masks := nd.targets.foldl (D.narrow out) p.masks
    cur := if nd.falls then out else D.top }

/-- The pass before node `i`, from the value `start` on entry. -/
def pass (start : α) (nodes : ℕ → Node α) : ℕ → Pass α
  | 0 => { masks := fun _ => D.top, cur := start }
  | i + 1 => D.visit (pass start nodes i) i (nodes i)

lemma narrow_subset (out : α) (masks : ℕ → α) (t j : ℕ) :
    D.facts (D.narrow out masks t j) ⊆ D.facts (masks j) := by
  by_cases h : j = t
  · subst h
    rw [narrow, update_self]
    exact D.meet_left _ _
  · rw [narrow, update_of_ne h]

lemma foldl_narrow_subset (out : α) (targets : List ℕ) (masks : ℕ → α) (j : ℕ) :
    D.facts (targets.foldl (D.narrow out) masks j) ⊆ D.facts (masks j) := by
  induction targets generalizing masks with
  | nil => exact subset_rfl
  | cons t ts ih => exact (ih _).trans (D.narrow_subset out masks t j)

lemma foldl_narrow_subset_out (out : α) {targets : List ℕ} (masks : ℕ → α) {j : ℕ}
    (hj : j ∈ targets) : D.facts (targets.foldl (D.narrow out) masks j) ⊆ D.facts out := by
  induction targets generalizing masks with
  | nil => cases hj
  | cons t ts ih =>
    rcases List.mem_cons.mp hj with rfl | hj
    · refine (D.foldl_narrow_subset out ts _ j).trans ?_
      rw [narrow, update_self]
      exact D.meet_right _ _
    · exact ih _ hj

variable {start : α} {nodes : ℕ → Node α}

lemma masks_subset_of_le {i k : ℕ} (h : i ≤ k) (j : ℕ) :
    D.facts ((D.pass start nodes k).masks j) ⊆ D.facts ((D.pass start nodes i).masks j) := by
  induction k, h using Nat.le_induction with
  | base => exact subset_rfl
  | succ k _ ih => exact (D.foldl_narrow_subset _ _ _ j).trans ih

/-- **Soundness of the pass.** What it knows on entry to `j` is known after
every node that control can come from. -/
lemma input_subset {i j : ℕ} (hedge : Node.Edge nodes i j) (hij : i < j) :
    D.facts (D.input (D.pass start nodes j) j) ⊆
      D.facts ((nodes i).transfer (D.input (D.pass start nodes i) i)) := by
  rcases hedge with hj | ⟨hfalls, rfl⟩
  · calc D.facts (D.input (D.pass start nodes j) j)
        ⊆ D.facts ((D.pass start nodes j).masks j) := D.meet_right _ _
      _ ⊆ D.facts ((D.pass start nodes (i + 1)).masks j) := D.masks_subset_of_le hij j
      _ ⊆ _ := D.foldl_narrow_subset_out _ _ hj
  · have hcur : (D.pass start nodes (i + 1)).cur =
        (nodes i).transfer (D.input (D.pass start nodes i) i) := if_pos hfalls
    rw [← hcur]
    exact D.meet_left _ _

variable {σ : Type*} (holds : β → σ → Prop) (pc : σ → ℕ)

/-- Everything that the pass knows on entry to the node of `s` holds in `s`. -/
def Known (start : α) (nodes : ℕ → Node α) (s : σ) : Prop :=
  ∀ b ∈ D.facts (D.input (D.pass start nodes (pc s)) (pc s)), holds b s

variable {holds pc}

lemma known_of_start {s : σ} (hpc : pc s = 0) (h : ∀ b ∈ D.facts start, holds b s) :
    D.Known holds pc start nodes s := by
  intro b hb
  rw [hpc] at hb
  exact h b (D.meet_left _ _ hb)

lemma Known.step {s s' : σ} (hedge : Node.Edge nodes (pc s) (pc s')) (hlt : pc s < pc s')
    (htransfer : ∀ b ∈ D.facts ((nodes (pc s)).transfer
      (D.input (D.pass start nodes (pc s)) (pc s))), holds b s') :
    D.Known holds pc start nodes s' :=
  fun b hb => htransfer b (D.input_subset hedge hlt hb)

end Domain

end Dataflow
