import Mathlib.Data.List.Basic

/-!
# Components and what they are for

A component is a state with calls; a call may not be allowed in a state, and
otherwise gives the next state and a result. An abstract component says what an
implementation is for. The implementation refines it (`Refines`) if every call
that is allowed there can be made here, with the same result, and the states
stay related; `Refines.run` carries this over to runs.

Where the results are not determined, as they depend on what the environment
gives, a `Contract` says which ones are right, and what they mean for the
abstract state.
-/

/-- The calls of a component: `ι` are the calls, `ρ` the results. -/
abbrev Component (σ ι ρ : Type*) := σ → ι → Option (σ × ρ)

structure Contract (σ ι ρ : Type*) where
  allowed : σ → ι → Prop
  ok : σ → ι → ρ → Prop
  next : σ → ι → ρ → σ

def Contract.when {σ ι ρ : Type*} (K : Contract σ ι ρ) (G : σ → ι → Prop) : Contract σ ι ρ :=
  { K with allowed := fun s i => K.allowed s i ∧ G s i }

/-- The calls are allowed, whichever right results they have. -/
def Contract.Allows {σ ι ρ : Type*} (K : Contract σ ι ρ) : σ → List ι → Prop
  | _, [] => True
  | s, i :: is => K.allowed s i ∧ ∀ r, K.ok s i r → K.Allows (K.next s i r) is

namespace Component

variable {σ τ ι ρ : Type*}

def run (c : Component σ ι ρ) : σ → List ι → Option (σ × List ρ)
  | s, [] => some (s, [])
  | s, i :: is => (c s i).bind fun p => (run c p.1 is).map fun q => (q.1, p.2 :: q.2)

variable {s : σ} {is : List ι} {rs : List ρ}

lemma run_cons_eq_some {c : Component σ ι ρ} {u : σ} {i : ι} : c.run s (i :: is) = some (u, rs) ↔
      ∃ t r rs', c s i = some (t, r) ∧ c.run t is = some (u, rs') ∧ rs = r :: rs' := by
  rw [run, Option.bind_eq_some_iff]
  constructor
  · rintro ⟨⟨t, r⟩, hcall, hrest⟩
    obtain ⟨⟨u', rs'⟩, hrun, heq⟩ := Option.map_eq_some_iff.mp hrest
    cases heq
    exact ⟨t, r, rs', hcall, hrun, rfl⟩
  · rintro ⟨t, r, rs', hcall, hrun, rfl⟩
    exact ⟨(t, r), hcall, Option.map_eq_some_iff.mpr ⟨(u, rs'), hrun, rfl⟩⟩

/-- The states that calls lead to, where `A` says which calls are made in a state. -/
inductive Reach (c : Component τ ι ρ) (A : τ → ι → Prop) (t0 : τ) : τ → Prop
  | start : Reach c A t0 t0
  | call {t t' : τ} {i : ι} {r : ρ} (h : Reach c A t0 t) (ha : A t i) (hc : c t i = some (t', r)) :
      Reach c A t0 t'

variable {c : Component τ ι ρ} {t : τ}

lemma Reach.invariant {A : τ → ι → Prop} {t0 : τ} {I : τ → Prop} (h : c.Reach A t0 t)
    (hstart : I t0) (hstep : ∀ t t' i r, I t → A t i → c t i = some (t', r) → I t') : I t := by
  induction h with
  | start => exact hstart
  | call _ ha hc ih => exact hstep _ _ _ _ ih ha hc

def Refines (R : σ → τ → Prop) (abs : Component σ ι ρ) (imp : Component τ ι ρ) : Prop :=
  ∀ s t i s' r, R s t → abs s i = some (s', r) → ∃ t', imp t i = some (t', r) ∧ R s' t'

/-- **Runs.** -/
lemma Refines.run {R : σ → τ → Prop} {abs : Component σ ι ρ} {imp : Component τ ι ρ}
    (h : Refines R abs imp) {s' : σ} (hR : R s t) (hrun : abs.run s is = some (s', rs))
    : ∃ t', imp.run t is = some (t', rs) ∧ R s' t' := by
  induction is generalizing s t rs with
  | nil =>
    cases hrun
    exact ⟨t, rfl, hR⟩
  | cons i is ih =>
    obtain ⟨s1, r, rs', hcall, hrest, rfl⟩ := run_cons_eq_some.mp hrun
    obtain ⟨t1, himp, hR1⟩ := h s t i s1 r hR hcall
    obtain ⟨t', hrun', hR'⟩ := ih hR1 hrest
    exact ⟨t', run_cons_eq_some.mpr ⟨t1, r, rs', himp, hrun', rfl⟩, hR'⟩

/-- As long as the calls are allowed, each is made with a right result, and all
states are as `P` says. -/
def Keeps (c : Component τ ι ρ) (K : Contract σ ι ρ) (P : σ → τ → Prop) : σ → τ → List ι → Prop
  | s, t, [] => P s t
  | s, t, i :: is => P s t ∧
      (K.allowed s i → ∃ t' r, c t i = some (t', r) ∧ K.ok s i r ∧ Keeps c K P (K.next s i r) t' is)

variable {K : Contract σ ι ρ}

lemma Keeps.run {P : σ → τ → Prop} (h : c.Keeps K P s t is) (ha : K.Allows s is) :
    ∃ s' t' rs, c.run t is = some (t', rs) ∧ P s' t' := by
  induction is generalizing s t with
  | nil => exact ⟨s, t, [], rfl, h⟩
  | cons i is ih =>
    obtain ⟨t1, r, hcall, hok, hkeeps⟩ := h.2 ha.1
    obtain ⟨s', t', rs, hrun, hP⟩ := ih hkeeps (ha.2 r hok)
    exact ⟨s', t', r :: rs, run_cons_eq_some.mpr ⟨t1, r, rs, hcall, hrun, rfl⟩, hP⟩

lemma keeps_of_countdown {I : ℕ → σ → τ → Prop} {P : σ → τ → Prop} (hP : ∀ n s t, I n s t → P s t)
    (hstep : ∀ n s t i, I (n + 1) s t → K.allowed s i →
      ∃ t' r, c t i = some (t', r) ∧ K.ok s i r ∧ I n (K.next s i r) t') (is : List ι)
    (hI : I is.length s t) : c.Keeps K P s t is := by
  induction is generalizing s t with
  | nil => exact hP _ s t hI
  | cons i is ih =>
    refine ⟨hP _ s t hI, fun hallowed => ?_⟩
    obtain ⟨t', r, hcall, hok, hnext⟩ := hstep _ s t i hI hallowed
    exact ⟨t', r, hcall, hok, ih hnext⟩

/-- **The invariant rule.** -/
lemma keeps_of_step {I P : σ → τ → Prop} (hP : ∀ s t, I s t → P s t)
    (hstep : ∀ s t i, I s t → K.allowed s i →
      ∃ t' r, c t i = some (t', r) ∧ K.ok s i r ∧ I (K.next s i r) t') (hI : I s t) (is : List ι) :
    c.Keeps K P s t is :=
  keeps_of_countdown (I := fun _ => I) (fun _ => hP) (fun _ => hstep) is hI

end Component
