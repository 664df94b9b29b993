import Mathlib.Data.List.Basic

/-!
# Event-driven machines and their runs

A machine is a start state and a partial step function: `step s e = none` says
that the event `e` cannot occur in `s`. A run is a list of events taken from the
left.
-/

structure Machine (σ ε : Type*) where
  init : σ
  step : σ → ε → Option σ

namespace Machine

open List

variable {σ ε : Type*} (M : Machine σ ε)

/-- Take the events in order; `none` as soon as one of them cannot occur. -/
def exec : σ → List ε → Option σ
  | s, [] => some s
  | s, e :: es => (M.step s e).bind fun s' => exec s' es

@[simp] lemma exec_nil (s : σ) : M.exec s [] = some s := rfl

variable {e : ε} {es : List ε} {s : σ} {P : σ → Prop} {G : σ → ε → Prop} {I : σ → Prop}

lemma exec_cons_of_step {s s' : σ} (h : M.step s e = some s') (es : List ε) :
    M.exec s (e :: es) = M.exec s' es := by
  rw [exec, h]
  rfl

lemma exec_cons_eq_some {s t : σ} : M.exec s (e :: es) = some t ↔
      ∃ s', M.step s e = some s' ∧ M.exec s' es = some t := by
  rw [exec, Option.bind_eq_some_iff]

lemma exec_append (s : σ) (es fs : List ε) :
    M.exec s (es ++ fs) = (M.exec s es).bind fun t => M.exec t fs := by
  induction es generalizing s with
  | nil => rfl
  | cons e es ih =>
    rw [cons_append, exec, exec, Option.bind_assoc]
    exact congrArg _ (funext fun s' => ih s')

lemma exec_append_eq_some {s u : σ} {es fs : List ε} : M.exec s (es ++ fs) = some u ↔
      ∃ t, M.exec s es = some t ∧ M.exec t fs = some u := by
  rw [exec_append, Option.bind_eq_some_iff]

/-- `P` holds in every state that the run visits. -/
def Always (P : σ → Prop) (s : σ) (es : List ε) : Prop :=
  ∀ pre post t, es = pre ++ post → M.exec s pre = some t → P t

/-- Every step that the run takes meets `G` in the state it is taken from. -/
def Guarded (G : σ → ε → Prop) (s : σ) (es : List ε) : Prop :=
  ∀ pre e post t t', es = pre ++ e :: post → M.exec s pre = some t →
    M.step t e = some t' → G t e

lemma always_nil : M.Always P s [] ↔ P s := by
  constructor
  · intro h
    exact h [] [] s rfl rfl
  · intro h pre post t heq hrun
    obtain ⟨rfl, rfl⟩ := append_eq_nil_iff.mp heq.symm
    rw [exec_nil, Option.some.injEq] at hrun
    exact hrun ▸ h

lemma always_cons : M.Always P s (e :: es) ↔
      P s ∧ ∀ s', M.step s e = some s' → M.Always P s' es := by
  constructor
  · intro h
    refine ⟨h [] (e :: es) s rfl rfl, ?_⟩
    intro s' hs pre post t heq hrun
    exact h (e :: pre) post t (by rw [heq, cons_append])
      (by rw [M.exec_cons_of_step hs]; exact hrun)
  · rintro ⟨hs, hrest⟩ pre post t heq hrun
    cases pre with
    | nil =>
      rw [exec_nil, Option.some.injEq] at hrun
      exact hrun ▸ hs
    | cons d pre =>
      rw [cons_append, List.cons.injEq] at heq
      obtain ⟨rfl, heq⟩ := heq
      obtain ⟨s', hs', hrun'⟩ := M.exec_cons_eq_some.mp hrun
      exact hrest s' hs' pre post t heq hrun'

lemma guarded_nil : M.Guarded G s [] := by
  intro pre e post t t' heq
  exact absurd heq.symm (by simp)

lemma guarded_cons : M.Guarded G s (e :: es) ↔
      ∀ s', M.step s e = some s' → G s e ∧ M.Guarded G s' es := by
  constructor
  · intro h s' hs
    refine ⟨h [] e es s s' rfl rfl hs, ?_⟩
    intro pre d post t t' heq hrun
    exact h (e :: pre) d post t t' (by rw [heq, cons_append])
      (by rw [M.exec_cons_of_step hs]; exact hrun)
  · intro h pre d post t t' heq hrun hstep
    cases pre with
    | nil =>
      rw [exec_nil, Option.some.injEq] at hrun
      rw [nil_append, List.cons.injEq] at heq
      obtain ⟨rfl, rfl⟩ := heq
      subst hrun
      exact (h t' hstep).1
    | cons c pre =>
      rw [cons_append, List.cons.injEq] at heq
      obtain ⟨rfl, heq⟩ := heq
      obtain ⟨s', hs', hrun'⟩ := M.exec_cons_eq_some.mp hrun
      exact (h s' hs').2 pre d post t t' heq hrun' hstep

/-- On a concrete run a decidable guard can be evaluated. -/
instance decidableGuarded {G : σ → ε → Prop} [∀ s e, Decidable (G s e)] :
    ∀ (s : σ) (es : List ε), Decidable (M.Guarded G s es)
  | _, [] => isTrue M.guarded_nil
  | s, e :: es =>
    match h : M.step s e with
    | none => isTrue (by rw [guarded_cons, h]; simp)
    | some s' =>
      have : Decidable (M.Guarded G s' es) := decidableGuarded s' es
      decidable_of_iff (G s e ∧ M.Guarded G s' es) (by rw [guarded_cons, h]; simp)

/-- **The invariant rule.** -/
lemma always_of_guarded (hstep : ∀ s e s', I s → G s e → M.step s e = some s' → I s') (hs : I s)
    (hg : M.Guarded G s es) : M.Always I s es := by
  induction es generalizing s with
  | nil => exact M.always_nil.mpr hs
  | cons e es ih =>
    refine M.always_cons.mpr ⟨hs, ?_⟩
    intro s' hs'
    obtain ⟨hge, hrest⟩ := M.guarded_cons.mp hg s' hs'
    exact ih (hstep s e s' hs hge hs') hrest

lemma always_of_step (hstep : ∀ s e s', I s → M.step s e = some s' → I s') (hs : I s)
    (es : List ε) : M.Always I s es :=
  M.always_of_guarded (G := fun _ _ => True)
    (fun s e s' hi _ h => hstep s e s' hi h) hs (fun _ _ _ _ _ _ _ _ => trivial)

lemma Always.last {s t : σ} (h : M.Always P s es) (hrun : M.exec s es = some t) : P t :=
  h es [] t (append_nil es).symm hrun

lemma Always.mono {P Q : σ → Prop} (hPQ : ∀ s, P s → Q s) (h : M.Always P s es) : M.Always Q s es :=
  fun pre post t heq hrun => hPQ t (h pre post t heq hrun)

lemma Always.guarded (hG : ∀ s e s', P s → M.step s e = some s' → G s e) (h : M.Always P s es) :
    M.Guarded G s es :=
  fun pre e post t t' heq hrun hstep =>
    hG t e t' (h pre (e :: post) t heq hrun) hstep

lemma guarded_of_guarded {G H : σ → ε → Prop}
    (hkeep : ∀ s e s', I s → G s e → M.step s e = some s' → I s')
    (hH : ∀ s e s', I s → G s e → M.step s e = some s' → H s e) (hs : I s) (hg : M.Guarded G s es) :
    M.Guarded H s es := by
  have hI := M.always_of_guarded hkeep hs hg
  intro pre e post t t' heq hrun hstep
  exact hH t e t' (hI pre (e :: post) t heq hrun) (hg pre e post t t' heq hrun hstep) hstep

lemma guarded_iff_guarded {G H : σ → ε → Prop}
    (hkeep : ∀ s e s', I s → G s e → M.step s e = some s' → I s')
    (hiff : ∀ s e s', I s → M.step s e = some s' → (H s e ↔ G s e)) (hs : I s) (es : List ε) :
    M.Guarded H s es ↔ M.Guarded G s es := by
  induction es generalizing s with
  | nil => exact iff_of_true M.guarded_nil M.guarded_nil
  | cons e es ih =>
    rw [guarded_cons, guarded_cons]
    refine forall_congr' fun s' => forall_congr' fun hs' => ?_
    constructor
    · rintro ⟨hH, hrest⟩
      have hG := (hiff s e s' hs hs').mp hH
      exact ⟨hG, (ih (hkeep s e s' hs hG hs')).mp hrest⟩
    · rintro ⟨hG, hrest⟩
      exact ⟨(hiff s e s' hs hs').mpr hG, (ih (hkeep s e s' hs hG hs')).mpr hrest⟩

/-- **The exact rule.** Guarded steps keep the invariant, and a step from the
invariant that misses the guard leaves `P`: then a run stays in `P` exactly
when all its steps are guarded. -/
lemma always_iff_guarded {I P : σ → Prop} (hP : ∀ s, I s → P s)
    (hkeep : ∀ s e s', I s → G s e → M.step s e = some s' → I s')
    (hleave : ∀ s e s', I s → ¬ G s e → M.step s e = some s' → ¬ P s') (hs : I s) (es : List ε) :
    M.Always P s es ↔ M.Guarded G s es := by
  constructor
  · intro h
    induction es generalizing s with
    | nil => exact M.guarded_nil
    | cons e es ih =>
      refine M.guarded_cons.mpr ?_
      intro s' hs'
      have hrest := (M.always_cons.mp h).2 s' hs'
      have hG : G s e := by
        by_contra hn
        exact hleave s e s' hs hn hs' (hrest [] es s' rfl rfl)
      exact ⟨hG, ih (hkeep s e s' hs hG hs') hrest⟩
  · intro h
    exact Always.mono M hP (M.always_of_guarded hkeep hs h)

end Machine
