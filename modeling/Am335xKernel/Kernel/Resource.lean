import Mathlib.Data.List.Basic

/-!
# Reserving a region of resources

`__reserve_region_with_split` of `kernel/resource.c` claims of a range what none of the children of
a resource has: where a child is in the way, the parts on both sides of it are tried again. If the
range sticks out of the root, the root is in the way, and the part outside is tried again for ever.

Only the children of the root are read. No sum or difference wraps around: each is next to a bound
of the range.
-/

namespace Am335x.Ioport

open List

structure Resource where
  start : ℕ
  fin   : ℕ
deriving DecidableEq

/-- The loop of `__request_resource`: the child in the way, and the children. -/
def requestLoop (new : Resource) : List Resource → Option Resource × List Resource
  | [] => (none, [new])
  | tmp :: rest =>
    if new.fin < tmp.start then (none, new :: tmp :: rest)
    else if tmp.fin < new.start then ((requestLoop new rest).1, tmp :: (requestLoop new rest).2)
    else (some tmp, tmp :: rest)

/-- `__request_resource`. -/
def requestResource (root : Resource) (children : List Resource) (new : Resource) :
    Option Resource × List Resource :=
  if new.fin < new.start ∨ new.start < root.start ∨ root.fin < new.fin then (some root, children)
  else requestLoop new children

/-- `__reserve_region_with_split`, `none` if it calls itself more than `fuel` deep. The state is how
often memory has been asked for, which `kzalloc` grants or not, and the children. -/
def reserveRegionWithSplit (kzalloc : ℕ → Bool) (root : Resource) :
    ℕ → ℕ → ℕ → ℕ × List Resource → Option (ℕ × List Resource)
  | 0, _, _, _ => none
  | fuel + 1, start, fin, (n, children) =>
    if kzalloc n = false then some (n + 1, children)
    else
      match requestResource root children ⟨start, fin⟩ with
      | (none, children') => some (n + 1, children')
      | (some conflict, _) =>
        -- conflict covered whole area
        if conflict.start ≤ start ∧ fin ≤ conflict.fin then some (n + 1, children)
        else
          (if start < conflict.start then
            reserveRegionWithSplit kzalloc root fuel start (conflict.start - 1) (n + 1, children)
          else some (n + 1, children)).bind fun s =>
            if conflict.fin < fin then
              reserveRegionWithSplit kzalloc root fuel (conflict.fin + 1) fin s
            else some s

def Covers (l : List Resource) (a : ℕ) : Prop := ∃ c ∈ l, c.start ≤ a ∧ a ≤ c.fin

/-- A run that returns, leaves the children in place and, if there is memory, has the addresses of
`P` covered. -/
def Returns (kzalloc : ℕ → Bool) (children : List Resource) (P : ℕ → Prop)
    (run : Option (ℕ × List Resource)) : Prop :=
  ∃ s, run = some s ∧ children <+ s.2 ∧ ((∀ n, kzalloc n = true) → ∀ a, P a → Covers s.2 a)

/-- What a reservation is for: the range is covered as far as it lies in the root. -/
def Reserves (root : Resource) (start fin : ℕ) (children : List Resource) : Prop :=
  ∀ kzalloc, ∃ fuel, Returns kzalloc children
    (fun a => start ≤ a ∧ a ≤ fin ∧ root.start ≤ a ∧ a ≤ root.fin)
    (reserveRegionWithSplit kzalloc root fuel start fin (0, children))

variable {kzalloc : ℕ → Bool} {root : Resource} {start fin fuel : ℕ}

lemma requestLoop_cases (new : Resource) (l : List Resource) :
    (∃ l', requestLoop new l = (none, l') ∧ l <+ l' ∧ new ∈ l') ∨
      ∃ c ∈ l, requestLoop new l = (some c, l) ∧ c.start ≤ new.fin ∧ new.start ≤ c.fin := by
  induction l with
  | nil => exact .inl ⟨[new], rfl, nil_sublist _, mem_singleton_self _⟩
  | cons tmp rest ih =>
    unfold requestLoop
    split_ifs with hbefore hbehind
    · exact .inl ⟨_, rfl, sublist_cons_self _ _, mem_cons_self⟩
    · rcases ih with ⟨l', heq, hsub, hmem⟩ | ⟨c, hc, heq, hmeets⟩
      · rw [heq]
        exact .inl ⟨_, rfl, hsub.cons_cons tmp, mem_cons_of_mem _ hmem⟩
      · rw [heq]
        exact .inr ⟨c, mem_cons_of_mem _ hc, rfl, hmeets⟩
    · exact .inr ⟨tmp, mem_cons_self, rfl, by omega, by omega⟩

/-- **Inside of the root** both parts are smaller, and the child in the way covers what is left. -/
lemma reserve_spec (hlow : root.start ≤ start) (hhigh : fin ≤ root.fin) (hle : start ≤ fin)
    (hfuel : fin - start < fuel) (s : ℕ × List Resource) :
    Returns kzalloc s.2 (fun a => start ≤ a ∧ a ≤ fin)
      (reserveRegionWithSplit kzalloc root fuel start fin s) := by
  induction fuel generalizing start fin s with
  | zero => omega
  | succ fuel ih =>
    obtain ⟨n, l⟩ := s
    have hin : requestResource root l ⟨start, fin⟩ = requestLoop ⟨start, fin⟩ l :=
      if_neg (by dsimp only; omega)
    unfold reserveRegionWithSplit
    rw [hin]
    by_cases hfail : kzalloc n = false
    · rw [if_pos hfail]
      exact ⟨_, rfl, Sublist.refl _, fun hall => absurd (hall n) (by simp [hfail])⟩
    rw [if_neg hfail]
    rcases requestLoop_cases ⟨start, fin⟩ l with ⟨l', heq, hsub, hmem⟩ | ⟨c, hc, heq, hmeets⟩
    · rw [heq]
      exact ⟨_, rfl, hsub, fun _ a ha => ⟨_, hmem, ha⟩⟩
    rw [heq]
    dsimp only at hmeets ⊢
    by_cases hcovered : c.start ≤ start ∧ fin ≤ c.fin
    · rw [if_pos hcovered]
      exact ⟨_, rfl, Sublist.refl _, fun _ a ha => ⟨c, hc, by omega⟩⟩
    rw [if_neg hcovered]
    obtain ⟨s1, hrun1, hsub1, hleft⟩ : Returns kzalloc l (fun a => start ≤ a ∧ a < c.start)
        (if start < c.start then
          reserveRegionWithSplit kzalloc root fuel start (c.start - 1) (n + 1, l)
        else some (n + 1, l)) := by
      split_ifs with hlt
      · obtain ⟨s1, hrun, hsub, hcovers⟩ : Returns kzalloc l (fun a => start ≤ a ∧ a ≤ c.start - 1)
            _ := ih hlow (by omega) (by omega) (by omega) (n + 1, l)
        exact ⟨s1, hrun, hsub, fun hall a ha => hcovers hall a (by omega)⟩
      · exact ⟨_, rfl, Sublist.refl _, fun _ a ha => by omega⟩
    obtain ⟨s2, hrun2, hsub2, hright⟩ : Returns kzalloc s1.2 (fun a => c.fin < a ∧ a ≤ fin)
        (if c.fin < fin then reserveRegionWithSplit kzalloc root fuel (c.fin + 1) fin s1
        else some s1) := by
      split_ifs with hlt
      · exact ih (by omega) hhigh (by omega) (by omega) s1
      · exact ⟨_, rfl, Sublist.refl _, fun _ a ha => by omega⟩
    refine ⟨s2, ?_, hsub1.trans hsub2, fun hall a ha => ?_⟩
    · rw [hrun1]
      exact hrun2
    · rcases Nat.lt_or_ge a c.start with hlt | hge
      · obtain ⟨r, hr, hcovers⟩ := hleft hall a ⟨ha.1, hlt⟩
        exact ⟨r, hsub2.subset hr, hcovers⟩
      · rcases Nat.lt_or_ge c.fin a with hgt | hle
        · exact hright hall a ⟨hgt, ha.2⟩
        · exact ⟨c, hsub2.subset (hsub1.subset hc), hge, hle⟩

/-- Outside of the root the same part is tried again. -/
lemma reserve_outside (hle : start ≤ fin) (hout : start < root.start ∨ root.fin < fin)
    (s : ℕ × List Resource) :
    reserveRegionWithSplit (fun _ => true) root fuel start fin s = none := by
  induction fuel generalizing start fin s with
  | zero => rfl
  | succ fuel ih =>
    obtain ⟨n, l⟩ := s
    have hconflict : requestResource root l ⟨start, fin⟩ = (some root, l) := if_pos (.inr hout)
    unfold reserveRegionWithSplit
    rw [hconflict, if_neg nofun]
    dsimp only
    rw [if_neg (by omega)]
    by_cases hlow : start < root.start
    · rw [if_pos hlow, ih (by omega) (.inl hlow)]
      rfl
    · have hhigh := hout.resolve_left hlow
      rw [if_neg hlow, Option.bind_some, if_pos hhigh]
      exact ih hhigh (.inr hhigh) _

/-- **A region is reserved** if and only if it lies inside of the root. -/
theorem reserve_region_iff (hle : start ≤ fin) (children : List Resource) :
    Reserves root start fin children ↔ root.start ≤ start ∧ fin ≤ root.fin := by
  constructor
  · intro h
    obtain ⟨fuel, s, hrun, -⟩ := h fun _ => true
    by_contra hin
    rw [reserve_outside hle (by omega)] at hrun
    cases hrun
  · rintro ⟨hlow, hhigh⟩ kzalloc
    obtain ⟨s, hrun, hsub, hcovers⟩ : Returns kzalloc children _ _ :=
      reserve_spec hlow hhigh hle (Nat.lt_succ_self _) (0, children)
    exact ⟨_, s, hrun, hsub, fun hall a ha => hcovers hall a ⟨ha.1, ha.2.1⟩⟩

theorem reserve_region_around : Reserves ⟨0, 9⟩ 2 7 [⟨4, 5⟩] ↔ 0 ≤ 2 ∧ 7 ≤ 9 :=
  reserve_region_iff (by decide) [⟨4, 5⟩]

/-- The addresses 5 to 10 of a root that ends at 9. -/
theorem reserve_region_endless : 5 ≤ 10 ∧
    ¬ ∃ fuel s, reserveRegionWithSplit (fun _ => true) ⟨0, 9⟩ fuel 5 10 (0, []) = some s := by
  refine ⟨by decide, ?_⟩
  rintro ⟨fuel, s, hrun⟩
  rw [reserve_outside (by decide) (.inr (by decide))] at hrun
  cases hrun

end Am335x.Ioport
