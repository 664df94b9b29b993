import Mathlib.Algebra.Order.Ring.Int
import Mathlib.Data.List.Basic

/-!
# Lists of runs

A run is an interval of places with a value. A list of runs is normal if they come in order and do
not touch, unless their values are different; what places have which values is then said by the list
in one way only. To set the places of an interval, a part of the list is replaced.
-/

/-- The places from `lo` to `hi`, with one value. -/
structure Run (τ : Type*) where
  lo : ℤ
  hi : ℤ
  tag : τ

namespace Run

variable {τ : Type*} {a b c : Run τ} {x : ℤ} {t t' : τ}

def Covers (a : Run τ) (x : ℤ) (t : τ) : Prop := a.lo ≤ x ∧ x ≤ a.hi ∧ a.tag = t

def Apart (a b : Run τ) : Prop := a.hi < b.lo ∧ (a.tag = b.tag → a.hi + 1 < b.lo)

lemma Apart.trans (hb : b.lo ≤ b.hi) (h : a.Apart b) (h' : b.Apart c) : a.Apart c := by
  obtain ⟨hab, -⟩ := h
  obtain ⟨hbc, -⟩ := h'
  exact ⟨by omega, fun _ => by omega⟩

end Run

namespace Runs

open List

variable {τ : Type*} {l A C M Q : List (Run τ)} {x lo hi : ℤ} {t t' : τ} {a : Run τ}

def Covers (l : List (Run τ)) (x : ℤ) (t : τ) : Prop := ∃ a ∈ l, a.Covers x t

lemma covers_nil : ¬ Covers ([] : List (Run τ)) x t := by
  rintro ⟨a, ha, -⟩
  cases ha

lemma covers_cons : Covers (a :: l) x t ↔ a.Covers x t ∨ Covers l x t := by
  unfold Covers
  simp only [mem_cons, exists_eq_or_imp]

lemma covers_append : Covers (A ++ C) x t ↔ Covers A x t ∨ Covers C x t := by
  unfold Covers
  simp only [mem_append, or_and_right, exists_or]

lemma covers_singleton : Covers [a] x t ↔ a.Covers x t := by
  rw [covers_cons, or_iff_left covers_nil]

structure Normal (l : List (Run τ)) : Prop where
  valid : ∀ a ∈ l, a.lo ≤ a.hi
  apart : l.Pairwise Run.Apart

lemma Normal.nil : Normal ([] : List (Run τ)) := ⟨nofun, List.Pairwise.nil⟩

lemma Normal.singleton (h : a.lo ≤ a.hi) : Normal [a] :=
  ⟨fun _ hb => mem_singleton.mp hb ▸ h, pairwise_singleton _ a⟩

lemma normal_append : Normal (A ++ C) ↔ Normal A ∧ Normal C ∧ ∀ a ∈ A, ∀ c ∈ C, a.Apart c := by
  constructor
  · intro h
    obtain ⟨hA, hC, hAC⟩ := pairwise_append.mp h.apart
    exact ⟨⟨fun a ha => h.valid a (mem_append_left C ha), hA⟩,
      ⟨fun c hc => h.valid c (mem_append_right A hc), hC⟩, hAC⟩
  · rintro ⟨hA, hC, hAC⟩
    refine ⟨fun a ha => ?_, pairwise_append.mpr ⟨hA.apart, hC.apart, hAC⟩⟩
    rcases mem_append.mp ha with ha | ha
    · exact hA.valid a ha
    · exact hC.valid a ha

lemma normal_cons : Normal (a :: l) ↔ a.lo ≤ a.hi ∧ Normal l ∧ ∀ b ∈ l, a.Apart b := by
  constructor
  · intro h
    obtain ⟨ha, hl⟩ := pairwise_cons.mp h.apart
    exact ⟨h.valid a mem_cons_self, ⟨fun b hb => h.valid b (mem_cons_of_mem a hb), hl⟩, ha⟩
  · rintro ⟨hvalid, hl, ha⟩
    refine ⟨fun b hb => ?_, pairwise_cons.mpr ⟨ha, hl.apart⟩⟩
    rcases mem_cons.mp hb with rfl | hb
    · exact hvalid
    · exact hl.valid b hb

lemma Normal.splice (h : Normal (A ++ C ++ Q)) (hM : Normal M)
    (hAM : ∀ a ∈ A, ∀ m ∈ M, a.Apart m) (hMQ : ∀ m ∈ M, ∀ q ∈ Q, m.Apart q) :
    Normal (A ++ M ++ Q) := by
  obtain ⟨hAC, hQ, hACQ⟩ := normal_append.mp h
  obtain ⟨hA, -, -⟩ := normal_append.mp hAC
  refine normal_append.mpr ⟨normal_append.mpr ⟨hA, hM, hAM⟩, hQ, fun a ha q hq => ?_⟩
  rcases mem_append.mp ha with ha | ha
  · exact hACQ a (mem_append_left C ha) q hq
  · exact hMQ a ha q hq

lemma covers_splice {T : τ → Prop} (hin : ∀ x t, lo ≤ x → x ≤ hi → (Covers M x t ↔ T t))
    (hout : ∀ x t, ¬ (lo ≤ x ∧ x ≤ hi) → (Covers M x t ↔ Covers C x t))
    (hA : ∀ a ∈ A, a.hi < lo) (hQ : ∀ q ∈ Q, hi < q.lo) (x : ℤ) (t : τ) : Covers (A ++ M ++ Q) x t ↔
      (lo ≤ x ∧ x ≤ hi) ∧ T t ∨ ¬ (lo ≤ x ∧ x ≤ hi) ∧ Covers (A ++ C ++ Q) x t := by
  simp only [covers_append]
  by_cases hx : lo ≤ x ∧ x ≤ hi
  · have hnotA : ¬ Covers A x t := by
      rintro ⟨a, ha, -, hax, -⟩
      have hlt := hA a ha
      omega
    have hnotQ : ¬ Covers Q x t := by
      rintro ⟨q, hq, hqx, -⟩
      have hlt := hQ q hq
      omega
    rw [hin x t hx.1 hx.2]
    simp [hnotA, hnotQ, hx]
  · rw [hout x t hx]
    simp [hx]

def patch (left right : Option (Run τ)) (r : Run τ) (keep : Bool) : List (Run τ) :=
  (left.map fun l => ⟨l.lo, r.lo - 1, l.tag⟩).toList ++ (if keep then [r] else []) ++
    (right.map fun l => ⟨r.hi + 1, l.hi, l.tag⟩).toList

/-- The runs `C` are those that an interval touches: one that sticks out on the left, one that
sticks out on the right, and what has become part of the new run. -/
structure Patches (A C Q : List (Run τ)) (left right : Option (Run τ)) (r : Run τ) (keep : Bool)
    (lo hi : ℤ) : Prop where
  le : lo ≤ hi
  lo_le : r.lo ≤ lo
  le_hi : hi ≤ r.hi
  before : ∀ a ∈ A, a.Apart r
  after : ∀ q ∈ Q, r.Apart q
  left_spec : ∀ l, left = some l → l.tag ≠ r.tag ∧ (l.lo < lo ∧ lo ≤ l.hi) ∧ r.lo = lo ∧
    (∀ a ∈ A, a.Apart l) ∧ (l.hi ≤ hi ∨ right = some l)
  right_spec : ∀ l, right = some l → l.tag ≠ r.tag ∧ (l.lo ≤ hi ∧ hi < l.hi) ∧ r.hi = hi ∧
    (∀ q ∈ Q, l.Apart q) ∧ (lo ≤ l.lo ∨ left = some l)
  outside : ∀ x t, ¬ (lo ≤ x ∧ x ≤ hi) → (Covers C x t ↔ (∃ l, left = some l ∧ l.Covers x t) ∨
    (∃ l, right = some l ∧ l.Covers x t) ∨ (keep = true ∧ r.Covers x t))

variable {left right : Option (Run τ)} {r : Run τ} {keep : Bool}

lemma mem_patch : a ∈ patch left right r keep ↔
    (∃ l, left = some l ∧ a = ⟨l.lo, r.lo - 1, l.tag⟩) ∨ (keep = true ∧ a = r) ∨
      ∃ l, right = some l ∧ a = ⟨r.hi + 1, l.hi, l.tag⟩ := by
  unfold patch
  simp only [mem_append, Option.mem_toList, Option.map_eq_some_iff, or_assoc, @eq_comm _ _ a]
  refine or_congr_right (or_congr_left ?_)
  cases keep <;> simp

section

variable (h : Patches A C Q left right r keep lo hi)
include h

lemma Patches.normal_patch : Normal (patch left right r keep) := by
  have hle := h.le
  have hlo := h.lo_le
  have hhi := h.le_hi
  have hleft : Normal (left.map fun l => (⟨l.lo, r.lo - 1, l.tag⟩ : Run τ)).toList := by
    cases left with
    | none => exact .nil
    | some l =>
      obtain ⟨-, hlt, heq, -⟩ := h.left_spec l rfl
      exact .singleton (show l.lo ≤ r.lo - 1 by omega)
  have hmid : Normal (if keep = true then [r] else []) := by
    split_ifs
    · exact .singleton (by omega)
    · exact .nil
  have hright : Normal (right.map fun l => (⟨r.hi + 1, l.hi, l.tag⟩ : Run τ)).toList := by
    cases right with
    | none => exact .nil
    | some l =>
      obtain ⟨-, hlt, heq, -⟩ := h.right_spec l rfl
      exact .singleton (show r.hi + 1 ≤ l.hi by omega)
  refine normal_append.mpr ⟨normal_append.mpr ⟨hleft, hmid, fun a ha b hb => ?_⟩, hright,
    fun a ha b hb => ?_⟩
  · obtain ⟨l, hl, rfl⟩ := Option.map_eq_some_iff.mp (Option.mem_toList.mp ha)
    obtain rfl : b = r := by
      split_ifs at hb
      · exact mem_singleton.mp hb
      · cases hb
    exact ⟨Int.sub_one_lt_of_le le_rfl, fun htag => absurd htag (h.left_spec l hl).1⟩
  · obtain ⟨l, hl, rfl⟩ := Option.map_eq_some_iff.mp (Option.mem_toList.mp hb)
    rcases mem_append.mp ha with ha | ha
    · obtain ⟨l', -, rfl⟩ := Option.map_eq_some_iff.mp (Option.mem_toList.mp ha)
      exact ⟨show r.lo - 1 < r.hi + 1 by omega, fun _ => show r.lo - 1 + 1 < r.hi + 1 by omega⟩
    · obtain rfl : a = r := by
        split_ifs at ha
        · exact mem_singleton.mp ha
        · cases ha
      exact ⟨Int.lt_add_one_of_le le_rfl, fun htag => absurd htag.symm (h.right_spec l hl).1⟩

lemma Patches.normal (hG : Normal (A ++ C ++ Q)) : Normal (A ++ patch left right r keep ++ Q) := by
  have hle := h.le
  have hlo := h.lo_le
  have hhi := h.le_hi
  refine hG.splice h.normal_patch (fun a ha m hm => ?_) fun m hm q hq => ?_
  · have hr := h.before a ha
    rcases mem_patch.mp hm with ⟨l, hl, rfl⟩ | ⟨-, rfl⟩ | ⟨l, -, rfl⟩
    · exact (h.left_spec l hl).2.2.2.1 a ha
    · exact hr
    · have hlt := hr.1
      exact ⟨show a.hi < r.hi + 1 by omega, fun _ => show a.hi + 1 < r.hi + 1 by omega⟩
  · have hr := h.after q hq
    rcases mem_patch.mp hm with ⟨l, -, rfl⟩ | ⟨-, rfl⟩ | ⟨l, hl, rfl⟩
    · have hlt := hr.1
      exact ⟨show r.lo - 1 < q.lo by omega, fun _ => show r.lo - 1 + 1 < q.lo by omega⟩
    · exact hr
    · exact (h.right_spec l hl).2.2.2.1 q hq

end

lemma covers_patch {x : ℤ} {t : τ} : Covers (patch left right r keep) x t ↔
    (∃ l, left = some l ∧ l.lo ≤ x ∧ x ≤ r.lo - 1 ∧ l.tag = t) ∨ (keep = true ∧ r.Covers x t) ∨
      ∃ l, right = some l ∧ r.hi + 1 ≤ x ∧ x ≤ l.hi ∧ l.tag = t := by
  constructor
  · rintro ⟨a, ha, hx⟩
    rcases mem_patch.mp ha with ⟨l, hl, rfl⟩ | ⟨hkeep, rfl⟩ | ⟨l, hl, rfl⟩
    · exact .inl ⟨l, hl, hx⟩
    · exact .inr (.inl ⟨hkeep, hx⟩)
    · exact .inr (.inr ⟨l, hl, hx⟩)
  · rintro (⟨l, hl, hx⟩ | ⟨hkeep, hx⟩ | ⟨l, hl, hx⟩)
    · exact ⟨_, mem_patch.mpr (.inl ⟨l, hl, rfl⟩), hx⟩
    · exact ⟨r, mem_patch.mpr (.inr (.inl ⟨hkeep, rfl⟩)), hx⟩
    · exact ⟨_, mem_patch.mpr (.inr (.inr ⟨l, hl, rfl⟩)), hx⟩

lemma Patches.covers (h : Patches A C Q left right r keep lo hi) (x : ℤ) (t : τ) :
    Covers (A ++ patch left right r keep ++ Q) x t ↔ (lo ≤ x ∧ x ≤ hi) ∧ (keep = true ∧ r.tag = t) ∨
        ¬ (lo ≤ x ∧ x ≤ hi) ∧ Covers (A ++ C ++ Q) x t := by
  have hlo := h.lo_le
  have hhi := h.le_hi
  refine covers_splice (T := fun t => keep = true ∧ r.tag = t) (fun x t hx hx' => ?_)
    (fun x t hx => ?_) (fun a ha => ?_) (fun q hq => ?_) x t
  · rw [covers_patch]
    constructor
    · rintro (⟨l, hl, -, hlt, -⟩ | ⟨hkeep, -, -, htag⟩ | ⟨l, hl, hlt, -⟩)
      · omega
      · exact ⟨hkeep, htag⟩
      · omega
    · rintro ⟨hkeep, htag⟩
      exact .inr (.inl ⟨hkeep, by omega, by omega, htag⟩)
  · rw [covers_patch, h.outside x t hx]
    constructor
    · rintro (⟨l, hl, hlx, hxr, htag⟩ | hkeep | ⟨l, hl, hlx, hxr, htag⟩)
      · obtain ⟨-, hover, heq, -⟩ := h.left_spec l hl
        exact .inl ⟨l, hl, hlx, by omega, htag⟩
      · exact .inr (.inr hkeep)
      · obtain ⟨-, hover, heq, -⟩ := h.right_spec l hl
        exact .inr (.inl ⟨l, hl, by omega, hxr, htag⟩)
    · -- a run that sticks out on both sides is in two pieces
      rintro (⟨l, hl, hlx, hxr, htag⟩ | ⟨l, hl, hlx, hxr, htag⟩ | hkeep)
      · obtain ⟨-, hover, heq, -, hend⟩ := h.left_spec l hl
        rcases lt_or_ge x lo with hlt | hge
        · exact .inl ⟨l, hl, hlx, by omega, htag⟩
        · have hright : right = some l := hend.resolve_left (by omega)
          obtain ⟨-, -, hreq, -⟩ := h.right_spec l hright
          exact .inr (.inr ⟨l, hright, by omega, hxr, htag⟩)
      · obtain ⟨-, hover, heq, -, hend⟩ := h.right_spec l hl
        rcases lt_or_ge x lo with hlt | hge
        · have hleft : left = some l := hend.resolve_left (by omega)
          obtain ⟨-, -, hleq, -⟩ := h.left_spec l hleft
          exact .inl ⟨l, hleft, hlx, by omega, htag⟩
        · exact .inr (.inr ⟨l, hl, by omega, hxr, htag⟩)
      · exact .inr (.inl hkeep)
  · have hlt := (h.before a ha).1
    omega
  · have hlt := (h.after q hq).1
    omega

end Runs
