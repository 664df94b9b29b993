import Mathlib.Data.List.Nodup
import Am335xKernel.Fs.Locks.PosixLock

/-!
# The walk through the locks of an owner

The locks of one owner are a normal list of runs. The walk leaves the first ones as they are;
behind them are the locks that the request touches, of which only one on the left and the one
that stands for the request stay in the list; the rest has not been reached (`Walked`). Every
turn of the loop takes one lock from the rest.
-/

namespace Am335x.Locks

open Function List

variable {ω : Type*}

def FileLock.run (fl : FileLock ω) : Run LockType := ⟨fl.flStart, fl.flEnd, fl.flType⟩

def runs (mem : ℕ → FileLock ω) (l : List ℕ) : List (Run LockType) := l.map fun a => (mem a).run

lemma runs_append (mem : ℕ → FileLock ω) (l l' : List ℕ) :
    runs mem (l ++ l') = runs mem l ++ runs mem l' := map_append

variable {mem : ℕ → FileLock ω} {l : List ℕ} {t : LockType} {a : ℕ} {x : ℤ}

lemma mem_runs (h : a ∈ l) : (mem a).run ∈ runs mem l := mem_map_of_mem h

lemma runs_congr {mem' : ℕ → FileLock ω} (h : ∀ a ∈ l, mem' a = mem a) :
    runs mem' l = runs mem l := by
  refine map_congr_left fun a ha => ?_
  rw [h a ha]

lemma covers_runs : Runs.Covers (runs mem l) x t ↔ ∃ a ∈ l, (mem a).run.Covers x t := by
  unfold Runs.Covers runs
  simp

section

variable {mem : ℕ → FileLock ω} {request fl : ℕ}

lemma unite_of_ne (ha : a ≠ request) (ha' : a ≠ fl) : unite mem request fl a = mem a := by
  unfold unite
  split_ifs <;> simp only [update_of_ne ha, update_of_ne ha']

lemma unite_eq (hne : fl ≠ request) : unite mem request fl request = { mem request with
        flStart := min (mem request).flStart (mem fl).flStart
        flEnd := max (mem request).flEnd (mem fl).flEnd } ∧ unite mem request fl fl =
      { mem fl with
        flStart := min (mem request).flStart (mem fl).flStart
        flEnd := max (mem request).flEnd (mem fl).flEnd } := by
  unfold unite
  rcases lt_or_ge (mem request).flStart (mem fl).flStart with hs | hs <;>
    rcases lt_or_ge (mem fl).flEnd (mem request).flEnd with he | he
  · simp [hs, he, hs.le, he.le, update_of_ne hne.symm]
  · simp [hs, he, hs.le, not_lt.mpr he, update_of_ne hne, update_of_ne hne.symm]
  · simp [hs, he, he.le, not_lt.mpr hs, update_of_ne hne, update_of_ne hne.symm]
  · simp [hs, he, not_lt.mpr hs, not_lt.mpr he, update_of_ne hne]

end

structure Owned (mem : ℕ → FileLock ω) (req : ℕ) (own : List ℕ) : Prop where
  le : (mem req).flStart ≤ (mem req).flEnd
  posix_req : (mem req).posix = true
  normal : Runs.Normal (runs mem own)
  owner_eq : ∀ a ∈ own, (mem a).flOwner = (mem req).flOwner
  posix : ∀ a ∈ own, (mem a).posix = true
  type_ne : ∀ a ∈ own, (mem a).flType ≠ .unlck
  not_mem : req ∉ own
  nodup : own.Nodup

/-- The walk has left `A` behind, and has touched `C`. -/
structure Walked (mem : ℕ → FileLock ω) (req : ℕ) (pre A C : List ℕ) (w : Walk ω) : Prop where
  passed_eq : w.passed = pre ++ A ++ w.left.toList ++ (if w.request = req then [] else [w.request])
  frame : ∀ a, a ∉ C → a ≠ req → w.mem a = mem a
  request_mem : w.request = req ∨ w.request ∈ C
  owner_eq : (w.mem w.request).flOwner = (mem req).flOwner
  posix_eq : (w.mem w.request).posix = true
  type_eq : (w.mem w.request).flType = (mem req).flType
  start_le : (w.mem w.request).flStart ≤ (mem req).flStart
  le_end : (mem req).flEnd ≤ (w.mem w.request).flEnd
  range_eq : w.request = req →
    (w.mem req).flStart = (mem req).flStart ∧ (w.mem req).flEnd = (mem req).flEnd
  end_eq : (w.mem w.request).flEnd = (mem req).flEnd ∨
    ∃ c ∈ C, (mem c).flEnd = (w.mem w.request).flEnd
  added_of_ne : w.request ≠ req → w.added = true ∧ (mem req).flType ≠ .unlck
  of_added : w.added = true → w.request ≠ req ∨ (mem req).flType = .unlck
  unlck_added : (mem req).flType = .unlck → C ≠ [] → w.added = true
  kept : w.added = false → C = w.left.toList
  before : ∀ a ∈ A, (mem a).run.Apart (w.mem w.request).run
  touch : ∀ c ∈ C, (mem req).flStart ≤ (mem c).flEnd + 1
  left_spec : ∀ l, w.left = some l → l ∈ C ∧ l ≠ w.request ∧ w.mem l = mem l ∧
    (mem l).flType ≠ (mem req).flType ∧ (mem l).flStart < (mem req).flStart ∧
    (mem req).flStart ≤ (mem l).flEnd ∧ (mem l).flEnd ≤ (mem req).flEnd ∧
    (w.mem w.request).flStart = (mem req).flStart
  right_eq : w.right = none
  covers : ∀ x t, ¬ ((mem req).flStart ≤ x ∧ x ≤ (mem req).flEnd) →
    (Runs.Covers (runs mem C) x t ↔ (∃ l, w.left = some l ∧ (mem l).run.Covers x t) ∨
      w.request ≠ req ∧ (w.mem w.request).run.Covers x t)

lemma Walked.start {req : ℕ} (pre : List ℕ) (hposix : (mem req).posix = true) :
    Walked mem req pre [] []
      { mem := mem, request := req, added := false, left := none, right := none
        passed := pre } where
  passed_eq := by simp
  frame _ _ _ := rfl
  request_mem := .inl rfl
  owner_eq := rfl
  posix_eq := hposix
  type_eq := rfl
  start_le := le_rfl
  le_end := le_rfl
  range_eq _ := ⟨rfl, rfl⟩
  end_eq := .inl rfl
  added_of_ne hne := absurd rfl hne
  of_added hadded := by cases hadded
  unlck_added _ hne := absurd rfl hne
  kept _ := rfl
  before a ha := by cases ha
  touch c hc := by cases hc
  left_spec l hl := by cases hl
  right_eq := rfl
  covers x t _ := by
    simp [runs, Runs.covers_nil]

section

variable {mem : ℕ → FileLock ω} {req fl : ℕ} {pre A C Q : List ℕ} {w : Walk ω}

structure Next (mem : ℕ → FileLock ω) (req : ℕ) (A C : List ℕ) (fl : ℕ) (w : Walk ω) : Prop where
  not_mem : fl ∉ C
  ne_req : fl ≠ req
  ne_request : fl ≠ w.request
  mem_eq : w.mem fl = mem fl
  le : (mem fl).flStart ≤ (mem fl).flEnd
  behind : ∀ c ∈ C, (mem c).flEnd < (mem fl).flStart
  apart : ∀ a ∈ A, (mem a).run.Apart (mem fl).run
  owner_eq : (mem fl).flOwner = (mem req).flOwner
  posix : (mem fl).posix = true
  type_ne : (mem fl).flType ≠ .unlck

lemma Walked.next (hown : Owned mem req (A ++ C ++ fl :: Q))
    (h : Walked mem req pre A C w) : Next mem req A C fl w := by
  have hmem : fl ∈ A ++ C ++ fl :: Q := mem_append_right _ mem_cons_self
  have hne : fl ≠ req := fun heq => hown.not_mem (heq ▸ hmem)
  have hnot : fl ∉ C := by
    intro hC
    exact disjoint_of_nodup_append hown.nodup (mem_append_right A hC) mem_cons_self
  have hnormal := hown.normal
  rw [runs_append, runs_append] at hnormal
  obtain ⟨-, hQ, hbefore⟩ := Runs.normal_append.mp hnormal
  have hfl : (mem fl).run ∈ runs mem (fl :: Q) := mem_runs mem_cons_self
  refine ⟨hnot, hne, ?_, h.frame fl hnot hne, hQ.valid _ hfl, fun c hc => ?_, fun a ha => ?_,
    hown.owner_eq fl hmem, hown.posix fl hmem, hown.type_ne fl hmem⟩
  · rcases h.request_mem with heq | hC
    · rw [heq]
      exact hne
    · exact fun heq => hnot (heq ▸ hC)
  · exact (hbefore _ (mem_append_right _ (mem_runs hc)) _ hfl).1
  · exact hbefore _ (mem_append_left _ (mem_runs ha)) _ hfl

section

variable (h : Walked mem req pre A C w)
include h

lemma Walked.untouched (hn : Next mem req A C fl w)
    (hlt : (mem fl).flStart < (w.mem w.request).flStart) :
    C = [] ∧ w.request = req ∧ w.left = none := by
  have hstart := h.start_le
  have hC : C = [] := by
    refine eq_nil_iff_forall_not_mem.mpr fun c hc => ?_
    have htouch := h.touch c hc
    have hbehind := hn.behind c hc
    omega
  refine ⟨hC, h.request_mem.resolve_right fun hmem => ?_,
    Option.eq_none_iff_forall_not_mem.mpr fun l hl => ?_⟩
  · rw [hC] at hmem
    cases hmem
  · have hmem := (h.left_spec l hl).1
    rw [hC] at hmem
    cases hmem

lemma Walked.pass (hn : Next mem req A C fl w) (hlt : (mem fl).flEnd < (w.mem w.request).flStart)
    (hsame : (mem fl).flType = (mem req).flType → (mem fl).flEnd + 1 < (w.mem w.request).flStart) :
    C = [] ∧ Walked mem req pre (A ++ [fl]) C { w with passed := w.passed ++ [fl] } := by
  obtain ⟨hC, hreq, hleft⟩ := h.untouched hn (hn.le.trans_lt hlt)
  refine ⟨hC, { h with passed_eq := ?_, before := fun a ha => ?_ }⟩
  · rw [h.passed_eq, hleft, if_pos hreq]
    simp
  · rcases mem_append.mp ha with ha | ha
    · exact h.before a ha
    · rw [mem_singleton.mp ha]
      exact ⟨hlt, fun htag => hsame (htag.trans h.type_eq)⟩

lemma Walked.request_eq (hadded : w.added = false) : w.request = req := by
  by_contra hne
  rw [(h.added_of_ne hne).1] at hadded
  cases hadded

lemma Walked.apart (hreq : w.request = req) {a : ℕ} (ha : a ∈ A) :
    (mem a).run.Apart (mem req).run := by
  have hbefore := h.before a ha
  have htype := h.type_eq
  obtain ⟨hstart, hend⟩ := h.range_eq hreq
  rw [hreq, FileLock.run.eq_def (w.mem req), hstart, hend] at hbefore
  rw [hreq] at htype
  rw [htype] at hbefore
  exact hbefore

lemma Walked.touch_next (hn : Next mem req A C fl w)
    (hle : (w.mem w.request).flStart - 1 ≤ (mem fl).flEnd) :
    (mem req).flStart ≤ (mem fl).flEnd + 1 := by
  rcases h.request_mem with heq | hC
  · have hstart := (h.range_eq heq).1
    rw [heq] at hle
    omega
  · have htouch := h.touch _ hC
    have hbehind := hn.behind _ hC
    have hvalid := hn.le
    omega

end

lemma covers_runs_snoc : Runs.Covers (runs mem (C ++ [fl])) x t ↔
    Runs.Covers (runs mem C) x t ∨ (mem fl).run.Covers x t := by
  rw [runs_append, Runs.covers_append]
  exact or_congr_right Runs.covers_singleton

variable {mem' : ℕ → FileLock ω} {hi : ℤ}

section

variable (h : Walked mem req pre A C w)
include h

section

variable (hn : Next mem req A C fl w)
include hn

lemma Walked.takePlace (hadded : w.added = false) (htype : (mem req).flType ≠ .unlck) {lo : ℤ}
    (hfl : mem' fl = { mem fl with flStart := lo, flEnd := hi, flType := (mem req).flType })
    (hframe : ∀ a, a ≠ fl → a ≠ req → mem' a = w.mem a) (hlo : lo ≤ (mem req).flStart)
    (hhi : (mem req).flEnd ≤ hi) (hend : hi = (mem req).flEnd ∨ hi = (mem fl).flEnd)
    (hbefore : ∀ a ∈ A, (mem a).run.Apart ⟨lo, hi, (mem req).flType⟩)
    (htouch : (mem req).flStart ≤ (mem fl).flEnd + 1)
    (hleft : ∀ l, w.left = some l → lo = (mem req).flStart)
    (hcovers : ∀ x t, ¬ ((mem req).flStart ≤ x ∧ x ≤ (mem req).flEnd) →
      ((mem fl).run.Covers x t ↔ (Run.mk lo hi (mem req).flType).Covers x t)) :
    Walked mem req pre A (C ++ [fl])
      { w with mem := mem', request := fl, added := true, passed := w.passed ++ [fl] } where
  passed_eq := by
    rw [h.passed_eq, if_pos (h.request_eq hadded), if_neg hn.ne_req, append_nil]
  frame a ha hreq := by
    rw [mem_append, not_or, mem_singleton] at ha
    exact (hframe a ha.2 hreq).trans (h.frame a ha.1 hreq)
  request_mem := .inr (mem_append_right C mem_cons_self)
  owner_eq := by
    dsimp only
    rw [hfl]
    exact hn.owner_eq
  posix_eq := by
    dsimp only
    rw [hfl]
    exact hn.posix
  type_eq := by
    dsimp only
    rw [hfl]
  start_le := by
    dsimp only
    rw [hfl]
    exact hlo
  le_end := by
    dsimp only
    rw [hfl]
    exact hhi
  range_eq heq := absurd heq hn.ne_req
  end_eq := by
    dsimp only
    rw [hfl]
    exact hend.imp_right fun heq => ⟨fl, mem_append_right C mem_cons_self, heq.symm⟩
  added_of_ne _ := ⟨rfl, htype⟩
  of_added _ := .inl hn.ne_req
  unlck_added _ _ := rfl
  kept hfalse := by cases hfalse
  before a ha := by
    dsimp only
    rw [hfl]
    exact hbefore a ha
  touch := forall_mem_append.mpr ⟨h.touch, forall_mem_singleton.mpr htouch⟩
  left_spec l hl := by
    obtain ⟨hC, -, hmem, htype', hlt, hover, hle, -⟩ := h.left_spec l hl
    have hne : l ≠ fl := fun heq => hn.not_mem (heq ▸ hC)
    have hreq : l ≠ req := h.request_eq hadded ▸ (h.left_spec l hl).2.1
    refine ⟨mem_append_left _ hC, hne, (hframe l hne hreq).trans hmem, htype', hlt, hover, hle, ?_⟩
    dsimp only
    rw [hfl]
    exact hleft l hl
  right_eq := h.right_eq
  covers x t hx := by
    dsimp only
    rw [covers_runs_snoc, h.covers x t hx, hfl, hcovers x t hx, or_assoc]
    refine or_congr_right ?_
    rw [or_iff_right fun hne => hne.1 (h.request_eq hadded)]
    exact (and_iff_right hn.ne_req).symm

lemma Walked.absorb (hadded : w.request ≠ req ∨ (mem req).flType = .unlck)
    (hrequest : mem' w.request = { w.mem w.request with flEnd := hi })
    (hframe : ∀ a, a ≠ fl → a ≠ w.request → mem' a = w.mem a) (hhi : (w.mem w.request).flEnd ≤ hi)
    (hend : hi = (w.mem w.request).flEnd ∨ hi = (mem fl).flEnd ∧ w.request ≠ req)
    (htouch : (mem req).flStart ≤ (mem fl).flEnd + 1)
    (hcovers : ∀ x t, ¬ ((mem req).flStart ≤ x ∧ x ≤ (mem req).flEnd) →
      ((w.request ≠ req ∧ (w.mem w.request).run.Covers x t) ∨ (mem fl).run.Covers x t ↔
        w.request ≠ req ∧
          (Run.mk (w.mem w.request).flStart hi (w.mem w.request).flType).Covers x t)) :
    Walked mem req pre A (C ++ [fl]) { w with mem := mem', added := true } where
  passed_eq := h.passed_eq
  frame a ha hreq := by
    rw [mem_append, not_or, mem_singleton] at ha
    have hne : a ≠ w.request := by
      rcases h.request_mem with heq | hC
      · exact heq ▸ hreq
      · exact fun heq => ha.1 (heq ▸ hC)
    exact (hframe a ha.2 hne).trans (h.frame a ha.1 hreq)
  request_mem := h.request_mem.imp_right (mem_append_left _)
  owner_eq := by
    dsimp only
    rw [hrequest]
    exact h.owner_eq
  posix_eq := by
    dsimp only
    rw [hrequest]
    exact h.posix_eq
  type_eq := by
    dsimp only
    rw [hrequest]
    exact h.type_eq
  start_le := by
    dsimp only
    rw [hrequest]
    exact h.start_le
  le_end := by
    dsimp only
    rw [hrequest]
    exact h.le_end.trans hhi
  range_eq heq := by
    have hsame : hi = (w.mem w.request).flEnd := hend.resolve_right fun hne => hne.2 heq
    have hrange := h.range_eq heq
    dsimp only at heq ⊢
    rw [heq] at hrequest hsame
    rw [hrequest]
    exact ⟨hrange.1, hsame.trans hrange.2⟩
  end_eq := by
    dsimp only
    rw [hrequest]
    rcases hend with heq | ⟨heq, -⟩
    · rcases h.end_eq with hreq | ⟨c, hc, hce⟩
      · exact .inl (heq.trans hreq)
      · exact .inr ⟨c, mem_append_left _ hc, hce.trans heq.symm⟩
    · exact .inr ⟨fl, mem_append_right C mem_cons_self, heq.symm⟩
  added_of_ne hne := ⟨rfl, (h.added_of_ne hne).2⟩
  of_added _ := hadded
  unlck_added _ _ := rfl
  kept hfalse := by cases hfalse
  before a ha := by
    have hbefore := h.before a ha
    dsimp only
    rw [hrequest]
    exact hbefore
  touch := forall_mem_append.mpr ⟨h.touch, forall_mem_singleton.mpr htouch⟩
  left_spec l hl := by
    obtain ⟨hC, hne, hmem, htype, hlt, hover, hle, hstart⟩ := h.left_spec l hl
    have hfl : l ≠ fl := fun heq => hn.not_mem (heq ▸ hC)
    refine ⟨mem_append_left _ hC, hne, (hframe l hfl hne).trans hmem, htype, hlt, hover, hle, ?_⟩
    dsimp only
    rw [hrequest]
    exact hstart
  right_eq := h.right_eq
  covers x t hx := by
    dsimp only
    rw [covers_runs_snoc, h.covers x t hx, hrequest, or_assoc, hcovers x t hx]
    rfl

section

variable (htype : (mem fl).flType = (mem req).flType)
  (hle : (w.mem w.request).flStart - 1 ≤ (mem fl).flEnd)
  (hge : (mem fl).flStart - 1 ≤ (w.mem w.request).flEnd)
include htype hle hge

lemma Walked.mergeFirst (hadded : w.added = false) : Walked mem req pre A (C ++ [fl])
      { w with mem := unite w.mem w.request fl, request := fl, added := true
               passed := w.passed ++ [fl] } := by
  have hreq := h.request_eq hadded
  obtain ⟨hstart, hend⟩ := h.range_eq hreq
  have htouch := h.touch_next hn hle
  have hfl : unite w.mem w.request fl fl = { mem fl with
        flStart := min (mem req).flStart (mem fl).flStart
        flEnd := max (mem req).flEnd (mem fl).flEnd
        flType := (mem req).flType } := by
    rw [(unite_eq hn.ne_request).2, hn.mem_eq, hreq, hstart, hend, ← htype]
  rw [hreq, hend] at hge
  refine h.takePlace hn hadded (htype ▸ hn.type_ne) hfl (fun a ha ha' => ?_)
    (min_le_left _ _) (le_max_left _ _) (max_choice _ _) (fun a ha => ?_) htouch (fun l hl => ?_)
    fun x t hx => ?_
  · exact unite_of_ne (hreq.symm ▸ ha') ha
  · obtain ⟨hlt, hsame⟩ := h.apart hreq ha
    obtain ⟨hlt', hsame'⟩ := hn.apart a ha
    exact ⟨lt_min hlt hlt', fun htag => lt_min (hsame htag) (hsame' (htag.trans htype.symm))⟩
  · obtain ⟨hC, -, -, -, -, hover, -⟩ := h.left_spec l hl
    have hbehind := hn.behind l hC
    exact min_eq_left (by omega)
  · show (mem fl).flStart ≤ x ∧ x ≤ (mem fl).flEnd ∧ (mem fl).flType = t ↔
      min _ _ ≤ x ∧ x ≤ max _ _ ∧ (mem req).flType = t
    rw [htype, ← and_assoc, ← and_assoc]
    refine and_congr_left fun _ => ?_
    omega

lemma Walked.mergeMore (hadded : w.added = true) :
    Walked mem req pre A (C ++ [fl]) { w with mem := unite w.mem w.request fl } := by
  have hne : w.request ≠ req := (h.of_added hadded).resolve_right (htype ▸ hn.type_ne)
  have htouch := h.touch_next hn hle
  have hstart : (w.mem w.request).flStart ≤ (mem fl).flStart := by
    have hC := h.request_mem.resolve_left hne
    have htouch' := h.touch _ hC
    have hbehind := hn.behind _ hC
    have hle' := h.start_le
    omega
  have hrequest : unite w.mem w.request fl w.request =
      { w.mem w.request with flEnd := max (w.mem w.request).flEnd (mem fl).flEnd } := by
    rw [(unite_eq hn.ne_request).1, hn.mem_eq, min_eq_left hstart]
  have hend : max (w.mem w.request).flEnd (mem fl).flEnd = (w.mem w.request).flEnd ∨
      max (w.mem w.request).flEnd (mem fl).flEnd = (mem fl).flEnd ∧ w.request ≠ req :=
    (max_choice _ _).imp_right fun heq => ⟨heq, hne⟩
  have habsorb := h.absorb hn (.inl hne) hrequest (fun a ha ha' => unite_of_ne ha' ha)
    (le_max_left _ _) hend htouch fun x t hx => ?_
  · rwa [← hadded] at habsorb
  · rw [and_iff_right hne, and_iff_right hne]
    show ((w.mem w.request).flStart ≤ x ∧ x ≤ (w.mem w.request).flEnd ∧
        (w.mem w.request).flType = t) ∨
      ((mem fl).flStart ≤ x ∧ x ≤ (mem fl).flEnd ∧ (mem fl).flType = t) ↔
      ((w.mem w.request).flStart ≤ x ∧ x ≤ max _ _ ∧ (w.mem w.request).flType = t)
    rw [h.type_eq, htype, ← and_assoc, ← and_assoc, ← and_assoc, ← or_and_right]
    refine and_congr_left fun _ => ?_
    omega

end

section

variable (hstart : (w.mem w.request).flStart ≤ (mem fl).flStart)
  (hle : (mem fl).flStart ≤ (w.mem w.request).flEnd)
  (hend : (mem fl).flEnd ≤ (w.mem w.request).flEnd)
include hstart hle hend

lemma Walked.inside : (mem req).flStart ≤ (mem fl).flStart ∧ (mem fl).flEnd ≤ (mem req).flEnd := by
  constructor
  · rcases h.request_mem with heq | hC
    · have hrange := (h.range_eq heq).1
      rw [heq] at hstart
      omega
    · have htouch := h.touch _ hC
      have hbehind := hn.behind _ hC
      omega
  · rcases h.end_eq with heq | ⟨c, hc, hce⟩
    · omega
    · have hbehind := hn.behind c hc
      omega

lemma Walked.drop (hadded : w.request ≠ req ∨ (mem req).flType = .unlck) :
    Walked mem req pre A (C ++ [fl]) { w with added := true } := by
  obtain ⟨hin, hin'⟩ := h.inside hn hstart hle hend
  have hvalid := hn.le
  refine h.absorb hn hadded rfl (fun _ _ _ => rfl) le_rfl (.inl rfl) (by omega) fun x t hx => ?_
  refine or_iff_left ?_
  rintro ⟨hx', hx'', -⟩
  exact hx ⟨hin.trans hx', le_trans hx'' hin'⟩

lemma Walked.replace (hadded : w.added = false) (htype : (mem req).flType ≠ .unlck) :
    Walked mem req pre A (C ++ [fl])
      { w with
        mem := update w.mem fl
          { mem fl with
            flStart := (w.mem w.request).flStart
            flEnd := (w.mem w.request).flEnd
            flType := (w.mem w.request).flType }
        request := fl
        added := true
        passed := w.passed ++ [fl] } := by
  obtain ⟨hin, hin'⟩ := h.inside hn hstart hle hend
  have hvalid := hn.le
  have hreq := h.request_eq hadded
  obtain ⟨hs, he⟩ := h.range_eq hreq
  have htype' := h.type_eq
  rw [htype']
  rw [hreq] at htype' ⊢
  rw [hs, he]
  refine h.takePlace hn hadded htype (update_self ..)
    (fun a ha _ => update_of_ne ha _ _) le_rfl le_rfl (.inl rfl) (fun a ha => ?_)
    (by omega) (fun _ _ => rfl) fun x t hx => ?_
  · exact h.apart hreq ha
  · refine iff_of_false ?_ fun hc => hx ⟨hc.1, hc.2.1⟩
    rintro ⟨hx', hx'', -⟩
    exact hx ⟨hin.trans hx', le_trans hx'' hin'⟩

end

lemma Walked.stickLeft (htype : (mem fl).flType ≠ (mem req).flType)
    (hlt : (mem fl).flStart < (w.mem w.request).flStart)
    (hle : (w.mem w.request).flStart ≤ (mem fl).flEnd)
    (hend : (mem fl).flEnd ≤ (w.mem w.request).flEnd) : Walked mem req pre A (C ++ [fl]) { w with
        added := w.added || decide ((w.mem w.request).flType = .unlck)
        left := some fl
        passed := w.passed ++ [fl] } := by
  obtain ⟨rfl, hreq, hleft⟩ := h.untouched hn hlt
  obtain ⟨hs, he⟩ := h.range_eq hreq
  have htype' := h.type_eq
  have hnot : w.added = true → (mem req).flType = .unlck := fun hadded =>
    (h.of_added hadded).resolve_left (not_not.mpr hreq)
  rw [hreq] at hlt hle hend
  refine { h with
    passed_eq := ?_, frame := fun a ha => ?_, request_mem := .inl hreq, end_eq := ?_
    added_of_ne := fun hne => absurd hreq hne, of_added := fun hadded => ?_
    unlck_added := fun hunlck _ => ?_, kept := fun _ => rfl, touch := fun c hc => ?_
    left_spec := fun l hl => ?_, covers := fun x t hx => ?_ }
  · rw [h.passed_eq, hleft, if_pos hreq]
    simp
  · exact h.frame a not_mem_nil
  · rw [hreq]
    exact .inl he
  · rw [htype', Bool.or_eq_true, decide_eq_true_eq] at hadded
    exact .inr (hadded.elim hnot fun h => h)
  · rw [htype', hunlck]
    exact Bool.or_true _
  · obtain rfl := mem_singleton.mp hc
    omega
  · cases hl
    refine ⟨mem_cons_self, hn.ne_request, hn.mem_eq, htype, ?_, ?_, ?_, ?_⟩
    · rwa [hs] at hlt
    · rwa [hs] at hle
    · rwa [he] at hend
    · rw [hreq, hs]
  · have hnone : ¬ ((w.request ≠ req) ∧ (w.mem w.request).run.Covers x t) := fun hne => hne.1 hreq
    refine Iff.trans ?_ (or_iff_left hnone).symm
    simp only [Option.some.injEq, exists_eq_left']
    exact Runs.covers_singleton

end

end

inductive Stops (mem : ℕ → FileLock ω) (req : ℕ) (pre A C Q : List ℕ) : Walk ω → Prop where
  | free {w : Walk ω} (h : Walked mem req pre A C w)
      (hafter : ∀ q ∈ Q, (w.mem w.request).run.Apart (mem q).run) : Stops mem req pre A C Q w
  | right {w : Walk ω} {fl : ℕ} {Q' : List ℕ} (h : Walked mem req pre A C w) (hQ : Q = fl :: Q')
      (hn : Next mem req A C fl w) (htype : (mem fl).flType ≠ (mem req).flType)
      (hstart : (mem fl).flStart ≤ (w.mem w.request).flEnd)
      (hend : (w.mem w.request).flEnd < (mem fl).flEnd)
      (hle : (w.mem w.request).flStart ≤ (mem fl).flEnd) :
      Stops mem req pre A C Q
        { w with
          added := w.added || decide ((w.mem w.request).flType = .unlck)
          left := if (mem fl).flStart < (w.mem w.request).flStart then some fl else w.left
          right := some fl }

lemma Owned.after (hown : Owned mem req (A ++ C ++ fl :: Q)) (hn : Next mem req A C fl w)
    (hlt : (w.mem w.request).flEnd < (mem fl).flStart)
    (hsame : (w.mem w.request).flType = (mem fl).flType →
      (w.mem w.request).flEnd + 1 < (mem fl).flStart) :
    ∀ q ∈ fl :: Q, (w.mem w.request).run.Apart (mem q).run := by
  have hnormal := hown.normal
  rw [runs_append] at hnormal
  obtain ⟨-, hQ, -⟩ := Runs.normal_append.mp hnormal
  obtain ⟨-, -, hrest⟩ := Runs.normal_cons.mp hQ
  intro q hq
  have hfl : (w.mem w.request).run.Apart (mem fl).run := ⟨hlt, hsame⟩
  rcases mem_cons.mp hq with rfl | hq
  · exact hfl
  · exact hfl.trans hn.le (hrest _ (mem_runs hq))

variable [DecidableEq ω]

/-- **The walk** ends at the first lock that it does not have to touch, or at one that sticks
out on the right. -/
lemma walk_spec {post : List ℕ} (hown : Owned mem req (A ++ C ++ Q))
    (h : Walked mem req pre A C w)
    (hpost : ∀ p ∈ post.head?, p ∉ A ++ C ++ Q ∧ p ≠ req ∧ (mem p).flOwner ≠ (mem req).flOwner) :
    ∃ w' A' C' Q', walk w (Q ++ post) = (w', Q' ++ post) ∧ A' ++ C' ++ Q' = A ++ C ++ Q ∧
      Stops mem req pre A' C' Q' w' := by
  induction Q generalizing A C w with
  | nil =>
    refine ⟨w, A, C, [], ?_, rfl, .free h nofun⟩
    cases post with
    | nil => rfl
    | cons p post =>
      obtain ⟨hnot, hreq, hother⟩ := hpost p rfl
      have hp : w.mem p = mem p := by
        refine h.frame p (fun hC => hnot ?_) hreq
        exact mem_append_left _ (mem_append_right _ hC)
      have howner : ¬ posixSameOwner (w.mem w.request) (w.mem p) = true := by
        unfold posixSameOwner
        rw [hp, h.owner_eq, decide_eq_true_eq]
        exact fun heq => hother heq.symm
      show walk w (p :: post) = _
      unfold walk
      rw [if_neg howner]
      rfl
  | cons fl Q ih =>
    have hn := h.next hown
    have howner : posixSameOwner (w.mem w.request) (w.mem fl) = true := by
      unfold posixSameOwner
      rw [hn.mem_eq, h.owner_eq, hn.owner_eq, decide_eq_true_eq]
    have hgo : ∀ w1 A1 C1, A1 ++ C1 ++ Q = A ++ C ++ fl :: Q → Walked mem req pre A1 C1 w1 →
        ∃ w' A' C' Q', walk w1 (Q ++ post) = (w', Q' ++ post) ∧
          A' ++ C' ++ Q' = A ++ C ++ fl :: Q ∧ Stops mem req pre A' C' Q' w' := by
      intro w1 A1 C1 heq h1
      rw [← heq] at hown hpost ⊢
      exact ih hown h1 hpost
    have hsnoc : A ++ (C ++ [fl]) ++ Q = A ++ C ++ fl :: Q := by simp
    show ∃ w' A' C' Q', walk w (fl :: (Q ++ post)) = _ ∧ _
    unfold walk
    rw [if_pos howner]
    dsimp only
    rw [hn.mem_eq]
    by_cases htype : (w.mem w.request).flType = (mem fl).flType
    · have htype' : (mem fl).flType = (mem req).flType := htype.symm.trans h.type_eq
      rw [if_pos htype]
      by_cases hlt : (mem fl).flEnd < (w.mem w.request).flStart - 1
      · rw [if_pos hlt]
        obtain ⟨hC, hpass⟩ := h.pass hn (by omega) fun _ => by omega
        refine hgo _ (A ++ [fl]) C ?_ hpass
        rw [hC]
        simp
      rw [if_neg hlt]
      by_cases hgt : (mem fl).flStart - 1 > (w.mem w.request).flEnd
      · rw [if_pos hgt]
        exact ⟨w, A, C, fl :: Q, rfl, rfl, .free h (hown.after hn (by omega) fun _ => by omega)⟩
      rw [if_neg hgt]
      split_ifs with hadded
      · exact hgo _ A (C ++ [fl]) hsnoc
          (h.mergeMore hn htype' (not_lt.mp hlt) (not_lt.mp hgt) hadded)
      · exact hgo _ A (C ++ [fl]) hsnoc
          (h.mergeFirst hn htype' (not_lt.mp hlt) (not_lt.mp hgt) (Bool.not_eq_true _ ▸ hadded))
    · have htype' : (mem fl).flType ≠ (mem req).flType := fun heq =>
        htype (h.type_eq.trans heq.symm)
      rw [if_neg htype]
      by_cases hlt : (mem fl).flEnd < (w.mem w.request).flStart
      · rw [if_pos hlt]
        obtain ⟨hC, hpass⟩ := h.pass hn hlt fun heq => absurd heq htype'
        refine hgo _ (A ++ [fl]) C ?_ hpass
        rw [hC]
        simp
      rw [if_neg hlt]
      by_cases hgt : (mem fl).flStart > (w.mem w.request).flEnd
      · rw [if_pos hgt]
        exact ⟨w, A, C, fl :: Q, rfl, rfl, .free h (hown.after hn hgt fun heq => absurd heq htype)⟩
      rw [if_neg hgt]
      by_cases hend : (mem fl).flEnd > (w.mem w.request).flEnd
      · rw [if_pos hend]
        exact ⟨_, A, C, fl :: Q, rfl, rfl,
          .right h rfl hn htype' (not_lt.mp hgt) hend (not_lt.mp hlt)⟩
      rw [if_neg hend]
      by_cases hstart : (mem fl).flStart ≥ (w.mem w.request).flStart
      · rw [if_pos hstart, if_neg (not_lt.mpr hstart)]
        split_ifs with hadded
        · rw [hadded]
          refine hgo _ A (C ++ [fl]) hsnoc
            (h.drop hn hstart (not_lt.mp hgt) (not_lt.mp hend) ?_)
          rw [h.type_eq, Bool.or_eq_true, decide_eq_true_eq] at hadded
          exact hadded.elim h.of_added Or.inr
        · rw [h.type_eq, Bool.or_eq_true, decide_eq_true_eq, not_or] at hadded
          exact hgo _ A (C ++ [fl]) hsnoc
            (h.replace hn hstart (not_lt.mp hgt) (not_lt.mp hend)
              (Bool.not_eq_true _ ▸ hadded.1) hadded.2)
      · have hlt' : (mem fl).flStart < (w.mem w.request).flStart := not_le.mp hstart
        rw [if_neg hstart, if_pos hlt']
        exact hgo _ A (C ++ [fl]) hsnoc
          (h.stickLeft hn htype' hlt' (not_lt.mp hlt) (not_lt.mp hend))

end

end Am335x.Locks
