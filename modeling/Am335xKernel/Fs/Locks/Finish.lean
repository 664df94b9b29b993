import Am335xKernel.Fs.Locks.OwnerWalk

/-!
# What is done behind the walk

The locks that the walk has touched are exchanged for what is left of the outer ones, with the
lock of the request in between (`Patches`). Only here new locks are needed. If there is no memory
for them, nothing has been changed yet.
-/

namespace Am335x.Locks

open Function List
open Option hiding or_assoc

variable {ω : Type*} {mem : ℕ → FileLock ω} {req fl : ℕ} {pre A C Q : List ℕ} {w : Walk ω}

def keeps (mem : ℕ → FileLock ω) (req : ℕ) : Bool := decide ((mem req).flType ≠ .unlck)

/-- What is exchanged for the locks `C` between `A` and `Q`. -/
abbrev Patches (mem : ℕ → FileLock ω) (req : ℕ) (A C Q : List ℕ)
    (left right : Option (Run LockType)) (r : Run LockType) : Prop :=
  Runs.Patches (runs mem A) (runs mem C) (runs mem Q) left right r (keeps mem req)
    (mem req).flStart (mem req).flEnd

variable (h : Walked mem req pre A C w)

include h in
lemma Walked.outside {x : ℤ} {t : LockType} (hx : ¬ ((mem req).flStart ≤ x ∧ x ≤ (mem req).flEnd)) :
    w.request ≠ req ∧ (w.mem w.request).run.Covers x t ↔
      keeps mem req = true ∧ (w.mem w.request).run.Covers x t := by
  refine and_congr_left fun hcovers => ⟨fun hne => ?_, fun _ heq => ?_⟩
  · exact decide_eq_true (h.added_of_ne hne).2
  · obtain ⟨hs, he⟩ := h.range_eq heq
    obtain ⟨hlo, hhi, -⟩ := hcovers
    rw [heq] at hlo hhi
    exact hx ⟨hs ▸ hlo, he ▸ hhi⟩

variable (hown : Owned mem req (A ++ C ++ Q))

include h hown in
lemma Walked.patches_left
    {l : ℕ} (hl : w.left = some l) : (mem l).run.tag ≠ (w.mem w.request).run.tag ∧
      ((mem l).run.lo < (mem req).flStart ∧ (mem req).flStart ≤ (mem l).run.hi) ∧
      (w.mem w.request).run.lo = (mem req).flStart ∧
      (∀ a ∈ runs mem A, a.Apart (mem l).run) ∧ (mem l).run.hi ≤ (mem req).flEnd := by
  obtain ⟨hC, -, -, htype, hlt, hover, hle, hstart⟩ := h.left_spec l hl
  refine ⟨fun htag => htype (htag.trans h.type_eq), ⟨hlt, hover⟩, hstart, fun a ha => ?_, hle⟩
  have hnormal := hown.normal
  rw [runs_append, runs_append] at hnormal
  obtain ⟨-, -, hAC⟩ := Runs.normal_append.mp (Runs.normal_append.mp hnormal).1
  exact hAC a ha _ (mem_runs hC)

include h in
lemma Walked.before_runs : ∀ a ∈ runs mem A, a.Apart (w.mem w.request).run := by
  intro a ha
  obtain ⟨b, hb, rfl⟩ := mem_map.mp ha
  exact h.before b hb

include h hown in
lemma Walked.patches_free (hafter : ∀ q ∈ Q, (w.mem w.request).run.Apart (mem q).run) :
    Patches mem req A C Q (w.left.map fun l => (mem l).run) none (w.mem w.request).run where
  le := hown.le
  lo_le := h.start_le
  le_hi := h.le_end
  before := h.before_runs
  after q hq := by
    obtain ⟨b, hb, rfl⟩ := mem_map.mp hq
    exact hafter b hb
  left_spec l hl := by
    obtain ⟨b, hb, rfl⟩ := map_eq_some_iff.mp hl
    obtain ⟨htag, hrange, hlo, hA, hhi⟩ := h.patches_left hown hb
    exact ⟨htag, hrange, hlo, hA, .inl hhi⟩
  right_spec l hl := by cases hl
  outside x t hx := by
    have hnone : ¬ ∃ l, (none : Option (Run LockType)) = some l ∧ l.Covers x t := by
      rintro ⟨l, hl, -⟩
      cases hl
    rw [h.covers x t hx, h.outside hx, or_iff_right hnone]
    refine or_congr_left ?_
    simp

lemma Walked.patches_right (hown : Owned mem req (A ++ C ++ fl :: Q))
    (h : Walked mem req pre A C w) (hn : Next mem req A C fl w)
    (htype : (mem fl).flType ≠ (mem req).flType)
    (hstart : (mem fl).flStart ≤ (w.mem w.request).flEnd)
    (hend : (w.mem w.request).flEnd < (mem fl).flEnd)
    (hle : (w.mem w.request).flStart ≤ (mem fl).flEnd) : Patches mem req A (C ++ [fl]) Q
      ((if (mem fl).flStart < (w.mem w.request).flStart then some fl else w.left).map
        fun l => (mem l).run) (some (mem fl).run) (w.mem w.request).run := by
  have hnormal := hown.normal
  rw [runs_append] at hnormal
  obtain ⟨-, hQ, -⟩ := Runs.normal_append.mp hnormal
  obtain ⟨-, -, hflQ⟩ := Runs.normal_cons.mp hQ
  have htag : (mem fl).run.tag ≠ (w.mem w.request).run.tag := fun heq =>
    htype (heq.trans h.type_eq)
  have hhi : (w.mem w.request).flEnd = (mem req).flEnd := by
    rcases h.end_eq with heq | ⟨c, hc, hce⟩
    · exact heq
    · have hbehind := hn.behind c hc
      omega
  have hlo := h.start_le
  have hreq := hown.le
  refine ⟨hreq, hlo, h.le_end, h.before_runs, fun q hq => ?_, fun l hl => ?_, fun l hl => ?_,
    fun x t hx => ?_⟩
  · have hlt := (hflQ q hq).1
    exact ⟨hend.trans hlt, fun _ => lt_of_le_of_lt (Int.add_one_le_of_lt hend) hlt⟩
  · obtain ⟨b, hb, rfl⟩ := map_eq_some_iff.mp hl
    by_cases hlt : (mem fl).flStart < (w.mem w.request).flStart
    · rw [if_pos hlt] at hb
      cases hb
      obtain ⟨-, heq, -⟩ := h.untouched hn hlt
      have hs : (w.mem w.request).flStart = (mem req).flStart := by
        rw [heq]
        exact (h.range_eq heq).1
      refine ⟨htag, ⟨hs ▸ hlt, hs ▸ hle⟩, hs, fun a ha => ?_, .inr rfl⟩
      obtain ⟨c, hc, rfl⟩ := mem_map.mp ha
      exact hn.apart c hc
    · rw [if_neg hlt] at hb
      obtain ⟨htag', hrange, hlo', hA, hhi'⟩ := h.patches_left hown hb
      exact ⟨htag', hrange, hlo', hA, .inl hhi'⟩
  · cases hl
    refine ⟨htag, ⟨hhi ▸ hstart, hhi ▸ hend⟩, hhi, hflQ, ?_⟩
    by_cases hlt : (mem fl).flStart < (w.mem w.request).flStart
    · rw [if_pos hlt]
      exact .inr rfl
    · refine .inl ?_
      show (mem req).flStart ≤ (mem fl).flStart
      rcases h.request_mem with heq | hC
      · have hs := (h.range_eq heq).1
        rw [heq] at hlt
        omega
      · have htouch := h.touch _ hC
        have hbehind := hn.behind _ hC
        omega
  · rw [covers_runs_snoc, h.covers x t hx, h.outside hx]
    simp only [some.injEq, exists_eq_left']
    by_cases hlt : (mem fl).flStart < (w.mem w.request).flStart
    · obtain ⟨-, -, hleft⟩ := h.untouched hn hlt
      rw [if_pos hlt, hleft]
      simp only [map_some, some.injEq, exists_eq_left', reduceCtorEq, false_and,
        exists_const, false_or]
      tauto
    · rw [if_neg hlt]
      simp only [map_eq_some_iff, exists_exists_and_eq_and]
      rw [or_assoc]
      exact or_congr_right or_comm

/-- A lock as the owner `o` can have it. -/
def FileLock.Of (o : ω) (fl : FileLock ω) : Prop :=
  fl.flOwner = o ∧ fl.posix = true ∧ fl.flType ≠ .unlck

lemma Owned.lock_of {own : List ℕ} (h : Owned mem req own) {a : ℕ} (ha : a ∈ own) :
    (mem a).Of (mem req).flOwner :=
  ⟨h.owner_eq a ha, h.posix a ha, h.type_ne a ha⟩

/-- The request has been granted: on its range the owner has a lock of the type of the request, or
none, and all else is as before. -/
structure Granted (mem mem' : ℕ → FileLock ω) (req : ℕ) (own own' : List ℕ) : Prop where
  normal : Runs.Normal (runs mem' own')
  owner_eq : ∀ a ∈ own', (mem' a).flOwner = (mem req).flOwner
  posix : ∀ a ∈ own', (mem' a).posix = true
  type_ne : ∀ a ∈ own', (mem' a).flType ≠ .unlck
  covers : ∀ x t, Runs.Covers (runs mem' own') x t ↔
    ((mem req).flStart ≤ x ∧ x ≤ (mem req).flEnd) ∧ (keeps mem req = true ∧ (mem req).flType = t) ∨
      ¬ ((mem req).flStart ≤ x ∧ x ≤ (mem req).flEnd) ∧ Runs.Covers (runs mem own) x t

include hown in
lemma granted_of {mem' : ℕ → FileLock ω} {L K R : List ℕ} {left right : Option (Run LockType)}
    {r : Run LockType} (hp : Patches mem req A C Q left right r) (hr : r.tag = (mem req).flType)
    (hA : ∀ a ∈ A, mem' a = mem a) (hQ : ∀ a ∈ Q, mem' a = mem a)
    (hL : runs mem' L = (left.map fun l => ⟨l.lo, r.lo - 1, l.tag⟩).toList)
    (hK : runs mem' K = if keeps mem req then [r] else [])
    (hR : runs mem' R = (right.map fun l => ⟨r.hi + 1, l.hi, l.tag⟩).toList)
    (hof : ∀ a ∈ L ++ K ++ R, (mem' a).Of (mem req).flOwner) :
    Granted mem mem' req (A ++ C ++ Q) (A ++ (L ++ K ++ R) ++ Q) := by
  have hruns : runs mem' (A ++ (L ++ K ++ R) ++ Q) =
      runs mem A ++ Runs.patch left right r (keeps mem req) ++ runs mem Q := by
    rw [runs_append, runs_append, runs_append, runs_append, runs_congr hA, runs_congr hQ, hL, hK,
      hR]
    rfl
  have hall : ∀ a ∈ A ++ (L ++ K ++ R) ++ Q, (mem' a).Of (mem req).flOwner := by
    intro a ha
    rcases mem_append.mp ha with ha | ha
    · rcases mem_append.mp ha with ha | ha
      · rw [hA a ha]
        exact hown.lock_of (mem_append_left _ (mem_append_left _ ha))
      · exact hof a ha
    · rw [hQ a ha]
      exact hown.lock_of (mem_append_right _ ha)
  have hnormal := hown.normal
  rw [runs_append, runs_append] at hnormal
  refine ⟨hruns ▸ hp.normal hnormal, fun a ha => (hall a ha).1, fun a ha => (hall a ha).2.1,
    fun a ha => (hall a ha).2.2, fun x t => ?_⟩
  rw [hruns, hp.covers x t, hr, runs_append, runs_append]

section

variable {newFl newFl2 : ℕ}

structure Fresh (req : ℕ) (own : List ℕ) (newFl newFl2 : ℕ) : Prop where
  not_mem : newFl ∉ own
  not_mem2 : newFl2 ∉ own
  ne_req : newFl ≠ req
  ne_req2 : newFl2 ≠ req
  ne : newFl ≠ newFl2

structure Installed (mem mem' : ℕ → FileLock ω) (req : ℕ) (own own' : List ℕ) (newFl newFl2 : ℕ) :
    Prop where
  granted : Granted mem mem' req own own'
  nodup : own'.Nodup
  mem_own : ∀ a ∈ own', a ∈ own ∨ a = newFl ∨ a = newFl2
  frame : ∀ a, a ∉ own → a ≠ req → a ≠ newFl → a ≠ newFl2 → mem' a = mem a

lemma nodup_splice {M : List ℕ} (h : (A ++ C ++ Q).Nodup) (hM : M.Nodup)
    (hmem : ∀ m ∈ M, m ∈ C ∨ m ∉ A ++ C ++ Q) : (A ++ M ++ Q).Nodup := by
  obtain ⟨hAC, hQ, hACQ⟩ := nodup_append.mp h
  obtain ⟨hA, -, hAC'⟩ := nodup_append.mp hAC
  refine nodup_append.mpr ⟨nodup_append.mpr ⟨hA, hM, fun a ha m hm heq => ?_⟩, hQ,
    fun a ha q hq heq => ?_⟩
  · rcases hmem m hm with hC | hnot
    · exact hAC' a ha m hC heq
    · exact hnot (heq ▸ mem_append_left _ (mem_append_left _ ha))
  · rcases mem_append.mp ha with ha | ha
    · exact hACQ a (mem_append_left _ ha) q hq heq
    · rcases hmem a ha with hC | hnot
      · exact hACQ a (mem_append_right _ hC) q hq heq
      · exact hnot (heq ▸ mem_append_right _ hq)

def withNew (mem : ℕ → FileLock ω) (request : ℕ) (added : Bool) (newFl : ℕ) : ℕ → FileLock ω :=
  if added = true then mem else update mem newFl (mem request)

def requestLock (request : ℕ) (added : Bool) (req newFl : ℕ) : List ℕ :=
  (if request = req then [] else [request]) ++ (if added = true then [] else [newFl])

variable {m : ℕ → FileLock ω} {a request r : ℕ} {added : Bool}

lemma withNew_of_ne (ha : a ≠ newFl) : withNew m request added newFl a = m a := by
  unfold withNew
  split_ifs
  · rfl
  · exact update_of_ne ha _ _

include h in
lemma Walked.requestLock_cases (hadded : w.request ≠ req → added = true)
    (hof : added = true → w.request ≠ req ∨ (mem req).flType = .unlck)
    (hunlck : added = false → (mem req).flType ≠ .unlck) (newFl : ℕ) :
    (keeps mem req = false ∧ requestLock w.request added req newFl = []) ∨
    ∃ k, keeps mem req = true ∧ requestLock w.request added req newFl = [k] ∧
      (k ∈ C ∧ k = w.request ∨ k = newFl) ∧
      withNew w.mem w.request added newFl k = w.mem w.request := by
  unfold requestLock withNew keeps
  by_cases hreq : w.request = req
  · cases added with
    | true =>
      have htype := (hof rfl).resolve_left (not_not.mpr hreq)
      refine .inl ⟨by simp [htype], ?_⟩
      rw [if_pos hreq]
      rfl
    | false =>
      refine .inr ⟨newFl, decide_eq_true (hunlck rfl), ?_, .inr rfl, update_self ..⟩
      rw [if_pos hreq]
      rfl
  · obtain rfl := hadded hreq
    refine .inr ⟨w.request, decide_eq_true (h.added_of_ne hreq).2, ?_,
      .inl ⟨h.request_mem.resolve_left hreq, rfl⟩, rfl⟩
    rw [if_neg hreq]
    rfl

lemma insertNew_eq (w : Walk ω) (rest : List ℕ) (newFl : ℕ) : insertNew w rest newFl =
      ({ w with mem := withNew w.mem w.request w.added newFl },
        (if w.added = true then [] else [newFl]) ++ rest) := by
  unfold insertNew withNew
  split_ifs <;> rfl

def trimmed (m : ℕ → FileLock ω) (request : ℕ) (left right : Option ℕ) (a : ℕ) : FileLock ω :=
  if left = some a then { m a with flEnd := (m request).flStart - 1 }
  else if right = some a then { m a with flStart := (m request).flEnd + 1 }
  else m a

lemma trimLeft_eq (w : Walk ω) : trimLeft w = trimmed w.mem w.request w.left none := by
  funext a
  unfold trimLeft trimmed
  cases hleft : w.left with
  | none => simp
  | some l =>
    dsimp only
    rcases eq_or_ne a l with rfl | hne
    · rw [update_self, if_pos rfl]
    · rw [update_of_ne hne, if_neg fun heq => hne (some.inj heq).symm, if_neg nofun]

lemma trimLeft_update {w : Walk ω} (hleft : w.left ≠ some r) (hreq : w.request ≠ r) :
    trimLeft { w with
      mem := update w.mem r { w.mem r with flStart := (w.mem w.request).flEnd + 1 } } =
      trimmed w.mem w.request w.left (some r) := by
  rw [trimLeft_eq]
  funext a
  unfold trimmed
  dsimp only
  rw [update_of_ne hreq]
  rcases eq_or_ne a r with rfl | hne
  · rw [if_neg hleft, if_neg hleft, if_pos rfl, update_self]
    simp
  · rw [update_of_ne hne, if_neg fun heq => hne (some.inj heq).symm]
    simp

variable {left right : Option ℕ} {K : List ℕ}

lemma forall_pieces {P : ℕ → Prop} (hl : ∀ l, left = some l → P l) (hk : ∀ k ∈ K, P k)
    (hr : ∀ l, right = some l → P l) : ∀ a ∈ left.toList ++ K ++ right.toList, P a :=
  forall_mem_append.mpr ⟨forall_mem_append.mpr ⟨fun a ha => hl a (mem_toList.mp ha), hk⟩,
    fun a ha => hr a (mem_toList.mp ha)⟩

lemma nodup_pieces (hlr : ∀ l, right = some l → left ≠ some l) (hK : K.Nodup)
    (hk : ∀ k ∈ K, left ≠ some k ∧ right ≠ some k) : (left.toList ++ K ++ right.toList).Nodup := by
  have hl : left.toList.Nodup := by cases left <;> simp
  have hr : right.toList.Nodup := by cases right <;> simp
  rw [nodup_append, nodup_append]
  refine ⟨⟨hl, hK, ?_⟩, hr, ?_⟩
  · rintro a ha k hk' rfl
    exact (hk a hk').1 (mem_toList.mp ha)
  · rintro a ha b hb rfl
    rcases mem_append.mp ha with ha | ha
    · exact hlr a (mem_toList.mp hb) (mem_toList.mp ha)
    · exact (hk a ha).2 (mem_toList.mp hb)

lemma Walked.installed_of {C0 : List ℕ} (h : Walked mem req pre A C0 w)
    (hown : Owned mem req (A ++ C ++ Q)) (hfresh : Fresh req (A ++ C ++ Q) newFl newFl2)
    (hreq : m w.request = w.mem w.request)
    (hp : Patches mem req A C Q (left.map fun l => (m l).run) (right.map fun l => (m l).run)
      (m w.request).run) (hframe : ∀ a, a ∉ C → a ≠ req → a ≠ newFl → a ≠ newFl2 → m a = mem a)
    (hleft : ∀ l, left = some l → (l ∈ C ∨ l = newFl2) ∧ ∃ c ∈ C, m l = mem c)
    (hright : ∀ l, right = some l → l ∈ C ∧ m l = mem l ∧ left ≠ some l)
    (hK : keeps mem req = false ∧ K = [] ∨ ∃ k, keeps mem req = true ∧ K = [k] ∧
      (k ∈ C ∨ k = newFl) ∧ m k = m w.request ∧ left ≠ some k ∧ right ≠ some k) :
    Installed mem (trimmed m w.request left right) req (A ++ C ++ Q)
      (A ++ (left.toList ++ K ++ right.toList) ++ Q) newFl newFl2 := by
  have hC : ∀ c ∈ C, c ∈ A ++ C ++ Q := fun c hc =>
    mem_append_left _ (mem_append_right _ hc)
  have hone : ∀ k ∈ K, keeps mem req = true ∧ (k ∈ C ∨ k = newFl) ∧ m k = m w.request ∧
      left ≠ some k ∧ right ≠ some k := by
    rcases hK with ⟨-, rfl⟩ | ⟨k, hkeeps, rfl, hk⟩
    · exact nofun
    · exact forall_mem_singleton.mpr ⟨hkeeps, hk⟩
  -- where the pieces are
  have hplace : ∀ a ∈ left.toList ++ K ++ right.toList, a ∈ C ∨ a = newFl ∨ a = newFl2 :=
    forall_pieces (fun l hl => (hleft l hl).1.imp_right .inr)
      (fun k hk => (hone k hk).2.1.imp_right .inl) fun l hl => .inl (hright l hl).1
  have hother : ∀ a, a ∉ C → a ≠ req → a ≠ newFl → a ≠ newFl2 →
      trimmed m w.request left right a = mem a := by
    intro a ha hreq hnew hnew2
    unfold trimmed
    rw [if_neg fun heq => (hleft a heq).1.elim ha hnew2, if_neg fun heq => ha (hright a heq).1]
    exact hframe a ha hreq hnew hnew2
  have hkept : ∀ a ∈ A ++ C ++ Q, a ∉ C → trimmed m w.request left right a = mem a :=
    fun a ha hnot =>
    hother a hnot (fun heq => hown.not_mem (heq ▸ ha)) (fun heq => hfresh.not_mem (heq ▸ ha))
      fun heq => hfresh.not_mem2 (heq ▸ ha)
  -- what they are
  have htype : (m w.request).flType = (mem req).flType := hreq ▸ h.type_eq
  have hleftMem : ∀ l, left = some l →
      trimmed m w.request left right l = { m l with flEnd := (m w.request).flStart - 1 } :=
    fun l hl => if_pos hl
  have hrightMem : ∀ l, right = some l →
      trimmed m w.request left right l = { m l with flStart := (m w.request).flEnd + 1 } :=
    fun l hl => (if_neg (hright l hl).2.2).trans (if_pos hl)
  have hnodup : (left.toList ++ K ++ right.toList).Nodup := by
    refine nodup_pieces (fun l hl => (hright l hl).2.2) ?_ fun k hk => (hone k hk).2.2.2
    rcases hK with ⟨-, rfl⟩ | ⟨k, -, rfl, -⟩
    · exact nodup_nil
    · exact nodup_singleton k
  obtain ⟨hAC, -, hACQ⟩ := nodup_append.mp hown.nodup
  obtain ⟨-, -, hAC'⟩ := nodup_append.mp hAC
  refine ⟨granted_of hown hp htype (fun a ha => ?_) (fun q hq => ?_) ?_ ?_ ?_
    (forall_pieces ?_ ?_ ?_), nodup_splice hown.nodup hnodup fun a ha => ?_, fun a ha => ?_,
    fun a ha => hother a fun hc => ha (hC a hc)⟩
  · exact hkept a (mem_append_left _ (mem_append_left _ ha)) fun hc => hAC' a ha a hc rfl
  · exact hkept q (mem_append_right _ hq) fun hc =>
      hACQ q (mem_append_right _ hc) q hq rfl
  · cases left with
    | none => rfl
    | some l => simp [runs, hleftMem l rfl, FileLock.run]
  · rcases hK with ⟨hkeeps, rfl⟩ | ⟨k, hkeeps, rfl, -, hk, hkl, hkr⟩
    · rw [hkeeps]
      rfl
    · rw [hkeeps]
      simp [runs, trimmed, hkl, hkr, hk]
  · cases right with
    | none => rfl
    | some l => simp [runs, hrightMem l rfl, FileLock.run]
  · intro l hl
    obtain ⟨-, c, hc, heq⟩ := hleft l hl
    rw [hleftMem l hl, heq]
    exact hown.lock_of (hC c hc)
  · intro k hk
    obtain ⟨hkeeps, -, hk, hkl, hkr⟩ := hone k hk
    unfold trimmed
    rw [if_neg hkl, if_neg hkr, hk, hreq]
    exact ⟨h.owner_eq, h.posix_eq, h.type_eq ▸ of_decide_eq_true hkeeps⟩
  · intro l hl
    obtain ⟨hc, heq, -⟩ := hright l hl
    rw [hrightMem l hl, heq]
    exact hown.lock_of (hC l hc)
  · rcases hplace a ha with hc | rfl | rfl
    · exact .inl hc
    · exact .inr hfresh.not_mem
    · exact .inr hfresh.not_mem2
  · rcases mem_append.mp ha with ha | ha
    · rcases mem_append.mp ha with ha | ha
      · exact .inl (mem_append_left _ (mem_append_left _ ha))
      · exact (hplace a ha).imp_left (hC a)
    · exact .inl (mem_append_right _ ha)

/-! Two ways to install the pieces. -/

lemma install_of_ne (hright : w.right = some r) (hleft : w.left ≠ some r) (hreq : w.request ≠ r)
    (rest : List ℕ) : install w rest newFl newFl2 =
      (trimmed (withNew w.mem w.request w.added newFl) w.request w.left (some r),
        w.passed ++ ((if w.added = true then [] else [newFl]) ++ rest)) := by
  unfold install
  rw [insertNew_eq]
  unfold trimRight
  rw [hright]
  dsimp only
  rw [if_neg hleft]
  exact Prod.ext (trimLeft_update (w := { w with mem := withNew w.mem w.request w.added newFl })
    hleft hreq) rfl

lemma install_of_eq (hright : w.right = some r) (hleft : w.left = some r) (hreq : w.request ≠ r)
    (hnew : newFl2 ≠ r) (rest : List ℕ) : install w rest newFl newFl2 =
      (trimmed (update (withNew w.mem w.request w.added newFl) newFl2
          (withNew w.mem w.request w.added newFl r)) w.request (some newFl2) (some r),
        w.passed ++ newFl2 :: ((if w.added = true then [] else [newFl]) ++ rest)) := by
  unfold install
  rw [insertNew_eq]
  unfold trimRight
  rw [hright]
  dsimp only
  rw [if_pos hleft]
  have hne : some newFl2 ≠ some r := fun heq => hnew (some.inj heq)
  exact Prod.ext (trimLeft_update (w := { w with
    left := some newFl2
    mem := update (withNew w.mem w.request w.added newFl) newFl2
      (withNew w.mem w.request w.added newFl r) }) hne hreq) rfl

include h in
lemma Walked.withNew_request {own : List ℕ} (hsub : C ⊆ own)
    (hfresh : Fresh req own newFl newFl2) (added : Bool) :
    withNew w.mem w.request added newFl w.request = w.mem w.request := by
  refine withNew_of_ne fun heq => ?_
  rcases h.request_mem with hreq | hC
  · exact hfresh.ne_req (heq.symm.trans hreq)
  · exact hfresh.not_mem (heq ▸ hsub hC)

lemma Walked.installed {C' : List ℕ} (hown : Owned mem req (A ++ C' ++ Q))
    (h : Walked mem req pre A C w) (hsub : C ⊆ C') (hfresh : Fresh req (A ++ C' ++ Q) newFl newFl2)
    (hp : Patches mem req A C' Q (w.left.map fun l => (mem l).run)
      (right.map fun l => (mem l).run) (w.mem w.request).run)
    (hright : ∀ l, right = some l → l ∈ C' ∧ l ∉ C ∧ l ≠ req)
    (hadded : w.request ≠ req → added = true)
    (hof : added = true → w.request ≠ req ∨ (mem req).flType = .unlck)
    (hunlck : added = false → (mem req).flType ≠ .unlck) :
    Installed mem (trimmed (withNew w.mem w.request added newFl) w.request w.left right) req
      (A ++ C' ++ Q)
      (A ++ (w.left.toList ++ requestLock w.request added req newFl ++ right.toList) ++ Q)
      newFl newFl2 := by
  have hC' : C' ⊆ A ++ C' ++ Q := fun c hc => mem_append_left _ (mem_append_right _ hc)
  have hreq := h.withNew_request (List.Subset.trans hsub hC') hfresh added
  have hmem : ∀ a ∈ C', withNew w.mem w.request added newFl a = w.mem a := fun a ha =>
    withNew_of_ne fun heq => hfresh.not_mem (heq ▸ hC' ha)
  have hleft : ∀ l, w.left = some l → l ∈ C' ∧ withNew w.mem w.request added newFl l = mem l := by
    intro l hl
    obtain ⟨hC, -, heq, -⟩ := h.left_spec l hl
    exact ⟨hsub hC, (hmem l (hsub hC)).trans heq⟩
  have hright' : ∀ l, right = some l → withNew w.mem w.request added newFl l = mem l := by
    intro l hl
    obtain ⟨hl', hnot, hne⟩ := hright l hl
    exact (hmem l hl').trans (h.frame l hnot hne)
  refine h.installed_of hown hfresh hreq ?_ (fun a ha hne hnew _ => ?_) (fun l hl => ?_)
    (fun l hl => ?_) ?_
  · have hl : w.left.map (fun l => (withNew w.mem w.request added newFl l).run) =
        w.left.map fun l => (mem l).run := map_congr fun l hl => by rw [(hleft l hl).2]
    have hr : right.map (fun l => (withNew w.mem w.request added newFl l).run) =
        right.map fun l => (mem l).run := map_congr fun l hl => by rw [hright' l hl]
    rw [hl, hr, hreq]
    exact hp
  · rw [withNew_of_ne hnew]
    exact h.frame a (fun hc => ha (hsub hc)) hne
  · exact ⟨.inl (hleft l hl).1, l, hleft l hl⟩
  · obtain ⟨hl', hnot, -⟩ := hright l hl
    exact ⟨hl', hright' l hl, fun heq => hnot (h.left_spec l heq).1⟩
  · rcases h.requestLock_cases hadded hof hunlck newFl with hnone | ⟨k, hkeeps, hK, hk, heq⟩
    · exact .inl hnone
    · refine .inr ⟨k, hkeeps, hK, hk.imp_left fun hk => hsub hk.1, heq.trans hreq.symm,
        fun hl => ?_, fun hr => ?_⟩
      · rcases hk with ⟨-, rfl⟩ | rfl
        · exact (h.left_spec _ hl).2.1 rfl
        · exact hfresh.not_mem (hC' (hleft _ hl).1)
      · rcases hk with ⟨hC, -⟩ | rfl
        · exact (hright k hr).2.1 hC
        · exact hfresh.not_mem (hC' (hright _ hr).1)

lemma Walked.installed_split (hown : Owned mem req (A ++ [fl] ++ Q))
    (h : Walked mem req pre A [] w) (hfresh : Fresh req (A ++ [fl] ++ Q) newFl newFl2)
    (hp : Patches mem req A [fl] Q (some (mem fl).run) (some (mem fl).run) (w.mem w.request).run)
    (hof : added = true → (mem req).flType = .unlck)
    (hunlck : added = false → (mem req).flType ≠ .unlck) :
    Installed mem (trimmed (update (withNew w.mem w.request added newFl) newFl2
        (withNew w.mem w.request added newFl fl)) w.request (some newFl2) (some fl)) req
      (A ++ [fl] ++ Q) (A ++ ([newFl2] ++ requestLock w.request added req newFl ++ [fl]) ++ Q)
    newFl newFl2 := by
  have hreq := h.request_mem.resolve_right not_mem_nil
  have hfl : fl ∈ A ++ [fl] ++ Q := by simp
  have hne2 : fl ≠ newFl2 := fun heq => hfresh.not_mem2 (heq ▸ hfl)
  have hne : fl ≠ req := fun heq => hown.not_mem (heq ▸ hfl)
  have hmfl : withNew w.mem w.request added newFl fl = mem fl := by
    have hnew : fl ≠ newFl := fun heq => hfresh.not_mem (heq ▸ hfl)
    rw [withNew_of_ne hnew]
    exact h.frame fl not_mem_nil hne
  have hmreq : update (withNew w.mem w.request added newFl) newFl2
      (withNew w.mem w.request added newFl fl) w.request = w.mem w.request := by
    rw [update_of_ne fun heq => hfresh.ne_req2 (heq.symm.trans hreq)]
    exact h.withNew_request (nil_subset _) hfresh added
  refine h.installed_of hown hfresh hmreq ?_ (fun a ha hne hnew hnew2 => ?_) (fun l hl => ?_)
    (fun l hl => ?_) ?_
  · rw [map_some, map_some, update_self, update_of_ne hne2, hmreq, hmfl]
    exact hp
  · rw [update_of_ne hnew2, withNew_of_ne hnew]
    exact h.frame a not_mem_nil hne
  · cases hl
    exact ⟨.inr rfl, fl, mem_singleton_self fl, (update_self ..).trans hmfl⟩
  · cases hl
    exact ⟨mem_singleton_self _, (update_of_ne hne2 _ _).trans hmfl,
      fun heq => hne2 (some.inj heq).symm⟩
  · rcases h.requestLock_cases (fun hr => absurd hreq hr) (fun ha => .inr (hof ha)) hunlck newFl
      with hnone | ⟨k, hkeeps, hK, hk, heq⟩
    · exact .inl hnone
    · obtain rfl : k = newFl := hk.resolve_left fun hk => not_mem_nil hk.1
      refine .inr ⟨k, hkeeps, hK, .inr rfl, ?_, ?_, ?_⟩
      · rw [hmreq, update_of_ne hfresh.ne]
        exact heq
      · exact fun hl => hfresh.ne (some.inj hl).symm
      · exact fun hr => hfresh.not_mem (some.inj hr ▸ hfl)

include hown in
lemma Stops.installed (h : Stops mem req pre A C Q w)
    (hfresh : Fresh req (A ++ C ++ Q) newFl newFl2)
    (hnew : w.added = false → (mem req).flType ≠ .unlck) (post : List ℕ) :
    ∃ own', (install w (Q ++ post) newFl newFl2).2 = pre ++ own' ++ post ∧
      Installed mem (install w (Q ++ post) newFl newFl2).1 req (A ++ C ++ Q) own' newFl newFl2 := by
  cases h with
  | free h hafter =>
    unfold install trimRight
    rw [insertNew_eq, h.right_eq]
    dsimp only
    rw [trimLeft_eq]
    refine ⟨_, ?_, h.installed hown (List.Subset.refl C) hfresh (h.patches_free hown hafter)
      nofun (fun hne => (h.added_of_ne hne).1) h.of_added hnew⟩
    rw [h.passed_eq]
    unfold requestLock
    simp
  | @right w fl Q' h hQ hn htype hstart hend hle =>
    subst hQ
    have hp := h.patches_right hown hn htype hstart hend hle
    have hadded : w.request ≠ req →
        (w.added || decide ((w.mem w.request).flType = .unlck)) = true := fun hne => by
      rw [(h.added_of_ne hne).1, Bool.true_or]
    have hof : (w.added || decide ((w.mem w.request).flType = .unlck)) = true →
        w.request ≠ req ∨ (mem req).flType = .unlck := fun hor => by
      rw [h.type_eq, Bool.or_eq_true, decide_eq_true_eq] at hor
      exact hor.elim h.of_added .inr
    rw [show A ++ C ++ fl :: Q' = A ++ (C ++ [fl]) ++ Q' by simp] at hown hfresh ⊢
    by_cases hlt : (mem fl).flStart < (w.mem w.request).flStart
    · obtain ⟨rfl, hreq, hleft⟩ := h.untouched hn hlt
      rw [if_pos hlt] at hp hnew ⊢
      have hne : newFl2 ≠ fl := fun heq => hfresh.not_mem2 (heq ▸ by simp)
      rw [install_of_eq (w := { w with added := _, left := some fl, right := some fl }) rfl rfl
        hn.ne_request.symm hne]
      dsimp only
      refine ⟨_, ?_, h.installed_split hown hfresh hp
        (fun hor => (hof hor).resolve_left fun hne => hne hreq) hnew⟩
      rw [h.passed_eq, hleft, hreq]
      unfold requestLock
      simp
    · rw [if_neg hlt] at hp hnew ⊢
      have hleft : w.left ≠ some fl := fun heq => hn.not_mem (h.left_spec fl heq).1
      rw [install_of_ne (w := { w with added := _, right := some fl }) rfl hleft hn.ne_request.symm]
      dsimp only
      refine ⟨_, ?_, h.installed hown (subset_append_left C [fl]) hfresh hp (fun l hl => ?_)
        hadded hof hnew⟩
      · rw [h.passed_eq]
        unfold requestLock
        simp
      · cases hl
        exact ⟨by simp, hn.not_mem, hn.ne_req⟩

lemma install_congr {a' b b' : ℕ} (ha : w.added = false → a = a')
    (hb : w.right ≠ none → w.left = w.right → b = b') (rest : List ℕ) :
    install w rest a b = install w rest a' b' := by
  have hinsert : insertNew w rest a = insertNew w rest a' := by
    rw [insertNew_eq, insertNew_eq]
    unfold withNew
    cases hadded : w.added with
    | true => rfl
    | false => rw [ha hadded]
  have htrim : ∀ (m : ℕ → FileLock ω) l,
      trimRight { w with mem := m } l b = trimRight { w with mem := m } l b' := by
    intro m l
    unfold trimRight
    cases hright : w.right with
    | none => rfl
    | some r =>
      dsimp only
      by_cases hleft : w.left = some r
      · rw [hb (by simp [hright]) (hleft.trans hright.symm)]
      · rw [if_neg hleft, if_neg hleft]
  unfold install
  rw [hinsert, insertNew_eq]
  dsimp only
  rw [htrim]

include hown in
lemma Stops.unlocked (h : Stops mem req pre A C Q w)
    (hadded : w.added = false) (htype : (w.mem w.request).flType = .unlck)
    (hfresh : Fresh req (A ++ C ++ Q) newFl newFl2) (post : List ℕ) :
    (mem req).flType = .unlck ∧ w.passed ++ (Q ++ post) = pre ++ (A ++ C ++ Q) ++ post ∧
      (∀ a, a ≠ req → w.mem a = mem a) ∧
      Installed mem w.mem req (A ++ C ++ Q) (A ++ C ++ Q) newFl newFl2 := by
  cases h with
  | right h =>
    rw [htype, decide_eq_true rfl, Bool.or_true] at hadded
    cases hadded
  | free h hafter =>
    have hunlck : (mem req).flType = .unlck := h.type_eq.symm.trans htype
    have hC : C = [] := by
      by_contra hne
      rw [h.unlck_added hunlck hne] at hadded
      cases hadded
    subst hC
    have hleft : w.left = none := by
      have hkept := h.kept hadded
      cases hl : w.left with
      | none => rfl
      | some l => simp [hl] at hkept
    have hreq := h.request_eq hadded
    have hkeeps : keeps mem req = false := by simp [keeps, hunlck]
    have hp := h.patches_free hown hafter
    rw [hleft] at hp
    have hmem : ∀ a ∈ A ++ [] ++ Q, w.mem a = mem a := fun a ha =>
      h.frame a not_mem_nil fun heq => hown.not_mem (heq ▸ ha)
    refine ⟨hunlck, ?_, fun a => h.frame a not_mem_nil, ?_, hown.nodup,
      fun a ha => .inl ha, fun a _ hne _ _ => h.frame a not_mem_nil hne⟩
    · rw [h.passed_eq, hleft, if_pos hreq]
      simp
    · refine granted_of (L := []) (K := []) (R := []) hown hp h.type_eq (fun a ha => ?_)
        (fun a ha => ?_) rfl ?_ rfl fun a ha => absurd ha (by simp)
      · exact hmem a (by simp [ha])
      · exact hmem a (by simp [ha])
      · rw [hkeeps]
        rfl

lemma Stops.unsplit (h : Stops mem req pre A C Q w) (hright : w.right ≠ none)
    (hleft : w.left = w.right) (post : List ℕ) :
    w.passed ++ (Q ++ post) = pre ++ (A ++ C ++ Q) ++ post ∧ (∀ a, a ≠ req → w.mem a = mem a) ∧
      ∃ fl ∈ A ++ C ++ Q, (mem fl).flStart < (mem req).flStart ∧
        (mem req).flEnd < (mem fl).flEnd := by
  cases h with
  | free h => exact absurd h.right_eq hright
  | @right w fl Q' h hQ hn htype hstart hend hle =>
    subst hQ
    by_cases hlt : (mem fl).flStart < (w.mem w.request).flStart
    · obtain ⟨rfl, hreq, hnone⟩ := h.untouched hn hlt
      obtain ⟨hs, he⟩ := h.range_eq hreq
      refine ⟨?_, fun a => h.frame a not_mem_nil, fl, by simp, ?_, ?_⟩
      · rw [h.passed_eq, hnone, if_pos hreq]
        simp
      · rwa [hreq, hs] at hlt
      · rwa [hreq, he] at hend
    · rw [if_neg hlt] at hleft
      exact absurd (h.left_spec fl hleft).1 hn.not_mem

include h in
lemma Walked.unadded (hadded : w.added = false) :
    w.passed = pre ++ A ++ C ∧ ∀ a, a ≠ req → w.mem a = mem a := by
  have hkept := h.kept hadded
  refine ⟨?_, fun a hne => ?_⟩
  · rw [h.passed_eq, if_pos (h.request_eq hadded), hkept, append_nil]
  · by_cases ha : a ∈ C
    · rw [hkept, mem_toList] at ha
      exact (h.left_spec a ha).2.2.1
    · exact h.frame a ha hne

lemma Stops.unadded (h : Stops mem req pre A C Q w) (hadded : w.added = false) (post : List ℕ) :
    w.passed ++ (Q ++ post) = pre ++ (A ++ C ++ Q) ++ post ∧ ∀ a, a ≠ req → w.mem a = mem a := by
  cases h with
  | free h =>
    obtain ⟨hpassed, hmem⟩ := h.unadded hadded
    refine ⟨?_, hmem⟩
    rw [hpassed]
    simp
  | right h =>
    obtain ⟨hpassed, hmem⟩ := h.unadded (Bool.or_eq_false_iff.mp hadded).1
    refine ⟨?_, hmem⟩
    rw [hpassed]
    simp

/-- How `finish` comes out. -/
inductive Finished (mem mem' : ℕ → FileLock ω) (req : ℕ) (exist : Bool) (new new2 : Option ℕ)
    (newFl newFl2 : ℕ) (own own' : List ℕ) : ℤ → Prop where
  | granted (h : Installed mem mem' req own own' newFl newFl2) :
      Finished mem mem' req exist new new2 newFl newFl2 own own' 0
  | enoent (hexist : exist = true) (htype : (mem req).flType = .unlck) (hown : own' = own)
      (hmem : ∀ a, a ≠ req → mem' a = mem a) (h : Installed mem mem' req own own' newFl newFl2) :
      Finished mem mem' req exist new new2 newFl newFl2 own own' enoent
  | enolck (hown : own' = own) (hmem : ∀ a, a ≠ req → mem' a = mem a)
      (hnew : new = none ∧ (mem req).flType ≠ .unlck ∨ new2 = none ∧
        ∃ fl ∈ own, (mem fl).flStart < (mem req).flStart ∧ (mem req).flEnd < (mem fl).flEnd) :
      Finished mem mem' req exist new new2 newFl newFl2 own own' enolck

include hown in
lemma finish_spec {new new2 : Option ℕ}
    (h : Stops mem req pre A C Q w) (hfresh : Fresh req (A ++ C ++ Q) newFl newFl2)
    (hnew : ∀ a, new = some a → a = newFl) (hnew2 : ∀ a, new2 = some a → a = newFl2)
    (exist : Bool) (post : List ℕ) :
    ∃ mem' own' e, finish w (Q ++ post) exist new new2 = (mem', pre ++ own' ++ post, e) ∧
      Finished mem mem' req exist new new2 newFl newFl2 (A ++ C ++ Q) own' e := by
  have htype : (w.mem w.request).flType = (mem req).flType := by
    cases h with
    | free h | right h => exact h.type_eq
  unfold finish
  by_cases hsplit : w.right ≠ none ∧ w.left = w.right ∧ new2 = none
  · rw [if_pos hsplit]
    obtain ⟨hright, hleft, hnone⟩ := hsplit
    obtain ⟨hlist, hmem, hstick⟩ := h.unsplit hright hleft post
    rw [hlist]
    exact ⟨_, _, _, rfl, .enolck rfl hmem (.inr ⟨hnone, hstick⟩)⟩
  rw [if_neg hsplit]
  by_cases hunlck : w.added = false ∧ (w.mem w.request).flType = .unlck
  · rw [if_pos hunlck]
    obtain ⟨hreq, hlist, hmem, hinst⟩ := h.unlocked hown hunlck.1 hunlck.2 hfresh post
    rw [hlist]
    refine ⟨_, _, _, rfl, ?_⟩
    split_ifs with hexist
    · exact .enoent hexist hreq rfl hmem hinst
    · exact .granted hinst
  rw [if_neg hunlck]
  have hkeep : w.added = false → (mem req).flType ≠ .unlck := fun hadded heq =>
    hunlck ⟨hadded, htype.trans heq⟩
  by_cases hnone : w.added = false ∧ new = none
  · rw [if_pos hnone]
    obtain ⟨hlist, hmem⟩ := h.unadded hnone.1 post
    rw [hlist]
    exact ⟨_, _, _, rfl, .enolck rfl hmem (.inl ⟨hnone.2, hkeep hnone.1⟩)⟩
  rw [if_neg hnone]
  have hgetD : ∀ (o : Option ℕ) (b : ℕ), (∀ a, o = some a → a = b) → o ≠ none → o.getD 0 = b := by
    intro o b ho hne
    obtain ⟨a, rfl⟩ := ne_none_iff_exists'.mp hne
    exact ho a rfl
  rw [install_congr (fun hadded => hgetD new newFl hnew fun heq => hnone ⟨hadded, heq⟩)
    fun hright hleft => hgetD new2 newFl2 hnew2 fun heq => hsplit ⟨hright, hleft, heq⟩]
  obtain ⟨own', hlist, hinst⟩ := h.installed hown hfresh hkeep post
  refine ⟨(install w (Q ++ post) newFl newFl2).1, own', 0, ?_, .granted hinst⟩
  rw [← hlist]

end

end Am335x.Locks
