import Mathlib.Data.List.Nodup
import Am335xKernel.Lib.CInt
import Am335xKernel.Lib.Machine
import Am335xKernel.Kernel.Interface
import Am335xKernel.Kernel.Bitmap

/-!
# Parameter RAM slots of `arch/arm/common/edma.c`

A controller has `num_slots` slots of parameter RAM; those from `num_channels`
on are allocated one at a time or in runs, and `edma_inuse` says which are. A
slot is known to its user by one number with the controller in the upper half.

`edma_free_cont_slots` takes the controller again out of the slot numbers of its
loop, where it is always 0: slots of controller 0 are released instead.
-/

namespace Am335x.Edma

open Function Nat

def edmaMaxCc : ℕ := 2

def edmaCtlrChan (ctlr chan : ℕ) : ℕ := ctlr <<< 16 ||| chan

def edmaCtlr (i : ℕ) : ℕ := i >>> 16

def edmaChanSlot (i : ℕ) : ℕ := i &&& 0xffff

variable {chan i limit num ctlr first : ℕ}

lemma edmaCtlrChan_eq (ctlr : ℕ) (h : chan < 2 ^ 16) :
    edmaCtlrChan ctlr chan = ctlr * 2 ^ 16 + chan := by
  rw [edmaCtlrChan, ← shiftLeft_add_eq_or_of_lt h, shiftLeft_eq]

@[simp] lemma edmaCtlr_ctlrChan (ctlr : ℕ) (h : chan < 2 ^ 16) :
    edmaCtlr (edmaCtlrChan ctlr chan) = ctlr := by
  rw [edmaCtlrChan_eq ctlr h, edmaCtlr, shiftRight_eq_div_pow]
  omega

@[simp] lemma edmaChanSlot_ctlrChan (ctlr : ℕ) (h : chan < 2 ^ 16) :
    edmaChanSlot (edmaCtlrChan ctlr chan) = chan := by
  rw [edmaCtlrChan_eq ctlr h, edmaChanSlot, and_two_pow_sub_one_eq_mod _ 16]
  omega

lemma edmaCtlr_of_lt (h : i < 2 ^ 16) : edmaCtlr i = 0 := by
  rw [edmaCtlr, shiftRight_eq_div_pow]
  omega

lemma edmaChanSlot_of_lt (h : i < 2 ^ 16) : edmaChanSlot i = i := by
  rw [edmaChanSlot, and_two_pow_sub_one_eq_mod _ 16]
  omega

/-- The variables of the loop in `reserve_contiguous_slots`. -/
structure Scan where
  i : ℕ
  count : ℕ
  stop : ℕ
  inuse : Bitmap
  tmp : Bitmap

/-- The loop; `limit` is the number of slots of the controller. The scratch
bitmap is not initialised. -/
def scan (exact : Bool) (limit num : ℕ) (s : Scan) : Scan :=
  if s.i < limit then
    let j := edmaChanSlot s.i
    if s.inuse j = false then
      let s' : Scan :=
        { s with
          inuse := s.inuse.set j 1
          stop := if s.count = num then s.i else s.stop
          count := s.count - 1
          tmp := s.tmp.set j 1 }
      if s'.count = 0 then s' else scan exact limit num { s' with i := s.i + 1 }
    else
      let s' := { s with tmp := s.tmp.clear j 1 }
      if exact then { s' with stop := s.i }
      else scan exact limit num { s' with i := s.i + 1, count := num }
  else s
termination_by limit - s.i

def rollback (tmp inuse : Bitmap) (start stop : ℕ) : Bitmap :=
  (List.range' start (stop - start)).foldl
    (fun inuse j => if tmp j then inuse.clear j 1 else inuse) inuse

/-- `reserve_contiguous_slots`: the bitmap and the first slot of the run. -/
def reserveContiguousSlots (exact : Bool) (limit num start : ℕ) (inuse tmp : Bitmap) :
    Bitmap × Option ℕ :=
  let s := scan exact limit num
    { i := start, count := num, stop := start, inuse := inuse, tmp := tmp }
  let stop := if s.i = limit then s.i else s.stop
  let inuse := rollback s.tmp s.inuse start stop
  if s.count ≠ 0 then (inuse, none) else (inuse, some (s.i + 1 - num))

def FreeRun (inuse : Bitmap) (limit first num : ℕ) : Prop :=
  first + num ≤ limit ∧ ∀ k, first ≤ k → k < first + num → inuse k = false

structure LowestRun (exact : Bool) (inuse : Bitmap) (limit num start first : ℕ) : Prop where
  start_le : start ≤ first
  free : FreeRun inuse limit first num
  lowest : ∀ f, start ≤ f → f < first → ¬ FreeRun inuse limit f num
  at_start : exact = true → first = start

/-- The loop has scanned from `start` to `s.i`: it has taken all it could, and
the last `num - s.count` slots were free. -/
structure Scanned (exact : Bool) (limit num start : ℕ) (b : Bitmap) (s : Scan) : Prop where
  start_le : start + (num - s.count) ≤ s.i
  bound : s.i ≤ limit ∨ s.i = start
  taken : ∀ k, s.inuse k = (b k || decide (start ≤ k ∧ k < s.i))
  mine : ∀ k, start ≤ k → k < s.i → s.tmp k = !b k
  count_pos : 0 < s.count
  count_le : s.count ≤ num
  free : ∀ k, s.i - (num - s.count) ≤ k → k < s.i → b k = false
  stop_eq : s.count < num ∨ s.i = start → s.stop = s.i - (num - s.count)
  lowest : ∀ f, start ≤ f → f < s.i - (num - s.count) → ¬ FreeRun b limit f num
  at_start : exact = true → s.i = start + (num - s.count)

/-- How the loop ends: with a run that ends at `i`, at the limit, or, if the run
has to be at the start, at a slot in use. Slot `i` itself is taken, too, unless
it is the limit. -/
structure Ended (exact : Bool) (limit num start : ℕ) (b : Bitmap) (s : Scan) : Prop where
  taken : ∀ k, s.inuse k = (b k || decide (start ≤ k ∧ k ≤ s.i ∧ k < limit))
  mine : ∀ k, start ≤ k → k ≤ s.i → k < limit → s.tmp k = !b k
  found : s.count = 0 → s.i < limit ∧ s.i + 1 = s.stop + num ∧
    LowestRun exact b limit num start s.stop
  not_found : s.count ≠ 0 →
    (∀ first, start ≤ first → (exact = true → first = start) → ¬ FreeRun b limit first num) ∧
      (s.i = limit ∨ (limit ≤ start ∧ s.stop = start) ∨
        (s.i < limit ∧ s.stop = s.i ∧ b s.i = true))

section

variable {exact : Bool} {limit num start : ℕ} {b : Bitmap} {s : Scan}

lemma Scanned.inuse_i (h : Scanned exact limit num start b s) : s.inuse s.i = b s.i := by
  rw [h.taken]
  simp

def Scan.take (s : Scan) (num : ℕ) : Scan :=
  { s with
    inuse := s.inuse.set s.i 1
    stop := if s.count = num then s.i else s.stop
    count := s.count - 1
    tmp := s.tmp.set s.i 1 }

section

variable (h : Scanned exact limit num start b s)
include h

lemma Scanned.take_stop : (s.take num).stop = s.i - (num - s.count) := by
  show (if s.count = num then s.i else s.stop) = _
  have hle := h.count_le
  split
  · omega
  · exact h.stop_eq (.inl (by omega))

lemma Scanned.take_taken (k : ℕ) :
    (s.take num).inuse k = (b k || decide (start ≤ k ∧ k < s.i + 1)) := by
  show (if s.i ≤ k ∧ k < s.i + 1 then true else s.inuse k) = _
  have hstart := h.start_le
  rw [h.taken k]
  by_cases hk : k = s.i
  · rw [if_pos (by omega), decide_eq_true (by omega), Bool.or_true]
  · rw [if_neg (by omega)]
    congr 2
    rw [eq_iff_iff]
    omega

lemma Scanned.mine_succ (v : Bool) (hi : s.inuse s.i = !v) (k : ℕ) (hstart : start ≤ k)
    (hk : k < s.i + 1) : (if s.i ≤ k ∧ k < s.i + 1 then v else s.tmp k) = !b k := by
  by_cases heq : k = s.i
  · rw [if_pos (by omega), heq, ← h.inuse_i, hi, Bool.not_not]
  · rw [if_neg (by omega)]
    exact h.mine k hstart (by omega)

lemma Scanned.take_free (hfree : s.inuse s.i = false)
    (k : ℕ) (hlo : s.i - (num - s.count) ≤ k) (hk : k < s.i + 1) : b k = false := by
  rcases Nat.lt_succ_iff_lt_or_eq.mp hk with hlt | rfl
  · exact h.free k hlo hlt
  · rw [← h.inuse_i, hfree]

lemma Scanned.take (hi : s.i < limit) (hfree : s.inuse s.i = false) (hmore : s.count - 1 ≠ 0) :
    Scanned exact limit num start b { s.take num with i := s.i + 1 } := by
  have hstart := h.start_le
  have hle := h.count_le
  -- the run begins where it did
  have hbegin : s.i + 1 - (num - (s.count - 1)) = s.i - (num - s.count) := by omega
  refine ⟨?_, .inl hi, h.take_taken, h.mine_succ true hfree, ?_, ?_, ?_, ?_, ?_, ?_⟩
  · show start + (num - (s.count - 1)) ≤ s.i + 1
    omega
  · show 0 < s.count - 1
    omega
  · show s.count - 1 ≤ num
    omega
  · intro k hlo hk
    exact h.take_free hfree k (hbegin ▸ hlo) hk
  · intro _
    exact h.take_stop.trans hbegin.symm
  · intro f hf hlt
    exact h.lowest f hf (hbegin ▸ hlt)
  · intro hexact
    show s.i + 1 = start + (num - (s.count - 1))
    have heq := h.at_start hexact
    omega

lemma Scanned.found (hi : s.i < limit) (hfree : s.inuse s.i = false) (hlast : s.count - 1 = 0) :
    Ended exact limit num start b (s.take num) := by
  have hstart := h.start_le
  have hpos := h.count_pos
  have hle := h.count_le
  have hstop := h.take_stop
  refine ⟨?_, ?_, ?_, fun hcount => absurd hlast hcount⟩
  · intro k
    rw [h.take_taken k]
    congr 2
    rw [eq_iff_iff]
    show _ ↔ start ≤ k ∧ k ≤ s.i ∧ k < limit
    omega
  · intro k hk hki _
    exact h.mine_succ true hfree k hk (lt_succ_of_le hki)
  · intro _
    rw [hstop]
    refine ⟨hi, ?_, ?_, ⟨?_, ?_⟩, h.lowest, ?_⟩
    · show s.i + 1 = _
      omega
    · omega
    · omega
    · intro k hlo hk
      exact h.take_free hfree k hlo (by omega)
    · intro hexact
      have heq := h.at_start hexact
      omega

lemma Scanned.not_freeRun (hused : b s.i = true)
    {f : ℕ} (hf : start ≤ f) (hfi : f ≤ s.i) : ¬ FreeRun b limit f num := by
  rcases lt_or_ge f (s.i - (num - s.count)) with hlt | hge
  · exact h.lowest f hf hlt
  · rintro ⟨_, hrun⟩
    have hpos := h.count_pos
    have hle := h.count_le
    rw [hrun s.i hfi (by omega)] at hused
    cases hused

lemma Scanned.clear_taken (hused : s.inuse s.i = true)
    (k : ℕ) : s.inuse k = (b k || decide (start ≤ k ∧ k < s.i + 1)) := by
  by_cases heq : k = s.i
  · rw [heq, hused, ← h.inuse_i, hused, Bool.true_or]
  · rw [h.taken k]
    congr 2
    rw [eq_iff_iff]
    omega

lemma Scanned.skip (hi : s.i < limit)
    (hused : s.inuse s.i = true) (hexact : exact = false) : Scanned exact limit num start b
      { s with i := s.i + 1, count := num, tmp := s.tmp.clear s.i 1 } := by
  have hstart := h.start_le
  have hpos := h.count_pos
  have hle := h.count_le
  refine ⟨?_, .inl hi, h.clear_taken hused, h.mine_succ false hused, ?_, le_rfl, ?_, ?_, ?_, ?_⟩
  · show start + (num - num) ≤ s.i + 1
    omega
  · show 0 < num
    omega
  · intro k (hlo : s.i + 1 - (num - num) ≤ k) (hk : k < s.i + 1)
    omega
  · show num < num ∨ s.i + 1 = start → _
    omega
  · intro f hf (hlt : f < s.i + 1 - (num - num))
    exact h.not_freeRun (h.inuse_i ▸ hused) hf (by omega)
  · intro htrue
    rw [hexact] at htrue
    cases htrue

lemma Scanned.blocked (hi : s.i < limit) (hused : s.inuse s.i = true) (hexact : exact = true) :
    Ended exact limit num start b { s with tmp := s.tmp.clear s.i 1, stop := s.i } := by
  have hpos := h.count_pos
  refine ⟨?_, ?_, ?_, ?_⟩
  · intro k
    rw [h.clear_taken hused k]
    congr 2
    rw [eq_iff_iff]
    show _ ↔ start ≤ k ∧ k ≤ s.i ∧ k < limit
    omega
  · intro k hk hki _
    exact h.mine_succ false hused k hk (lt_succ_of_le hki)
  · intro (hzero : s.count = 0)
    omega
  · intro _
    have hbit : b s.i = true := h.inuse_i ▸ hused
    refine ⟨?_, .inr (.inr ⟨hi, rfl, hbit⟩)⟩
    intro first hfirst hat
    have heq := hat hexact
    have hstart := h.start_le
    exact h.not_freeRun hbit hfirst (by omega)

lemma Scanned.exhausted (hi : ¬ s.i < limit) : Ended exact limit num start b s := by
  have hpos := h.count_pos
  have hle := h.count_le
  have hstart := h.start_le
  have hbound := h.bound
  refine ⟨?_, ?_, fun hzero => absurd hzero hpos.ne', ?_⟩
  · intro k
    rw [h.taken k]
    congr 2
    rw [eq_iff_iff]
    omega
  · intro k hk _ hlimit
    exact h.mine k hk (by omega)
  · intro _
    constructor
    · intro first hfirst _ hrun
      rcases lt_or_ge first (s.i - (num - s.count)) with hlt | hge
      · exact h.lowest first hfirst hlt hrun
      · -- a run from here on would end behind the limit
        have hfits := hrun.1
        omega
    · rcases hbound with hb | hb
      · exact .inl (by omega)
      · have hstop := h.stop_eq (.inr hb)
        exact .inr (.inl ⟨by omega, by omega⟩)

end

lemma scan_ended (hlimit : limit ≤ 512) (h : Scanned exact limit num start b s) :
    Ended exact limit num start b (scan exact limit num s) := by
  fun_induction scan exact limit num s with
  | case1 s hi j hfree s' hlast =>
    have hj : j = s.i := edmaChanSlot_of_lt (by omega)
    have hs' : s' = s.take num := by
      simp only [s', hj]
      rfl
    rw [hs'] at hlast ⊢
    exact h.found hi (hj ▸ hfree) hlast
  | case2 s hi j hfree s' hmore ih =>
    have hj : j = s.i := edmaChanSlot_of_lt (by omega)
    have hs' : s' = s.take num := by
      simp only [s', hj]
      rfl
    apply ih
    rw [hs'] at hmore ⊢
    exact h.take hi (hj ▸ hfree) hmore
  | case3 s hi j hused s' hexact =>
    have hj : j = s.i := edmaChanSlot_of_lt (by omega)
    simp only [s', hj]
    exact h.blocked hi (by simpa [hj] using hused) hexact
  | case4 s hi j hused s' hexact ih =>
    have hj : j = s.i := edmaChanSlot_of_lt (by omega)
    apply ih
    simp only [s', hj]
    exact h.skip hi (by simpa [hj] using hused) (by simpa using hexact)
  | case5 s hi => exact h.exhausted hi

lemma scanned_start (hnum : 0 < num) (tmp : Bitmap) : Scanned exact limit num start b
      { i := start, count := num, stop := start, inuse := b, tmp := tmp } where
  start_le := by simp
  bound := .inr rfl
  taken := by
    intro k
    show b k = (b k || decide (start ≤ k ∧ k < start))
    rw [decide_eq_false (by omega), Bool.or_false]
  mine := by
    intro k hk (hlt : k < start)
    omega
  count_pos := hnum
  count_le := le_rfl
  free := by
    intro k (hlo : start - (num - num) ≤ k) (hlt : k < start)
    omega
  stop_eq := by simp
  lowest := by
    intro f hf (hlt : f < start - (num - num))
    omega
  at_start := by simp

end

lemma foldl_clear (tmp inuse : Bitmap) (js : List ℕ) (k : ℕ) :
    js.foldl (fun inuse j => if tmp j then inuse.clear j 1 else inuse) inuse k =
      (inuse k && !(tmp k && decide (k ∈ js))) := by
  induction js generalizing inuse with
  | nil => simp
  | cons j js ih =>
    have hclear : (if tmp j then Bitmap.clear inuse j 1 else inuse) k =
        (inuse k && !(tmp k && decide (k = j))) := by
      by_cases hj : k = j
      · subst hj
        cases htmp : tmp k <;> simp [Bitmap.clear]
      · have hnot : ¬ (j ≤ k ∧ k < j + 1) := by omega
        cases htmp : tmp j with
        | false => simp [hj]
        | true => simp [Bitmap.clear, hnot, hj]
    rw [List.foldl_cons, ih, hclear]
    simp only [List.mem_cons, Bool.decide_or]
    cases inuse k <;> cases tmp k <;> simp

lemma rollback_apply (tmp inuse : Bitmap) (start stop k : ℕ) : rollback tmp inuse start stop k =
      (inuse k && !(tmp k && decide (start ≤ k ∧ k < stop))) := by
  unfold rollback
  rw [foldl_clear]
  congr 4
  rw [List.mem_range'_1, eq_iff_iff]
  omega

lemma Ended.rollback_apply {exact : Bool} {start : ℕ} {b : Bitmap} {s : Scan}
    (h : Ended exact limit num start b s) {stop : ℕ} (hi : stop ≤ s.i + 1 ∨ stop ≤ start)
    (hlimit : stop ≤ limit ∨ stop ≤ start) (k : ℕ) : rollback s.tmp s.inuse start stop k =
      (b k || decide (stop ≤ k ∧ start ≤ k ∧ k ≤ s.i ∧ k < limit)) := by
  rw [Edma.rollback_apply, h.taken k]
  by_cases hk : start ≤ k ∧ k < stop
  · rw [h.mine k hk.1 (by omega) (by omega), decide_eq_true (by omega), decide_eq_true hk,
      decide_eq_false (by omega)]
    cases b k <;> rfl
  · rw [decide_eq_false hk, Bool.and_false, Bool.not_false, Bool.and_true]
    congr 2
    rw [eq_iff_iff]
    omega

/-- **Reserving a run.** The lowest one there is, and nothing else is marked;
or there is none, and nothing is marked. -/
lemma reserve_spec (exact : Bool) (hlimit : limit ≤ 512) (hnum : 0 < num) (start : ℕ)
    (b tmp : Bitmap) : (∃ first, LowestRun exact b limit num start first ∧
        reserveContiguousSlots exact limit num start b tmp = (b.set first num, some first)) ∨
      ((∀ first, start ≤ first → (exact = true → first = start) → ¬ FreeRun b limit first num) ∧
        reserveContiguousSlots exact limit num start b tmp = (b, none)) := by
  have hend : Ended exact limit num start b _ := scan_ended hlimit (scanned_start hnum tmp)
  unfold reserveContiguousSlots
  generalize scan exact limit num _ = s at hend
  by_cases hcount : s.count = 0
  · obtain ⟨hi, hlast, hrun⟩ := hend.found hcount
    have hstart := hrun.start_le
    have hfirst : s.i + 1 - num = s.stop := by omega
    refine .inl ⟨s.stop, hrun, ?_⟩
    rw [if_neg (not_not.mpr hcount), if_neg hi.ne, hfirst, Prod.mk.injEq]
    refine ⟨funext fun k => ?_, rfl⟩
    rw [hend.rollback_apply (.inl (by omega)) (.inl (by omega))]
    -- what is left are the slots from `stop` to `i`: the run
    show _ = if s.stop ≤ k ∧ k < s.stop + num then true else b k
    by_cases hk : s.stop ≤ k ∧ k < s.stop + num
    · rw [if_pos hk, decide_eq_true (by omega), Bool.or_true]
    · rw [if_neg hk, decide_eq_false (by omega), Bool.or_false]
  · obtain ⟨hnone, hwhere⟩ := hend.not_found hcount
    refine .inr ⟨hnone, ?_⟩
    rw [if_pos hcount, Prod.mk.injEq]
    refine ⟨funext fun k => ?_, rfl⟩
    rcases hwhere with hi | ⟨hlow, hstop⟩ | ⟨hi, hstop, hused⟩
    · rw [if_pos hi, hend.rollback_apply (.inl (by omega)) (.inl (by omega)),
        decide_eq_false (by omega), Bool.or_false]
    · have hempty : (if s.i = limit then s.i else s.stop) ≤ start := by
        split <;> omega
      rw [hend.rollback_apply (.inr hempty) (.inr hempty), decide_eq_false (by omega),
        Bool.or_false]
    · rw [if_neg hi.ne, hend.rollback_apply (.inl (by omega)) (.inl (by omega))]
      -- slot `i` was in use before
      by_cases hk : k = s.i
      · rw [hk, hused, Bool.true_or]
      · rw [decide_eq_false (by omega), Bool.or_false]

/-- `struct edma`; `num_slots` is cut to `EDMA_MAX_PARAMENTRY` by the probe. -/
structure Cc where
  numChannels : ℕ
  numSlots : ℕ
  inuse : Bitmap
  numSlots_le : numSlots ≤ 512

namespace Cc

def hasSlot (c : Cc) (k : ℕ) : Prop := c.numChannels ≤ k ∧ k < c.numSlots

def setSlots (c : Cc) (first num : ℕ) : Cc := { c with inuse := c.inuse.set first num }

def clearSlots (c : Cc) (first num : ℕ) : Cc := { c with inuse := c.inuse.clear first num }

section

variable (c : Cc)

lemma clearSlots_zero (first : ℕ) : c.clearSlots first 0 = c := by
  have hinuse : c.inuse.clear first 0 = c.inuse := by
    funext k
    exact if_neg (by omega)
  rw [clearSlots, hinuse]

lemma clearSlots_clearSlots (first num : ℕ) :
    (c.clearSlots first 1).clearSlots (first + 1) num = c.clearSlots first (num + 1) := by
  have hinuse : (c.inuse.clear first 1).clear (first + 1) num = c.inuse.clear first (num + 1) := by
    funext k
    show (if _ then false else if _ then false else c.inuse k) = if _ then false else c.inuse k
    split_ifs <;> first | rfl | omega
  simp [clearSlots, hinuse]

end

end Cc

/-- `edma_alloc_slot`. The bit that the search finds is free, so that
`test_and_set_bit` ends the loop of the source at once. -/
def edmaAllocSlot (cc : ℕ → Cc) (ctlr : ℕ) (slot : ℤ) : (ℕ → Cc) × ℤ :=
  let c := cc ctlr
  if slot < 0 then
    let slot := c.inuse.findNextZeroBit c.numSlots c.numChannels
    if slot = c.numSlots then (cc, enomem)
    else (update cc ctlr (c.setSlots slot 1), edmaCtlrChan ctlr slot)
  else
    let slot := edmaChanSlot slot.toNat
    if slot < c.numChannels ∨ c.numSlots ≤ slot then (cc, einval)
    else if c.inuse slot then (cc, ebusy)
    else (update cc ctlr (c.setSlots slot 1), edmaCtlrChan ctlr slot)

def edmaFreeSlot (cc : ℕ → Cc) (slot : ℕ) : ℕ → Cc :=
  let ctlr := edmaCtlr slot
  let slot := edmaChanSlot slot
  if slot < (cc ctlr).numChannels ∨ (cc ctlr).numSlots ≤ slot then cc
  else update cc ctlr ((cc ctlr).clearSlots slot 1)

/-- The `id` of `edma_alloc_cont_slots`. -/
inductive ContId where
  | any
  | fixedExact
  | fixedNotExact
  | other
  deriving DecidableEq

/-- The result of `reserve_contiguous_slots` with the controller. -/
def reserve (cc : ℕ → Cc) (ctlr : ℕ) (id : ContId) (num start : ℕ) (tmp : Bitmap) :
    (ℕ → Cc) × ℤ :=
  let c := cc ctlr
  match reserveContiguousSlots (id = .fixedExact) c.numSlots num start c.inuse tmp with
  | (inuse, some first) =>
    (update cc ctlr { c with inuse := inuse }, edmaCtlrChan ctlr first)
  | (inuse, none) => (update cc ctlr { c with inuse := inuse }, ebusy)

/-- `edma_alloc_cont_slots`. The comparisons with `num_channels` and `num_slots`
are unsigned. `tmp` is what the scratch bitmap happens to hold. -/
def edmaAllocContSlots (cc : ℕ → Cc) (ctlr : ℕ) (id : ContId) (slot count : ℤ) (tmp : Bitmap) :
    (ℕ → Cc) × ℤ :=
  let c := cc ctlr
  if id ≠ .any ∧ (CInt.toU32 slot < c.numChannels ∨ c.numSlots ≤ CInt.toU32 slot) then
    (cc, einval)
  else if count < 1 ∨ CInt.toU32 (c.numSlots - c.numChannels) < count.toNat then (cc, einval)
  else
    match id with
    | .any => reserve cc ctlr id count.toNat c.numChannels tmp
    | .fixedExact => reserve cc ctlr id count.toNat (CInt.toU32 slot) tmp
    | .fixedNotExact => reserve cc ctlr id count.toNat (CInt.toU32 slot) tmp
    | .other => (cc, einval)

/-- `edma_free_cont_slots`. The loop takes the controller from the slot number,
which is without it by then. -/
def edmaFreeContSlots (cc : ℕ → Cc) (slot : ℕ) (count : ℤ) : (ℕ → Cc) × ℤ :=
  let ctlr := edmaCtlr slot
  let slot := edmaChanSlot slot
  if slot < (cc ctlr).numChannels ∨ (cc ctlr).numSlots ≤ slot ∨ count < 1 then (cc, einval)
  else
    ((List.range' slot count.toNat).foldl
      (fun cc i =>
        let ctlr := edmaCtlr i
        update cc ctlr ((cc ctlr).clearSlots (edmaChanSlot i) 1))
      cc, 0)

/-- A request has taken the slots from `first` on. -/
structure Takes (cc : ℕ → Cc) (ctlr first num : ℕ) (r : (ℕ → Cc) × ℤ) : Prop where
  cc_eq : r.1 = update cc ctlr ((cc ctlr).setSlots first num)
  result : r.2 = edmaCtlrChan ctlr first

structure Fails (cc : ℕ → Cc) (r : (ℕ → Cc) × ℤ) : Prop where
  cc_eq : r.1 = cc
  result : r.2 < 0

variable {cc : ℕ → Cc}

lemma Fails.of_errno {errno : ℤ} (h : errno < 0) : Fails cc (cc, errno) where
  cc_eq := rfl
  result := h

lemma findSlot_cases (c : Cc) : (c.inuse.findNextZeroBit c.numSlots c.numChannels = c.numSlots ∧
        ∀ k, c.hasSlot k → c.inuse k = true) ∨
      (c.hasSlot (c.inuse.findNextZeroBit c.numSlots c.numChannels) ∧
        c.inuse (c.inuse.findNextZeroBit c.numSlots c.numChannels) = false ∧
        ∀ j, c.numChannels ≤ j → j < c.inuse.findNextZeroBit c.numSlots c.numChannels →
          c.inuse j = true) := by
  rcases lt_or_ge c.numSlots c.numChannels with hlt | hle
  · -- a controller without slots to allocate
    refine .inl ⟨?_, ?_⟩
    · rw [Bitmap.findNextZeroBit, Bitmap.findNextBit, if_neg (by omega)]
    · rintro k ⟨hlo, hhi⟩
      omega
  · rcases Bitmap.findNextZeroBit_cases c.inuse hle with ⟨heq, hfull⟩ | ⟨hlo, hhi, hfree⟩
    · exact .inl ⟨heq, fun k hk => hfull k hk.1 hk.2⟩
    · refine .inr ⟨⟨hlo, hhi⟩, hfree, ?_⟩
      intro j hj hlt
      simpa using Bitmap.not_of_lt_findNextBit hj hlt (by omega)

/-- **A single slot.** The one asked for or the lowest free one; a request fails
only if that is in use, there is none, or it is not a slot to be allocated. -/
lemma alloc_slot_spec (cc : ℕ → Cc) (ctlr : ℕ) (slot : ℤ) :
    (∃ k, (cc ctlr).hasSlot k ∧ (cc ctlr).inuse k = false ∧
        (0 ≤ slot → k = edmaChanSlot slot.toNat) ∧
        (slot < 0 → ∀ j, (cc ctlr).numChannels ≤ j → j < k → (cc ctlr).inuse j = true) ∧
        Takes cc ctlr k 1 (edmaAllocSlot cc ctlr slot)) ∨
      ((∀ k, (cc ctlr).hasSlot k → (0 ≤ slot → k = edmaChanSlot slot.toNat) →
          (cc ctlr).inuse k = true) ∧ Fails cc (edmaAllocSlot cc ctlr slot)) := by
  unfold edmaAllocSlot
  rcases lt_or_ge slot 0 with hneg | hpos
  · rw [if_pos hneg]
    rcases findSlot_cases (cc ctlr) with ⟨heq, hfull⟩ | ⟨hslot, hfree, hlowest⟩
    · rw [if_pos heq]
      exact .inr ⟨fun k hk _ => hfull k hk, .of_errno (by decide)⟩
    · rw [if_neg hslot.2.ne]
      exact .inl ⟨_, hslot, hfree, fun h => absurd hneg (by omega), fun _ => hlowest, rfl, rfl⟩
  · rw [if_neg (by omega)]
    generalize edmaChanSlot slot.toNat = k
    by_cases hk : k < (cc ctlr).numChannels ∨ (cc ctlr).numSlots ≤ k
    · rw [if_pos hk]
      refine .inr ⟨?_, .of_errno (by decide)⟩
      rintro j ⟨hlo, hhi⟩ hj
      have hjk := hj hpos
      omega
    · rw [if_neg hk]
      cases hbit : (cc ctlr).inuse k with
      | true =>
        refine .inr ⟨?_, .of_errno (by decide)⟩
        intro j _ hj
        rw [hj hpos, hbit]
      | false =>
        exact .inl ⟨k, ⟨by omega, by omega⟩, hbit, fun _ => rfl, fun h => absurd h (by omega),
          rfl, rfl⟩

def ContId.start (id : ContId) (c : Cc) (slot : ℤ) : ℕ :=
  if id = .any then c.numChannels else CInt.toU32 slot

structure ContId.Valid (id : ContId) (c : Cc) (slot count : ℤ) : Prop where
  known : id ≠ .other
  slot : id ≠ .any → c.hasSlot (CInt.toU32 slot)
  count_pos : 1 ≤ count
  count_le : count.toNat ≤ CInt.toU32 (c.numSlots - c.numChannels)

lemma ContId.valid_iff (id : ContId) (c : Cc) (slot count : ℤ) :
    id.Valid c slot count ↔ id ≠ .other ∧
      ¬ (id ≠ .any ∧ (CInt.toU32 slot < c.numChannels ∨ c.numSlots ≤ CInt.toU32 slot)) ∧
      ¬ (count < 1 ∨ CInt.toU32 (c.numSlots - c.numChannels) < count.toNat) := by
  constructor
  · rintro ⟨hknown, hslot, hpos, hle⟩
    refine ⟨hknown, ?_, by omega⟩
    rintro ⟨hid, hout⟩
    obtain ⟨hlo, hhi⟩ := hslot hid
    omega
  · rintro ⟨hknown, hslot, hcount⟩
    refine ⟨hknown, ?_, by omega, by omega⟩
    intro hid
    rcases lt_or_ge (CInt.toU32 slot) c.numChannels with hlo | hlo
    · exact absurd ⟨hid, .inl hlo⟩ hslot
    · rcases lt_or_ge (CInt.toU32 slot) c.numSlots with hhi | hhi
      · exact ⟨hlo, hhi⟩
      · exact absurd ⟨hid, .inr hhi⟩ hslot

variable {id : ContId} {count slot : ℤ}

lemma allocCont_of_not_valid (tmp : Bitmap) (h : ¬ id.Valid (cc ctlr) slot count) :
    edmaAllocContSlots cc ctlr id slot count tmp = (cc, einval) := by
  rw [ContId.valid_iff] at h
  unfold edmaAllocContSlots
  dsimp only
  split_ifs with hslot hcount
  · rfl
  · rfl
  · have hother : id = .other := by
      by_contra hne
      exact h ⟨hne, hslot, hcount⟩
    rw [hother]

variable (cc : ℕ → Cc)

/-- **A run of slots.** The lowest free run from the start on, or the one at the
start; a request with arguments that make sense fails only if there is none. -/
lemma alloc_cont_spec (ctlr : ℕ) (id : ContId) (slot count : ℤ) (tmp : Bitmap) :
    (∃ first, id.Valid (cc ctlr) slot count ∧
        LowestRun (id = .fixedExact) (cc ctlr).inuse (cc ctlr).numSlots count.toNat
          (id.start (cc ctlr) slot) first ∧
        Takes cc ctlr first count.toNat (edmaAllocContSlots cc ctlr id slot count tmp)) ∨
      ((id.Valid (cc ctlr) slot count → ∀ first, id.start (cc ctlr) slot ≤ first →
          (id = .fixedExact → first = id.start (cc ctlr) slot) →
          ¬ FreeRun (cc ctlr).inuse (cc ctlr).numSlots first count.toNat) ∧
        Fails cc (edmaAllocContSlots cc ctlr id slot count tmp)) := by
  by_cases hvalid : id.Valid (cc ctlr) slot count
  · obtain ⟨hknown, hslot, hcount⟩ := (ContId.valid_iff id (cc ctlr) slot count).mp hvalid
    have hreserve : edmaAllocContSlots cc ctlr id slot count tmp =
        reserve cc ctlr id count.toNat (id.start (cc ctlr) slot) tmp := by
      unfold edmaAllocContSlots
      rw [if_neg hslot, if_neg hcount]
      cases id with
      | other => exact absurd rfl hknown
      | _ => rfl
    rw [hreserve]
    have hpos : 0 < count.toNat := by
      have hcount := hvalid.count_pos
      omega
    unfold reserve
    dsimp only
    rcases reserve_spec (decide (id = .fixedExact)) (cc ctlr).numSlots_le hpos
      (id.start (cc ctlr) slot) (cc ctlr).inuse tmp with ⟨first, hrun, heq⟩ | ⟨hnone, heq⟩
    · rw [heq]
      exact .inl ⟨first, hvalid, hrun, rfl, rfl⟩
    · rw [heq]
      refine .inr ⟨?_, update_eq_self ctlr cc, show ebusy < 0 by decide⟩
      intro _ first hfirst hat
      exact hnone first hfirst (by simpa using hat)
  · rw [allocCont_of_not_valid tmp hvalid]
    exact .inr ⟨fun h => absurd h hvalid, .of_errno (by decide)⟩

lemma foldl_clearSlots (hfits : first + num ≤ 2 ^ 16) : (List.range' first num).foldl
        (fun cc i => update cc (edmaCtlr i) ((cc (edmaCtlr i)).clearSlots (edmaChanSlot i) 1)
    ) cc = update cc 0 ((cc 0).clearSlots first num) := by
  induction num generalizing cc first with
  | zero =>
    rw [Cc.clearSlots_zero, update_eq_self]
    rfl
  | succ num ih =>
    rw [List.range'_succ, List.foldl_cons, edmaCtlr_of_lt (by omega),
      edmaChanSlot_of_lt (by omega), ih _ (by omega), update_self,
      update_idem, Cc.clearSlots_clearSlots]

end Am335x.Edma
