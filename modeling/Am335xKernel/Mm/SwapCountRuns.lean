import Am335xKernel.Mm.SwapDigits

/-!
# The counts are the numbers of references

Each function has its specification over `Counted`. The sections of `swap_duplicate` that hold
`swap_lock` are calls of their own, so that the runs include all interleavings of tasks that need
a page for one entry.
-/

namespace Am335x.Swap

open Function List Nat Option

open DigitChain

section

variable {si : SwapInfo} {uses : Uses} {o : ℕ} {u : Use}

def Unused (uses : Uses) (si : SwapInfo) (o : ℕ) : Prop :=
  si.max ≤ o ∨ uses o = none ∨ uses o = some ⟨0, false⟩

lemma and_not_swapHasCache (b : Byte) : b &&& ~~~swapHasCache = countOf b := rfl

lemma swapDuplicateOnce_one (ho : o < si.max) : swapDuplicateOnce si o 1 =
      if countOf (si.swapMap o) ≠ 0 ∨ cacheOf (si.swapMap o) = true then
        if (cellOf (countOf (si.swapMap o))).digit < 62 then
          some (si.setMap o ((countOf (si.swapMap o) + 1) ||| cacheByte (cacheOf (si.swapMap o))),
            .ok) else if 62 < (cellOf (countOf (si.swapMap o))).digit then some (si, .einval)
        else (swapCountContinued si o (countOf (si.swapMap o))).map fun r => if r.2 then
            (r.1.setMap o (countContinued ||| cacheByte (cacheOf (si.swapMap o))), .ok)
          else (r.1.setMap o (si.swapMap o), .enomem) else some (si, .enoent) := by
  obtain ⟨hlt, hgt⟩ := lt_swapMapMax (countOf (si.swapMap o))
  unfold swapDuplicateOnce
  rw [if_neg (not_le.mpr ho)]
  rw [if_neg nofun, and_not_swapHasCache, and_swapHasCache, countOf_or_cacheByte, setMap_self]
  simp only [cacheByte_ne_zero, hlt, hgt]

section

variable (h : Counted uses si)
include h

/-- **`__swap_duplicate`** adds a reference, or there is no page to carry into. -/
lemma swapDuplicateOnce_used (ho : o < si.max) (hu : uses o = some u)
    (hused : u.refs ≠ 0 ∨ u.cache = true) :
    (swapDuplicateOnce si o 1 = some (si, .enomem) ∧ NoPage si o ∧
        (cellOf (countOf (si.swapMap o))).digit = 62) ∨
      ∃ si', swapDuplicateOnce si o 1 = some (si', .ok) ∧ si'.max = si.max ∧
        Counted (update uses o (some ⟨u.refs + 1, u.cache⟩)) si' := by
  have henc := h.used o ho u hu
  have hcond : countOf (si.swapMap o) ≠ 0 ∨ cacheOf (si.swapMap o) = true := by
    rw [henc.cache]
    exact hused.imp_left fun hrefs hzero => hrefs (henc.refs_eq_zero.mpr hzero)
  have hrefs := henc.refs
  rw [swapDuplicateOnce_one ho, if_pos hcond, henc.cache]
  by_cases hlt : (cellOf (countOf (si.swapMap o))).digit < 62
  · rw [if_pos hlt]
    obtain ⟨hcount, hcell⟩ := countOf_add_one _ hlt
    refine .inr ⟨_, rfl, rfl, h.setMap ?_⟩
    apply encodes_or hcount
    · rw [hcell]
      exact hlt
    · rw [hcell]
      exact henc.chain
    · rw [hcell, hrefs]
      exact add_right_comm _ _ _
  · have hdigit : (cellOf (countOf (si.swapMap o))).digit = 62 :=
      le_antisymm henc.low (not_lt.mp hlt)
    rw [if_neg hlt, if_neg (by rw [hdigit]; exact lt_irrefl 62)]
    rcases swapCountContinued_inc h henc hdigit with ⟨hcont, hno⟩ | ⟨col, hcont, hlen, hchain, hval⟩
    · rw [hcont, map_some, if_neg nofun, setMap_self]
      exact .inl ⟨rfl, hno, hdigit⟩
    · rw [hcont, map_some, if_pos rfl]
      refine .inr ⟨_, rfl, rfl, h.set hlen ?_⟩
      apply encodes_or (by decide) (by decide) (fun _ => hchain)
      rw [← hval]
      exact (zero_add _).symm

lemma swapDuplicateOnce_unused (hun : Unused uses si o) :
    swapDuplicateOnce si o 1 = some (si, .einval) ∨
      swapDuplicateOnce si o 1 = some (si, .enoent) := by
  by_cases ho : o < si.max
  · rcases hun with hge | hbad | hfree
    · omega
    · refine .inl ?_
      rw [swapDuplicateOnce_one ho, h.bad o ho hbad, if_pos (by decide), if_neg nofun,
        if_pos (by decide)]
    · refine .inr ?_
      have hzero := (h.used o ho _ hfree).eq_zero.mpr ⟨rfl, rfl⟩
      rw [swapDuplicateOnce_one ho, hzero, if_neg nofun]
  · refine .inl ?_
    unfold swapDuplicateOnce
    rw [if_pos (not_lt.mp ho)]

/-- **`swapcache_prepare`.** -/
lemma swapcachePrepare_spec (ho : o < si.max) (hu : uses o = some u) :
    ∃ si' r, swapDuplicateOnce si o swapHasCache = some (si', r) ∧ si'.max = si.max ∧
      (r = .ok ∧ Counted (update uses o (some ⟨u.refs, true⟩)) si' ∨ r ≠ .ok ∧ si' = si) := by
  have henc := h.used o ho u hu
  unfold swapDuplicateOnce
  rw [if_neg (not_le.mpr ho)]
  rw [if_pos rfl, and_not_swapHasCache, and_swapHasCache, countOf_or_cacheByte, setMap_self]
  split_ifs with hset hcache
  · refine ⟨_, _, rfl, rfl, .inl ⟨rfl, h.setMap ?_⟩⟩
    exact encodes_or (countOf_countOf _) henc.low henc.chain henc.refs true
  · exact ⟨_, _, rfl, rfl, .inr ⟨by decide, rfl⟩⟩
  · exact ⟨_, _, rfl, rfl, .inr ⟨by decide, rfl⟩⟩

end

def withPage (si : SwapInfo) (o : ℕ) (page : ContPage) : SwapInfo :=
  { si with
    continued := update si.continued (o / pageSize) true
    contPages := update si.contPages (o / pageSize)
      (si.contPages (o / pageSize) ++ [page]) }

lemma column_withPage (si : SwapInfo) (o o' : ℕ) (page : ContPage) :
    (withPage si o page).column o' =
      si.column o' ++ if o' / pageSize = o / pageSize then [page (o' % pageSize)] else [] := by
  unfold withPage SwapInfo.column
  dsimp only
  by_cases hpage : o' / pageSize = o / pageSize
  · rw [if_pos hpage, hpage, update_self, map_append]
    rfl
  · rw [if_neg hpage, update_of_ne hpage, append_nil]

lemma Encodes.append {b : Byte} {col : List Byte} (h : Encodes b col u) (rest : List Byte) :
    Encodes b (col ++ rest) u := by
  refine ⟨h.low, fun hmore => ?_, ?_, h.cache⟩
  · rw [map_append]
    exact (h.chain hmore).append _
  · rw [h.refs, map_append]
    cases hmore : (cellOf (countOf b)).more with
    | true => rw [(h.chain hmore).value_append]
    | false => rfl

lemma Counted.withPage (h : Counted uses si) (o : ℕ) (page : ContPage) :
    Counted uses (withPage si o page) := by
  refine ⟨h.bad, fun o' ho' u' hu' => ?_, fun g => ?_⟩
  · rw [column_withPage]
    exact (h.used o' ho' u' hu').append _
  · unfold Swap.withPage
    dsimp only
    by_cases hg : g = o / pageSize
    · subst hg
      rw [update_self, update_self]
      simp
    · rw [update_of_ne hg, update_of_ne hg]
      exact h.pages g

lemma swapInfoGet_of_digit (ho : o < si.max)
    (hdigit : (cellOf (countOf (si.swapMap o))).digit = 62) : swapInfoGet si o = true := by
  refine decide_eq_true ⟨ho, fun hzero => ?_⟩
  rw [hzero] at hdigit
  cases hdigit

lemma addSwapCountContinuation_none (ho : o < si.max)
    (hdigit : (cellOf (countOf (si.swapMap o))).digit = 62) :
    addSwapCountContinuation si o none = some (si, .enomem) := by
  unfold addSwapCountContinuation
  rw [swapInfoGet_of_digit ho hdigit, if_neg nofun]
  rw [and_not_swapHasCache, if_neg (not_not.mpr ((eq_swapMapMax _).mpr hdigit))]

section

variable (h : Counted uses si)
include h

lemma addSwapCountContinuation_eq (ho : o < si.max)
    (hdigit : (cellOf (countOf (si.swapMap o))).digit = 62) (page : ContPage) :
    addSwapCountContinuation si o (some page) =
      some (if needsPage (countOf (si.swapMap o)) (si.column o) then withPage si o page else si,
        .ok) := by
  -- bad pages are not counted, so the entry is a used one
  have hbug : ¬ (si.continued (o / pageSize) = false ∧
      countOf (si.swapMap o) &&& countContinued ≠ 0) := by
    rintro ⟨hfalse, hflag⟩
    cases hu : uses o with
    | none =>
      rw [h.bad o ho hu] at hdigit
      cases hdigit
    | some u =>
      rw [h.continued (h.used o ho u hu) (decide_eq_true hflag)] at hfalse
      cases hfalse
  have hpages : (if si.continued (o / pageSize) = false then []
      else si.contPages (o / pageSize)) = si.contPages (o / pageSize) := by
    split_ifs with hfalse
    · by_contra hne
      rw [(h.pages _).mpr (Ne.symm hne)] at hfalse
      cases hfalse
    · rfl
  unfold addSwapCountContinuation
  rw [swapInfoGet_of_digit ho hdigit, if_neg nofun]
  dsimp only
  rw [and_not_swapHasCache, if_neg (not_not.mpr ((eq_swapMapMax _).mpr hdigit)), if_neg hbug,
    hpages]
  change (if needsPage (countOf (si.swapMap o)) (si.column o) = true then _ else _) = _
  by_cases hneeds : needsPage (countOf (si.swapMap o)) (si.column o) = true
  · rw [if_pos hneeds, if_pos hneeds]
    rfl
  · rw [if_neg hneeds, if_neg hneeds]
    have hcont : si.continued (o / pageSize) = true := by
      rw [h.pages, ← column_ne_nil]
      intro hnil
      rw [hnil] at hneeds
      exact hneeds rfl
    have hsame : update si.continued (o / pageSize) true = si.continued := by
      rw [← hcont, update_eq_self]
    rw [hsame]

/-- What `add_swap_count_continuation` may return; it changes no digit. -/
def Continues (uses : Uses) (si : SwapInfo) (page : Option ContPage)
    (res : Option (SwapInfo × Ret)) : Prop :=
  ∃ si' r, res = some (si', r) ∧ Counted uses si' ∧
    si'.max = si.max ∧ si'.swapMap = si.swapMap ∧ (∀ o', si.column o' <+: si'.column o') ∧
    (r = .enomem → si' = si) ∧ (r = .ok ∨ r = .enomem ∧ page = none)

lemma addSwapCountContinuation_spec (o : ℕ) (page : Option ContPage) :
    Continues uses si page (addSwapCountContinuation si o page) := by
  have hsame : ∀ r, (r = .ok ∨ r = .enomem ∧ page = none) →
      addSwapCountContinuation si o page = some (si, r) →
      Continues uses si page (addSwapCountContinuation si o page) := fun r hr heq =>
    ⟨si, r, heq, h, rfl, rfl, fun o' => prefix_refl _, fun _ => rfl, hr⟩
  by_cases hget : swapInfoGet si o = true
  · by_cases hdigit : (cellOf (countOf (si.swapMap o))).digit = 62
    · cases page with
      | none =>
        exact hsame .enomem (.inr ⟨rfl, rfl⟩)
          (addSwapCountContinuation_none (of_decide_eq_true hget).1 hdigit)
      | some page =>
        have heq := addSwapCountContinuation_eq h (of_decide_eq_true hget).1 hdigit page
        by_cases hneeds : needsPage (countOf (si.swapMap o)) (si.column o) = true
        · rw [if_pos hneeds] at heq
          refine ⟨_, _, heq, h.withPage o page, rfl, rfl, fun o' => ?_, fun hr => ?_, .inl rfl⟩
          · rw [column_withPage]
            exact prefix_append _ _
          · cases hr
        · rw [if_neg hneeds] at heq
          exact hsame .ok (.inl rfl) heq
    · refine hsame .ok (.inl rfl) ?_
      unfold addSwapCountContinuation
      rw [if_neg (by rw [hget]; decide)]
      rw [and_not_swapHasCache, if_pos fun heq => hdigit ((eq_swapMapMax _).mp heq)]
  · refine hsame .ok (.inl rfl) ?_
    unfold addSwapCountContinuation
    rw [if_pos (by simpa using hget)]

variable (ho : o < si.max) (hu : uses o = some u)

include ho hu in
lemma NoPage.add
    (hdigit : (cellOf (countOf (si.swapMap o))).digit = 62) (hno : NoPage si o) (page : ContPage) :
    addSwapCountContinuation si o (some page) = some (withPage si o page, .ok) ∧
      ¬ NoPage (withPage si o page) o := by
  have henc := h.used o ho u hu
  rw [addSwapCountContinuation_eq h ho hdigit page]
  unfold NoPage at hno ⊢
  have hmap : (withPage si o page).swapMap o = si.swapMap o := rfl
  rw [hmap]
  cases hmore : (cellOf (countOf (si.swapMap o))).more with
  | false =>
    rw [hmore, if_neg nofun] at hno
    have hnil : si.column o = [] := by
      by_contra hne
      rw [(h.pages _).mpr (column_ne_nil.mp hne)] at hno
      cases hno
    rw [hnil]
    refine ⟨rfl, ?_⟩
    unfold withPage
    dsimp only
    rw [if_neg nofun, update_self]
    decide
  | true =>
    rw [hmore, if_pos rfl] at hno
    have hchain := henc.chain hmore
    have hflag : countOf (si.swapMap o) &&& countContinued ≠ 0 := of_decide_eq_true hmore
    rw [needsPage_of_carry hchain hno hflag, if_pos rfl, if_pos rfl, column_withPage, if_pos rfl,
      map_append]
    refine ⟨rfl, ?_⟩
    obtain ⟨cells, hcells⟩ := hchain.carry_append (cellOf (page (o % pageSize))) []
    intro hnone
    rw [map_cons, map_nil, hcells] at hnone
    cases hnone

include ho hu in
/-- **`swap_duplicate`** ends after two turns at most. It adds a reference unless it needs a page
and gets none. -/
lemma swapDuplicate_used (hused : u.refs ≠ 0 ∨ u.cache = true) (alloc : ℕ → Option ContPage) :
    ∃ si' r, swapDuplicate o alloc 2 0 si = some (si', r) ∧ si'.max = si.max ∧
      (r = .ok ∧ Counted (update uses o (some ⟨u.refs + 1, u.cache⟩)) si' ∨
        r = .enomem ∧ si' = si ∧ alloc 0 = none) := by
  unfold swapDuplicate
  rcases swapDuplicateOnce_used h ho hu hused with ⟨honce, hno, hdigit⟩ | ⟨si', honce, hmax, hinc⟩
  · rw [honce, bind_some, if_pos rfl]
    cases halloc : alloc 0 with
    | none =>
      rw [addSwapCountContinuation_none ho hdigit, bind_some, if_neg nofun]
      exact ⟨si, .enomem, rfl, rfl, .inr ⟨rfl, rfl, rfl⟩⟩
    | some page =>
      obtain ⟨hadd, hroom⟩ := hno.add h ho hu hdigit page
      rw [hadd, bind_some, if_pos rfl]
      unfold swapDuplicate
      rcases swapDuplicateOnce_used (h.withPage o page) ho hu hused with
        ⟨-, hno', -⟩ | ⟨si', honce', hmax, hinc⟩
      · exact absurd hno' hroom
      · rw [honce', bind_some, if_neg nofun]
        exact ⟨si', .ok, rfl, hmax, .inl ⟨rfl, hinc⟩⟩
  · rw [honce, bind_some, if_neg nofun]
    exact ⟨si', .ok, rfl, hmax, .inl ⟨rfl, hinc⟩⟩

lemma swapDuplicate_unused (hun : Unused uses si o) (alloc : ℕ → Option ContPage) :
    swapDuplicate o alloc 2 0 si = some (si, .ok) := by
  unfold swapDuplicate
  rcases swapDuplicateOnce_unused h hun with honce | honce
  · rw [honce, bind_some, if_neg nofun]
  · rw [honce, bind_some, if_neg nofun]

include ho hu in
/-- **`swap_free`** drops a reference. -/
lemma swapFree_used (hrefs : u.refs ≠ 0) : ∃ si', swapFree si o = some si' ∧ si'.max = si.max ∧
      Counted (update uses o (some ⟨u.refs - 1, u.cache⟩)) si' := by
  have henc := h.used o ho u hu
  have hget : swapInfoGet si o = true :=
    decide_eq_true ⟨ho, fun hzero => hrefs (henc.eq_zero.mp hzero).1⟩
  have hcounted : ∀ c : Byte, (cellOf c).digit ≤ 62 →
      c ≠ swapMapShmem ∧ c &&& ~~~countContinued ≤ swapMapMax := by
    decide +kernel
  obtain ⟨hshmem, hle⟩ := hcounted _ henc.low
  unfold swapFree swapEntryFree
  rw [if_pos hget]
  rw [if_neg nofun, and_not_swapHasCache, and_swapHasCache, henc.cache, if_neg hshmem, if_pos hle]
  by_cases hborrow : countOf (si.swapMap o) = countContinued
  · rw [if_pos hborrow, hborrow]
    obtain ⟨col, left, hcont, hlen, hleft, hlast⟩ := swapCountContinued_dec h henc hborrow
    rw [hcont]
    refine ⟨_, rfl, rfl, h.set hlen ?_⟩
    cases left with
    | true =>
      obtain ⟨hchain, hvalue⟩ := hleft rfl
      rw [if_pos rfl]
      apply encodes_or (by decide) (by decide) (fun _ => hchain)
      rw [hvalue, Nat.add_sub_cancel]
      rfl
    | false =>
      rw [if_neg nofun]
      apply encodes_or (by decide) (by decide) (fun hmore => by cases hmore)
      rw [hlast rfl]
      rfl
  · rw [if_neg hborrow]
    have hrefs' := henc.refs
    have hdigit : (cellOf (countOf (si.swapMap o))).digit ≠ 0 := by
      intro hzero
      have hcases : ∀ c : Byte, (cellOf c).digit = 0 → c = countContinued ∨ c = 0 := by
        decide +kernel
      rcases hcases _ hzero with hcont | hnone
      · exact hborrow hcont
      · exact hrefs (henc.refs_eq_zero.mpr hnone)
    obtain ⟨hsub, hcell⟩ := countOf_sub_one _ hdigit
    refine ⟨_, rfl, rfl, h.setMap ?_⟩
    apply encodes_or hsub
    · rw [hcell]
      exact (sub_le _ _).trans henc.low
    · rw [hcell]
      exact henc.chain
    · rw [hcell, hrefs', Nat.sub_add_comm (Nat.one_le_iff_ne_zero.mpr hdigit)]

lemma swapFree_unused (hun : Unused uses si o) : swapFree si o = some si := by
  unfold swapFree
  split_ifs with hget
  · obtain ⟨ho, hne⟩ := of_decide_eq_true hget
    rcases hun with hge | hbad | hfree
    · omega
    · have hself := setMap_self si o
      have hbyte := h.bad o ho hbad
      unfold swapEntryFree
      rw [hbyte] at hself ⊢
      exact congrArg some hself
    · exact absurd ((h.used o ho _ hfree).eq_zero.mpr ⟨rfl, rfl⟩) hne
  · rfl

include ho hu in
/-- **`swapcache_free`** drops the cache. -/
lemma swapcacheFree_spec
    (hcache : u.cache = true) : ∃ si', swapcacheFree si o = some si' ∧ si'.max = si.max ∧
      Counted (update uses o (some ⟨u.refs, false⟩)) si' := by
  have henc := h.used o ho u hu
  have hget : swapInfoGet si o = true := by
    refine decide_eq_true ⟨ho, fun hzero => ?_⟩
    rw [(henc.eq_zero.mp hzero).2] at hcache
    cases hcache
  unfold swapcacheFree swapEntryFree
  rw [if_pos hget]
  rw [if_pos rfl]
  refine ⟨_, rfl, rfl, h.setMap ?_⟩
  exact encodes_or (countOf_countOf _) henc.low henc.chain henc.refs false

end

end

inductive SwapCall
  /-- `scan_swap_map` has found a free entry. -/
  | alloc (o : ℕ) (cache : Bool)
  | swapDuplicate (o : ℕ) (pages : ℕ → Option ContPage)
  /-- The sections of `swap_duplicate` that hold `swap_lock`, where others come in between. -/
  | duplicateOnce (o : ℕ)
  | addContinuation (o : ℕ) (page : Option ContPage)
  | swapcachePrepare (o : ℕ)
  | swapFree (o : ℕ)
  | swapcacheFree (o : ℕ)

def Uses.inc (uses : Uses) (si : SwapInfo) (o : ℕ) : Uses :=
  match uses o with
  | none => uses
  | some u =>
    if o < si.max ∧ (u.refs ≠ 0 ∨ u.cache = true) then
      update uses o (some ⟨u.refs + 1, u.cache⟩)
    else uses

def Uses.dec (uses : Uses) (si : SwapInfo) (o : ℕ) : Uses :=
  match uses o with
  | none => uses
  | some u =>
    if o < si.max ∧ u.refs ≠ 0 then update uses o (some ⟨u.refs - 1, u.cache⟩)
    else uses

def Uses.setCache (uses : Uses) (si : SwapInfo) (o : ℕ) (cache : Bool) : Uses :=
  match uses o with
  | none => uses
  | some u =>
    if o < si.max then update uses o (some ⟨u.refs, cache⟩) else uses

def call : Component (SwapInfo × Uses) SwapCall Ret
  | (si, uses), .alloc o cache =>
    some ((si.setMap o (if cache then swapHasCache else 1),
      update uses o (some (if cache then ⟨0, true⟩ else ⟨1, false⟩))), .ok)
  | (si, uses), .swapDuplicate o pages =>
    (swapDuplicate o pages 2 0 si).map fun r =>
      ((r.1, if r.2 = .ok then uses.inc si o else uses), r.2)
  | (si, uses), .duplicateOnce o =>
    (swapDuplicateOnce si o 1).map fun r =>
      ((r.1, if r.2 = .ok then uses.inc si o else uses), r.2)
  | (si, uses), .addContinuation o page =>
    (addSwapCountContinuation si o page).map fun r => ((r.1, uses), r.2)
  | (si, uses), .swapcachePrepare o =>
    (swapDuplicateOnce si o swapHasCache).map fun r =>
      ((r.1, if r.2 = .ok then uses.setCache si o true else uses), r.2)
  | (si, uses), .swapFree o => (swapFree si o).map fun si' => ((si', uses.dec si o), .ok)
  | (si, uses), .swapcacheFree o =>
    (swapcacheFree si o).map fun si' => ((si', uses.setCache si o false), .ok)

/-- Only free entries are allocated, a reference that is dropped is there (or it is an entry that
`swap_free` finds unused or bad), and so is the cache. -/
def Allowed (s : SwapInfo × Uses) : SwapCall → Prop
  | .alloc o _ => o < s.1.max ∧ s.2 o = some ⟨0, false⟩
  | .swapcachePrepare o => o < s.1.max ∧ s.2 o ≠ none
  | .swapFree o => s.2 o ≠ some ⟨0, true⟩
  | .swapcacheFree o => o < s.1.max ∧ ∃ refs, s.2 o = some ⟨refs, true⟩
  | _ => True

def start (max : ℕ) (bad : ℕ → Bool) : SwapInfo × Uses :=
  (⟨max, fun o => if bad o then swapMapBad else 0, fun _ => false, fun _ => []⟩,
    fun o => if bad o then none else some ⟨0, false⟩)

section

variable {si : SwapInfo} {uses : Uses} {o : ℕ} {s s' : SwapInfo × Uses} {i : SwapCall} {r : Ret}

lemma Uses.inc_cases (uses : Uses) (si : SwapInfo) (o : ℕ) :
    (∃ u, o < si.max ∧ uses o = some u ∧ (u.refs ≠ 0 ∨ u.cache = true) ∧
        uses.inc si o = update uses o (some ⟨u.refs + 1, u.cache⟩)) ∨
      Unused uses si o ∧ uses.inc si o = uses := by
  unfold Uses.inc Unused
  cases hu : uses o with
  | none => exact .inr ⟨.inr (.inl rfl), rfl⟩
  | some u =>
    dsimp only
    split_ifs with hused
    · exact .inl ⟨u, hused.1, rfl, hused.2, rfl⟩
    · refine .inr ⟨?_, rfl⟩
      by_cases ho : o < si.max
      · obtain ⟨refs, cache⟩ := u
        have hnot := not_and.mp hused ho
        rw [not_or, not_not, Bool.not_eq_true] at hnot
        obtain ⟨rfl, rfl⟩ := hnot
        exact .inr (.inr rfl)
      · exact .inl (not_lt.mp ho)

lemma Uses.dec_cases (h : uses o ≠ some ⟨0, true⟩) (si : SwapInfo) :
    (∃ u, o < si.max ∧ uses o = some u ∧ u.refs ≠ 0 ∧
        uses.dec si o = update uses o (some ⟨u.refs - 1, u.cache⟩)) ∨
      Unused uses si o ∧ uses.dec si o = uses := by
  rcases uses.inc_cases si o with ⟨⟨refs, cache⟩, ho, hu, hused, -⟩ | ⟨hun, -⟩
  · have hrefs : refs ≠ 0 := by
      rintro rfl
      exact h (hu.trans (by simp_all))
    exact .inl ⟨_, ho, hu, hrefs, by simp [Uses.dec, hu, ho, hrefs]⟩
  · refine .inr ⟨hun, ?_⟩
    unfold Uses.dec
    split
    · rfl
    · rename_i hu
      refine if_neg fun ⟨ho, hrefs⟩ => ?_
      rcases hun with hle | hun | hun
      · omega
      · cases hun.symm.trans hu
      · cases hun.symm.trans hu
        exact hrefs rfl

lemma Uses.setCache_eq {u : Use} (ho : o < si.max) (hu : uses o = some u) (cache : Bool) :
    uses.setCache si o cache = update uses o (some ⟨u.refs, cache⟩) := by
  unfold Uses.setCache
  rw [hu]
  dsimp only
  rw [if_pos ho]

structure Step (s : SwapInfo × Uses) (i : SwapCall) (s' : SwapInfo × Uses) (r : Ret) : Prop where
  called : call s i = some (s', r)
  counted : Counted s'.2 s'.1
  max : s'.1.max = s.1.max
  failed : r ≠ .ok → s' = s

lemma call_of_map {γ : Type} {x : Option γ} {v : γ} {f : γ → (SwapInfo × Uses) × Ret}
    {t : (SwapInfo × Uses) × Ret} (hcall : call s i = x.map f) (hx : x = some v) (ht : f v = t) :
    call s i = some t := by
  rw [hcall, hx, ← ht]
  rfl

section

variable (h : Counted uses si)
include h

lemma step_alloc {cache : Bool}
    (ha : Allowed (si, uses) (.alloc o cache)) : ∃ s' r, Step (si, uses) (.alloc o cache) s' r := by
  refine ⟨_, _, rfl, h.setMap ?_, rfl, fun hr => absurd rfl hr⟩
  cases cache <;> exact ⟨by decide, nofun, rfl, rfl⟩

lemma step_duplicateOnce (o : ℕ) : ∃ s' r, Step (si, uses) (.duplicateOnce o) s' r := by
  rcases uses.inc_cases si o with ⟨u, ho, hu, hused, hinc⟩ | ⟨hun, hinc⟩
  · rcases swapDuplicateOnce_used h ho hu hused with ⟨honce, -, -⟩ | ⟨si', honce, hmax, hcounted⟩
    · exact ⟨_, _, call_of_map rfl honce rfl, h, rfl, fun _ => rfl⟩
    · refine ⟨_, _, call_of_map rfl honce rfl, ?_, hmax, fun hr => absurd rfl hr⟩
      rw [if_pos rfl, hinc]
      exact hcounted
  · rcases swapDuplicateOnce_unused h hun with honce | honce
    · exact ⟨_, _, call_of_map rfl honce rfl, h, rfl, fun _ => rfl⟩
    · exact ⟨_, _, call_of_map rfl honce rfl, h, rfl, fun _ => rfl⟩

lemma step_swapDuplicate (o : ℕ) (pages : ℕ → Option ContPage) :
    ∃ s' r, Step (si, uses) (.swapDuplicate o pages) s' r ∧
      (r = .ok ∨ r = .enomem ∧ pages 0 = none) := by
  rcases uses.inc_cases si o with ⟨u, ho, hu, hused, hinc⟩ | ⟨hun, hinc⟩
  · obtain ⟨si', r, heq, hmax, hr⟩ := swapDuplicate_used h ho hu hused pages
    rcases hr with ⟨rfl, hcounted⟩ | ⟨rfl, rfl, hnone⟩
    · refine ⟨_, _, ⟨call_of_map rfl heq rfl, ?_, hmax, fun hr => absurd rfl hr⟩, .inl rfl⟩
      rw [if_pos rfl, hinc]
      exact hcounted
    · exact ⟨_, _, ⟨call_of_map rfl heq rfl, h, rfl, fun _ => rfl⟩, .inr ⟨rfl, hnone⟩⟩
  · refine ⟨_, _, ⟨call_of_map rfl (swapDuplicate_unused h hun pages) rfl, ?_, rfl,
      fun hr => absurd rfl hr⟩, .inl rfl⟩
    rw [if_pos rfl, hinc]
    exact h

lemma step_addContinuation (o : ℕ) (page : Option ContPage) :
    ∃ s' r, Step (si, uses) (.addContinuation o page) s' r ∧ s'.2 = uses ∧
      s'.1.swapMap = si.swapMap ∧ ∀ o', si.column o' <+: s'.1.column o' := by
  obtain ⟨si', r, hadd, hcounted, hmax, hmap, hcol, hsame, hr⟩ :=
    addSwapCountContinuation_spec h o page
  refine ⟨(si', uses), r, ⟨call_of_map rfl hadd rfl, hcounted, hmax, fun hne => ?_⟩, rfl, hmap,
    hcol⟩
  rcases hr with rfl | ⟨rfl, -⟩
  · exact absurd rfl hne
  · rw [hsame rfl]

lemma step_swapcachePrepare (ha : Allowed (si, uses) (.swapcachePrepare o)) :
    ∃ s' r, Step (si, uses) (.swapcachePrepare o) s' r := by
  obtain ⟨ho, hne⟩ := ha
  obtain ⟨u, hu⟩ := ne_none_iff_exists'.mp hne
  obtain ⟨si', r, heq, hmax, hr⟩ := swapcachePrepare_spec h ho hu
  have hcall : call (si, uses) (.swapcachePrepare o) =
      some ((si', if r = .ok then uses.setCache si o true else uses), r) := call_of_map rfl heq rfl
  rcases hr with ⟨rfl, hcounted⟩ | ⟨hr, rfl⟩
  · refine ⟨_, _, hcall, ?_, hmax, fun hr => absurd rfl hr⟩
    rw [if_pos rfl, Uses.setCache_eq ho hu]
    exact hcounted
  · rw [if_neg hr] at hcall
    exact ⟨_, _, hcall, h, rfl, fun _ => rfl⟩

lemma step_swapFree (ha : Allowed (si, uses) (.swapFree o)) :
    ∃ s' r, Step (si, uses) (.swapFree o) s' r := by
  rcases Uses.dec_cases ha si with ⟨u, ho, hu, hrefs, hdec⟩ | ⟨hun, hdec⟩
  · obtain ⟨si', heq, hmax, hcounted⟩ := swapFree_used h ho hu hrefs
    refine ⟨_, _, call_of_map rfl heq rfl, ?_, hmax, fun hr => absurd rfl hr⟩
    rw [hdec]
    exact hcounted
  · refine ⟨_, _, call_of_map rfl (swapFree_unused h hun) rfl, ?_, rfl, fun hr => absurd rfl hr⟩
    rw [hdec]
    exact h

lemma step_swapcacheFree (ha : Allowed (si, uses) (.swapcacheFree o)) :
    ∃ s' r, Step (si, uses) (.swapcacheFree o) s' r := by
  obtain ⟨ho, refs, hu⟩ := ha
  obtain ⟨si', heq, hmax, hcounted⟩ := swapcacheFree_spec h ho hu rfl
  refine ⟨(si', uses.setCache si o false), .ok, call_of_map rfl heq rfl, ?_, hmax,
    fun hr => absurd rfl hr⟩
  rw [Uses.setCache_eq ho hu]
  exact hcounted

end

/-- **A call** is made and leaves the counts right. -/
lemma exists_step (h : Counted s.2 s.1) (ha : Allowed s i) : ∃ s' r, Step s i s' r := by
  cases i with
  | alloc o cache => exact step_alloc h ha
  | swapDuplicate o pages =>
    obtain ⟨s', r, hstep, -⟩ := step_swapDuplicate h o pages
    exact ⟨s', r, hstep⟩
  | duplicateOnce o => exact step_duplicateOnce h o
  | addContinuation o page =>
    obtain ⟨s', r, hstep, -⟩ := step_addContinuation h o page
    exact ⟨s', r, hstep⟩
  | swapcachePrepare o => exact step_swapcachePrepare h ha
  | swapFree o => exact step_swapFree h ha
  | swapcacheFree o => exact step_swapcacheFree h ha

lemma counted_start (max : ℕ) (bad : ℕ → Bool) : Counted (start max bad).2 (start max bad).1 := by
  refine ⟨fun o _ hnone => ?_, fun o _ u hu => ?_, fun g => ?_⟩
  · unfold start at hnone ⊢
    dsimp only at hnone ⊢
    split_ifs at hnone ⊢
    rfl
  · unfold start at hu ⊢
    dsimp only at hu ⊢
    split_ifs at hu ⊢
    cases hu
    exact ⟨by decide, nofun, rfl, rfl⟩
  · exact ⟨nofun, fun hne => absurd rfl hne⟩

lemma reach_counted {max : ℕ} {bad : ℕ → Bool} (h : call.Reach Allowed (start max bad) s) :
    Counted s.2 s.1 ∧ s.1.max = max := by
  refine Component.Reach.invariant (I := fun s => Counted s.2 s.1 ∧ s.1.max = max) h
    ⟨counted_start max bad, rfl⟩ ?_
  rintro s s' i r ⟨hcounted, hmax⟩ ha hcall
  obtain ⟨t, r', hstep⟩ := exists_step hcounted ha
  have heq := hstep.called.symm.trans hcall
  cases heq
  exact ⟨hstep.counted, hstep.max.trans hmax⟩

end

/-- In every state that calls lead to, the digits of an entry are in their range and encode the
number of its references, and it reads as free exactly if there are none and it is not in the cache.
Every call is made, without a `BUG_ON`; a call that fails changes nothing, `swap_duplicate` fails
only for lack of a page, and adding a page changes no digit. -/
theorem swap_counts {max : ℕ} {bad : ℕ → Bool} {s : SwapInfo × Uses}
    (h : call.Reach Allowed (start max bad) s) : (∀ o < max, ∀ u, s.2 o = some u →
      readCount s.1 o = u.refs ∧ (cellOf (countOf (s.1.swapMap o))).digit ≤ 62 ∧
        ((cellOf (countOf (s.1.swapMap o))).more = true → Chain 128 ((s.1.column o).map cellOf)) ∧
        cacheOf (s.1.swapMap o) = u.cache ∧ (s.1.swapMap o = 0 ↔ u.refs = 0 ∧ u.cache = false)) ∧
      (∀ i, Allowed s i → ∃ s' r, call s i = some (s', r) ∧ (r ≠ .ok → s' = s)) ∧
      (∀ o pages, ∃ s' r, call s (.swapDuplicate o pages) = some (s', r) ∧
        (r = .ok ∨ r = .enomem ∧ pages 0 = none)) ∧
      ∀ o page, ∃ s' r, call s (.addContinuation o page) = some (s', r) ∧
        s'.1.swapMap = s.1.swapMap ∧ ∀ o', s.1.column o' <+: s'.1.column o' := by
  obtain ⟨hcounted, rfl⟩ := reach_counted h
  refine ⟨?_, ?_, ?_, ?_⟩
  · intro o ho u hu
    have henc := hcounted.used o ho u hu
    exact ⟨henc.refs.symm, henc.low, henc.chain, henc.cache, henc.eq_zero⟩
  · intro i ha
    obtain ⟨s', r, hstep⟩ := exists_step hcounted ha
    exact ⟨s', r, hstep.called, hstep.failed⟩
  · intro o pages
    obtain ⟨s', r, hstep, hr⟩ := step_swapDuplicate hcounted o pages
    exact ⟨s', r, hstep.called, hr⟩
  · intro o page
    obtain ⟨s', r, hstep, -, hmap, hcol⟩ := step_addContinuation hcounted o page
    exact ⟨s', r, hstep.called, hmap, hcol⟩

/-- An entry gets 64 references, which takes a continuation page. -/
theorem swap_counts_continued : ∃ s, call.Reach Allowed (start 1 fun _ => false) s ∧
    readCount s.1 0 = 64 := by
  have hmore : ∀ n, ∃ s, call.Reach Allowed (start 1 fun _ => false) s ∧
      s.2 0 = some ⟨n + 1, false⟩ := by
    intro n
    induction n with
    | zero => exact ⟨_, .call (i := .alloc 0 false) .start ⟨one_pos, rfl⟩ rfl, rfl⟩
    | succ n ih =>
      obtain ⟨s, hs, huse⟩ := ih
      have hmax := (reach_counted hs).2
      obtain ⟨s', r, hcall, hr⟩ := (swap_counts hs).2.2.1 0 fun _ => some fun _ => 0
      obtain rfl := hr.resolve_right fun h => nomatch h.2
      refine ⟨s', .call (i := .swapDuplicate 0 _) hs trivial hcall, ?_⟩
      obtain ⟨q, -, heq⟩ := Option.map_eq_some_iff.mp hcall
      rw [Prod.mk.injEq] at heq
      rw [← heq.1, if_pos heq.2]
      simp [Uses.inc, huse, hmax]
  obtain ⟨s, hs, huse⟩ := hmore 63
  exact ⟨s, hs, ((swap_counts hs).1 0 one_pos _ huse).1⟩

end Am335x.Swap
