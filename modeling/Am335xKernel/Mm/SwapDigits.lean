import Am335xKernel.Mm.SwapCount
import Mathlib.Data.Fintype.Basic
import Mathlib.Tactic.Ring

/-!
# The digits of swap counts

The column of an entry is a `DigitChain` of base 128, and with the low digit in `swap_map`, that
has 63 values, it is the count (`Encodes`). The walks of `swap_count_continued` are `carry` and
`borrow`.
-/

namespace Am335x.Swap

open Function List SwapInfo

open DigitChain

def cellOf (b : Byte) : Cell :=
  ⟨(b &&& ~~~countContinued).toNat, decide (b &&& countContinued ≠ 0)⟩

def countOf (b : Byte) : Byte := b &&& ~~~swapHasCache

def cacheOf (b : Byte) : Bool := decide (b &&& swapHasCache ≠ 0)

def cacheByte (cache : Bool) : Byte := if cache then swapHasCache else 0

section

lemma cellOf_add_one : ∀ b : Byte, b ≠ swapContMax ||| countContinued → b ≠ swapContMax →
    (cellOf b).digit + 1 < 128 ∧ cellOf (b + 1) = ⟨(cellOf b).digit + 1, (cellOf b).more⟩ := by
  decide

lemma cellOf_sub_one : ∀ b : Byte, b ≠ countContinued → b ≠ 0 →
    (cellOf b).digit ≠ 0 ∧ cellOf (b - 1) = ⟨(cellOf b).digit - 1, (cellOf b).more⟩ ∧
      (b - 1 = 0 ↔ (cellOf b).more = false ∧ (cellOf b).digit = 1) := by
  decide

lemma countOf_or : ∀ c : Byte, countOf c = c → ∀ h : Bool,
    countOf (c ||| cacheByte h) = c ∧ cacheOf (c ||| cacheByte h) = h := by
  decide

lemma and_swapHasCache : ∀ b : Byte, b &&& swapHasCache = cacheByte (cacheOf b) := by
  decide

lemma countOf_or_cacheByte : ∀ b : Byte, countOf b ||| cacheByte (cacheOf b) = b := by
  decide

lemma cacheByte_ne_zero : ∀ cache : Bool, cacheByte cache ≠ 0 ↔ cache = true := by
  decide

lemma countOf_countOf : ∀ b : Byte, countOf (countOf b) = countOf b := by
  decide

lemma countOf_add_one : ∀ b : Byte, (cellOf (countOf b)).digit < 62 →
    countOf (countOf b + 1) = countOf b + 1 ∧
      cellOf (countOf b + 1) = ⟨(cellOf (countOf b)).digit + 1, (cellOf (countOf b)).more⟩ := by
  decide

lemma countOf_sub_one : ∀ b : Byte, (cellOf (countOf b)).digit ≠ 0 →
    countOf (countOf b - 1) = countOf b - 1 ∧
      cellOf (countOf b - 1) = ⟨(cellOf (countOf b)).digit - 1, (cellOf (countOf b)).more⟩ := by
  decide

lemma lt_swapMapMax : ∀ c : Byte, (c &&& ~~~countContinued < swapMapMax ↔ (cellOf c).digit < 62) ∧
      (swapMapMax < c &&& ~~~countContinued ↔ 62 < (cellOf c).digit) := by
  decide

lemma eq_swapMapMax : ∀ c : Byte, c &&& ~~~countContinued = swapMapMax ↔ (cellOf c).digit = 62 := by
  decide

lemma cellOf_injective : ∀ b c : Byte, cellOf b = cellOf c → b = c := by
  intro b c h
  have hrestore : ∀ b : Byte,
      b = BitVec.ofNat 8 (cellOf b).digit ||| if (cellOf b).more then countContinued else 0 := by
    decide
  rw [hrestore b, hrestore c, h]

end

section

variable {col : List Byte} (h : Chain 128 (col.map cellOf))
include h

lemma incrementMap_eq : incrementMap col = some none ∧ carry 128 (col.map cellOf) = none ∨
      ∃ col', incrementMap col = some (some col') ∧
        carry 128 (col.map cellOf) = some (col'.map cellOf) := by
  induction col with
  | nil => exact h.elim
  | cons b rest ih =>
    rw [map_cons] at h ⊢
    unfold incrementMap carry
    by_cases hfull : b = swapContMax ||| countContinued
    · subst hfull
      have hcell : cellOf (swapContMax ||| countContinued) = ⟨127, true⟩ := by decide
      rw [hcell] at h ⊢
      rw [if_pos rfl, if_neg (by norm_num), if_pos rfl]
      rcases ih h.2 with ⟨hinc, hcarry⟩ | ⟨col', hinc, hcarry⟩
      · rw [hinc, hcarry]
        exact .inl ⟨rfl, rfl⟩
      · rw [hinc, hcarry]
        exact .inr ⟨countContinued :: col', rfl, rfl⟩
    · rw [if_neg hfull]
      by_cases hlast : b = swapContMax
      · subst hlast
        have hcell : cellOf swapContMax = ⟨127, false⟩ := by decide
        rw [hcell, if_pos rfl, if_neg (by norm_num), if_neg (by decide)]
        cases rest with
        | nil => exact .inl ⟨rfl, rfl⟩
        | cons c rest => exact .inr ⟨_, rfl, rfl⟩
      · obtain ⟨hlt, hnext⟩ := cellOf_add_one b hfull hlast
        rw [if_neg hlast, if_pos hlt]
        refine .inr ⟨(b + 1) :: rest, rfl, ?_⟩
        rw [map_cons, hnext]

lemma decrementMap_eq : ∃ col', decrementMap col =
        some (col', if (borrow 128 (col.map cellOf)).2 then countContinued else 0) ∧
      col'.map cellOf = (borrow 128 (col.map cellOf)).1 := by
  induction col with
  | nil => exact h.elim
  | cons b rest ih =>
    rw [map_cons] at h ⊢
    unfold decrementMap borrow
    by_cases hzero : b = countContinued
    · subst hzero
      have hcell : cellOf countContinued = ⟨0, true⟩ := by decide
      rw [hcell] at h ⊢
      obtain ⟨col', hdec, hcol'⟩ := ih h.2
      rw [if_pos rfl, if_pos rfl, hdec]
      have hput : ∀ m : Bool, cellOf (swapContMax ||| if m then countContinued else 0) =
          ⟨127, m⟩ := by decide
      refine ⟨_, rfl, ?_⟩
      rw [map_cons, hcol']
      rw [hput]
    · have hne : b ≠ 0 := by
        rintro rfl
        have hcell : cellOf 0 = ⟨0, false⟩ := by decide
        rw [hcell] at h
        exact absurd h.2 (Nat.lt_irrefl 0)
      obtain ⟨hdigit, hprev, hone⟩ := cellOf_sub_one b hzero hne
      rw [if_neg hzero, if_neg hne, if_neg hdigit]
      refine ⟨(b - 1) :: rest, ?_, by rw [map_cons, hprev]⟩
      congr 2
      cases hmore : (cellOf b).more with
      | true =>
        have hnot : ¬ b - 1 = 0 := fun heq => by
          rw [hone, hmore] at heq
          exact Bool.noConfusion heq.1
        rw [if_neg hnot]
        rfl
      | false =>
        by_cases hd : (cellOf b).digit = 1
        · rw [if_pos (hone.mpr ⟨hmore, hd⟩), hd]
          rfl
        · rw [if_neg fun heq => hd (hone.mp heq).2]
          simp [hd]

lemma needsPage_of_carry (hcarry : carry 128 (col.map cellOf) = none) {count : Byte}
    (hcont : count &&& countContinued ≠ 0) : needsPage count col = true := by
  induction col generalizing count with
  | nil => rfl
  | cons b rest ih =>
    rw [map_cons] at h hcarry
    unfold carry at hcarry
    unfold needsPage
    rw [if_neg hcont]
    by_cases hfull : b = swapContMax ||| countContinued
    · subst hfull
      have hcell : cellOf (swapContMax ||| countContinued) = ⟨127, true⟩ := by decide
      rw [hcell] at h hcarry
      rw [if_neg (by norm_num), if_pos rfl, Option.map_eq_none_iff] at hcarry
      rw [if_neg (by decide)]
      exact ih h.2 hcarry (by decide)
    · by_cases hlast : b = swapContMax
      · subst hlast
        rw [if_neg (by decide)]
        have hcell : cellOf swapContMax = ⟨127, false⟩ := by decide
        rw [hcell, if_neg (by norm_num), if_neg (by decide)] at hcarry
        cases rest with
        | nil => rfl
        | cons c rest => cases hcarry
      · obtain ⟨hlt, -⟩ := cellOf_add_one b hfull hlast
        rw [if_pos hlt] at hcarry
        cases hcarry

end

structure Use where
  refs : ℕ
  cache : Bool
deriving DecidableEq

abbrev Uses := ℕ → Option Use

def readCount (si : SwapInfo) (offset : ℕ) : ℕ :=
  let low := cellOf (countOf (si.swapMap offset))
  low.digit + if low.more then 63 * value 128 ((si.column offset).map cellOf) else 0

structure Encodes (b : Byte) (col : List Byte) (u : Use) : Prop where
  low : (cellOf (countOf b)).digit ≤ 62
  chain : (cellOf (countOf b)).more = true → Chain 128 (col.map cellOf)
  refs : u.refs = (cellOf (countOf b)).digit +
    if (cellOf (countOf b)).more then 63 * value 128 (col.map cellOf) else 0
  cache : cacheOf b = u.cache

/-- The entries are used as `uses` says, and a page of `swap_map` is marked if it has
continuation pages. -/
structure Counted (uses : Uses) (si : SwapInfo) : Prop where
  bad : ∀ o < si.max, uses o = none → si.swapMap o = swapMapBad
  used : ∀ o < si.max, ∀ u, uses o = some u → Encodes (si.swapMap o) (si.column o) u
  pages : ∀ g, si.continued g = true ↔ si.contPages g ≠ []

section

variable {si : SwapInfo} {o o' : ℕ} {col : List Byte}

section

variable (h : col.length = (si.column o).length)
include h

lemma column_setColumn : (si.setColumn o col).column o = col := by
  unfold column at h
  rw [length_map] at h
  unfold setColumn column
  dsimp only
  rw [update_self, map_zipWith]
  simp only [update_self]
  rw [← map_uncurry_zip_eq_zipWith]
  exact map_snd_zip h.le

lemma column_setColumn_of_ne (hne : o' ≠ o) : (si.setColumn o col).column o' = si.column o' := by
  unfold column at h
  rw [length_map] at h
  unfold setColumn column
  dsimp only
  by_cases hpage : o' / pageSize = o / pageSize
  · have hbyte : o' % pageSize ≠ o % pageSize := by
      intro hbyte
      apply hne
      rw [← Nat.div_add_mod o' pageSize, hpage, hbyte, Nat.div_add_mod]
    rw [hpage, update_self, map_zipWith]
    simp only [update_of_ne hbyte]
    rw [← map_uncurry_zip_eq_zipWith, ← congrArg (map _) (map_fst_zip h.ge), map_map]
    rfl
  · rw [update_of_ne hpage]

lemma setColumn_pages (g : ℕ) : (si.setColumn o col).contPages g ≠ [] ↔ si.contPages g ≠ [] := by
  unfold column at h
  rw [length_map] at h
  unfold setColumn
  dsimp only
  by_cases hpage : g = o / pageSize
  · subst hpage
    rw [update_self, ← length_pos_iff, ← length_pos_iff, length_zipWith, h, Nat.min_self]
  · rw [update_of_ne hpage]

end

lemma column_ne_nil : si.column o ≠ [] ↔ si.contPages (o / pageSize) ≠ [] := by
  unfold column
  rw [ne_eq, map_eq_nil_iff]

lemma setColumn_self (si : SwapInfo) (o : ℕ) : si.setColumn o (si.column o) = si := by
  unfold setColumn column
  have hpages : ∀ l : List ContPage, zipWith
      (fun page b => update page (o % pageSize) b) l
      (l.map fun page => page (o % pageSize)) = l := by
    intro l
    rw [zipWith_map_right, zipWith_self]
    simp only [update_eq_self, map_id']
  rw [hpages, update_eq_self]

lemma setMap_self (si : SwapInfo) (o : ℕ) : si.setMap o (si.swapMap o) = si := by
  unfold setMap
  rw [update_eq_self]

end

section

variable {si : SwapInfo} {uses : Uses} {o : ℕ} {b : Byte} {col : List Byte} {u : Use}

lemma Counted.set (h : Counted uses si) (hcol : col.length = (si.column o).length)
    (henc : Encodes b col u) :
    Counted (update uses o (some u)) ((si.setColumn o col).setMap o b) := by
  refine ⟨fun o' ho' hnone => ?_, fun o' ho' u' hu' => ?_, fun g => ?_⟩
  · have hne : o' ≠ o := by
      rintro rfl
      rw [update_self] at hnone
      cases hnone
    rw [update_of_ne hne] at hnone
    show update si.swapMap o b o' = swapMapBad
    rw [update_of_ne hne]
    exact h.bad o' ho' hnone
  · show Encodes (update si.swapMap o b o') ((si.setColumn o col).column o') u'
    by_cases hsame : o' = o
    · subst hsame
      rw [update_self] at hu' ⊢
      cases hu'
      rw [column_setColumn hcol]
      exact henc
    · rw [update_of_ne hsame] at hu' ⊢
      rw [column_setColumn_of_ne hcol hsame]
      exact h.used o' ho' u' hu'
  · exact (h.pages g).trans (setColumn_pages hcol g).symm

lemma Counted.setMap (h : Counted uses si) (henc : Encodes b (si.column o) u) :
    Counted (update uses o (some u)) (si.setMap o b) := by
  have hset := h.set rfl henc
  rw [setColumn_self] at hset
  exact hset

lemma encodes_or {c : Byte} {n : ℕ} (hc : countOf c = c) (hlow : (cellOf c).digit ≤ 62)
    (hchain : (cellOf c).more = true → Chain 128 (col.map cellOf))
    (hn : n = (cellOf c).digit + if (cellOf c).more then 63 * value 128 (col.map cellOf) else 0)
    (cache : Bool) : Encodes (c ||| cacheByte cache) col ⟨n, cache⟩ := by
  obtain ⟨hcount, hcache⟩ := countOf_or c hc cache
  refine ⟨?_, ?_, ?_, hcache⟩
  · rw [hcount]
    exact hlow
  · rw [hcount]
    exact hchain
  · rw [hcount]
    exact hn

lemma Encodes.refs_eq_zero (h : Encodes b col u) : u.refs = 0 ↔ countOf b = 0 := by
  have hzero : ∀ b : Byte, (cellOf b).digit = 0 → (cellOf b).more = false → b = 0 := by
    decide
  rw [h.refs]
  cases hmore : (cellOf (countOf b)).more with
  | true =>
    have hpos := (h.chain hmore).value_pos
    rw [if_pos rfl]
    constructor
    · intro hsum
      omega
    · intro hb
      rw [hb] at hmore
      cases hmore
  | false =>
    rw [if_neg nofun, Nat.add_zero]
    constructor
    · intro hdigit
      exact hzero _ hdigit hmore
    · intro hb
      rw [hb]
      rfl

/-- **Free** entries. -/
lemma Encodes.eq_zero (h : Encodes b col u) : b = 0 ↔ u.refs = 0 ∧ u.cache = false := by
  have hbyte : ∀ b : Byte, b = 0 ↔ countOf b = 0 ∧ cacheOf b = false := by decide
  rw [h.refs_eq_zero, ← h.cache]
  exact hbyte b

end

section

variable {si : SwapInfo} {uses : Uses} {o : ℕ} {u : Use}
  (h : Counted uses si) (henc : Encodes (si.swapMap o) (si.column o) u)

include h henc in
lemma Counted.continued (hmore : (cellOf (countOf (si.swapMap o))).more = true) :
    si.continued (o / pageSize) = true := by
  rw [h.pages, ← column_ne_nil]
  intro hnil
  have hchain := henc.chain hmore
  rw [hnil] at hchain
  exact hchain

def NoPage (si : SwapInfo) (o : ℕ) : Prop :=
  if (cellOf (countOf (si.swapMap o))).more then
    carry 128 ((si.column o).map cellOf) = none
  else si.continued (o / pageSize) = false

include h henc in
lemma swapCountContinued_inc (hdigit : (cellOf (countOf (si.swapMap o))).digit = 62) :
    (swapCountContinued si o (countOf (si.swapMap o)) = some (si, false) ∧ NoPage si o) ∨
      ∃ col, swapCountContinued si o (countOf (si.swapMap o)) =
          some (si.setColumn o col, true) ∧ col.length = (si.column o).length ∧
        Chain 128 (col.map cellOf) ∧ 63 * value 128 (col.map cellOf) = u.refs + 1 := by
  have hrefs := henc.refs
  rw [hdigit] at hrefs
  unfold NoPage
  cases hmore : (cellOf (countOf (si.swapMap o))).more with
  | false =>
    have hcount : countOf (si.swapMap o) = swapMapMax :=
      cellOf_injective _ _ (by
        rw [show cellOf swapMapMax = ⟨62, false⟩ from rfl, ← hdigit, ← hmore])
    rw [hcount]
    unfold swapCountContinued
    cases hcont : si.continued (o / pageSize) with
    | false =>
      rw [if_pos rfl, if_neg nofun]
      exact .inl ⟨rfl, rfl⟩
    | true =>
      rw [if_neg nofun, if_pos rfl]
      rw [h.pages, ← column_ne_nil] at hcont
      cases hcol : si.column o with
      | nil => exact absurd hcol hcont
      | cons c rest =>
        refine .inr ⟨(0 + 1) :: rest, rfl, rfl, ?_, ?_⟩
        · exact (chain_last 1).mpr ⟨by norm_num, Nat.one_pos⟩
        · rw [hrefs, hmore]
          rfl
  | true =>
    have hchain := henc.chain hmore
    have hcont := h.continued henc hmore
    have hcount : countOf (si.swapMap o) = swapMapMax ||| countContinued :=
      cellOf_injective _ _ (by
        rw [show cellOf (swapMapMax ||| countContinued) = ⟨62, true⟩ from rfl, ← hdigit, ← hmore])
    rw [hcount]
    unfold swapCountContinued
    rw [if_neg (by rw [hcont]; decide), if_neg nofun, if_pos rfl, if_pos rfl]
    rcases incrementMap_eq hchain with ⟨hinc, hcarry⟩ | ⟨col, hinc, hcarry⟩
    · rw [hinc]
      exact .inl ⟨rfl, hcarry⟩
    · obtain ⟨hchain', hvalue⟩ := hchain.carry (by norm_num) hcarry
      have hlen := length_carry hcarry
      rw [length_map, length_map] at hlen
      rw [hinc]
      refine .inr ⟨col, rfl, hlen, hchain', ?_⟩
      rw [hmore, if_pos rfl] at hrefs
      rw [hvalue, hrefs]
      ring

include h henc in
lemma swapCountContinued_dec (hcount : countOf (si.swapMap o) = countContinued) :
    ∃ col left, swapCountContinued si o countContinued = some (si.setColumn o col, left) ∧
      col.length = (si.column o).length ∧ (left = true → Chain 128 (col.map cellOf) ∧
        u.refs = 62 + 63 * value 128 (col.map cellOf) + 1) ∧ (left = false → u.refs = 63) := by
  have hmore : (cellOf (countOf (si.swapMap o))).more = true := by
    rw [hcount]
    rfl
  have hchain := henc.chain hmore
  have hrefs := henc.refs
  rw [hmore, if_pos rfl, hcount, show (cellOf countContinued).digit = 0 from rfl] at hrefs
  obtain ⟨col, hdec, hcol⟩ := decrementMap_eq hchain
  have hlen : col.length = (si.column o).length := by
    have hlength := length_borrow 128 ((si.column o).map cellOf)
    rw [← hcol, length_map, length_map] at hlength
    exact hlength
  refine ⟨col, (borrow 128 ((si.column o).map cellOf)).2, ?_, hlen, ?_⟩
  · unfold swapCountContinued
    rw [if_neg (by rw [h.continued henc hmore]; decide), if_neg nofun, if_neg nofun,
      if_neg nofun, hdec]
    cases (borrow 128 ((si.column o).map cellOf)).2 <;> rfl
  · rcases hchain.borrow (by norm_num) with ⟨hleft, hchain', hvalue⟩ | ⟨hleft, hvalue⟩
    · rw [hleft, hcol]
      refine ⟨fun _ => ⟨hchain', ?_⟩, fun hfalse => Bool.noConfusion hfalse⟩
      rw [hrefs, ← hvalue]
      ring
    · rw [hleft]
      refine ⟨fun htrue => Bool.noConfusion htrue, fun _ => ?_⟩
      rw [hrefs, hvalue]

end

end Am335x.Swap
