import Mathlib.Data.List.GetD
import Mathlib.Data.List.Range
import Mathlib.Tactic.IntervalCases

/-!
# The DMA scheduler table of `drivers/usb/musb/cppi41.c`

The scheduler of the CPPI 4.1 DMA goes through a table of bytes, four to a
register word, each of which names a channel. `cppi41_schedtbl_add_dma_ch` and
`cppi41_schedtbl_remove_dma_ch` switch one row of `dma_sched_tbl` and write the
entries of the rows that are then enabled to the table, in order.

A word is written when the number of entries so far is a multiple of four, also
at a row that adds no entry: then a word of zeroes is written and everything
behind it comes one word too late.
-/

namespace Am335x.Cppi41

open Function List Nat

/-- `struct cppi41_dma_sched_tbl_t`; its `pos` is not read. -/
structure SchedRow where
  dmaCh : BitVec 8
  isTx : BitVec 8
  enb : Bool
  deriving DecidableEq

structure Scan where
  numCh : ℕ
  tblIndex : ℕ
  j : ℕ
  val : BitVec 32
  words : ℕ → BitVec 32

def SchedRow.entry (r : SchedRow) : BitVec 8 := r.dmaCh ||| if r.isTx ≠ 0 then 0#8 else 1#8 <<< 7

/-- `cppi_writel` to `DMA_SCHED_TABLE_WORD_REG(tbl_index)`. -/
def Scan.write (s : Scan) : Scan := { s with words := update s.words s.tblIndex s.val }

def Scan.row (s : Scan) (r : SchedRow) : Scan :=
  let s :=
    if r.enb then
      { s with val := s.val ||| r.entry.setWidth 32 <<< (s.j * 8)
               numCh := s.numCh + 1
               j := s.j + 1 }
    else s
  if s.numCh % 4 = 0 then { s.write with tblIndex := s.tblIndex + 1, val := 0, j := 0 } else s

/-- The loop; `switch` is what a function does to a row and to `found`. -/
def schedtblLoop (switch : Bool → SchedRow → Bool × SchedRow) :
    List SchedRow → Bool → Scan → List SchedRow × Scan
  | [], _, s => ([], s)
  | r :: rows, found, s =>
    let (found, r) := switch found r
    let (rows, s) := schedtblLoop switch rows found (s.row r)
    (r :: rows, s)

structure SchedResult where
  rows : List SchedRow
  words : ℕ → BitVec 32
  numCh : ℕ

def schedtblRun (switch : Bool → SchedRow → Bool × SchedRow) (rows : List SchedRow)
    (words : ℕ → BitVec 32) : SchedResult :=
  let (rows, s) := schedtblLoop switch rows false
    { numCh := 0, tblIndex := 0, j := 0, val := 0, words := words }
  let s := if s.numCh % 4 ≠ 0 then s.write else s
  { rows := rows, words := s.words, numCh := s.numCh }

def SchedRow.isFor (dmaCh isTx : BitVec 8) (r : SchedRow) : Bool :=
  r.dmaCh = dmaCh ∧ r.isTx = isTx

def addSwitch (dmaCh isTx : BitVec 8) (found : Bool) (r : SchedRow) : Bool × SchedRow :=
  if !found ∧ r.isFor dmaCh isTx ∧ r.enb = false then (true, { r with enb := true })
  else (found, r)

/-- `found` is tested here too, but never set. -/
def removeSwitch (dmaCh isTx : BitVec 8) (found : Bool) (r : SchedRow) : Bool × SchedRow :=
  if !found ∧ r.isFor dmaCh isTx ∧ r.enb = true then (found, { r with enb := false })
  else (found, r)

def cppi41SchedtblAddDmaCh (dmaCh isTx : BitVec 8) :
    List SchedRow → (ℕ → BitVec 32) → SchedResult :=
  schedtblRun (addSwitch dmaCh isTx)

def cppi41SchedtblRemoveDmaCh (dmaCh isTx : BitVec 8) :
    List SchedRow → (ℕ → BitVec 32) → SchedResult :=
  schedtblRun (removeSwitch dmaCh isTx)

/-- `dma_sched_tbl` as `cppi41_dma_block_init` fills it, with the rows `enb`
enabled: a transmit and a receive row for every second channel number. -/
def schedTbl (enb : ℕ → Bool) : List SchedRow :=
  (List.range 60).map fun i =>
    { dmaCh := BitVec.ofNat 8 (i / 2 * 2), isTx := if i % 2 = 0 then 1 else 0, enb := enb i }

/-- Byte `k` of the table. -/
def tableByte (words : ℕ → BitVec 32) (k : ℕ) : BitVec 8 :=
  (words (k / 4)).extractLsb' (8 * (k % 4)) 8

def entries (rows : List SchedRow) : List (BitVec 8) :=
  (rows.filter fun r => r.enb).map SchedRow.entry

def SchedResult.Right (r : SchedResult) : Prop :=
  r.numCh = (entries r.rows).length ∧
    ∀ k < r.numCh, tableByte r.words k = (entries r.rows).getD k 0

/-- Behind `n` entries: a row that is not enabled while their number is a
multiple of four is followed by none that is. -/
def FlushesInPlace : ℕ → List SchedRow → Prop
  | _, [] => True
  | n, r :: rows =>
    if r.enb then FlushesInPlace (n + 1) rows
    else if n % 4 = 0 then ∀ x ∈ rows, x.enb = false
    else FlushesInPlace n rows

lemma entries_nil : entries [] = [] := rfl

variable {rows : List SchedRow}

lemma entries_cons_of_enb {r : SchedRow} (h : r.enb = true) :
    entries (r :: rows) = r.entry :: entries rows := by
  rw [entries, filter_cons_of_pos h, map_cons, entries]

lemma entries_cons_of_not {r : SchedRow} (h : r.enb = false) :
    entries (r :: rows) = entries rows := by
  rw [entries, filter_cons_of_neg (by simp [h]), entries]

lemma entries_eq_nil (h : ∀ r ∈ rows, r.enb = false) : entries rows = [] := by
  induction rows with
  | nil => rfl
  | cons r rows ih =>
    rw [entries_cons_of_not (h r mem_cons_self)]
    exact ih fun x hx => h x (mem_cons_of_mem _ hx)

lemma byte_or (v : BitVec 32) (x : BitVec 8) {j k : ℕ} (hk : k < 4) :
    (v ||| x.setWidth 32 <<< (j * 8)).extractLsb' (8 * k) 8 =
      v.extractLsb' (8 * k) 8 ||| if k = j then x else 0 := by
  apply BitVec.eq_of_getLsbD_eq
  intro i hi
  have hlt : 8 * k + i < 32 := by omega
  simp only [BitVec.getLsbD_extractLsb', BitVec.getLsbD_or, BitVec.getLsbD_shiftLeft,
    BitVec.getLsbD_setWidth, hi, hlt, decide_true, Bool.true_and]
  congr 1
  rcases lt_trichotomy k j with hkj | rfl | hkj
  · rw [if_neg (by omega), decide_eq_true (show 8 * k + i < j * 8 by omega)]
    simp
  · rw [if_pos rfl, decide_eq_false (show ¬ 8 * k + i < k * 8 by omega),
      decide_eq_true (show 8 * k + i - k * 8 < 32 by omega),
      show 8 * k + i - k * 8 = i by omega]
    rfl
  · rw [if_neg (by omega), BitVec.getLsbD_of_ge x (8 * k + i - j * 8) (by omega)]
    simp

/-- The first words hold the entries so far, but for the rest modulo four,
which is in `val`. -/
structure Scan.Packed (s : Scan) (es : List (BitVec 8)) : Prop where
  numCh : s.numCh = es.length
  tblIndex : s.tblIndex = es.length / 4
  j : s.j = es.length % 4
  words : ∀ k < 4 * (es.length / 4), tableByte s.words k = es.getD k 0
  low : ∀ k < es.length % 4,
    s.val.extractLsb' (8 * k) 8 = es.getD (4 * (es.length / 4) + k) 0
  high : ∀ k < 4, es.length % 4 ≤ k → s.val.extractLsb' (8 * k) 8 = 0

section

variable (words : ℕ → BitVec 32)

lemma Scan.packed_init :
    Packed { numCh := 0, tblIndex := 0, j := 0, val := 0, words := words } [] := by
  refine ⟨rfl, rfl, rfl, nofun, nofun, ?_⟩
  intro k _ _
  simp

lemma tableByte_update_self {n k : ℕ} (w : BitVec 32) (hk : k < 4) :
    tableByte (update words n w) (4 * n + k) = w.extractLsb' (8 * k) 8 := by
  unfold tableByte
  rw [show (4 * n + k) / 4 = n by omega, show (4 * n + k) % 4 = k by omega, update_self]

end

lemma getD_append_length (es rest : List (BitVec 8)) (x : BitVec 8) :
    (es ++ x :: rest).getD es.length 0 = x := by
  rw [getD_eq_getElem?_getD, List.getElem?_append_right le_rfl, Nat.sub_self]
  rfl

section

variable {s : Scan} {es : List (BitVec 8)} {r : SchedRow} (h : s.Packed es)
include h

lemma Scan.Packed.byte (x : BitVec 8) {k : ℕ} (hk : k ≤ es.length % 4) :
    (s.val ||| x.setWidth 32 <<< (s.j * 8)).extractLsb' (8 * k) 8 =
      (es ++ [x]).getD (4 * (es.length / 4) + k) 0 := by
  have hdiv := div_add_mod es.length 4
  rw [byte_or _ _ (by omega), h.j]
  rcases lt_or_eq_of_le hk with hlt | rfl
  · rw [if_neg (by omega), h.low k hlt, List.getD_append _ _ _ _ (by omega)]
    simp
  · rw [if_pos rfl, h.high _ (by omega) le_rfl, hdiv, getD_append_length]
    simp

lemma Scan.Packed.enabled (hr : r.enb = true) : (s.row r).Packed (es ++ [r.entry]) := by
  have hdiv := div_add_mod es.length 4
  have hlen : (es ++ [r.entry]).length = es.length + 1 := by simp
  have hwords : ∀ k < 4 * (es.length / 4), tableByte s.words k = (es ++ [r.entry]).getD k 0 := by
    intro k hk
    rw [h.words k hk, List.getD_append _ _ _ _ (by omega)]
  by_cases hfull : (es.length + 1) % 4 = 0
  · have hrow : s.row r =
        { numCh := s.numCh + 1, tblIndex := s.tblIndex + 1, j := 0, val := 0,
          words := update s.words s.tblIndex
            (s.val ||| r.entry.setWidth 32 <<< (s.j * 8)) } := by
      simp [row, hr, h.numCh, hfull, write]
    rw [hrow]
    constructor
    · rw [hlen]
      exact congrArg (· + 1) h.numCh
    · rw [hlen]
      change s.tblIndex + 1 = _
      rw [h.tblIndex]
      omega
    · rw [hlen]
      exact hfull.symm
    · intro k hk
      rw [hlen] at hk
      by_cases hlow : k < 4 * (es.length / 4)
      · have hne : k / 4 ≠ s.tblIndex := by
          rw [h.tblIndex]
          omega
        unfold tableByte
        dsimp only
        rw [update_of_ne hne]
        exact hwords k hlow
      · obtain ⟨i, hi⟩ : ∃ i, k = 4 * (es.length / 4) + i := ⟨k - 4 * (es.length / 4), by omega⟩
        rw [hi, h.tblIndex, tableByte_update_self _ _ (by omega)]
        exact h.byte _ (by omega)
    · intro k hk
      rw [hlen, hfull] at hk
      omega
    · intro k _ _
      simp
  · have hrow : s.row r =
        { s with numCh := s.numCh + 1, j := s.j + 1,
                 val := s.val ||| r.entry.setWidth 32 <<< (s.j * 8) } := by
      simp only [row, hr, if_true, h.numCh, hfull, if_false]
    rw [hrow]
    constructor
    · rw [hlen]
      exact congrArg (· + 1) h.numCh
    · rw [hlen]
      rw [h.tblIndex]
      omega
    · rw [hlen]
      change s.j + 1 = _
      rw [h.j]
      omega
    · intro k hk
      rw [hlen] at hk
      exact hwords k (by omega)
    · intro k hk
      rw [hlen] at hk ⊢
      rw [show (es.length + 1) / 4 = es.length / 4 by omega]
      exact h.byte _ (by omega)
    · intro k hk hle
      rw [hlen] at hle
      rw [byte_or _ _ hk, h.j, if_neg (by omega), h.high k hk (by omega)]
      simp

lemma Scan.Packed.skipped (hr : r.enb = false) (hn : es.length % 4 ≠ 0) : s.row r = s := by
  simp only [row, hr, h.numCh, Bool.false_eq_true, if_false, if_neg hn]

lemma Scan.Packed.flushed (hr : r.enb = false) (hn : es.length % 4 = 0) :
    s.row r = { s.write with tblIndex := s.tblIndex + 1, val := 0, j := 0 } := by
  simp only [row, hr, h.numCh, Bool.false_eq_true, if_false, if_pos hn]

end

lemma Scan.row_numCh (s : Scan) (r : SchedRow) :
    (s.row r).numCh = s.numCh + (entries [r]).length := by
  cases hr : r.enb with
  | false =>
    rw [entries_cons_of_not hr]
    simp only [row, hr, Bool.false_eq_true, if_false, write]
    split <;> rfl
  | true =>
    rw [entries_cons_of_enb hr]
    simp only [row, hr, if_true, write]
    split <;> rfl

variable {n : ℕ}

lemma Scan.row_words (s : Scan) (r : SchedRow) (hn : n < s.tblIndex) :
    (s.row r).words n = s.words n ∧ n < (s.row r).tblIndex := by
  have hupdate (w : BitVec 32) : update s.words s.tblIndex w n = s.words n :=
    update_of_ne hn.ne _ _
  cases hr : r.enb with
  | false =>
    simp only [row, hr, Bool.false_eq_true, if_false, write]
    split
    · exact ⟨hupdate _, lt_succ_of_lt hn⟩
    · exact ⟨rfl, hn⟩
  | true =>
    simp only [row, hr, if_true, write]
    split
    · exact ⟨hupdate _, lt_succ_of_lt hn⟩
    · exact ⟨rfl, hn⟩

def Scan.finish (s : Scan) : Scan := if s.numCh % 4 ≠ 0 then s.write else s

lemma Scan.finish_numCh (s : Scan) : s.finish.numCh = s.numCh := by
  unfold finish
  split <;> rfl

lemma Scan.finish_words (s : Scan) (hn : n < s.tblIndex) : s.finish.words n = s.words n := by
  unfold finish
  split
  · exact update_of_ne hn.ne _ _
  · rfl

lemma Scan.foldl_numCh (rows : List SchedRow) (s : Scan) :
    (rows.foldl row s).numCh = s.numCh + (entries rows).length := by
  induction rows generalizing s with
  | nil => rfl
  | cons r rows ih =>
    rw [foldl_cons, ih, row_numCh, add_assoc, ← length_append]
    unfold entries
    rw [← map_append, ← filter_append, singleton_append]

lemma Scan.foldl_words (rows : List SchedRow) {s : Scan} (hn : n < s.tblIndex) :
    (rows.foldl row s).finish.words n = s.words n := by
  induction rows generalizing s with
  | nil => exact s.finish_words hn
  | cons r rows ih =>
    obtain ⟨hword, hlt⟩ := s.row_words r hn
    rw [foldl_cons, ih hlt, hword]

/-- The table holds `es`. -/
def Scan.Holds (s : Scan) (es : List (BitVec 8)) : Prop :=
  s.numCh = es.length ∧ ∀ k < es.length, tableByte s.words k = es.getD k 0

lemma tableByte_congr {v w : ℕ → BitVec 32} {k : ℕ} (h : v (k / 4) = w (k / 4)) :
    tableByte v k = tableByte w k := by
  rw [tableByte, tableByte, h]

section

variable {s : Scan} {es : List (BitVec 8)}

lemma Scan.Packed.holds (h : s.Packed es) : s.finish.Holds es := by
  have hdiv := div_add_mod es.length 4
  refine ⟨by rw [s.finish_numCh, h.numCh], ?_⟩
  intro k hk
  by_cases hlow : k < 4 * (es.length / 4)
  · rw [← h.words k hlow]
    exact tableByte_congr (s.finish_words (by rw [h.tblIndex]; omega))
  · have hrest : s.numCh % 4 ≠ 0 := by
      rw [h.numCh]
      omega
    obtain ⟨i, hi⟩ : ∃ i, k = 4 * (es.length / 4) + i := ⟨k - 4 * (es.length / 4), by omega⟩
    rw [finish, if_pos hrest, hi, ← h.low i (by omega), ← h.tblIndex]
    exact tableByte_update_self _ _ (by omega)

variable {rows : List SchedRow} (h : s.Packed es)
include h

lemma Scan.Packed.holds_of_disabled (hn : es.length % 4 = 0)
    (hrows : ∀ r ∈ rows, r.enb = false) : (rows.foldl row s).finish.Holds es := by
  refine ⟨?_, ?_⟩
  · rw [finish_numCh, foldl_numCh, h.numCh, entries_eq_nil hrows]
    rfl
  · intro k hk
    rw [← h.words k (by omega)]
    exact tableByte_congr (foldl_words rows (by rw [h.tblIndex]; omega))

lemma Scan.Packed.not_holds (hn : es.length % 4 = 0) {r : SchedRow}
    (hr : r.enb = false) (hne : ∀ x ∈ rows, x.entry ≠ 0) (hsome : entries rows ≠ []) :
    ¬ ((r :: rows).foldl row s).finish.Holds (es ++ entries rows) := by
  rintro ⟨-, hbytes⟩
  obtain ⟨x, rest, hx⟩ := exists_cons_of_ne_nil hsome
  have hentry : x ≠ 0 := by
    have hmem : x ∈ entries rows := by
      rw [hx]
      exact mem_cons_self
    obtain ⟨y, hy, rfl⟩ := mem_map.mp hmem
    exact hne y (mem_of_mem_filter hy)
  have hbyte := hbytes es.length (by rw [hx]; simp)
  have hexpected : (es ++ entries rows).getD es.length 0 = x := by
    rw [hx, getD_append_length]
  have hindex : es.length = 4 * s.tblIndex + 0 := by
    rw [h.tblIndex]
    omega
  have hword : ((r :: rows).foldl row s).finish.words s.tblIndex = s.val := by
    rw [foldl_cons, h.flushed hr hn, foldl_words rows (lt_succ_self _)]
    exact update_self _ _ _
  have hzero : tableByte ((r :: rows).foldl row s).finish.words es.length = 0 := by
    rw [tableByte, hindex, show (4 * s.tblIndex + 0) / 4 = s.tblIndex by omega, hword,
      show (4 * s.tblIndex + 0) % 4 = 0 by omega]
    exact h.high 0 (by norm_num) (by omega)
  rw [hzero, hexpected] at hbyte
  exact hentry hbyte.symm

/-- **The loop, from any point on.** -/
lemma Scan.Packed.holds_iff (hne : ∀ r ∈ rows.tail, r.entry ≠ 0) :
    (rows.foldl row s).finish.Holds (es ++ entries rows) ↔ FlushesInPlace es.length rows := by
  induction rows generalizing s es with
  | nil =>
    rw [entries_nil, append_nil]
    exact iff_of_true h.holds trivial
  | cons r rows ih =>
    have htail : ∀ x ∈ rows.tail, x.entry ≠ 0 := fun x hx => hne x (mem_of_mem_tail hx)
    cases hr : r.enb with
    | true =>
      rw [entries_cons_of_enb hr, foldl_cons, FlushesInPlace, if_pos hr,
        ← singleton_append, ← append_assoc, ih (h.enabled hr) htail]
      simp
    | false =>
      rw [entries_cons_of_not hr, FlushesInPlace, if_neg (by simp [hr])]
      split_ifs with hn
      · constructor
        · intro hholds x hx
          by_contra hen
          refine h.not_holds hn hr hne ?_ hholds
          rw [entries, Ne, map_eq_nil_iff, filter_eq_nil_iff]
          intro hall
          exact hall x hx (by simpa using hen)
        · intro hrows
          rw [entries_eq_nil hrows, append_nil]
          apply h.holds_of_disabled hn
          exact forall_mem_cons.mpr ⟨hr, hrows⟩
      · rw [foldl_cons, h.skipped hr hn, ih h htail]

end

def switchRows (switch : Bool → SchedRow → Bool × SchedRow) : Bool → List SchedRow → List SchedRow
  | _, [] => []
  | found, r :: rows => (switch found r).2 :: switchRows switch (switch found r).1 rows

section

variable (switch : Bool → SchedRow → Bool × SchedRow) (rows : List SchedRow)

lemma schedtblLoop_eq (found : Bool) (s : Scan) : schedtblLoop switch rows found s =
      (switchRows switch found rows, (switchRows switch found rows).foldl Scan.row s) := by
  induction rows generalizing found s with
  | nil => rfl
  | cons r rows ih =>
    rw [schedtblLoop, switchRows]
    cases switch found r with
    | mk found' r' =>
      dsimp only
      rw [ih, foldl_cons]

lemma schedtblRun_right_iff (words : ℕ → BitVec 32)
    (hne : ∀ r ∈ (switchRows switch false rows).tail, r.entry ≠ 0) :
    (schedtblRun switch rows words).Right ↔ FlushesInPlace 0 (switchRows switch false rows) := by
  have hiff := (Scan.packed_init words).holds_iff hne
  rw [length_nil, nil_append] at hiff
  rw [← hiff]
  unfold SchedResult.Right Scan.Holds schedtblRun
  rw [schedtblLoop_eq]
  constructor
  · rintro ⟨hnum, hbytes⟩
    exact ⟨hnum, fun k hk => hbytes k (hnum ▸ hk)⟩
  · rintro ⟨hnum, hbytes⟩
    exact ⟨hnum, fun k hk => hbytes k (hnum ▸ hk)⟩

end

def setCh (dmaCh isTx : BitVec 8) (enb : Bool) (rows : List SchedRow) : List SchedRow :=
  rows.map fun r => if r.isFor dmaCh isTx then { r with enb := enb } else r

section

variable (dmaCh isTx : BitVec 8) {rows : List SchedRow} (enb : ℕ → Bool)

lemma removeSwitch_eq (r : SchedRow) : removeSwitch dmaCh isTx false r =
      (false, if r.isFor dmaCh isTx then { r with enb := false } else r) := by
  unfold removeSwitch
  obtain ⟨ch, tx, enb⟩ := r
  cases SchedRow.isFor dmaCh isTx ⟨ch, tx, enb⟩ <;> cases enb <;> simp

lemma switchRows_remove (rows : List SchedRow) :
    switchRows (removeSwitch dmaCh isTx) false rows = setCh dmaCh isTx false rows := by
  induction rows with
  | nil => rfl
  | cons r rows ih =>
    rw [switchRows, removeSwitch_eq, ih]
    rfl

lemma switchRows_add_of_none (found : Bool) (h : ∀ r ∈ rows, r.isFor dmaCh isTx = false) :
    switchRows (addSwitch dmaCh isTx) found rows = rows := by
  induction rows with
  | nil => rfl
  | cons r rows ih =>
    have hr : addSwitch dmaCh isTx found r = (found, r) := by
      simp [addSwitch, h r mem_cons_self]
    rw [switchRows, hr, ih fun x hx => h x (mem_cons_of_mem _ hx)]

lemma switchRows_add
    (h : rows.Pairwise fun a b => ¬ (a.isFor dmaCh isTx = true ∧ b.isFor dmaCh isTx = true)) :
    switchRows (addSwitch dmaCh isTx) false rows = setCh dmaCh isTx true rows := by
  induction rows with
  | nil => rfl
  | cons r rows ih =>
    obtain ⟨hr, hrows⟩ := pairwise_cons.mp h
    cases hfor : r.isFor dmaCh isTx with
    | false =>
      have hsw : addSwitch dmaCh isTx false r = (false, r) := by simp [addSwitch, hfor]
      rw [switchRows, hsw, ih hrows]
      simp [setCh, hfor]
    | true =>
      have hnone : ∀ x ∈ rows, x.isFor dmaCh isTx = false := by
        intro x hx
        by_contra hne
        exact hr x hx ⟨hfor, by simpa using hne⟩
      have hsw : (addSwitch dmaCh isTx false r).2 = { r with enb := true } := by
        obtain ⟨ch, tx, enb⟩ := r
        cases enb <;> simp [addSwitch, hfor]
      rw [switchRows, hsw, switchRows_add_of_none dmaCh isTx _ hnone]
      have hset : setCh dmaCh isTx true (r :: rows) =
          { r with enb := true } :: setCh dmaCh isTx true rows := by
        simp [setCh, hfor]
      rw [hset, setCh, map_congr_left (g := id) (fun x hx => by rw [hnone x hx]; rfl), map_id]

/-- Whether row `i` is that of the channel. -/
def isRowOf (i : ℕ) : Bool :=
  BitVec.ofNat 8 (i / 2 * 2) = dmaCh ∧ (if i % 2 = 0 then 1 else 0) = isTx

lemma setCh_schedTbl (v : Bool) : setCh dmaCh isTx v (schedTbl enb) =
      schedTbl fun i => if isRowOf dmaCh isTx i then v else enb i := by
  unfold setCh schedTbl
  rw [map_map]
  apply map_congr_left
  intro i _
  have hfor : SchedRow.isFor dmaCh isTx ⟨BitVec.ofNat 8 (i / 2 * 2),
      if i % 2 = 0 then 1 else 0, enb i⟩ = isRowOf dmaCh isTx i := rfl
  rw [Function.comp_apply, hfor]
  dsimp only
  cases isRowOf dmaCh isTx i <;> rfl

lemma schedTbl_pairwise : (schedTbl enb).Pairwise fun a b =>
      ¬ (a.isFor dmaCh isTx = true ∧ b.isFor dmaCh isTx = true) := by
  have hrows : ∀ i < 60, ∀ k < 60, i ≠ k →
      ¬ (BitVec.ofNat 8 (i / 2 * 2) = BitVec.ofNat 8 (k / 2 * 2) ∧
        (if i % 2 = 0 then 1#8 else 0#8) = if k % 2 = 0 then 1#8 else 0#8) := by
    decide
  unfold schedTbl
  rw [pairwise_map]
  refine List.Pairwise.imp_of_mem ?_ (pairwise_lt_range (n := 60))
  intro i k hi hk hlt
  rintro ⟨ha, hb⟩
  simp only [SchedRow.isFor, decide_eq_true_eq] at ha hb
  refine hrows i (mem_range.mp hi) k (mem_range.mp hk) hlt.ne ⟨?_, ?_⟩
  · exact ha.1.trans hb.1.symm
  · exact ha.2.trans hb.2.symm

lemma schedTbl_entry_ne : ∀ r ∈ (schedTbl enb).tail, r.entry ≠ 0 := by
  have hbytes : ∀ i < 59, (SchedRow.mk (BitVec.ofNat 8 ((i + 1) / 2 * 2))
      (if (i + 1) % 2 = 0 then 1 else 0) true).entry ≠ 0 := by
    decide
  intro r hr
  unfold schedTbl at hr
  rw [range_succ_eq_map, map_cons, tail_cons, map_map] at hr
  obtain ⟨i, hi, rfl⟩ := mem_map.mp hr
  exact hbytes i (mem_range.mp hi)

end

/-- **The table is right exactly if no word of zeroes gets into it**: whatever
rows are enabled and whichever channel is switched. -/
theorem schedtbl_right_iff (enb : ℕ → Bool) (words : ℕ → BitVec 32) (dmaCh isTx : BitVec 8) :
    ((cppi41SchedtblAddDmaCh dmaCh isTx (schedTbl enb) words).Right ↔
      FlushesInPlace 0 (schedTbl fun i => if isRowOf dmaCh isTx i then true else enb i)) ∧
    ((cppi41SchedtblRemoveDmaCh dmaCh isTx (schedTbl enb) words).Right ↔
      FlushesInPlace 0 (schedTbl fun i => if isRowOf dmaCh isTx i then false else enb i)) := by
  constructor
  · have hrows := switchRows_add dmaCh isTx (schedTbl_pairwise dmaCh isTx enb)
    rw [setCh_schedTbl] at hrows
    rw [← hrows]
    apply schedtblRun_right_iff
    rw [hrows]
    exact schedTbl_entry_ne _
  · have hrows := switchRows_remove dmaCh isTx (schedTbl enb)
    rw [setCh_schedTbl] at hrows
    rw [← hrows]
    apply schedtblRun_right_iff
    rw [hrows]
    exact schedTbl_entry_ne _

/-- All rows are enabled and transmit channel 0, in row 0, is removed: 59
entries are reported and the first is that of row 1, but the first word is 0. -/
theorem schedtbl_remove_first :
    let r := cppi41SchedtblRemoveDmaCh 0 1 (schedTbl fun _ => true) fun _ => 0
    r.numCh = 59 ∧ (entries r.rows).getD 0 0 = 0x80 ∧ r.words 0 = 0 ∧ r.words 1 = 0x04820280 ∧
      ¬ r.Right := by
  intro r
  have hnum : r.numCh = 59 := by decide +kernel
  have hfirst : (entries r.rows).getD 0 0 = 0x80 := by decide
  have hword : r.words 0 = 0 := by decide +kernel
  refine ⟨hnum, hfirst, hword, by decide +kernel, ?_⟩
  rintro ⟨_, hbytes⟩
  have hbyte := hbytes 0 (hnum ▸ zero_lt_succ 58)
  rw [hfirst, tableByte, Nat.zero_div, hword] at hbyte
  cases hbyte

end Am335x.Cppi41
