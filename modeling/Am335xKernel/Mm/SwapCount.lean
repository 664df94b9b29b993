import Am335xKernel.Lib.DigitChain
import Am335xKernel.Lib.Refinement

/-!
# Swap counts of `mm/swapfile.c`

The byte of a swap entry in `swap_map` holds the low digit of its count, up to `SWAP_MAP_MAX`,
with a flag for the swap cache. If `COUNT_CONTINUED` is set in it there are higher digits, in the
continuation pages of the page of `swap_map` it is in. These pages are shared by the 4096 entries
of that page. A continuation page is not cleared when it is added.

The digits of an entry are the column of its bytes in these pages; the page walks are walks
along it. `none` stands for a `BUG_ON`. Which entry is looked for when one is allocated, and the
counters of entries, are not modelled.
-/

namespace Am335x.Swap

open Function

abbrev Byte := BitVec 8

def swapMapMax : Byte := 0x3e
def swapMapBad : Byte := 0x3f
def swapHasCache : Byte := 0x40
def swapContMax : Byte := 0x7f
def countContinued : Byte := 0x80
def swapMapShmem : Byte := 0xbf

def pageSize : ℕ := 4096

abbrev ContPage := ℕ → Byte

/-- `struct swap_info_struct`; for each page of `swap_map`, whether its `page_private` is
`SWP_CONTINUED`, and its list of continuation pages. -/
structure SwapInfo where
  max : ℕ
  swapMap : ℕ → Byte
  continued : ℕ → Bool
  contPages : ℕ → List ContPage

inductive Ret
  | ok
  | einval
  | enoent
  | eexist
  | enomem
deriving DecidableEq

namespace SwapInfo

def column (si : SwapInfo) (offset : ℕ) : List Byte :=
  (si.contPages (offset / pageSize)).map fun page => page (offset % pageSize)

def setColumn (si : SwapInfo) (offset : ℕ) (col : List Byte) : SwapInfo :=
  { si with
    contPages := update si.contPages (offset / pageSize)
      (List.zipWith (fun page b => update page (offset % pageSize) b)
        (si.contPages (offset / pageSize)) col) }

def setMap (si : SwapInfo) (offset : ℕ) (b : Byte) : SwapInfo :=
  { si with swapMap := update si.swapMap offset b }

end SwapInfo

/-- "Think of how you add 1 to 999": the digits that are full become 0, from the first one that
is not full on nothing else changes. Without a page for the carry it is `some none`. -/
def incrementMap : List Byte → Option (Option (List Byte))
  | [] => none
  | b :: rest =>
    if b = swapContMax ||| countContinued then
      (incrementMap rest).map fun r => r.map (countContinued :: ·)
    else if b = swapContMax then
      match rest with
      | [] => some none
      | _ :: rest => some (some (countContinued :: (0 + 1) :: rest))
    else some (some ((b + 1) :: rest))

/-- "Think of how you subtract 1 from 1000", with the `count` that goes on to the lower digit. -/
def decrementMap : List Byte → Option (List Byte × Byte)
  | [] => none
  | b :: rest =>
    if b = countContinued then
      (decrementMap rest).map fun r => ((swapContMax ||| r.2) :: r.1, countContinued)
    else if b = 0 then none
    else some ((b - 1) :: rest, if b - 1 = 0 then 0 else countContinued)

def swapCountContinued (si : SwapInfo) (offset : ℕ) (count : Byte) : Option (SwapInfo × Bool) :=
  if si.continued (offset / pageSize) = false then
    if count &&& countContinued ≠ 0 then none else some (si, false)
  else if count = swapMapMax then
    match si.column offset with
    | [] => none
    | _ :: rest => some (si.setColumn offset ((0 + 1) :: rest), true)
  else if count = swapMapMax ||| countContinued then
    (incrementMap (si.column offset)).map fun r =>
      match r with
      | none => (si, false)
      | some col => (si.setColumn offset col, true)
  else if count ≠ countContinued then none
  else
    (decrementMap (si.column offset)).map fun r =>
      (si.setColumn offset r.1, decide (r.2 = countContinued))

/-- `__swap_duplicate`. -/
def swapDuplicateOnce (si : SwapInfo) (offset : ℕ) (usage : Byte) : Option (SwapInfo × Ret) :=
  if si.max ≤ offset then some (si, .einval)
  else
    let hasCache := si.swapMap offset &&& swapHasCache
    let count := si.swapMap offset &&& ~~~swapHasCache
    if usage = swapHasCache then
      if hasCache = 0 ∧ count ≠ 0 then
        some (si.setMap offset (count ||| swapHasCache), .ok)
      else if hasCache ≠ 0 then some (si.setMap offset (count ||| hasCache), .eexist)
      else some (si.setMap offset (count ||| hasCache), .enoent)
    else if count ≠ 0 ∨ hasCache ≠ 0 then
      if count &&& ~~~countContinued < swapMapMax then
        some (si.setMap offset ((count + usage) ||| hasCache), .ok)
      else if swapMapMax < count &&& ~~~countContinued then
        some (si.setMap offset (count ||| hasCache), .einval)
      else
        (swapCountContinued si offset count).map fun r =>
          if r.2 then (r.1.setMap offset (countContinued ||| hasCache), .ok)
          else (r.1.setMap offset (count ||| hasCache), .enomem)
    else some (si.setMap offset (count ||| hasCache), .enoent)

/-- The walk of `add_swap_count_continuation` along the continuation pages: whether it comes to
the end, so that the new page is needed. -/
def needsPage : Byte → List Byte → Bool
  | _, [] => true
  | count, b :: rest =>
    if count &&& countContinued = 0 then false
    else if b &&& ~~~countContinued ≠ swapContMax then false
    else needsPage b rest

def swapInfoGet (si : SwapInfo) (offset : ℕ) : Bool :=
  decide (offset < si.max ∧ si.swapMap offset ≠ 0)

/-- `add_swap_count_continuation`, where `page` is what `alloc_page` returns. -/
def addSwapCountContinuation (si : SwapInfo) (offset : ℕ) (page : Option ContPage) :
    Option (SwapInfo × Ret) :=
  if swapInfoGet si offset = false then some (si, .ok)
  else
    let count := si.swapMap offset &&& ~~~swapHasCache
    if count &&& ~~~countContinued ≠ swapMapMax then some (si, .ok)
    else match page with
    | none => some (si, .enomem)
    | some page =>
      let head := offset / pageSize
      if si.continued head = false ∧ count &&& countContinued ≠ 0 then none
      else
        let pages := if si.continued head = false then [] else si.contPages head
        let si := { si with continued := update si.continued head true }
        if needsPage count (pages.map fun p => p (offset % pageSize)) then
          some ({ si with contPages := update si.contPages head (pages ++ [page]) }, .ok)
        else some (si, .ok)

/-- The loop of `swap_duplicate`; `alloc n` is the page for the `n`-th turn. -/
def swapDuplicate (offset : ℕ) (alloc : ℕ → Option ContPage) :
    ℕ → ℕ → SwapInfo → Option (SwapInfo × Ret)
  | 0, _, _ => none
  | fuel + 1, n, si =>
    (swapDuplicateOnce si offset 1).bind fun r =>
      if r.2 = .enomem then
        (addSwapCountContinuation r.1 offset (alloc n)).bind fun q =>
          if q.2 = .ok then swapDuplicate offset alloc fuel (n + 1) q.1 else some q
      else some (r.1, .ok)

/-- `swap_entry_free`, with what it returns. -/
def swapEntryFree (si : SwapInfo) (offset : ℕ) (usage : Byte) : Option (SwapInfo × Byte) :=
  let hasCache := si.swapMap offset &&& swapHasCache
  let count := si.swapMap offset &&& ~~~swapHasCache
  let put (si : SwapInfo) (b : Byte) : SwapInfo × Byte := (si.setMap offset b, b)
  if usage = swapHasCache then some (put si (count ||| 0))
  else if count = swapMapShmem then some (put si (0 ||| hasCache))
  else if count &&& ~~~countContinued ≤ swapMapMax then
    if count = countContinued then
      (swapCountContinued si offset count).map fun r =>
        put r.1 ((if r.2 then swapMapMax ||| countContinued else swapMapMax) ||| hasCache)
    else some (put si ((count - 1) ||| hasCache))
  else some (put si (count ||| hasCache))

def swapFree (si : SwapInfo) (offset : ℕ) : Option SwapInfo :=
  if swapInfoGet si offset then (swapEntryFree si offset 1).map Prod.fst else some si

def swapcacheFree (si : SwapInfo) (offset : ℕ) : Option SwapInfo :=
  if swapInfoGet si offset then (swapEntryFree si offset swapHasCache).map Prod.fst else some si

end Am335x.Swap
