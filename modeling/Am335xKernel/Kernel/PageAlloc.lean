import Am335xKernel.Lib.BuddySystem
import Am335xKernel.Lib.Refinement

/-!
# The free page blocks of a zone

`mm/page_alloc.c` keeps the free page blocks of a zone in lists, one for each order and
migrate type. `__free_one_page` joins a block that is freed with its buddy as long as this one
is free too; `__rmqueue_smallest` and `__rmqueue_fallback` take a block from a list and give
back the halves that are not asked for (`expand`). The latter takes from the lists of another
type, and may move the other free blocks of the same page block to the lists of the type that
is asked for.

A page is its page frame number. A list holds the first pages of its blocks.
-/

namespace Am335x.PageAlloc

open Function

open BuddySystem

/-- `MAX_ORDER` (`CONFIG_FORCE_MAX_ZONEORDER`) -/
def maxOrder : ℕ := 11

/-- `pageblock_order`, without huge pages -/
def pageblockOrder : ℕ := maxOrder - 1

def pageblockNrPages : ℕ := 2 ^ pageblockOrder

/-- `MIGRATE_UNMOVABLE` and so on -/
inductive MigrateType where
  | unmovable | reclaimable | movable | reserve | isolate
  deriving DecidableEq

def MigrateType.all : List MigrateType := [.unmovable, .reclaimable, .movable, .reserve, .isolate]

/-- `fallbacks`: the rows have `MIGRATE_TYPES - 1` entries, of which the initialiser gives
three; the last one is zero, and so is the whole row that is not given. -/
def fallbacks : MigrateType → List MigrateType
  | .unmovable => [.reclaimable, .movable, .reserve, .unmovable]
  | .reclaimable => [.unmovable, .movable, .reserve, .unmovable]
  | .movable => [.reclaimable, .unmovable, .reserve, .unmovable]
  | .reserve => [.reserve, .reserve, .reserve, .unmovable]
  | .isolate => [.unmovable, .unmovable, .unmovable, .unmovable]

structure Layout where
  startPfn : ℕ
  spannedPages : ℕ
  zoneId : ℕ → ℕ
  id : ℕ
  /-- `page_group_by_mobility_disabled` -/
  mobilityDisabled : Bool
  within : ∀ p, startPfn ≤ p → p < startPfn + spannedPages → zoneId p = id
  fits : startPfn + spannedPages < 2 ^ 32

def Layout.endPfn (L : Layout) : ℕ := L.startPfn + L.spannedPages

/-- `free_area`, the marks of the pages and the types of the page blocks. -/
structure Zone where
  /-- `PageBuddy` with `page_order` -/
  order : ℕ → Option ℕ
  freeList : ℕ → MigrateType → List ℕ
  nrFree : ℕ → ℕ
  pageblock : ℕ → MigrateType

namespace Zone

variable (z : Zone) (page order : ℕ) (migratetype : MigrateType)

def setPageOrder : Zone := { z with order := update z.order page (some order) }

def rmvPageOrder : Zone := { z with order := update z.order page none }

def setList (l : List ℕ) : Zone :=
  { z with
    freeList := update z.freeList order
      (update (z.freeList order) migratetype l) }

/-- `list_add` to a free list -/
def listAdd : Zone := z.setList order migratetype (page :: z.freeList order migratetype)

/-- `list_add_tail` to a free list -/
def listAddTail : Zone := z.setList order migratetype (z.freeList order migratetype ++ [page])

/-- `list_del`: from the list the page is on -/
def listDel : Zone :=
  { z with freeList := fun o mt => (z.freeList o mt).filter fun q => q ≠ page }

/-- `nr_free++` -/
def incFree : Zone :=
  { z with nrFree := update z.nrFree order ((z.nrFree order + 1) % 2 ^ 32) }

/-- `nr_free--` -/
def decFree : Zone :=
  { z with nrFree := update z.nrFree order ((z.nrFree order + (2 ^ 32 - 1)) % 2 ^ 32) }

end Zone

def findBuddyIndex (pageIdx order : ℕ) : ℕ := pageIdx ^^^ 2 ^ order

/-- `page_is_buddy`, where `pfn_valid_within` is constant -/
def pageIsBuddy (L : Layout) (z : Zone) (page buddy order : ℕ) : Bool :=
  if L.zoneId page ≠ L.zoneId buddy then false
  else decide (z.order buddy = some order)

/-- The variables of `__free_one_page`. -/
structure Cursor where
  page : ℕ
  pageIdx : ℕ
  order : ℕ

/-- The loop of `__free_one_page`, with the number of orders up to `MAX_ORDER - 1`. -/
def coalesce (L : Layout) : ℕ → Zone → Cursor → Zone × Cursor
  | 0, z, c => (z, c)
  | n + 1, z, c =>
    let buddyIdx := findBuddyIndex c.pageIdx c.order
    let buddy := c.page + buddyIdx - c.pageIdx
    if pageIsBuddy L z c.page buddy c.order then
      let z := ((z.listDel buddy).decFree c.order).rmvPageOrder buddy
      let combinedIdx := buddyIdx &&& c.pageIdx
      coalesce L n z ⟨c.page + combinedIdx - c.pageIdx, combinedIdx, c.order + 1⟩
    else (z, c)

def joinsSoon (L : Layout) (z : Zone) (c : Cursor) : Bool :=
  let combinedIdx := findBuddyIndex c.pageIdx c.order &&& c.pageIdx
  let higherPage := c.page + combinedIdx - c.pageIdx
  let buddyIdx := findBuddyIndex combinedIdx (c.order + 1)
  let higherBuddy := c.page + buddyIdx - combinedIdx
  decide (c.order < maxOrder - 2) && pageIsBuddy L z higherPage higherBuddy (c.order + 1)

/-- `__free_one_page`, of a page that is not a compound page -/
def freeOnePage (L : Layout) (z : Zone) (page order : ℕ) (migratetype : MigrateType) : Zone :=
  let pageIdx := page &&& (2 ^ maxOrder - 1)
  let p := coalesce L (maxOrder - 1 - order) z ⟨page, pageIdx, order⟩
  let z := p.1.setPageOrder p.2.page p.2.order
  let z :=
    if joinsSoon L z p.2 then z.listAddTail p.2.page p.2.order migratetype
    else z.listAdd p.2.page p.2.order migratetype
  z.incFree p.2.order

/-- The loop of `expand`, with `high - low`. -/
def expand (page low : ℕ) (migratetype : MigrateType) : ℕ → Zone → Zone
  | 0, z => z
  | n + 1, z =>
    let high := low + n
    let half := page + 2 ^ high
    expand page low migratetype n
      (((z.listAdd half high migratetype).incFree high).setPageOrder half high)

/-- The loop of `__rmqueue_smallest`, from an order on. -/
def smallestFrom (z : Zone) (order : ℕ) (migratetype : MigrateType) :
    ℕ → ℕ → Option (Zone × ℕ)
  | 0, _ => none
  | n + 1, currentOrder =>
    match z.freeList currentOrder migratetype with
    | [] => smallestFrom z order migratetype n (currentOrder + 1)
    | page :: _ =>
      let z := ((z.listDel page).rmvPageOrder page).decFree currentOrder
      some (expand page order migratetype (currentOrder - order) z, page)

def rmqueueSmallest (z : Zone) (order : ℕ) (migratetype : MigrateType) : Option (Zone × ℕ) :=
  smallestFrom z order migratetype (maxOrder - order) order

def setPageblockMigratetype (L : Layout) (z : Zone) (page : ℕ) (migratetype : MigrateType) : Zone :=
  let migratetype := if L.mobilityDisabled then .unmovable else migratetype
  { z with
    pageblock := update z.pageblock ((page - L.startPfn) >>> pageblockOrder) migratetype }

def changePageblockRange (L : Layout) (migratetype : MigrateType) : ℕ → Zone → ℕ → Zone
  | 0, z, _ => z
  | n + 1, z, page =>
    changePageblockRange L migratetype n (setPageblockMigratetype L z page migratetype)
      (page + pageblockNrPages)

/-- The loop of `move_freepages` over the pages up to `endPage`; the number of pages moved. -/
def moveLoop (endPage : ℕ) (migratetype : MigrateType) : ℕ → Zone → ℕ → ℕ → Zone × ℕ
  | 0, z, _, pagesMoved => (z, pagesMoved)
  | fuel + 1, z, page, pagesMoved =>
    if page ≤ endPage then
      match z.order page with
      | none => moveLoop endPage migratetype fuel z (page + 1) pagesMoved
      | some order =>
        moveLoop endPage migratetype fuel ((z.listDel page).listAdd page order migratetype)
          (page + 2 ^ order) (pagesMoved + 2 ^ order)
    else (z, pagesMoved)

/-- `move_freepages`; `none` is the `BUG_ON` -/
def moveFreepages (L : Layout) (z : Zone) (startPage endPage : ℕ) (migratetype : MigrateType) :
    Option (Zone × ℕ) :=
  if L.zoneId startPage ≠ L.zoneId endPage then none
  else some (moveLoop endPage migratetype (endPage + 1 - startPage) z startPage 0)

def moveFreepagesBlock (L : Layout) (z : Zone) (page : ℕ) (migratetype : MigrateType) :
    Option (Zone × ℕ) :=
  let startPfn := page / pageblockNrPages * pageblockNrPages
  let endPfn := startPfn + pageblockNrPages - 1
  let startPage := if startPfn < L.startPfn then page else startPfn
  if L.endPfn ≤ endPfn then some (z, 0)
  else moveFreepages L z startPage endPfn migratetype

/-- In `__rmqueue_fallback`: take ownership of the page block, if it is worth it. -/
def claim (L : Layout) (z : Zone) (page currentOrder : ℕ)
    (startMigratetype migratetype : MigrateType) :
    Option (Zone × MigrateType) :=
  if pageblockOrder >>> 1 ≤ currentOrder ∨ startMigratetype = .reclaimable ∨
      L.mobilityDisabled then do
    let (z, pages) ← moveFreepagesBlock L z page startMigratetype
    let z :=
      if 2 ^ (pageblockOrder - 1) ≤ pages ∨ L.mobilityDisabled then
        setPageblockMigratetype L z page startMigratetype
      else z
    return (z, startMigratetype)
  else return (z, migratetype)

/-- The body of the loops of `__rmqueue_fallback`, with the first page of a list. -/
def steal (L : Layout) (z : Zone) (order currentOrder page : ℕ)
    (startMigratetype migratetype : MigrateType) : Option (Zone × ℕ) := do
  let z := z.decFree currentOrder
  let (z, migratetype) ← claim L z page currentOrder startMigratetype migratetype
  let z := (z.listDel page).rmvPageOrder page
  let z :=
    if pageblockOrder ≤ currentOrder then
      changePageblockRange L startMigratetype (2 ^ (currentOrder - pageblockOrder)) z page
    else z
  return (expand page order migratetype (currentOrder - order) z, page)

/-- The lists that `__rmqueue_fallback` looks at, in order. -/
def candidates (order : ℕ) (startMigratetype : MigrateType) : List (ℕ × MigrateType) :=
  ((List.range maxOrder).reverse.filter fun o => decide (order ≤ o)).flatMap fun o =>
    ((fallbacks startMigratetype).filter fun mt => decide (mt ≠ .reserve)).map fun mt => (o, mt)

/-- `__rmqueue_fallback`: the first list that is not empty. The outer `none` is the
`BUG_ON` of `move_freepages`. -/
def rmqueueFallback (L : Layout) (z : Zone) (order : ℕ) (startMigratetype : MigrateType) :
    Option (Option (Zone × ℕ)) :=
  match (candidates order startMigratetype).findSome? fun q =>
      (z.freeList q.1 q.2).head?.map fun page => (q.1, q.2, page) with
  | none => some none
  | some (currentOrder, migratetype, page) =>
    (steal L z order currentOrder page startMigratetype migratetype).map some

structure System where
  zone : Zone
  allocated : Set Block

inductive Call where
  | smallest (order : ℕ) (migratetype : MigrateType)
  | fallback (order : ℕ) (migratetype : MigrateType)
  | free (page order : ℕ) (migratetype : MigrateType)

def System.alloc (s : System) (order : ℕ) : Option (Zone × ℕ) → System × Option ℕ
  | none => (s, none)
  | some (z, page) => (⟨z, insert ⟨page, order⟩ s.allocated⟩, some page)

def call (L : Layout) : Component System Call (Option ℕ) := fun s i =>
  match i with
  | .smallest order mt => some (s.alloc order (rmqueueSmallest s.zone order mt))
  | .fallback order mt => (rmqueueFallback L s.zone order mt).map (s.alloc order)
  | .free page order mt =>
    some (⟨freeOnePage L s.zone page order mt, s.allocated \ {⟨page, order⟩}⟩, none)

def Legal (s : System) : Call → Prop
  | .free page order _ => ⟨page, order⟩ ∈ s.allocated
  | _ => True

end Am335x.PageAlloc
