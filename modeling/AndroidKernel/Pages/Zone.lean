import AndroidKernel.Lib.Dyadic
import Mathlib.Algebra.BigOperators.Ring.Finset
import Mathlib.Data.Fintype.Basic

/-! A zone of `hw5/mm/page_alloc.c` and the freeing of a block into it. A `struct page *` is its
page frame number, `lru` membership is membership in the list it is linked into. -/

namespace AndroidKernel.Pages

inductive Migratetype
  | unmovable | reclaimable | movable | reserve | cma | isolate
deriving DecidableEq, Repr

instance : Fintype Migratetype :=
  ⟨{.unmovable, .reclaimable, .movable, .reserve, .cma, .isolate}, fun mt => by cases mt <;> decide⟩

/-- What the allocator reads of a `struct page`: `PageBuddy`, the guard flag of
`CONFIG_DEBUG_PAGEALLOC`, `page_private` and `page_count`. -/
@[ext] structure Page where
  buddy : Bool
  guard : Bool
  priv : ℕ
  count : ℕ
deriving DecidableEq, Repr

@[ext] structure FreeArea where
  freeList : Migratetype → List ℕ
  nrFree : ℤ

@[ext] structure Zone where
  page : ℕ → Page
  freeArea : ℕ → FreeArea
  /-- The migratetype of each pageblock. -/
  pageblock : ℕ → Migratetype
  nrFreePages : ℤ
  nrFreeCmaPages : ℤ

/-- The constants of the build and of the zone. Without `CONFIG_DEBUG_PAGEALLOC` the minor order of
guard pages is `0`. -/
structure Config where
  maxOrder : ℕ
  pageblockOrder : ℕ
  debugGuardpageMinorder : ℕ
  cma : Bool
  pageGroupByMobilityDisabled : Bool
  zoneStartPfn : ℕ
  spannedPages : ℕ
  zoneId : ℕ
  pfnValid : ℕ → Bool
  /-- Always true within a block of the largest order, unless zones have holes. -/
  pfnValidWithin : ℕ → Bool
  pageZoneId : ℕ → ℕ
  pageShift : ℕ
  maxOrder_pos : 0 < maxOrder
  pageShift_pos : 0 < pageShift
  valid : ∀ p, pfnValid p = true → pfnValidWithin p = true
  /-- The zones do not overlap. -/
  span : ∀ p, pfnValidWithin p = true →
    (pageZoneId p = zoneId ↔ zoneStartPfn ≤ p ∧ p < zoneStartPfn + spannedPages)

def isMigrateCma (c : Config) (mt : Migratetype) : Bool := c.cma && decide (mt = .cma)

namespace Zone
variable (z : Zone)

def setPage (p : ℕ) (pg : Page) : Zone := { z with page := Function.update z.page p pg }

def setPagePrivate (p n : ℕ) : Zone := z.setPage p { z.page p with priv := n }

def setPageOrder (p order : ℕ) : Zone := z.setPage p { z.page p with buddy := true, priv := order }

def rmvPageOrder (p : ℕ) : Zone := z.setPage p { z.page p with buddy := false, priv := 0 }

def setPageGuardFlag (p : ℕ) : Zone := z.setPage p { z.page p with guard := true }

def clearPageGuardFlag (p : ℕ) : Zone := z.setPage p { z.page p with guard := false }

def setFreeArea (o : ℕ) (a : FreeArea) : Zone :=
  { z with freeArea := Function.update z.freeArea o a }

def setFreeList (o : ℕ) (mt : Migratetype) (l : List ℕ) : Zone :=
  z.setFreeArea o
    { z.freeArea o with freeList := Function.update (z.freeArea o).freeList mt l }

/-- `list_del` takes the page out of whichever list it is in. -/
def listDel (p : ℕ) : Zone :=
  { z with freeArea := fun o =>
      { z.freeArea o with freeList := fun mt => ((z.freeArea o).freeList mt).erase p } }

def listAdd (p o : ℕ) (mt : Migratetype) : Zone :=
  z.setFreeList o mt (p :: (z.freeArea o).freeList mt)

def listAddTail (p o : ℕ) (mt : Migratetype) : Zone :=
  z.setFreeList o mt ((z.freeArea o).freeList mt ++ [p])

def listMove (p o : ℕ) (mt : Migratetype) : Zone := (z.listDel p).listAdd p o mt

def addNrFree (o : ℕ) (n : ℤ) : Zone :=
  z.setFreeArea o { z.freeArea o with nrFree := (z.freeArea o).nrFree + n }

def modNrFreePages (n : ℤ) : Zone := { z with nrFreePages := z.nrFreePages + n }

def modNrFreeCmaPages (n : ℤ) : Zone := { z with nrFreeCmaPages := z.nrFreeCmaPages + n }

end Zone

def modZoneFreepageState (c : Config) (z : Zone) (n : ℤ) (mt : Migratetype) : Zone :=
  if isMigrateCma c mt then (z.modNrFreePages n).modNrFreeCmaPages n else z.modNrFreePages n

def getPageblockMigratetype (c : Config) (z : Zone) (p : ℕ) : Migratetype :=
  z.pageblock (p >>> c.pageblockOrder)

/-- The migratetype that `set_pageblock_migratetype` sets: without grouping there is one only. -/
def groupedMigratetype (c : Config) (mt : Migratetype) : Migratetype :=
  if c.pageGroupByMobilityDisabled then .unmovable else mt

def setPageblockMigratetype (c : Config) (z : Zone) (p : ℕ) (mt : Migratetype) : Zone :=
  { z with pageblock :=
      Function.update z.pageblock (p >>> c.pageblockOrder) (groupedMigratetype c mt) }

def findBuddyIndex (pageIdx order : ℕ) : ℕ := pageIdx ^^^ (1 <<< order)

def pageIsBuddy (c : Config) (z : Zone) (page buddy order : ℕ) : Bool :=
  if !c.pfnValidWithin buddy then false
  else if c.pageZoneId page ≠ c.pageZoneId buddy then false
  else if (z.page buddy).guard ∧ (z.page buddy).priv = order then true
  else decide ((z.page buddy).buddy ∧ (z.page buddy).priv = order)

structure Cursor where
  page : ℕ
  pageIdx : ℕ
  order : ℕ
  buddyIdx : ℕ
  buddy : ℕ

def absorbBuddy (c : Config) (z : Zone) (page buddy order : ℕ) (mt : Migratetype) : Zone :=
  if (z.page buddy).guard then
    -- it is `private` of the page that is reset, not that of the guard page
    modZoneFreepageState c ((z.clearPageGuardFlag buddy).setPagePrivate page 0) (1 <<< order) mt
  else ((z.listDel buddy).addNrFree order (-1)).rmvPageOrder buddy

/-- The `while` loop of `__free_one_page`; the fuel is `MAX_ORDER - 1 - order`. -/
def mergeBuddies (c : Config) (mt : Migratetype) : ℕ → Zone → Cursor → Zone × Cursor
  | 0, z, k => (z, k)
  | fuel + 1, z, k =>
    let buddyIdx := findBuddyIndex k.pageIdx k.order
    let buddy := k.page + buddyIdx - k.pageIdx
    if pageIsBuddy c z k.page buddy k.order then
      let combinedIdx := buddyIdx &&& k.pageIdx
      mergeBuddies c mt fuel (absorbBuddy c z k.page buddy k.order mt)
        ⟨k.page + combinedIdx - k.pageIdx, combinedIdx, k.order + 1, buddyIdx, buddy⟩
    else (z, { k with buddyIdx, buddy })

/-- The test whether the next merge is likely, after which a page goes to the tail of its list. The
higher buddy is counted from `page` where `higher_page` is meant. -/
def higherBuddyIsFree (c : Config) (z : Zone) (k : Cursor) : Bool :=
  if k.order + 2 < c.maxOrder ∧ c.pfnValidWithin k.buddy then
    let combinedIdx := k.buddyIdx &&& k.pageIdx
    let higherPage := k.page + combinedIdx - k.pageIdx
    let buddyIdx := findBuddyIndex combinedIdx (k.order + 1)
    let higherBuddy := k.page + buddyIdx - combinedIdx
    pageIsBuddy c z higherPage higherBuddy (k.order + 1)
  else false

def freeOnePage' (c : Config) (z : Zone) (page order : ℕ) (mt : Migratetype) : Zone :=
  let pageIdx := page &&& ((1 <<< c.maxOrder) - 1)
  let (z, k) := mergeBuddies c mt (c.maxOrder - 1 - order) z ⟨page, pageIdx, order, 0, 0⟩
  let z := z.setPageOrder k.page k.order
  let z :=
    if higherBuddyIsFree c z k then z.listAddTail k.page k.order mt
    else z.listAdd k.page k.order mt
  z.addNrFree k.order 1

def freeOnePage (c : Config) (z : Zone) (page order : ℕ) (mt : Migratetype) : Zone :=
  let z := freeOnePage' c z page order mt
  if mt ≠ .isolate then modZoneFreepageState c z (1 <<< order) mt else z

end AndroidKernel.Pages
