import AndroidKernel.Pages.Rmqueue
import AndroidKernel.Pages.Watermark

/-! The per-CPU lists of single pages in front of a zone, and the entry points of the allocator:
`buffered_rmqueue`, `free_hot_cold_page`, `__free_pages` and `drain_pages`. -/

namespace AndroidKernel.Pages

namespace Migratetype

def code : Migratetype → ℕ
  | unmovable => 0
  | reclaimable => 1
  | movable => 2
  | reserve => 3
  | cma => 4
  | isolate => 5

def ofCode : ℕ → Migratetype
  | 0 => unmovable
  | 1 => reclaimable
  | 2 => movable
  | 3 => reserve
  | 4 => cma
  | _ => isolate

@[simp] theorem ofCode_code (mt : Migratetype) : ofCode mt.code = mt := by
  cases mt <;> rfl

def isPcp (mt : Migratetype) : Bool := decide (mt.code < 3)

def nextPcp : Migratetype → Migratetype
  | unmovable => reclaimable
  | reclaimable => movable
  | _ => unmovable

end Migratetype
open Migratetype

structure Pcp where
  count : ℤ
  high : ℤ
  batch : ℕ
  lists : Migratetype → List ℕ

def setupPageset (batch : ℕ) : Pcp := ⟨0, 6 * batch, max 1 batch, fun _ => []⟩

def setupPagelistHighmark (c : Config) (pcp : Pcp) (high : ℕ) : Pcp :=
  { pcp with
    high := high
    batch := if c.pageShift * 8 < high / 4 then c.pageShift * 8 else max 1 (high / 4) }

def Pcp.setList (pcp : Pcp) (mt : Migratetype) (l : List ℕ) : Pcp :=
  { pcp with lists := Function.update pcp.lists mt l }

structure Drain where
  zone : Zone
  lists : Migratetype → List ℕ
  migratetype : Migratetype
  batchFree : ℕ
  /-- The inner loop goes on with the list of `migratetype`. -/
  again : Bool

/-- The loop of `free_pcppages_bulk` that looks for a list that is not empty, for `fuel` rounds. -/
def nextList (lists : Migratetype → List ℕ) : ℕ → ℕ → Migratetype → Option (ℕ × Migratetype)
  | 0, _, _ => none
  | fuel + 1, batchFree, mt =>
    let batchFree := batchFree + 1
    let mt := mt.nextPcp
    if (lists mt).isEmpty then nextList lists fuel batchFree mt else some (batchFree, mt)

def freeLast (c : Config) (d : Drain) (toFree page : ℕ) : Drain :=
  let mt := getPageblockMigratetype c d.zone page
  let lists := Function.update d.lists d.migratetype ((d.lists d.migratetype).erase page)
  let z := freeOnePage' c d.zone page 0 (ofCode (d.zone.page page).priv)
  let z := if isMigrateCma c mt then z.modNrFreeCmaPages 1 else z
  let batchFree := if toFree = 0 then d.batchFree else d.batchFree - 1
  ⟨z, lists, d.migratetype, batchFree,
    decide (toFree ≠ 0 ∧ batchFree ≠ 0 ∧ lists d.migratetype ≠ [])⟩

/-- The head of the outer loop with `toFree` pages to go, unless the inner loop goes on. -/
def pickList (fuel toFree : ℕ) (d : Drain) : Option Drain :=
  if d.again then some d
  else match nextList d.lists fuel d.batchFree d.migratetype with
    | none => none
    | some (batchFree, mt) =>
      -- This is the only non-empty list. Free them all.
      let batchFree := if batchFree = 3 then toFree else batchFree
      some { d with migratetype := mt, batchFree }

/-- The loops of `free_pcppages_bulk`, a page at a time, with `fuel` rounds for each search. There
is no answer where the search for a list does not end. -/
def freePcppages (c : Config) (fuel : ℕ) : ℕ → Drain → Option Drain
  | 0, d => some d
  | toFree + 1, d => do
    let d ← pickList fuel (toFree + 1) d
    let page ← (d.lists d.migratetype).getLast?
    freePcppages c fuel toFree (freeLast c d toFree page)

/-- Three rounds go once round the lists. -/
def freePcppagesBulk (c : Config) (z : Zone) (count : ℕ) (pcp : Pcp) : Option (Zone × Pcp) := do
  let d ← freePcppages c 3 count ⟨z, pcp.lists, .unmovable, 0, false⟩
  some (d.zone.modNrFreePages count, { pcp with lists := d.lists })

/-- `list_add` behind the entry at `pos`, the list head itself if that is `none`. -/
def listAddAt (p : ℕ) : Option ℕ → List ℕ → List ℕ
  | none, l => p :: l
  | some _, [] => [p]
  | some q, x :: l => if x = q then x :: p :: l else x :: listAddAt p (some q) l

def listAddTailAt (p : ℕ) : Option ℕ → List ℕ → List ℕ
  | none, l => l ++ [p]
  | some _, [] => [p]
  | some q, x :: l => if x = q then p :: x :: l else x :: listAddTailAt p (some q) l

/-- The flags of a request that the zone looks at: `__GFP_COLD`, `__GFP_CMA` and `cma_alloc`. -/
structure Gfp where
  cold : Bool
  useCma : Bool
  cmaAlloc : Bool

def rmqueueFor (c : Config) (g : Gfp) (z : Zone) (order : ℕ) (mt : Migratetype) :
    Option (ℕ × Zone) :=
  if g.useCma then rmqueueCma c g.cmaAlloc z order mt else rmqueue c z order mt

def bulkMigratetype (c : Config) (z : Zone) (page : ℕ) (mt : Migratetype) : Migratetype :=
  if c.cma then
    let mt' := getPageblockMigratetype c z page
    if !isMigrateCma c mt' ∧ mt' ≠ .isolate then mt else mt'
  else mt

/-- The loop of `rmqueue_bulk`, with the number of pages taken. -/
def rmqueueBulkLoop (c : Config) (g : Gfp) (order : ℕ) (mt : Migratetype) :
    ℕ → Zone → List ℕ → Option ℕ → Zone × List ℕ × ℕ
  | 0, z, l, _ => (z, l, 0)
  | count + 1, z, l, pos =>
    match rmqueueFor c g z order mt with
    | none => (z, l, 0)
    | some (page, z) =>
      let l := if g.cold then listAddTailAt page pos l else listAddAt page pos l
      let pageMt := bulkMigratetype c z page mt
      let z := z.setPagePrivate page pageMt.code
      let z := if isMigrateCma c pageMt then z.modNrFreeCmaPages (-(1 <<< order : ℕ)) else z
      let (z, l, i) := rmqueueBulkLoop c g order mt count z l (some page)
      (z, l, i + 1)

def rmqueueBulk (c : Config) (g : Gfp) (z : Zone) (order count : ℕ) (l : List ℕ)
    (mt : Migratetype) : Zone × List ℕ × ℕ :=
  let (z, l, i) := rmqueueBulkLoop c g order mt count z l none
  (z.modNrFreePages (-(i <<< order : ℕ)), l, i)

def prepNewPage (z : Zone) (page : ℕ) : Zone :=
  z.setPage page { z.page page with priv := 0, count := 1 }

def refill (c : Config) (g : Gfp) (z : Zone) (pcp : Pcp) (mt : Migratetype) : Zone × Pcp :=
  if (pcp.lists mt).isEmpty then
    let (z, l, i) := rmqueueBulk c g z 0 pcp.batch (pcp.lists mt) mt
    (z, { pcp.setList mt l with count := pcp.count + i })
  else (z, pcp)

def pickPage (g : Gfp) (l : List ℕ) : Option ℕ := if g.cold then l.getLast? else l.head?

def bufferedRmqueue (c : Config) (g : Gfp) (z : Zone) (pcp : Pcp) (order : ℕ) (mt : Migratetype) :
    Option ℕ × Zone × Pcp :=
  if order = 0 then
    let (z, pcp) := refill c g z pcp mt
    match pickPage g (pcp.lists mt) with
    | none => (none, z, pcp)
    | some page =>
      (some page, prepNewPage z page,
        { pcp.setList mt ((pcp.lists mt).erase page) with count := pcp.count - 1 })
  else
    match rmqueueFor c g z order mt with
    | none => (none, z, pcp)
    | some (page, z) =>
      let z := modZoneFreepageState c z (-(1 <<< order : ℕ)) (getPageblockMigratetype c z page)
      (some page, prepNewPage z page, pcp)

def trimPcp (c : Config) (z : Zone) (pcp : Pcp) : Option (Zone × Pcp) :=
  if pcp.high ≤ pcp.count then do
    let (z, pcp) ← freePcppagesBulk c z pcp.batch pcp
    some (z, { pcp with count := pcp.count - pcp.batch })
  else some (z, pcp)

def freeHotColdPage (c : Config) (z : Zone) (pcp : Pcp) (page : ℕ) (cold : Bool) :
    Option (Zone × Pcp) :=
  let mt := getPageblockMigratetype c z page
  let z := z.setPagePrivate page mt.code
  if !mt.isPcp ∧ (mt = .isolate ∨ isMigrateCma c mt) then some (freeOnePage c z page 0 mt, pcp)
  else
    let mt := if mt.isPcp then mt else .movable
    let l := if cold then pcp.lists mt ++ [page] else page :: pcp.lists mt
    trimPcp c z { pcp.setList mt l with count := pcp.count + 1 }

/-- `__free_pages`, or `free_hot_cold_page` where the caller has a hint, once `put_page_testzero`
has found the last reference. -/
def freePagesOk (c : Config) (z : Zone) (pcp : Pcp) (page order : ℕ) (cold : Bool) :
    Option (Zone × Pcp) :=
  if order = 0 then freeHotColdPage c z pcp page cold
  else some (freeOnePage c z page order (getPageblockMigratetype c z page), pcp)

def putPage (z : Zone) (page : ℕ) : Zone :=
  z.setPage page { z.page page with count := (z.page page).count - 1 }

def freePages (c : Config) (z : Zone) (pcp : Pcp) (page order : ℕ) (cold : Bool) :
    Option (Zone × Pcp) :=
  let z := putPage z page
  if (z.page page).count = 0 then freePagesOk c z pcp page order cold else some (z, pcp)

def drainPages (c : Config) (z : Zone) (pcp : Pcp) : Option (Zone × Pcp) :=
  if pcp.count = 0 then some (z, pcp)
  else do
    let (z, pcp) ← freePcppagesBulk c z pcp.count.toNat pcp
    some (z, { pcp with count := 0 })

def drainZonePages (c : Config) (z : Zone) (pcp : Pcp) : Option (Zone × Pcp) := do
  let toDrain := if pcp.batch ≤ pcp.count then (pcp.batch : ℤ) else pcp.count
  let (z, pcp) ← freePcppagesBulk c z toDrain.toNat pcp
  some (z, { pcp with count := pcp.count - toDrain })

def splitPage (z : Zone) (page order : ℕ) : Zone :=
  { z with page := fun p =>
      if page < p ∧ p < page + 1 <<< order then { z.page p with count := 1 } else z.page p }

def makeMovable (c : Config) (endPage : ℕ) : ℕ → Zone → ℕ → Zone
  | 0, z, _ => z
  | fuel + 1, z, page =>
    if page < endPage then
      let mt := getPageblockMigratetype c z page
      let z :=
        if mt ≠ .isolate ∧ !isMigrateCma c mt then setPageblockMigratetype c z page .movable else z
      makeMovable c endPage fuel z (page + pageblockNrPages c)
    else z

/-- `split_free_page` up to the call of `split_page`. -/
def takeFreePage (c : Config) (z : Zone) (page : ℕ) : Zone :=
  let order := (z.page page).priv
  let mt := getPageblockMigratetype c z page
  let z := ((z.listDel page).addNrFree order (-1)).rmvPageOrder page
  let z := if mt ≠ .isolate then modZoneFreepageState c z (-(1 <<< order : ℕ)) mt else z
  z.setPage page { z.page page with count := 1 }

/-- `split_free_page`, which obeys the low watermark; `freePages` is what `zone_page_state` says. -/
def splitFreePage (c : Config) (z : Zone) (page lowWmark lowmemReserve : ℕ) (freePages : ℤ) :
    Option Zone :=
  let order := (z.page page).priv
  let mt := getPageblockMigratetype c z page
  if !isMigrateCma c mt ∧ mt ≠ .isolate ∧ !zoneWatermarkOk c z 0 0 (lowWmark + 1 <<< order)
      lowmemReserve ⟨false, false, false⟩ freePages then none
  else
    let z := splitPage (takeFreePage c z page) page order
    if c.pageblockOrder ≤ order + 1 then
      some (makeMovable c (page + 1 <<< order - 1) (1 <<< order) z page)
    else some z

def pageblockIsReserved (c : Config) (pageReserved : ℕ → Bool) (pfn n : ℕ) : Bool :=
  (List.range n).any fun i => !c.pfnValidWithin (pfn + i) || pageReserved (pfn + i)

/-- The body of `setup_zone_migrate_reserve` for one pageblock, with the number of pageblocks still to
be reserved; `otherNode` and `pageReserved` are read of the pages. -/
def migrateReserve (c : Config) (otherNode pageReserved : ℕ → Bool) (endPfn pfn : ℕ)
    (r : Zone × ℕ) : Zone × ℕ :=
  let (z, n) := r
  let blockMt := getPageblockMigratetype c z pfn
  let takeBack : Zone × ℕ :=
    if blockMt = .reserve then
      ((moveFreepagesBlock c (setPageblockMigratetype c z pfn .movable) pfn .movable).1, n)
    else (z, n)
  if !c.pfnValid pfn then r
  else if otherNode pfn then r
  else if 0 < n then
    if pageblockIsReserved c pageReserved pfn (min (pfn + pageblockNrPages c) endPfn - pfn) then r
    else if blockMt = .reserve then (z, n - 1)
    else if blockMt = .movable then
      ((moveFreepagesBlock c (setPageblockMigratetype c z pfn .reserve) pfn .reserve).1, n - 1)
    else takeBack
  else takeBack

def migrateReserveLoop (c : Config) (otherNode pageReserved : ℕ → Bool) (endPfn : ℕ) :
    ℕ → ℕ → Zone × ℕ → Zone × ℕ
  | 0, _, r => r
  | fuel + 1, pfn, r =>
    if pfn < endPfn then
      migrateReserveLoop c otherNode pageReserved endPfn fuel (pfn + pageblockNrPages c)
        (migrateReserve c otherNode pageReserved endPfn pfn r)
    else r

def roundupPageblock (c : Config) (x : ℕ) : ℕ :=
  (x + (pageblockNrPages c - 1)) / pageblockNrPages c * pageblockNrPages c

def setupZoneMigrateReserve (c : Config) (otherNode pageReserved : ℕ → Bool) (minWmark : ℕ)
    (z : Zone) : Zone :=
  let endPfn := c.zoneStartPfn + c.spannedPages
  let n := roundupPageblock c minWmark >>> c.pageblockOrder
  (migrateReserveLoop c otherNode pageReserved endPfn c.spannedPages
    (roundupPageblock c c.zoneStartPfn) (z, min 2 n)).1

end AndroidKernel.Pages
