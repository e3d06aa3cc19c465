import AndroidKernel.Pages.Zone

/-! Taking a block out of a zone: `__rmqueue` and what it is made of. -/

namespace AndroidKernel.Pages

def expand (c : Config) (page low : ℕ) (mt : Migratetype) : ℕ → ℕ → Zone → Zone
  | 0, _, z => z
  | high + 1, size, z =>
    if low < high + 1 then
      let size := size >>> 1
      let z :=
        if high < c.debugGuardpageMinorder then
          modZoneFreepageState c ((z.setPageGuardFlag (page + size)).setPagePrivate (page + size) high)
            (-(1 <<< high : ℕ)) mt
        else ((z.listAdd (page + size) high mt).addNrFree high 1).setPageOrder (page + size) high
      expand c page low mt high size z
    else z

/-- `__rmqueue_smallest` from `current_order` on; the fuel is `MAX_ORDER - current_order`. -/
def rmqueueSmallestFrom (c : Config) (z : Zone) (order : ℕ) (mt : Migratetype) :
    ℕ → ℕ → Option (ℕ × Zone)
  | 0, _ => none
  | fuel + 1, currentOrder =>
    match (z.freeArea currentOrder).freeList mt with
    | [] => rmqueueSmallestFrom c z order mt fuel (currentOrder + 1)
    | page :: _ =>
      let z := ((z.listDel page).rmvPageOrder page).addNrFree currentOrder (-1)
      some (page, expand c page order mt currentOrder (1 <<< currentOrder) z)

def rmqueueSmallest (c : Config) (z : Zone) (order : ℕ) (mt : Migratetype) : Option (ℕ × Zone) :=
  rmqueueSmallestFrom c z order mt (c.maxOrder - order) order

/-- The rows of `fallbacks`, with the zeroes the array is filled up with. -/
def fallbacks (c : Config) : Migratetype → List Migratetype
  | .unmovable => [.reclaimable, .movable, .reserve, .unmovable]
  | .reclaimable => [.unmovable, .movable, .reserve, .unmovable]
  | .movable =>
    if c.cma then [.cma, .reclaimable, .unmovable, .reserve]
    else [.reclaimable, .unmovable, .reserve, .unmovable]
  | _ => [.reserve, .unmovable, .unmovable, .unmovable]

/-- `move_freepages` from `page` on, with the number of pages moved. -/
def moveFreepages (c : Config) (mt : Migratetype) (endPage : ℕ) : ℕ → Zone → ℕ → Zone × ℕ
  | 0, z, _ => (z, 0)
  | fuel + 1, z, page =>
    if endPage < page then (z, 0)
    else if !c.pfnValidWithin page then moveFreepages c mt endPage fuel z (page + 1)
    else if !(z.page page).buddy then moveFreepages c mt endPage fuel z (page + 1)
    else
      let order := (z.page page).priv
      let (z, pagesMoved) :=
        moveFreepages c mt endPage fuel (z.listMove page order mt) (page + 1 <<< order)
      (z, pagesMoved + 1 <<< order)

def pageblockNrPages (c : Config) : ℕ := 1 <<< c.pageblockOrder

def moveFreepagesBlock (c : Config) (z : Zone) (page : ℕ) (mt : Migratetype) : Zone × ℕ :=
  let startPfn := page - (page &&& (pageblockNrPages c - 1))
  let endPfn := startPfn + pageblockNrPages c - 1
  let startPage := if startPfn < c.zoneStartPfn then page else startPfn
  if c.zoneStartPfn + c.spannedPages ≤ endPfn then (z, 0)
  else moveFreepages c mt endPfn (endPfn + 1 - startPage) z startPage

def changePageblockRange (c : Config) (mt : Migratetype) : ℕ → Zone → ℕ → Zone
  | 0, z, _ => z
  | nrPageblocks + 1, z, pageblockPage =>
    changePageblockRange c mt nrPageblocks (setPageblockMigratetype c z pageblockPage mt)
      (pageblockPage + pageblockNrPages c)

/-- How `__rmqueue_fallback` takes over the pageblock of `page` before it takes the page, with the
migratetype it goes on with. -/
def claimPageblock (c : Config) (z : Zone) (startMt : Migratetype) (currentOrder : ℕ)
    (mt : Migratetype) (page : ℕ) : Zone × Migratetype :=
  if !isMigrateCma c mt ∧ (c.pageblockOrder / 2 ≤ currentOrder ∨ startMt = .reclaimable ∨
      c.pageGroupByMobilityDisabled) then
    let (z, pages) := moveFreepagesBlock c z page startMt
    if 1 <<< (c.pageblockOrder - 1) ≤ pages ∨ c.pageGroupByMobilityDisabled then
      (setPageblockMigratetype c z page startMt, startMt)
    else (z, startMt)
  else (z, mt)

def stealBlock (c : Config) (z : Zone) (order : ℕ) (startMt : Migratetype) (currentOrder : ℕ)
    (mt : Migratetype) (page : ℕ) : Zone :=
  let (z, mt) := claimPageblock c (z.addNrFree currentOrder (-1)) startMt currentOrder mt page
  let z := (z.listDel page).rmvPageOrder page
  let z :=
    if c.pageblockOrder ≤ currentOrder ∧ !isMigrateCma c mt then
      changePageblockRange c startMt (1 <<< (currentOrder - c.pageblockOrder)) z page
    else z
  expand c page order (if isMigrateCma c mt then mt else startMt) currentOrder (1 <<< currentOrder) z

def rmqueueFallbackRow (c : Config) (z : Zone) (order : ℕ) (startMt : Migratetype)
    (currentOrder : ℕ) : List Migratetype → Option (ℕ × Zone)
  | [] => none
  | mt :: mts =>
    if mt = .reserve then none
    else match (z.freeArea currentOrder).freeList mt with
      | [] => rmqueueFallbackRow c z order startMt currentOrder mts
      | page :: _ => some (page, stealBlock c z order startMt currentOrder mt page)

/-- `__rmqueue_fallback` for the orders below `currentOrder`, the largest first. -/
def rmqueueFallbackFrom (c : Config) (z : Zone) (order : ℕ) (startMt : Migratetype) :
    ℕ → Option (ℕ × Zone)
  | 0 => none
  | currentOrder + 1 =>
    if order ≤ currentOrder then
      match rmqueueFallbackRow c z order startMt currentOrder (fallbacks c startMt) with
      | some r => some r
      | none => rmqueueFallbackFrom c z order startMt currentOrder
    else none

def rmqueueFallback (c : Config) (z : Zone) (order : ℕ) (startMt : Migratetype) :
    Option (ℕ × Zone) :=
  rmqueueFallbackFrom c z order startMt c.maxOrder

def rmqueue (c : Config) (z : Zone) (order : ℕ) (mt : Migratetype) : Option (ℕ × Zone) :=
  match rmqueueSmallest c z order mt with
  | some r => some r
  | none =>
    if mt ≠ .reserve then
      match rmqueueFallback c z order mt with
      | some r => some r
      | none => rmqueueSmallest c z order .reserve
    else none

/-- `__rmqueue_cma`; `cmaAlloc` is the flag of the zone. -/
def rmqueueCma (c : Config) (cmaAlloc : Bool) (z : Zone) (order : ℕ) (mt : Migratetype) :
    Option (ℕ × Zone) :=
  if c.cma ∧ mt = .movable ∧ !cmaAlloc then
    match rmqueueSmallest c z order .cma with
    | some r => some r
    | none => rmqueue c z order mt
  else rmqueue c z order mt

end AndroidKernel.Pages
