import AndroidKernel.Lib.Runs

/-! The OOM-killer lock of the zones: the flag `ZONE_OOM_LOCKED` and the three entry points of
`hw5/mm` that take it. The functions that set and clear the flag run under `zone_scan_lock` and
are one step each. What a caller does between them is not looked at: whether a request is over the
limit, whether a page turns up, and when `out_of_memory` returns are choices of the run. -/

namespace AndroidKernel.Mlimit.Zones
open Lts

abbrev Zone := ℕ

abbrev Gfp := BitVec 32

/-- The zones of the machine. `zone_idx` and `gfp_zone` are in headers outside the repository. -/
structure Memory where
  zoneIdx : Zone → ℕ
  gfpZone : Gfp → ℕ
  populated : List Zone
  gfpAllowedMask : Gfp

abbrev Flags := Zone → Bool

def forEachZoneZonelist (m : Memory) (zonelist : List Zone) (gfp : Gfp) : List Zone :=
  zonelist.filter fun z => m.zoneIdx z ≤ m.gfpZone gfp

def anyLocked (flags : Flags) : List Zone → Bool
  | [] => false
  | z :: zs => if flags z then true else anyLocked flags zs

def putFlag (b : Bool) : List Zone → Flags → Flags
  | [], flags => flags
  | z :: zs, flags => putFlag b zs (Function.update flags z b)

def trySet (zones : List Zone) (flags : Flags) : Bool × Flags :=
  if anyLocked flags zones then (false, flags) else (true, putFlag true zones flags)

def trySetZonelistOom (m : Memory) (zonelist : List Zone) (gfp : Gfp) (flags : Flags) :
    Bool × Flags :=
  trySet (forEachZoneZonelist m zonelist gfp) flags

def clearZonelistOom (m : Memory) (zonelist : List Zone) (gfp : Gfp) (flags : Flags) : Flags :=
  putFlag false (forEachZoneZonelist m zonelist gfp) flags

def trySetSystemOom (m : Memory) (flags : Flags) : Bool × Flags := trySet m.populated flags

def clearSystemOom (m : Memory) (flags : Flags) : Flags := putFlag false m.populated flags

/-- Where a caller is. `check` is the loop over the processes in `__alloc_pages_nodemask` with the
number of them still to come; `buddy` is the ordinary allocator below it, from which the slow path
calls `__alloc_pages_may_oom`; `mayPage` is that function looking at the free lists once more.
The `Oom` places are inside `out_of_memory`. -/
inductive Pc
  | idle
  | check (zonelist : List Zone) (gfp : Gfp) (n : ℕ)
  | limitOom (zonelist : List Zone) (gfp : Gfp) (n : ℕ)
  | limitClear (zonelist : List Zone) (gfp : Gfp) (n : ℕ)
  | buddy (zonelist : List Zone) (gfp : Gfp)
  | mayPage (zonelist : List Zone) (gfp : Gfp)
  | mayOom (zonelist : List Zone) (gfp : Gfp)
  | mayOut (zonelist : List Zone) (gfp : Gfp)
  | faultOom
  | faultClear
deriving DecidableEq, Repr

def Pc.zones (m : Memory) : Pc → List Zone
  | .idle | .check .. | .buddy .. => []
  | .limitOom zl gfp _ | .limitClear zl gfp _ | .mayPage zl gfp | .mayOom zl gfp
  | .mayOut zl gfp => forEachZoneZonelist m zl gfp
  | .faultOom | .faultClear => m.populated

def Pc.inOom : Pc → Bool
  | .limitOom .. | .mayOom .. | .faultOom => true
  | _ => false

structure State (κ : Type) where
  flags : Flags
  pc : κ → Pc

/-- A caller enters `__alloc_pages_nodemask` with `n` processes for the limit check to visit, or
`pagefault_out_of_memory`, or makes its next step. The answer decides a branch: the request is
over the limit, the slow path calls `__alloc_pages_may_oom`, that function goes to `out`. -/
inductive Act (κ : Type)
  | allocPages (c : κ) (zonelist : List Zone) (gfp : Gfp) (n : ℕ)
  | pagefault (c : κ)
  | step (c : κ) (answer : Bool)

def Act.caller {κ : Type} : Act κ → κ
  | .allocPages c _ _ _ | .pagefault c | .step c _ => c

variable {κ : Type} [DecidableEq κ]

def State.goto (s : State κ) (c : κ) (pc : Pc) : State κ :=
  { s with pc := Function.update s.pc c pc }

def State.attempt (s : State κ) (c : κ) (r : Bool × Flags) (won lost : Pc) : State κ :=
  { s.goto c (if r.1 then won else lost) with flags := r.2 }

def State.put (s : State κ) (c : κ) (flags : Flags) (pc : Pc) : State κ :=
  { s.goto c pc with flags := flags }

def stepAt (m : Memory) (s : State κ) (c : κ) (answer : Bool) : Pc → Option (State κ)
  | .idle => none
  -- `gfp_mask &= gfp_allowed_mask` comes after the check
  | .check zl gfp 0 => some (s.goto c (.buddy zl (gfp &&& m.gfpAllowedMask)))
  | .check zl gfp (n + 1) =>
    if answer then
      -- a lost attempt returns NULL out of the loop
      some (s.attempt c (trySetZonelistOom m zl gfp s.flags) (.limitOom zl gfp n) .idle)
    else some (s.goto c (.check zl gfp n))
  | .limitOom zl gfp n => some (s.goto c (.limitClear zl gfp n))
  | .limitClear zl gfp n => some (s.put c (clearZonelistOom m zl gfp s.flags) (.check zl gfp n))
  | .buddy zl gfp =>
    if answer then
      some (s.attempt c (trySetZonelistOom m zl gfp s.flags) (.mayPage zl gfp) (.buddy zl gfp))
    else some (s.goto c .idle)
  | .mayPage zl gfp => some (s.goto c (if answer then .mayOut zl gfp else .mayOom zl gfp))
  | .mayOom zl gfp => some (s.goto c (.mayOut zl gfp))
  | .mayOut zl gfp => some (s.put c (clearZonelistOom m zl gfp s.flags) (.buddy zl gfp))
  | .faultOom => some (s.goto c .faultClear)
  | .faultClear => some (s.put c (clearSystemOom m s.flags) .idle)

def next (m : Memory) (s : State κ) : Act κ → Option (State κ)
  | .allocPages c zl gfp n =>
    if s.pc c = .idle then some (s.goto c (.check zl gfp n)) else none
  | .pagefault c =>
    if s.pc c = .idle then some (s.attempt c (trySetSystemOom m s.flags) .faultOom .idle)
    else none
  | .step c answer => stepAt m s c answer (s.pc c)

def boot : State κ where
  flags := fun _ => false
  pc := fun _ => .idle

end AndroidKernel.Mlimit.Zones
