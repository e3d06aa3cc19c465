import AndroidKernel.Lib.Sections
import AndroidKernel.Mlimit.Zones

/-! Who has which zones locked. Each caller between a successful attempt and its clear accounts
for the zones that it visited, and the locked zones are shared out among these callers. -/

namespace AndroidKernel.Mlimit.Zones
open Lts Sections
variable {m : Memory} {flags : Flags} {zones : List Zone}

theorem anyLocked_eq_true : anyLocked flags zones = true ↔ ∃ z ∈ zones, flags z = true := by
  induction zones with
  | nil => simp [anyLocked]
  | cons z zs ih =>
    unfold anyLocked
    by_cases hz : flags z = true
    · simp [hz]
    · simp [hz, ih]

theorem putFlag_apply (b : Bool) (zones : List Zone) (flags : Flags) (z : Zone) :
    putFlag b zones flags z = if z ∈ zones then b else flags z := by
  induction zones generalizing flags with
  | nil => rfl
  | cons y ys ih =>
    rw [putFlag, ih]
    by_cases hzy : z = y
    · subst hzy
      simp
    · simp [hzy]

theorem trySet_lost (h : (trySet zones flags).1 = false) : (trySet zones flags).2 = flags := by
  unfold trySet at h ⊢
  split
  · rfl
  · rename_i hl
    simp [hl] at h

theorem trySet_won (h : (trySet zones flags).1 = true) :
    (∀ z ∈ zones, flags z = false) ∧
      ∀ z, (trySet zones flags).2 z = true ↔ flags z = true ∨ z ∈ zones := by
  unfold trySet at h ⊢
  split at h
  · cases h
  · rename_i hl
    rw [if_neg hl]
    constructor
    · intro z hz
      by_contra hf
      exact hl (anyLocked_eq_true.mpr ⟨z, hz, Bool.eq_true_of_not_eq_false hf⟩)
    · intro z
      change putFlag true zones flags z = true ↔ _
      rw [putFlag_apply]
      by_cases hz : z ∈ zones
      · simp [hz]
      · simp [hz]

variable {κ : Type}

structure Moved (m : Memory) (s : State κ) (c : κ) (t : State κ) : Prop where
  other : ∀ d, d ≠ c → t.pc d = s.pc d
  free : ∀ z ∈ (t.pc c).zones m, s.flags z = true → z ∈ (s.pc c).zones m
  flags : ∀ z, t.flags z = true ↔
    (s.flags z = true ∧ z ∉ (s.pc c).zones m) ∨ z ∈ (t.pc c).zones m

def held (m : Memory) (s : State κ) (c : κ) : Set Zone := {z | z ∈ (s.pc c).zones m}

def SharedOut (m : Memory) (s : State κ) : Prop :=
  Partition (fun z => s.flags z = true) (held m s)

theorem SharedOut.moved {s t : State κ} {c : κ} (h : SharedOut m s) (hm : Moved m s c t) :
    SharedOut m t := by
  apply Partition.exchange h (i := c)
  · intro d hd
    unfold held
    rw [hm.other d hd]
  · exact hm.free
  · exact hm.flags

theorem SharedOut.locked {s : State κ} (h : SharedOut m s) (c : κ) :
    ∀ z ∈ (s.pc c).zones m, s.flags z = true :=
  Partition.subset h c

variable [DecidableEq κ] {s t : State κ} {c : κ}

omit [DecidableEq κ] in
theorem moved_same (hl : ∀ z ∈ (s.pc c).zones m, s.flags z = true) (hf : t.flags = s.flags)
    (ho : ∀ d, d ≠ c → t.pc d = s.pc d) (hz : (t.pc c).zones m = (s.pc c).zones m) :
    Moved m s c t := by
  constructor
  · exact ho
  · intro z hzt _
    rwa [hz] at hzt
  · intro z
    rw [hf, hz]
    by_cases hzs : z ∈ (s.pc c).zones m
    · simp [hzs, hl z hzs]
    · simp [hzs]

theorem moved_goto (hl : ∀ z ∈ (s.pc c).zones m, s.flags z = true) {p : Pc}
    (hp : p.zones m = (s.pc c).zones m) : Moved m s c (s.goto c p) := by
  apply moved_same hl
  · rfl
  · intro d hd
    exact Function.update_of_ne hd ..
  · have hpc : (s.goto c p).pc c = p := Function.update_self ..
    rw [hpc, hp]

theorem moved_attempt {won lost : Pc} (hs : (s.pc c).zones m = []) (hw : won.zones m = zones)
    (hn : lost.zones m = []) : Moved m s c (s.attempt c (trySet zones s.flags) won lost) := by
  have hpc : (s.attempt c (trySet zones s.flags) won lost).pc c =
      if (trySet zones s.flags).1 then won else lost := Function.update_self ..
  have hother : ∀ d, d ≠ c → (s.attempt c (trySet zones s.flags) won lost).pc d = s.pc d :=
    fun d hd => Function.update_of_ne hd ..
  cases hr : (trySet zones s.flags).1 with
  | true =>
    obtain ⟨hfree, hflags⟩ := trySet_won hr
    rw [hr, if_pos rfl] at hpc
    constructor
    · exact hother
    · intro z hz hlocked
      rw [hpc, hw] at hz
      rw [hfree z hz] at hlocked
      cases hlocked
    · intro z
      rw [hpc, hw, hs]
      change (trySet zones s.flags).2 z = true ↔ _
      simp [hflags z]
  | false =>
    rw [hr, if_neg Bool.false_ne_true] at hpc
    apply moved_same
    · simp [hs]
    · exact trySet_lost hr
    · exact hother
    · rw [hpc, hn, hs]

theorem moved_put {p : Pc} (hz : (s.pc c).zones m = zones) (hp : p.zones m = []) :
    Moved m s c (s.put c (putFlag false zones s.flags) p) := by
  have hpc : (s.put c (putFlag false zones s.flags) p).pc c = p := Function.update_self ..
  constructor
  · intro d hd
    exact Function.update_of_ne hd ..
  · intro z hzt
    rw [hpc, hp] at hzt
    cases hzt
  · intro z
    rw [hpc, hp, hz]
    change putFlag false zones s.flags z = true ↔ _
    rw [putFlag_apply]
    by_cases hzz : z ∈ zones
    · simp [hzz]
    · simp [hzz]

theorem stepAt_moved {answer : Bool} (hl : ∀ z ∈ (s.pc c).zones m, s.flags z = true) {p : Pc}
    (hp : s.pc c = p) (h : stepAt m s c answer p = some t) : Moved m s c t := by
  cases p with
  | idle => cases h
  | check zl gfp n =>
    cases n with
    | zero =>
      obtain rfl := Option.some_inj.mp h
      exact moved_goto hl (by rw [hp]; rfl)
    | succ n =>
      simp only [stepAt] at h
      split at h
      · obtain rfl := Option.some_inj.mp h
        exact moved_attempt (by rw [hp]; rfl) rfl rfl
      · obtain rfl := Option.some_inj.mp h
        exact moved_goto hl (by rw [hp]; rfl)
  | limitOom | mayOom | faultOom =>
    obtain rfl := Option.some_inj.mp h
    exact moved_goto hl (by rw [hp]; rfl)
  | limitClear | mayOut | faultClear =>
    obtain rfl := Option.some_inj.mp h
    exact moved_put (by rw [hp]; rfl) rfl
  | buddy zl gfp =>
    simp only [stepAt] at h
    split at h
    · obtain rfl := Option.some_inj.mp h
      exact moved_attempt (by rw [hp]; rfl) rfl rfl
    · obtain rfl := Option.some_inj.mp h
      exact moved_goto hl (by rw [hp]; rfl)
  | mayPage zl gfp =>
    obtain rfl := Option.some_inj.mp h
    exact moved_goto hl (by rw [hp]; cases answer <;> rfl)

theorem SharedOut.next_moved {a : Act κ} (hs : SharedOut m s) (h : next m s a = some t) :
    Moved m s a.caller t := by
  have hl := hs.locked a.caller
  cases a with
  | allocPages c zl gfp n =>
    simp only [next] at h
    split at h
    · rename_i hp
      obtain rfl := Option.some_inj.mp h
      exact moved_goto hl (by rw [Act.caller, hp]; rfl)
    · cases h
  | pagefault c =>
    simp only [next] at h
    split at h
    · rename_i hp
      obtain rfl := Option.some_inj.mp h
      exact moved_attempt (by rw [Act.caller, hp]; rfl) rfl rfl
    · cases h
  | step c answer => exact stepAt_moved hl rfl h

omit [DecidableEq κ] in
theorem sharedOut_boot : SharedOut m (boot : State κ) :=
  partition_empty (fun _ => Bool.false_ne_true) fun _ => by
    unfold held
    simp [boot, Pc.zones]

theorem sharedOut_run {as : List (Act κ)} (h : exec (next m) as boot = some s) : SharedOut m s :=
  exec_invariant (fun _ _ _ hs hn => hs.moved (hs.next_moved hn)) sharedOut_boot h

/-- In every state of every interleaving the locked zones are the disjoint union of the callers'
sections, so that callers with a zone in common are never in `out_of_memory` together. Every step
only changes the flags of its own caller's section: a caller that leaves its section has cleared
exactly the zones of that section, and an attempt that is lost changes no flag. -/
theorem oom_sections_disjoint (m : Memory) (as : List (Act κ)) (s : State κ)
    (h : exec (next m) as boot = some s) :
    (∀ z, s.flags z = true ↔ ∃ c, z ∈ (s.pc c).zones m) ∧
    (∀ c d, c ≠ d → ∀ z ∈ (s.pc c).zones m, z ∉ (s.pc d).zones m) ∧
    (∀ c d z, (s.pc c).inOom = true → (s.pc d).inOom = true →
      z ∈ (s.pc c).zones m → z ∈ (s.pc d).zones m → c = d) ∧
    (∀ a t, next m s a = some t →
      (∀ d, d ≠ a.caller → t.pc d = s.pc d) ∧
      ((t.pc a.caller).zones m = [] →
        ∀ z, (s.flags z = true ∧ t.flags z = false) ↔ z ∈ (s.pc a.caller).zones m) ∧
      ((s.pc a.caller).zones m = [] →
        ∀ z, (s.flags z = false ∧ t.flags z = true) ↔ z ∈ (t.pc a.caller).zones m)) ∧
    ∀ zones, (trySet zones s.flags).1 = false → (trySet zones s.flags).2 = s.flags := by
  have hs : SharedOut m s := sharedOut_run h
  have hdisj : ∀ c d, c ≠ d → ∀ z ∈ (s.pc c).zones m, z ∉ (s.pc d).zones m :=
    fun c d hcd z hz => Set.disjoint_left.mp (hs.disjoint c d hcd) hz
  refine ⟨hs.cover, hdisj, ?_, ?_, fun zones => trySet_lost⟩
  · intro c d z _ _ hc hd
    by_contra hcd
    exact hdisj c d hcd z hc hd
  · intro a t ht
    have hm := hs.next_moved ht
    refine ⟨hm.other, fun hz z => ?_, fun hz z => ?_⟩
    · have hf := hm.flags z
      rw [hz] at hf
      have hlocked := hs.locked a.caller z
      simp only [List.not_mem_nil, or_false] at hf
      rw [← Bool.not_eq_true, hf]
      tauto
    · have hf := hm.flags z
      have hfree := hm.free z
      rw [hz] at hf hfree
      simp only [List.not_mem_nil, not_false_eq_true, and_true, imp_false] at hf hfree
      rw [← Bool.not_eq_true, hf]
      tauto

def twoZones : Memory where
  zoneIdx := fun _ => 0
  gfpZone := fun _ => 0
  populated := [1, 2]
  gfpAllowedMask := 0xffffffff

/-- Caller 0 is over the limit on zone 1, caller 1 finds no page in zone 2, and caller 2 loses a
page fault to both of them. -/
def busy : List (Act ℕ) :=
  [.allocPages 0 [1] 0 1, .step 0 true, .allocPages 1 [2] 0 0, .step 1 true, .step 1 true,
    .step 1 false, .pagefault 2]

theorem oom_sections_disjoint_busy : ∃ s, exec (next twoZones) busy boot = some s ∧
    (s.pc 0).inOom = true ∧ (s.pc 1).inOom = true ∧ s.pc 2 = .idle ∧
    ∀ z, s.flags z = true ↔ ∃ c, z ∈ (s.pc c).zones twoZones := by
  obtain ⟨s, hs, hp⟩ := Option.map_eq_some_iff.mp
    (show (exec (next twoZones) busy boot).map
      (fun s => ((s.pc 0).inOom, (s.pc 1).inOom, s.pc 2)) = some (true, true, .idle) by decide)
  simp only [Prod.mk.injEq] at hp
  exact ⟨s, hs, hp.1, hp.2.1, hp.2.2, (oom_sections_disjoint twoZones busy s hs).1⟩

end AndroidKernel.Mlimit.Zones
