import AndroidKernel.Pages.Held

/-! Every call of the allocator that is allowed comes to an end, and leaves every page in one place.
-/

namespace AndroidKernel.Pages
open DyadicBlocks Migratetype Lts

variable {c : Config} {P : Policy c} {M S : Set ℕ} {s t : System} {z z' : Zone} {pcp' : Pcp} {b b' : Block}
  {held' : List Block} {cpu cpu' x : ℕ} {mt : Migratetype}

theorem Sound.regroup (h : Sound P M s) {N : ℕ → Prop} (hr : Regrouped c s.zone mt N z')
    (hk : P.kinds mt) (hN : ∀ x, N (x >>> c.pageblockOrder) → x ∉ P.iso) :
    Step P M s ⟨z', s.pcp, s.held⟩ := by
  refine ⟨⟨fun cpu => (h.share cpu).regroup hr hk hN, h.ok, fun b hb => ?_, h.apart, h.here⟩,
    fun x _ => congrFun hr.page x, ?_⟩
  · exact (h.held b hb).of_count fun x _ => by rw [hr.page]
  · have hlisted := listedPages_regrouped hr
    simp only [lag, hlisted, hr.nrFreePages]

theorem Sound.not_iso (h : Sound P M s) {p : ℕ} (hp : getPageblockMigratetype c s.zone p ≠ .isolate)
    (hx : x >>> c.pageblockOrder = p >>> c.pageblockOrder) : x ∉ P.iso := by
  intro hxR
  have hiso := ((h.share 0).isoBlock x).mp hxR
  rw [hx] at hiso
  exact hp hiso

theorem Sound.retype (h : Sound P M s) {p : ℕ} (hp : c.Here p) (hk : P.kinds mt)
    (hne : getPageblockMigratetype c s.zone p ≠ .isolate) :
    Step P M s ⟨(moveFreepagesBlock c (setPageblockMigratetype c s.zone p mt) p mt).1, s.pcp,
      s.held⟩ := by
  have hset : Regrouped c s.zone mt (· = p >>> c.pageblockOrder)
      (setPageblockMigratetype c s.zone p mt) := Regrouped.setPageblock _ (h.share 0).tidy rfl
  exact h.regroup (hset.trans (moveFreepagesBlock_spec _ hset.tidy hp)) hk fun x hx => h.not_iso hne hx

theorem makeMovable_step (fuel : ℕ) (h : Sound P M s) {endPage p : ℕ} :
    Step P M s ⟨makeMovable c endPage fuel s.zone p, s.pcp, s.held⟩ := by
  induction fuel generalizing s p with
  | zero => exact Step.refl h
  | succ fuel ih =>
    rw [makeMovable]
    dsimp only
    split_ifs with hend hmt
    · have hset : Regrouped c s.zone .movable (· = p >>> c.pageblockOrder)
          (setPageblockMigratetype c s.zone p .movable) := Regrouped.setPageblock _ (h.share 0).tidy rfl
      have hstep := h.regroup hset (P.pcp _ rfl) fun x hx => h.not_iso hmt.1 hx
      exact hstep.trans (ih hstep.sound)
    · exact ih h
    · exact Step.refl h

theorem migrateReserve_step (otherNode pageReserved : ℕ → Bool) (endPfn n : ℕ) (h : Sound P M s) {pfn : ℕ}
    (hpfn : c.zoneStartPfn ≤ pfn ∧ pfn < c.zoneStartPfn + c.spannedPages) :
    Step P M s ⟨(migrateReserve c otherNode pageReserved endPfn pfn (s.zone, n)).1, s.pcp,
      s.held⟩ := by
  have hset : ∀ t mt, ¬ (!c.pfnValid pfn) = true → getPageblockMigratetype c s.zone pfn = t →
      t ≠ .isolate → P.kinds mt → Step P M s
        ⟨(moveFreepagesBlock c (setPageblockMigratetype c s.zone pfn mt) pfn mt).1, s.pcp, s.held⟩ := by
    intro t mt hv ht hne hk
    have hvalid := c.valid pfn (by simpa using hv)
    exact h.retype ⟨hvalid, (c.span pfn hvalid).mpr hpfn⟩ hk (ht ▸ hne)
  unfold migrateReserve
  dsimp only
  split_ifs with hv _ _ _ _ hmov hres
  · exact Step.refl h
  · exact Step.refl h
  · exact Step.refl h
  · exact Step.refl h
  · exact hset _ _ hv hmov (by decide) P.reserve
  · exact Step.refl h
  · exact hset _ _ hv hres (by decide) (P.pcp _ rfl)
  · exact Step.refl h

theorem migrateReserveLoop_step (h : Sound P M s) {otherNode pageReserved : ℕ → Bool} (fuel : ℕ)
    {pfn n : ℕ} (hpfn : c.zoneStartPfn ≤ pfn) :
    Step P M s ⟨(migrateReserveLoop c otherNode pageReserved (c.zoneStartPfn + c.spannedPages) fuel
      pfn (s.zone, n)).1, s.pcp, s.held⟩ := by
  induction fuel generalizing s pfn n with
  | zero => exact Step.refl h
  | succ fuel ih =>
    rw [migrateReserveLoop]
    split_ifs with hend
    · have hstep := migrateReserve_step otherNode pageReserved (c.zoneStartPfn + c.spannedPages) n h ⟨hpfn, hend⟩
      exact hstep.trans (ih hstep.sound (hpfn.trans (Nat.le_add_right ..)))
    · exact Step.refl h

theorem Sound.splitFree (h : Sound P M s) {p : ℕ} (hh : c.Here p)
    (hb : (s.zone.page p).buddy = true) {lowWmark lowmemReserve : ℕ} {freePages : ℤ}
    (hz : splitFreePage c s.zone p lowWmark lowmemReserve freePages = some z') :
    Step P M s ⟨z', s.pcp, pagesOf ⟨p, (s.zone.page p).priv⟩ ++ s.held⟩ := by
  have htook := h.allocated (takeFreePage_allocated (h.share 0) hh hb)
  rw [Function.update_eq_self] at htook
  have hsplit := htook.sound.split (List.mem_cons_self ..)
  rw [List.erase_cons_head] at hsplit
  have hall := htook.trans hsplit
  unfold splitFreePage at hz
  dsimp only at hz
  split_ifs at hz with hmark horder
  · cases hz
    exact hall.trans (makeMovable_step _ hall.sound)
  · cases hz
    exact hall

theorem Sound.step (h : Sound P M s) {a : Action} (ht : Pages.next c s a = some t) :
    Step P M s t := by
  cases a with
  | alloc cpu order mt g =>
    simp only [Pages.next] at ht
    split_ifs at ht with hmt
    have hout := bufferedRmqueue_spec g order hmt (h.share cpu)
    generalize bufferedRmqueue c g s.zone (s.pcp cpu) order mt = r at hout ht
    match r, hout with
    | (some p, z', pcp'), hout =>
      cases ht
      exact h.allocated hout.1
    | (none, z', pcp'), hout =>
      cases ht
      exact h.evolve hout.1 ((h.ok cpu).of_kept hout.2)
  | free cpu b cold =>
    by_cases hb : b ∈ s.held
    · obtain ⟨z', pcp', hf, hs, -⟩ := freePages_sound h hb cpu cold
      simp only [Pages.next, if_pos hb, hf, Option.some.injEq] at ht
      exact ht ▸ hs
    · simp only [Pages.next, if_neg hb, reduceCtorEq] at ht
  | get b =>
    simp only [Pages.next] at ht
    split_ifs at ht with hb
    cases ht
    exact h.get hb
  | split b =>
    simp only [Pages.next] at ht
    split_ifs at ht with hb
    cases ht
    exact h.split hb
  | drain cpu =>
    obtain ⟨z', pcp', hd, hev, hk, -⟩ := drainPages_spec (h.share cpu) (h.ok cpu)
    simp only [Pages.next, hd, Option.map_some] at ht
    cases ht
    exact h.evolve hev ((h.ok cpu).of_kept hk)
  | drainZone cpu =>
    obtain ⟨z', pcp', hd, hev, hk⟩ := drainZonePages_spec (h.share cpu) (h.ok cpu)
    simp only [Pages.next, hd, Option.map_some] at ht
    cases ht
    exact h.evolve hev ((h.ok cpu).of_kept hk)
  | splitFree p lowWmark lowmemReserve freePages =>
    by_cases hp : c.Here p ∧ (s.zone.page p).buddy = true
    · simp only [Pages.next, if_pos hp] at ht
      cases hz : splitFreePage c s.zone p lowWmark lowmemReserve freePages with
      | none =>
        simp only [hz, Option.some.injEq] at ht
        exact ht ▸ Step.refl h
      | some z' =>
        simp only [hz, Option.some.injEq] at ht
        exact ht ▸ h.splitFree hp.1 hp.2 hz
    · simp only [Pages.next, if_neg hp, reduceCtorEq] at ht
  | reserve otherNode pageReserved minWmark =>
    simp only [Pages.next, Option.some.injEq] at ht
    subst ht
    refine migrateReserveLoop_step h _ ?_
    have hpos : 0 < pageblockNrPages c := by
      rw [pageblockNrPages, Nat.one_shiftLeft]
      exact Nat.two_pow_pos _
    have hdiv := Nat.div_add_mod (c.zoneStartPfn + (pageblockNrPages c - 1)) (pageblockNrPages c)
    have hmod := Nat.mod_lt (c.zoneStartPfn + (pageblockNrPages c - 1)) hpos
    rw [roundupPageblock, Nat.mul_comm]
    omega
  | highmark cpu high =>
    simp only [Pages.next, Option.some.injEq] at ht
    subst ht
    exact h.evolve (Evolves.refl (h.share cpu)) (setupPagelistHighmark_ok high (h.ok cpu))

/-- What callers may ask for: blocks they hold, heads of free blocks, and migratetypes that requests
have. -/
def Action.Allowed (c : Config) (s : System) : Action → Prop
  | .alloc _ _ mt _ => mt.isPcp = true
  | .free _ b _ | .get b | .split b => b ∈ s.held
  | .splitFree page .. => c.Here page ∧ (s.zone.page page).buddy = true
  | .drain _ | .drainZone _ | .highmark .. | .reserve .. => True

/-- No call of the allocator hangs. -/
theorem Sound.exists_next (h : Sound P M s) {a : Action} (ha : a.Allowed c s) :
    ∃ t, Pages.next c s a = some t := by
  cases a with
  | alloc cpu order mt g =>
    have hmt : mt.isPcp = true := ha
    simp only [Pages.next, hmt, if_true]
    generalize bufferedRmqueue c g s.zone (s.pcp cpu) order mt = r
    match r with
    | (some p, z', pcp') => exact ⟨_, rfl⟩
    | (none, z', pcp') => exact ⟨_, rfl⟩
  | free cpu b cold =>
    have hb : b ∈ s.held := ha
    obtain ⟨z', pcp', hf, -⟩ := freePages_sound h hb cpu cold
    exact ⟨_, by simp only [Pages.next, if_pos hb, hf]; rfl⟩
  | get b =>
    have hb : b ∈ s.held := ha
    exact ⟨_, if_pos hb⟩
  | split b =>
    have hb : b ∈ s.held := ha
    exact ⟨_, if_pos hb⟩
  | drain cpu =>
    obtain ⟨z', pcp', hd, -⟩ := drainPages_spec (h.share cpu) (h.ok cpu)
    exact ⟨_, by simp only [Pages.next, hd, Option.map_some]; rfl⟩
  | drainZone cpu =>
    obtain ⟨z', pcp', hd, -⟩ := drainZonePages_spec (h.share cpu) (h.ok cpu)
    exact ⟨_, by simp only [Pages.next, hd, Option.map_some]; rfl⟩
  | splitFree p lowWmark lowmemReserve freePages =>
    have hp : c.Here p ∧ (s.zone.page p).buddy = true := ha
    simp only [Pages.next, if_pos hp]
    cases splitFreePage c s.zone p lowWmark lowmemReserve freePages with
    | none => exact ⟨_, rfl⟩
    | some z' => exact ⟨_, rfl⟩
  | highmark cpu high => exact ⟨_, rfl⟩
  | reserve otherNode pageReserved minWmark => exact ⟨_, rfl⟩

theorem Sound.exec (h : Sound P M s) {as : List Action} (ht : exec (Pages.next c) as s = some t) :
    Step P M s t := by
  have hkeep : ∀ u a v, Step P M s u → Pages.next c u a = some v → Step P M s v := by
    intro u a v hu hv
    exact hu.trans (hu.sound.step hv)
  exact exec_invariant hkeep (Step.refl h) ht

end AndroidKernel.Pages
