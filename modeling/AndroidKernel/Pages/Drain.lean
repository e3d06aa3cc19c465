import AndroidKernel.Pages.Local

/-! `free_pcppages_bulk` gives exactly as many pages back to the zone as it is asked for, if there
are so many on the lists, and otherwise never ends. -/

namespace AndroidKernel.Pages
open DyadicBlocks Migratetype

def total (lists : Migratetype → List ℕ) : ℕ := ∑ mt, (lists mt).length

variable {c : Config} {P : Policy c} {S U : Set ℕ} {z z' z'' : Zone} {lists lists' : Migratetype → List ℕ}
  {mt t : Migratetype} {p n fuel batchFree : ℕ}

theorem total_update (lists : Migratetype → List ℕ) (mt : Migratetype) (l : List ℕ) :
    total (Function.update lists mt l) + (lists mt).length = total lists + l.length := by
  have h1 := Finset.add_sum_erase Finset.univ (fun t => (lists t).length) (Finset.mem_univ mt)
  have h2 := Finset.add_sum_erase Finset.univ
    (fun t => (Function.update lists mt l t).length) (Finset.mem_univ mt)
  have h3 : ∑ t ∈ Finset.univ.erase mt, (Function.update lists mt l t).length =
      ∑ t ∈ Finset.univ.erase mt, (lists t).length :=
    Finset.sum_congr rfl fun t ht => by rw [Function.update_of_ne (Finset.ne_of_mem_erase ht)]
  rw [Function.update_self, h3] at h2
  unfold total
  omega

theorem total_eq_zero : total lists = 0 ↔ ∀ mt, lists mt = [] := by
  simp only [total, Finset.sum_eq_zero_iff, Finset.mem_univ, true_implies, List.length_eq_zero_iff]

theorem nextPcp_isPcp (mt : Migratetype) : mt.nextPcp.isPcp = true := by
  cases mt <;> rfl

theorem nextList_some {r : ℕ × Migratetype} (h : nextList lists fuel batchFree mt = some r) :
    r.2.isPcp = true ∧ lists r.2 ≠ [] := by
  induction fuel generalizing batchFree mt with
  | zero => cases h
  | succ fuel ih =>
    simp only [nextList] at h
    split_ifs at h with hl
    · exact ih h
    · cases h
      exact ⟨nextPcp_isPcp mt, by simpa using hl⟩

theorem nextList_none (h : nextList lists fuel batchFree mt = none) :
    ∀ k < fuel, lists (nextPcp^[k + 1] mt) = [] := by
  induction fuel generalizing batchFree mt with
  | zero => exact fun k hk => absurd hk (Nat.not_lt_zero k)
  | succ fuel ih =>
    simp only [nextList] at h
    split_ifs at h with hl
    intro k hk
    cases k with
    | zero => simpa using hl
    | succ k =>
      rw [Function.iterate_succ_apply]
      exact ih h k (Nat.lt_of_succ_lt_succ hk)

theorem exists_round (mt mt' : Migratetype) (h : mt'.isPcp = true) :
    ∃ k < 3, nextPcp^[k + 1] mt = mt' := by
  revert mt mt'
  decide

theorem nextList_three (h : nextList lists 3 batchFree mt = none) :
    ∀ mt', mt'.isPcp = true → lists mt' = [] := by
  intro mt' hmt'
  obtain ⟨k, hk, rfl⟩ := exists_round mt mt' hmt'
  exact nextList_none h k hk

/-- What happens to a zone and the lists of a CPU within `U`: they have the pages `S` now, and
`NR_FREE_PAGES` has moved by `n` against the lists of the zone. -/
structure Evolves {c : Config} (P : Policy c) (U S : Set ℕ) (z z' : Zone) (lists' : Migratetype → List ℕ)
    (n : ℤ) : Prop where
  isLocal : Local P S z' lists'
  lag : lag c z' = lag c z + n
  frame : ∀ x ∉ U, z'.page x = z.page x

theorem Evolves.refl (h : Local P S z lists) : Evolves P U S z z lists 0 :=
  ⟨h, (add_zero _).symm, fun _ _ => rfl⟩

theorem Evolves.trans {S' : Set ℕ} {m k : ℤ} (h : Evolves P U S z z' lists m)
    (h' : Evolves P U S' z' z'' lists' k) : Evolves P U S' z z'' lists' (m + k) :=
  ⟨h'.isLocal, by rw [h'.lag, h.lag, add_assoc], fun x hx => (h'.frame x hx).trans (h.frame x hx)⟩

theorem Evolves.counters {m k : ℤ} (h : Evolves P U S z z' lists m) (z'' : Zone) (hp : z''.page = z'.page)
    (ha : z''.freeArea = z'.freeArea) (hb : z''.pageblock = z'.pageblock)
    (hn : z''.nrFreePages = z'.nrFreePages + k) : Evolves P U S z z'' lists (m + k) where
  isLocal := h.isLocal.of_eq hp ha hb
  lag := by
    have hl : listedPages c z'' = listedPages c z' := listedPages_congr fun o => by rw [ha]
    have hlag := h.lag
    simp only [Pages.lag, hl, hn] at hlag ⊢
    linarith
  frame := fun x hx => by rw [hp, h.frame x hx]

theorem freeOnePage'_local (h : Local P S z lists) (hp : p ∈ lists mt)
    (ht : P.kinds t) : Evolves P S S z (freeOnePage' c z p 0 t)
      (Function.update lists mt ((lists mt).erase p)) (-1) := by
  have hrem := h.remove hp
  have hpS : p ∈ S := (h.mem p).mpr (Or.inr ⟨mt, hp⟩)
  have hmem : ∀ x, x ∈ (⟨p, 0⟩ : Block) ↔ x = p := by
    intro x
    rw [Block.mem_def]
    dsimp only
    omega
  have hcov : ∀ x ∈ (⟨p, 0⟩ : Block), x ∉ covered c z := by
    intro x hx
    rw [(hmem x).mp hx]
    exact h.out mt p hp
  have hloose : Loose c z ⟨p, 0⟩ :=
    ⟨one_dvd _, c.maxOrder_pos, fun x hx => (hmem x).mp hx ▸ h.here p hpS, hcov⟩
  obtain ⟨d, hf, -⟩ := freeOnePage'_spec h.tidy hloose t
  have hfree := hrem.free hloose.here (fun x hx => (hmem x).mp hx ▸ h.zero p hpS)
    (fun x hx hxS => hxS.2 ((hmem x).mp hx))
    (iff_of_false (h.isoPcp mt p hp) (P.ne_isolate ht)) (fun _ => ht) hf
  have hS : {x | x ∈ S \ {p} ∨ x ∈ (⟨p, 0⟩ : Block)} = S := by
    ext x
    rw [Set.mem_ofPred_eq, hmem, Set.mem_sdiff, Set.mem_singleton_iff]
    constructor
    · rintro (hx | rfl)
      · exact hx.1
      · exact hpS
    · intro hx
      by_cases hxp : x = p
      · exact Or.inr hxp
      · exact Or.inl ⟨hx, hxp⟩
  rw [hS] at hfree
  refine ⟨hfree, ?_, fun x hx => hf.frame.page x ?_⟩
  · rw [hf.lag]
    simp only [pow_zero]
    ring
  · rintro (hc | hxp)
    · exact hx ((h.mem x).mpr (Or.inl hc))
    · exact hx ((hmem x).mp hxp ▸ hpS)

theorem mem_of_freeLast {d : Drain} {x : ℕ} (hx : x ∈ (freeLast c d n p).lists mt) :
    x ∈ d.lists mt := by
  change x ∈ Function.update d.lists d.migratetype _ mt at hx
  by_cases hmt : mt = d.migratetype
  · subst hmt
    rw [Function.update_self] at hx
    exact List.mem_of_mem_erase hx
  · rwa [Function.update_of_ne hmt] at hx

theorem freeLast_local {d : Drain} (h : Local P S d.zone d.lists)
    (hp : p ∈ d.lists d.migratetype) :
    Evolves P S S d.zone (freeLast c d n p).zone (freeLast c d n p).lists (-1) ∧
      total (freeLast c d n p).lists + 1 = total d.lists := by
  constructor
  · have hfree := freeOnePage'_local h hp (h.kindPcp _ p hp)
    unfold freeLast
    dsimp only
    split_ifs
    · have hcount := hfree.counters ((freeOnePage' c d.zone p 0
        (ofCode (d.zone.page p).priv)).modNrFreeCmaPages 1) rfl rfl rfl (add_zero _).symm
      rwa [add_zero] at hcount
    · exact hfree
  · have htot := total_update d.lists d.migratetype
      ((d.lists d.migratetype).erase p)
    have hlen := List.length_erase_of_mem hp
    have hpos := List.length_pos_of_mem hp
    change total (Function.update d.lists d.migratetype ((d.lists d.migratetype).erase p)) + 1 = _
    omega

theorem pickList_spec {d : Drain} (toFree : ℕ) (ht : ∀ mt, mt.isPcp = false → d.lists mt = [])
    (hagain : d.again = true → d.lists d.migratetype ≠ []) (hn : total d.lists ≠ 0) :
    ∃ d₁, pickList 3 toFree d = some d₁ ∧ d₁.zone = d.zone ∧ d₁.lists = d.lists ∧
      d₁.lists d₁.migratetype ≠ [] := by
  unfold pickList
  split_ifs with ha
  · exact ⟨d, rfl, rfl, rfl, hagain ha⟩
  · cases hr : nextList d.lists 3 d.batchFree d.migratetype with
    | none =>
      refine absurd (total_eq_zero.mpr fun mt => ?_) hn
      by_cases hmt : mt.isPcp = true
      · exact nextList_three hr mt hmt
      · exact ht mt (by simpa using hmt)
    | some r => exact ⟨_, rfl, rfl, rfl, (nextList_some hr).2⟩

theorem freePcppages_spec (n : ℕ) {d : Drain}
    (h : Local P S d.zone d.lists)
    (hagain : d.again = true → n ≠ 0 → d.lists d.migratetype ≠ []) (hn : n ≤ total d.lists) :
    ∃ d', freePcppages c 3 n d = some d' ∧ Evolves P S S d.zone d'.zone d'.lists (-n) ∧
      total d'.lists + n = total d.lists ∧ ∀ mt, ∀ x ∈ d'.lists mt, x ∈ d.lists mt := by
  induction n generalizing d with
  | zero => exact ⟨d, rfl, by simpa using Evolves.refl h, rfl, fun _ _ hx => hx⟩
  | succ n ih =>
    have hnext := pickList_spec (n + 1) h.typed (fun ha => hagain ha (Nat.succ_ne_zero n))
      (Nat.ne_zero_of_lt hn)
    obtain ⟨d₁, hd₁, hz, hl, hne⟩ := hnext
    obtain ⟨page, hpage⟩ : ∃ page, (d₁.lists d₁.migratetype).getLast? = some page :=
      Option.isSome_iff_exists.mp (by simpa using hne)
    have hmem : page ∈ d₁.lists d₁.migratetype := List.mem_of_getLast? hpage
    have h₁ : Local P S d₁.zone d₁.lists := by rwa [hz, hl]
    obtain ⟨hev, htot⟩ := freeLast_local (n := n) h₁ hmem
    rw [hl] at htot
    obtain ⟨d', hd', hev', htot', hsub⟩ := ih hev.isLocal (fun ha _ => by
      have hdec := of_decide_eq_true ha
      change Function.update d₁.lists d₁.migratetype _ d₁.migratetype ≠ []
      exact hdec.2.2) (by omega)
    refine ⟨d', ?_, ?_, by omega, fun mt x hx => hl ▸ mem_of_freeLast (hsub mt x hx)⟩
    · rw [freePcppages, hd₁]
      simp only [Option.bind_eq_bind, Option.bind_some, hpage]
      exact hd'
    · have hall := hev.trans hev'
      rw [hz] at hall
      have hsum : (-1 : ℤ) + -(n : ℤ) = -((n + 1 : ℕ) : ℤ) := by
        push_cast
        ring
      rwa [hsum] at hall

theorem pickList_eq_some {d d₁ : Drain} {toFree : ℕ} (h : pickList fuel toFree d = some d₁) :
    d₁.zone = d.zone ∧ d₁.lists = d.lists := by
  unfold pickList at h
  split_ifs at h
  · cases h
    exact ⟨rfl, rfl⟩
  · cases hr : nextList d.lists fuel d.batchFree d.migratetype with
    | none =>
      rw [hr] at h
      cases h
    | some r =>
      rw [hr] at h
      cases h
      exact ⟨rfl, rfl⟩

/-- Asked for more pages than there are, `free_pcppages_bulk` looks for them for ever. -/
theorem freePcppages_none (fuel n : ℕ) {d : Drain} (ht : ∀ mt, mt.isPcp = false → d.lists mt = [])
    (hagain : d.again = true → d.lists d.migratetype ≠ []) (hn : total d.lists < n) :
    freePcppages c fuel n d = none := by
  induction n generalizing d with
  | zero => exact absurd hn (Nat.not_lt_zero _)
  | succ n ih =>
    rw [freePcppages]
    cases hd₁ : pickList fuel (n + 1) d with
    | none => rfl
    | some d₁ =>
      obtain ⟨-, hl⟩ := pickList_eq_some hd₁
      cases hpage : (d₁.lists d₁.migratetype).getLast? with
      | none => simp only [Option.bind_eq_bind, Option.bind_some, hpage, Option.bind_none]
      | some page =>
        simp only [Option.bind_eq_bind, Option.bind_some, hpage]
        have hmem := List.mem_of_getLast? hpage
        have htot := total_update d₁.lists d₁.migratetype
          ((d₁.lists d₁.migratetype).erase page)
        have hlen := List.length_erase_of_mem hmem
        have hpos := List.length_pos_of_mem hmem
        rw [← hl] at ht hn
        refine ih (fun mt hmt => ?_) (fun ha => (of_decide_eq_true ha).2.2) ?_
        · change Function.update d₁.lists d₁.migratetype _ mt = []
          have hne : mt ≠ d₁.migratetype := by
            rintro rfl
            rw [ht _ hmt] at hmem
            exact absurd hmem List.not_mem_nil
          rw [Function.update_of_ne hne]
          exact ht mt hmt
        · change total (Function.update d₁.lists d₁.migratetype _) < n
          omega

theorem freePcppagesBulk_spec {pcp : Pcp} (count : ℕ)
    (h : Local P S z pcp.lists) (hn : count ≤ total pcp.lists) :
    ∃ z' lists', freePcppagesBulk c z count pcp = some (z', { pcp with lists := lists' }) ∧
      Evolves P S S z z' lists' 0 ∧ total lists' + count = total pcp.lists ∧
      ∀ mt, ∀ x ∈ lists' mt, x ∈ pcp.lists mt := by
  obtain ⟨d', hd', hev, htot, hsub⟩ := freePcppages_spec count
    (d := ⟨z, pcp.lists, .unmovable, 0, false⟩) h (fun ha => by cases ha) hn
  refine ⟨d'.zone.modNrFreePages count, d'.lists, ?_, ?_, htot, hsub⟩
  · simp only [freePcppagesBulk, hd', Option.bind_eq_bind, Option.bind_some]
  · have hc := hev.counters (d'.zone.modNrFreePages count) rfl rfl rfl rfl
    rwa [neg_add_cancel] at hc

theorem freePcppagesBulk_exact {pcp : Pcp} (count : ℕ) (h : Local P S z pcp.lists) :
    ((∃ fuel, (freePcppages c fuel count ⟨z, pcp.lists, .unmovable, 0, false⟩).isSome = true) ↔
      count ≤ total pcp.lists) ∧
    ∀ z' pcp', freePcppagesBulk c z count pcp = some (z', pcp') →
      total pcp'.lists + count = total pcp.lists ∧ lag c z' = lag c z ∧
      ∀ x, x ∈ covered c z' ↔
        x ∈ covered c z ∨ (∃ mt, x ∈ pcp.lists mt) ∧ ∀ mt, x ∉ pcp'.lists mt := by
  have hiff : (∃ fuel, (freePcppages c fuel count ⟨z, pcp.lists, .unmovable, 0, false⟩).isSome
      = true) ↔ count ≤ total pcp.lists := by
    constructor
    · rintro ⟨fuel, hsome⟩
      by_contra hlt
      rw [freePcppages_none fuel count h.typed (fun ha => by cases ha) (by simpa using hlt)] at hsome
      cases hsome
    · intro hn
      obtain ⟨d', hd', -⟩ := freePcppages_spec count
        (d := ⟨z, pcp.lists, .unmovable, 0, false⟩) h (fun ha => by cases ha) hn
      exact ⟨3, by rw [hd']; rfl⟩
  refine ⟨hiff, fun z' pcp' hb => ?_⟩
  have hn : count ≤ total pcp.lists := by
    refine hiff.mp ⟨3, ?_⟩
    unfold freePcppagesBulk at hb
    obtain ⟨d', hd', -⟩ := Option.bind_eq_some_iff.mp hb
    rw [hd']
    rfl
  obtain ⟨z₁, lists₁, hb₁, hev, htot, hsub⟩ := freePcppagesBulk_spec count h hn
  rw [hb₁] at hb
  cases hb
  refine ⟨htot, by simpa using hev.lag, fun x => ?_⟩
  have hbefore := h.mem x
  have hafter := hev.isLocal.mem x
  constructor
  · intro hx
    by_cases hcz : x ∈ covered c z
    · exact Or.inl hcz
    · refine Or.inr ⟨(hbefore.mp (hafter.mpr (Or.inl hx))).resolve_left hcz, fun mt hmt => ?_⟩
      exact hev.isLocal.out mt x hmt hx
  · rintro (hx | ⟨hx, hno⟩)
    · rcases hafter.mp (hbefore.mpr (Or.inl hx)) with hx' | ⟨mt, hmt⟩
      · exact hx'
      · exact absurd hx (h.out mt x (hsub mt x hmt))
    · exact (hafter.mp (hbefore.mpr (Or.inr hx))).resolve_right fun ⟨mt, hmt⟩ => hno mt hmt

end AndroidKernel.Pages
