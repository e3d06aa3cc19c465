import AndroidKernel.Sched.FairPick

/-! A pick of the fair class follows the group hierarchy down to a task. On the way it takes
entities off their trees and clears buddies, and changes no place in the hierarchy. -/

namespace AndroidKernel.Sched

def SchedEntity.place (e : SchedEntity) : Option Eid × Qid × Option Qid × Tid :=
  (e.parent, e.cfsRq, e.myQ, e.task)

def CpuRq.Member (s : CpuRq) (c : Qid) (e : Eid) : Prop :=
  e ∈ (s.cfsRq c).timeline ∨ ∃ b, (s.cfsRq c).buddy b = some e

/-- What a pick in `c` may change: entities leave the tree of `c`, buddies are cleared. -/
structure PickedIn (c : Qid) (s s' : CpuRq) : Prop where
  rq : s'.rq = s.rq
  place : ∀ e, (s'.se e).place = (s.se e).place
  subset : ∀ d, (s'.cfsRq d).timeline ⊆ (s.cfsRq d).timeline
  timeline : ∀ d, d ≠ c → (s'.cfsRq d).timeline = (s.cfsRq d).timeline
  buddy : ∀ d b e, (s'.cfsRq d).buddy b = some e → (s.cfsRq d).buddy b = some e

variable {cfg : FairConfig} {s s' s'' : CpuRq} {c : Qid} {se : Eid}

theorem PickedIn.refl (c : Qid) (s : CpuRq) : PickedIn c s s :=
  ⟨rfl, fun _ => rfl, fun _ => List.Subset.refl _, fun _ _ => rfl, fun _ _ _ h => h⟩

theorem PickedIn.trans (h : PickedIn c s s') (h' : PickedIn c s' s'') : PickedIn c s s'' where
  rq := h'.rq.trans h.rq
  place := fun e => (h'.place e).trans (h.place e)
  subset := fun d _ he => h.subset d (h'.subset d he)
  timeline := fun d hd => (h'.timeline d hd).trans (h.timeline d hd)
  buddy := fun d b e he => h.buddy d b e (h'.buddy d b e he)

theorem PickedIn.member (h : PickedIn c s s') {d : Qid} {e : Eid} (hm : s'.Member d e) :
    s.Member d e := by
  rcases hm with hm | ⟨b, hb⟩
  · exact Or.inl (h.subset d hm)
  · exact Or.inr ⟨b, h.buddy d b e hb⟩

theorem pickedIn_modifySe (c : Qid) (s : CpuRq) (se : Eid) {f : SchedEntity → SchedEntity}
    (hf : ∀ e, (f e).place = e.place) : PickedIn c s (s.modifySe se f) where
  rq := rfl
  place := by
    intro e
    by_cases he : e = se
    · subst e
      rw [CpuRq.modifySe_self, hf]
    · rw [CpuRq.modifySe_of_ne s f he]
  subset := fun _ => List.Subset.refl _
  timeline := fun _ _ => rfl
  buddy := fun _ _ _ h => h

theorem pickedIn_modifyCfs (s : CpuRq) (d : Qid) {f : CfsRq → CfsRq}
    (ht : (f (s.cfsRq d)).timeline ⊆ (s.cfsRq d).timeline)
    (he : d ≠ c → (f (s.cfsRq d)).timeline = (s.cfsRq d).timeline)
    (hb : ∀ b e, (f (s.cfsRq d)).buddy b = some e → (s.cfsRq d).buddy b = some e) :
    PickedIn c s (s.modifyCfs d f) where
  rq := rfl
  place := fun _ => rfl
  subset := by
    intro d'
    by_cases hd : d' = d
    · subst d'
      rwa [CpuRq.modifyCfs_self]
    · rw [CpuRq.modifyCfs_of_ne s f hd]
      exact List.Subset.refl _
  timeline := by
    intro d' hd'
    by_cases hd : d' = d
    · subst d'
      rw [CpuRq.modifyCfs_self, he hd']
    · rw [CpuRq.modifyCfs_of_ne s f hd]
  buddy := by
    intro d' b e h
    by_cases hd : d' = d
    · subst d'
      rw [CpuRq.modifyCfs_self] at h
      exact hb b e h
    · rwa [CpuRq.modifyCfs_of_ne s f hd] at h

/-- A group hierarchy of depth `n` in order from level `k` on: the entities of a `cfs_rq` point
back to it, levels grow downwards, and a group that can be picked has an entity to pick. -/
structure Hierarchy (s : CpuRq) (level : Qid → ℕ) (n k : ℕ) : Prop where
  depth : ∀ c, level c < n
  home : ∀ c e, s.Member c e → (s.se e).cfsRq = c
  parent : ∀ e p, (s.se e).parent = some p → level (s.se p).cfsRq < level (s.se e).cfsRq
  child : ∀ e d, (s.se e).myQ = some d → level (s.se e).cfsRq < level d
  busy : ∀ c e d, k ≤ level c → s.Member c e → (s.se e).myQ = some d → (s.cfsRq d).timeline ≠ []

variable {level : Qid → ℕ} {n k : ℕ}

theorem PickedIn.hierarchy (h : PickedIn c s s') (hs : Hierarchy s level n k)
    (hk : level c ≤ k) : Hierarchy s' level n k := by
  have hplace := fun e => (Prod.mk.injEq .. ▸ h.place e : _ ∧ _)
  have hparent : ∀ e, (s'.se e).parent = (s.se e).parent := fun e => (hplace e).1
  have hcfs : ∀ e, (s'.se e).cfsRq = (s.se e).cfsRq := fun e => congrArg (·.1) (hplace e).2
  have hmyq : ∀ e, (s'.se e).myQ = (s.se e).myQ := fun e => congrArg (·.2.1) (hplace e).2
  refine ⟨hs.depth, ?_, ?_, ?_, ?_⟩
  · intro d e hm
    rw [hcfs]
    exact hs.home d e (h.member hm)
  · intro e p hp
    rw [hcfs, hcfs]
    exact hs.parent e p (hparent e ▸ hp)
  · intro e d hd
    rw [hcfs]
    exact hs.child e d (hmyq e ▸ hd)
  · intro d e d' hd hm hq
    rw [hmyq] at hq
    have hlt := hs.child e d' hq
    rw [hs.home d e (h.member hm)] at hlt
    -- the group below `d` is not `c`, whose tree alone has shrunk
    have hne : d' ≠ c := by
      rintro rfl
      omega
    rw [h.timeline d' hne]
    exact hs.busy d e d' hd (h.member hm) hq

theorem pickedIn_wakeupPreemptEntity (curr se : Eid) :
    PickedIn c s (wakeupPreemptEntity cfg s curr se).2 := by
  unfold wakeupPreemptEntity
  dsimp only
  split
  · exact PickedIn.refl c s
  · dsimp only
    refine pickedIn_modifySe c s se ?_
    intro e
    rfl

theorem pickedIn_preferBuddy (left : Eid) (buddy : Option Eid) (se : Eid) :
    PickedIn c s (preferBuddy cfg s left buddy se).2 := by
  cases buddy with
  | none => exact PickedIn.refl c s
  | some b => exact pickedIn_wakeupPreemptEntity b left

theorem preferBuddy_entity (cfg : FairConfig) (s : CpuRq) (left : Eid) (buddy : Option Eid) (se : Eid) :
    (preferBuddy cfg s left buddy se).1 = se ∨
      buddy = some (preferBuddy cfg s left buddy se).1 := by
  cases buddy with
  | none => exact Or.inl rfl
  | some b =>
    unfold preferBuddy
    dsimp only
    split
    · exact Or.inr rfl
    · exact Or.inl rfl

theorem clearBuddy_spec (b : Buddy) {m : ℕ}
    (hp : ∀ e p, (s.se e).parent = some p → level (s.se p).cfsRq < level (s.se e).cfsRq)
    (hm : level (s.se se).cfsRq < m) :
    ∃ s', clearBuddy b m (some se) s = some s' ∧ PickedIn c s s' := by
  induction m generalizing s se with
  | zero => exact absurd hm (Nat.not_lt_zero _)
  | succ m ih =>
    unfold clearBuddy
    dsimp only
    split
    · set s₁ := s.modifyCfs (s.se se).cfsRq fun q => { q with buddy := Function.update q.buddy b none }
      have h₁ : PickedIn c s s₁ := by
        refine pickedIn_modifyCfs s _ (List.Subset.refl _) (fun _ => rfl) fun b' e hb => ?_
        dsimp only at hb
        by_cases hbb : b' = b
        · subst b'
          rw [Function.update_self] at hb
          cases hb
        · rwa [Function.update_of_ne hbb] at hb
      cases hpar : (s.se se).parent with
      | none => exact ⟨s₁, by cases m <;> rfl, h₁⟩
      | some p =>
        have hlt := hp se p hpar
        have hlt' : level (s₁.se p).cfsRq < m := by
          change level (s.se p).cfsRq < m
          omega
        obtain ⟨s', hs', h'⟩ := ih (s := s₁) hp hlt'
        exact ⟨s', hs', h₁.trans h'⟩
    · exact ⟨s, rfl, PickedIn.refl c s⟩

theorem clearBuddy_guarded (b : Buddy) (hs : Hierarchy s level n k) (hk : level c ≤ k) (se : Eid) :
    ∃ s', (if (s.cfsRq c).buddy b = some se then clearBuddy b n (some se) s else some s) = some s' ∧
      PickedIn c s s' ∧ Hierarchy s' level n k := by
  split
  · obtain ⟨s', hs', h'⟩ := clearBuddy_spec (c := c) b hs.parent (hs.depth (s.se se).cfsRq)
    exact ⟨s', hs', h', h'.hierarchy hs hk⟩
  · exact ⟨s, rfl, PickedIn.refl c s, hs⟩

theorem clearBuddies_spec (hs : Hierarchy s level n k) (hk : level c ≤ k) (se : Eid) :
    ∃ s', clearBuddies n s c se = some s' ∧ PickedIn c s s' := by
  obtain ⟨s₁, h₁, hp₁, hs₁⟩ := clearBuddy_guarded .last hs hk se
  obtain ⟨s₂, h₂, hp₂, hs₂⟩ := clearBuddy_guarded .next hs₁ hk se
  obtain ⟨s₃, h₃, hp₃, -⟩ := clearBuddy_guarded .skip hs₂ hk se
  refine ⟨s₃, ?_, (hp₁.trans hp₂).trans hp₃⟩
  simp only [clearBuddies, clearBuddiesLast, clearBuddiesNext, clearBuddiesSkip, h₁, h₂, h₃,
    Option.bind_some]

theorem firstEntity_spec {left : Eid} (hl : (s.cfsRq c).timeline.head? = some left) :
    s.Member c (firstEntity cfg s c left).1 ∧ PickedIn c s (firstEntity cfg s c left).2 := by
  have hleft : s.Member c left := Or.inl (List.mem_of_head? hl)
  unfold firstEntity
  split
  · refine ⟨?_, pickedIn_preferBuddy left _ left⟩
    rcases preferBuddy_entity cfg s left (s.cfsRq c).timeline.tail.head? left with he | he
    · rw [he]
      exact hleft
    · exact Or.inl (List.mem_of_mem_tail (List.mem_of_head? he))
  · exact ⟨hleft, PickedIn.refl c s⟩

theorem preferBuddy_spec {x : Eid × CpuRq} (left : Eid) (b : Buddy)
    (h : s.Member c x.1 ∧ PickedIn c s x.2) :
    s.Member c (preferBuddy cfg x.2 left ((x.2.cfsRq c).buddy b) x.1).1 ∧
      PickedIn c s (preferBuddy cfg x.2 left ((x.2.cfsRq c).buddy b) x.1).2 := by
  refine ⟨?_, h.2.trans (pickedIn_preferBuddy left _ _)⟩
  rcases preferBuddy_entity cfg x.2 left ((x.2.cfsRq c).buddy b) x.1 with he | he
  · rw [he]
    exact h.1
  · exact h.2.member (Or.inr ⟨b, he⟩)

theorem chooseEntity_spec (cfg : FairConfig) {left : Eid} (hl : (s.cfsRq c).timeline.head? = some left) :
    s.Member c (chooseEntity cfg s c left).1 ∧ PickedIn c s (chooseEntity cfg s c left).2 :=
  preferBuddy_spec left .next (preferBuddy_spec left .last (firstEntity_spec hl))

theorem pickNextEntity_spec (hs : Hierarchy s level cfg.depth k) (hk : level c ≤ k)
    (ht : (s.cfsRq c).timeline ≠ []) :
    ∃ se s', pickNextEntity cfg s c = some (se, s') ∧ s.Member c se ∧ PickedIn c s s' := by
  obtain ⟨left, hl⟩ : ∃ left, (s.cfsRq c).timeline.head? = some left :=
    ⟨_, List.head?_eq_some_head ht⟩
  obtain ⟨hm, hp⟩ := chooseEntity_spec cfg hl
  obtain ⟨s', hs', h'⟩ := clearBuddies_spec (hp.hierarchy hs hk) hk (chooseEntity cfg s c left).1
  refine ⟨_, s', ?_, hm, hp.trans h'⟩
  simp only [pickNextEntity, hl, Option.bind_eq_bind, Option.bind_some, hs']

theorem setNextEntity_spec (cfg : FairConfig) (s : CpuRq) (c : Qid) (se : Eid) :
    PickedIn c s (setNextEntity cfg s c se) := by
  have hwait : ∀ e, (updateStatsWaitEnd cfg s.clock e).place = e.place := by
    intro e
    unfold updateStatsWaitEnd
    split <;> rfl
  have hslice : ∀ w e, (updateSliceMax cfg w e).place = e.place := by
    intro w e
    unfold updateSliceMax
    split <;> rfl
  have hstart : ∀ t e, (updateStatsCurrStart t e).place = e.place := fun _ _ => rfl
  have hprev : ∀ e : SchedEntity,
      { e with prevSumExecRuntime := e.sumExecRuntime }.place = e.place := fun _ => rfl
  unfold setNextEntity
  dsimp only
  refine PickedIn.trans ?_ (pickedIn_modifySe c _ se hprev)
  refine PickedIn.trans ?_ (pickedIn_modifySe c _ se (hslice _))
  refine PickedIn.trans ?_ (pickedIn_modifyCfs _ c ?_ (fun _ => rfl) fun _ _ hb => hb)
  rotate_left
  · exact List.Subset.refl _
  refine PickedIn.trans ?_ (pickedIn_modifySe c _ se (hstart _))
  split
  · refine (pickedIn_modifySe c s se hwait).trans (pickedIn_modifyCfs _ c ?_ ?_ fun _ _ hb => hb)
    · exact List.erase_subset
    · exact fun hne => absurd rfl hne
  · exact PickedIn.refl c s

theorem pickTask_spec {m : ℕ} (hs : Hierarchy s level cfg.depth (level c))
    (ht : (s.cfsRq c).timeline ≠ []) (hm : cfg.depth ≤ level c + m) :
    ∃ se s', pickTask cfg m s c = some (se, s') ∧ s'.rq = s.rq := by
  induction m generalizing s c with
  | zero => exact absurd (hs.depth c) (by omega)
  | succ m ih =>
    obtain ⟨se, s₁, h₁, hmem, hp₁⟩ := pickNextEntity_spec hs le_rfl ht
    have hp₂ : PickedIn c s (setNextEntity cfg s₁ c se) := hp₁.trans (setNextEntity_spec cfg s₁ c se)
    have hplace : ((setNextEntity cfg s₁ c se).se se).myQ = (s.se se).myQ :=
      congrArg (·.2.2.1) (hp₂.place se)
    cases hq : (s.se se).myQ with
    | none =>
      refine ⟨se, setNextEntity cfg s₁ c se, ?_, hp₂.rq⟩
      simp only [pickTask, h₁, Option.bind_eq_bind, Option.bind_some, hplace, hq]
    | some d =>
      have hlt : level c < level d := by
        have := hs.child se d hq
        rwa [hs.home c se hmem] at this
      have hne : d ≠ c := by
        rintro rfl
        exact lt_irrefl _ hlt
      have htd : ((setNextEntity cfg s₁ c se).cfsRq d).timeline ≠ [] := by
        rw [hp₂.timeline d hne]
        exact hs.busy c se d le_rfl hmem hq
      have hsd : Hierarchy (setNextEntity cfg s₁ c se) level cfg.depth (level d) := by
        have hk := hp₂.hierarchy hs le_rfl
        exact ⟨hk.depth, hk.home, hk.parent, hk.child,
          fun c' e d' hc => hk.busy c' e d' (hlt.le.trans hc)⟩
      obtain ⟨e, s', hs', hrq⟩ := ih hsd htd (by omega)
      refine ⟨e, s', ?_, hrq.trans hp₂.rq⟩
      simp only [pickTask, h₁, Option.bind_eq_bind, Option.bind_some, hplace, hq, hs']

/-- A fair class with a runnable entity hands out a task, and up to the timer the counters and
lists of the runqueue stay as they are. -/
theorem pickNextTaskFair_returns (hs : Hierarchy s level cfg.depth (level s.cfs))
    (hn : (s.cfsRq s.cfs).nrRunning ≠ 0) (ht : (s.cfsRq s.cfs).timeline ≠ []) :
    ∃ p s', pickNextTaskFair cfg s = some (some p, cfg.hrtick s' p) ∧ s'.rq = s.rq := by
  obtain ⟨se, s', h, hrq⟩ := pickTask_spec (m := cfg.depth) hs ht (by omega)
  refine ⟨(s'.se se).task, s', ?_, hrq⟩
  simp only [pickNextTaskFair, if_neg hn, h, Option.bind_eq_bind, Option.bind_some]

/-- The groups are no deeper than the configuration says, and a root that counts entities has one in
its tree. -/
def FairOrdered (cfg : FairConfig) (s : CpuRq) : Prop :=
  ((s.cfsRq s.cfs).nrRunning ≠ 0 → (s.cfsRq s.cfs).timeline ≠ []) ∧
    ∃ level : Qid → ℕ, Hierarchy s level cfg.depth (level s.cfs)

theorem FairOrdered.pick (h : FairOrdered cfg s) :
    ∃ p s', pickNextTaskFair cfg s = some (p, s') := by
  obtain ⟨ht, level, hs⟩ := h
  by_cases hn : (s.cfsRq s.cfs).nrRunning = 0
  · exact ⟨none, s, if_pos hn⟩
  · obtain ⟨p, s', hp, -⟩ := pickNextTaskFair_returns hs hn (ht hn)
    exact ⟨some p, cfg.hrtick s' p, hp⟩

theorem pickNextTaskFair_null (h : pickNextTaskFair cfg s = some (none, s')) :
    (s.cfsRq s.cfs).nrRunning = 0 ∧ s' = s := by
  unfold pickNextTaskFair at h
  split at h
  · rename_i hn
    obtain ⟨-, rfl⟩ := Prod.mk.inj (Option.some_inj.mp h)
    exact ⟨hn, rfl⟩
  · obtain ⟨x, -, hx⟩ := Option.bind_eq_some_iff.mp h
    obtain ⟨hp, -⟩ := Prod.mk.inj (Option.some_inj.mp hx)
    cases hp

end AndroidKernel.Sched
