import AndroidKernel.Sthread.Steps

/-! The thread list and the structs on it. `threadlist_add` links a new struct whose `pid` field
is still what `malloc` left there; where that is not the pid of a running client, `sthread_self`
answers the struct of its caller in every state. -/

namespace AndroidKernel.Sthread
open Sync
variable {κ : Type} {s s' : State κ}

def ManagerPc.adding : ManagerPc → Option Thr
  | .create .clone _ t | .create .listdel _ t => some t
  | _ => none

def ManagerPc.pending : ManagerPc → Option Thr
  | .read | .create .wake _ _ => none
  | .create _ c _ => some c

def ManagerPc.caller : ManagerPc → Option Thr
  | .read => none
  | .create _ c _ => some c

structure Listed (s : State κ) : Prop where
  running : ∀ t p, s.running t = some p → t ∈ s.list ∧ s.pid t = p ∧ p ∈ s.pids ∧ 0 < p
  inj : ∀ t u p, s.running t = some p → s.running u = some p → t = u
  pid : ∀ x ∈ s.list, (s.running x).isSome ∨ (s.manager.adding = some x ∧
    ∀ u p, u ≠ .manager → s.running u = some p → s.pid x ≠ p)
  nodup : s.list.Nodup
  front : ∀ x, s.manager.adding = some x → ∃ xs, s.list = x :: xs
  failed : ∀ c t, s.manager = .create .listdel c t → s.pid t = -1
  manager : (s.running .manager).isSome

theorem Listed.sthreadSelf (h : Listed s) {t : Thr} (hr : (s.running t).isSome)
    (hm : t ≠ .manager) : s.sthreadSelf t = some t := by
  obtain ⟨p, hp⟩ := Option.isSome_iff_exists.mp hr
  obtain ⟨hmem, hpid, -, -⟩ := h.running t p hp
  simp only [State.sthreadSelf, hp, Option.bind_some, threadlistFindbypid]
  obtain ⟨x, hx⟩ := Option.isSome_iff_exists.mp
    (List.find?_isSome (p := (s.pid · = p)).mpr ⟨t, hmem, by simpa using hpid⟩)
  have hxp : s.pid x = p := by simpa using List.find?_some hx
  -- the first match is a running thread, hence `t`, or the struct being added, which cannot match
  obtain hrun | ⟨-, hne⟩ := h.pid x (List.mem_of_find?_eq_some hx)
  · obtain ⟨q, hq⟩ := Option.isSome_iff_exists.mp hrun
    have hqp : q = p := (h.running x q hq).2.1.symm.trans hxp
    rw [hx, h.inj x t p (hqp ▸ hq) hp]
  · exact absurd hxp (hne t p hm hp)

theorem Listed.congr (h : Listed s) (hl : s'.list = s.list) (hp : s'.pid = s.pid)
    (hr : s'.running = s.running) (hu : s'.pids = s.pids)
    (ha : s'.manager.adding = s.manager.adding)
    (hf : ∀ c t, s'.manager = .create .listdel c t → s'.pid t = -1) : Listed s' := by
  refine ⟨?_, ?_, ?_, ?_, ?_, hf, ?_⟩
  · rw [hl, hp, hr, hu]
    exact h.running
  · rw [hr]
    exact h.inj
  · rw [hl, hp, hr, ha]
    exact h.pid
  · rw [hl]
    exact h.nodup
  · rw [hl, ha]
    exact h.front
  · rw [hr]
    exact h.manager

theorem Listed.setPid (h : Listed s) {n : Thr} (hn : n ∉ s.list) {p : ℤ}
    (hl : s'.list = s.list) (hp : s'.pid = Function.update s.pid n p)
    (hr : s'.running = s.running) (hu : s'.pids = s.pids) (hm : s'.manager = s.manager) :
    Listed s' := by
  have hpid : ∀ x ∈ s.list, s'.pid x = s.pid x := by
    intro x hx
    have hxn : x ≠ n := fun e => hn (e ▸ hx)
    rw [hp, Function.update_of_ne hxn]
  refine ⟨fun t q hq => ?_, ?_, fun x hx => ?_, ?_, ?_, fun c t hc => ?_, ?_⟩
  · rw [hr] at hq
    obtain ⟨hmem, hq', hrest⟩ := h.running t q hq
    rw [hl, hu, hpid t hmem]
    exact ⟨hmem, hq', hrest⟩
  · rw [hr]
    exact h.inj
  · rw [hl] at hx
    rw [hr, hm, hpid x hx]
    exact h.pid x hx
  · rw [hl]
    exact h.nodup
  · rw [hl, hm]
    exact h.front
  · rw [hm] at hc
    obtain ⟨xs, hxs⟩ := h.front t (by rw [hc]; rfl)
    rw [hpid t (by rw [hxs]; exact List.mem_cons_self ..)]
    exact h.failed c t hc
  · rw [hr]
    exact h.manager

theorem Listed.add (h : Listed s) {c t : Thr} (hm : s.manager = .create .add c t)
    (hr : s.running t = none) (hp : ∀ u p, u ≠ .manager → s.running u = some p → s.pid t ≠ p) :
    Listed { s with list := t :: s.list, manager := .create .clone c t } := by
  have hrun : ∀ x ∈ s.list, (s.running x).isSome := fun x hx => by
    obtain hx | ⟨hx, -⟩ := h.pid x hx
    · exact hx
    · rw [hm] at hx
      cases hx
  have hnew : t ∉ s.list := fun hx => by
    have := hrun t hx
    simp [hr] at this
  refine ⟨fun u p hu => ?_, h.inj, fun x hx => ?_, List.nodup_cons.mpr ⟨hnew, h.nodup⟩,
    fun x hx => ?_, fun c' t' hc => (by cases hc), h.manager⟩
  · obtain ⟨hmem, hrest⟩ := h.running u p hu
    exact ⟨List.mem_cons_of_mem _ hmem, hrest⟩
  · rcases List.mem_cons.mp hx with rfl | hx
    · exact Or.inr ⟨rfl, hp⟩
    · exact Or.inl (hrun x hx)
  · cases hx
    exact ⟨s.list, rfl⟩

theorem Listed.clone (h : Listed s) {c t : Thr} {p : ℤ} (hm : s.manager = .create .clone c t)
    (hr : s.running t = none) (hp : 0 < p) (hf : p ∉ s.pids) :
    Listed { s with
      pid := Function.update s.pid t p
      running := Function.update s.running t (some p)
      pids := insert p s.pids
      manager := .create .wake c t } := by
  obtain ⟨xs, hxs⟩ := h.front t (by rw [hm]; rfl)
  have hnew : ∀ u q, s.running u = some q → u ≠ t ∧ q ≠ p := by
    intro u q hu
    refine ⟨?_, ?_⟩
    · rintro rfl
      rw [hr] at hu
      cases hu
    · rintro rfl
      exact hf (h.running u q hu).2.2.1
  refine ⟨fun u q hu => ?_, fun u v q hu hv => ?_, fun x hx => Or.inl ?_, h.nodup,
    fun x hx => (by cases hx), fun c' t' hc => (by cases hc), ?_⟩
  · by_cases hut : u = t
    · subst hut
      obtain rfl : p = q := by simpa using hu
      refine ⟨?_, by simp, Finset.mem_insert_self .., hp⟩
      rw [hxs]
      exact List.mem_cons_self ..
    · simp only [Function.update_of_ne hut] at hu ⊢
      obtain ⟨hmem, hq, hpids, hpos⟩ := h.running u q hu
      exact ⟨hmem, hq, Finset.mem_insert_of_mem hpids, hpos⟩
  · by_cases hut : u = t <;> by_cases hvt : v = t
    · rw [hut, hvt]
    · simp only [hut, Function.update_self, Function.update_of_ne hvt, Option.some.injEq] at hu hv
      exact absurd hu.symm (hnew v q hv).2
    · simp only [hvt, Function.update_self, Function.update_of_ne hut, Option.some.injEq] at hu hv
      exact absurd hv.symm (hnew u q hu).2
    · simp only [Function.update_of_ne hut, Function.update_of_ne hvt] at hu hv
      exact h.inj u v q hu hv
  · by_cases hxt : x = t
    · simp [hxt]
    · simp only [Function.update_of_ne hxt]
      obtain hx' | ⟨hx', -⟩ := h.pid x hx
      · exact hx'
      · rw [hm] at hx'
        cases hx'
        exact absurd rfl hxt
  · have hne : Thr.manager ≠ t := by
      rintro rfl
      have := h.manager
      simp [hr] at this
    simp only [Function.update_of_ne hne]
    exact h.manager

theorem Listed.cloneFail (h : Listed s) {c t : Thr} (hm : s.manager = .create .clone c t)
    (hr : s.running t = none) :
    Listed { s with
      pid := Function.update s.pid t (-1), manager := .create .listdel c t } := by
  have hne : ∀ u q, s.running u = some q → u ≠ t := by
    rintro u q hu rfl
    rw [hr] at hu
    cases hu
  refine ⟨fun u q hu => ?_, h.inj, fun x hx => ?_, h.nodup, fun x hx => ?_, fun c' t' hc => ?_,
    h.manager⟩
  · simp only [Function.update_of_ne (hne u q hu)]
    exact h.running u q hu
  · by_cases hxt : x = t
    · subst hxt
      refine Or.inr ⟨rfl, fun u q _ hu => ?_⟩
      have := (h.running u q hu).2.2.2
      simp only [Function.update_self]
      omega
    · obtain hx' | ⟨hx', -⟩ := h.pid x hx
      · exact Or.inl hx'
      · rw [hm] at hx'
        cases hx'
        exact absurd rfl hxt
  · cases hx
    exact h.front t (by rw [hm]; rfl)
  · cases hc
    simp

theorem Listed.threadlistDel_eq (h : Listed s) {c t : Thr}
    (hm : s.manager = .create .listdel c t) (hr : s.running t = none) :
    ∃ xs, s.list = t :: xs ∧ threadlistDel s.pid t s.list = some xs := by
  obtain ⟨xs, hxs⟩ := h.front t (by rw [hm]; rfl)
  have hne : t ≠ .manager := by
    rintro rfl
    have := h.manager
    simp [hr] at this
  exact ⟨xs, hxs, by simp [hxs, threadlistDel, hne]⟩

theorem Listed.listdel (h : Listed s) {c t : Thr} {list : List Thr}
    (hm : s.manager = .create .listdel c t) (hr : s.running t = none)
    (hl : threadlistDel s.pid t s.list = some list) :
    Listed ({ s with list := list }.createOut c t) := by
  obtain ⟨xs, hxs, hdel⟩ := h.threadlistDel_eq hm hr
  obtain rfl : xs = list := Option.some_inj.mp (hdel.symm.trans hl)
  have hnodup := h.nodup
  rw [hxs, List.nodup_cons] at hnodup
  refine ⟨fun u q hu => ?_, h.inj, fun x hx => Or.inl ?_, hnodup.2, fun x hx => (by cases hx),
    fun c' t' hc => (by cases hc), h.manager⟩
  · obtain ⟨hmem, hrest⟩ := h.running u q hu
    rw [hxs] at hmem
    rcases List.mem_cons.mp hmem with rfl | hmem
    · exact absurd (hr.symm.trans hu) (by simp)
    · exact ⟨hmem, hrest⟩
  · have hx : x ∈ xs := hx
    obtain hx' | ⟨hx', -⟩ := h.pid x (by rw [hxs]; exact List.mem_cons_of_mem _ hx)
    · exact hx'
    · rw [hm] at hx'
      cases hx'
      exact absurd hx hnodup.1

end AndroidKernel.Sthread
