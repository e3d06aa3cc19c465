import AndroidKernel.Sthread.DoCreate

/-! The calls of `sthread_create` that leave nothing behind, phase by phase: the request, the reply,
and the return of the caller. -/

namespace AndroidKernel.Sthread.Creation
open Lts

structure Replied (fail : Option Syscall) (s₀ : State) (t : ℕ) (u : State) : Prop where
  request : u.request = none
  fault : u.fault = none
  created : fail = none → u.status = 0 ∧ Created s₀.res u.res ∧
    ∀ ss, u.child = some ss → ss ∈ u.res.blocks
  refused : fail ≠ none → u.status = -1 ∧ u.child = none ∧ t ∉ s₀.res.blocks ∧
    u.res = (s₀.malloc t).res

structure Returned (fail : Option Syscall) (s₀ : State) (u : State) : Prop where
  request : u.request = none
  fault : u.fault = none
  child : ∀ ss, u.child = some ss → fail = none ∧ ss ∈ u.res.blocks
  outcome : ∃ ret, u.caller = .returned ret ∧ Outcome fail s₀.res u.res ret

def State.requested (s₀ : State) (a : ℕ) : State :=
  { s₀.malloc a with request := some a, caller := .suspended a }

@[simp] theorem State.requested_caller (s₀ : State) (a : ℕ) :
    (s₀.requested a).caller = .suspended a := rfl

inductive Phase (fail : Option Syscall) (s₀ : State) : State → Prop
  | begun : Phase fail s₀ s₀
  | allocated (t : ℕ) (ht : t ∉ s₀.res.blocks) (hf : fail ≠ some .newthr) :
      Phase fail s₀ { s₀.malloc t with caller := .send t }
  | requested (t : ℕ) (ht : t ∉ s₀.res.blocks) (hf : fail ≠ some .newthr) :
      Phase fail s₀ (s₀.requested t)
  | replied (t : ℕ) (u : State) (hu : Replied fail s₀ t u) (hc : u.caller = .suspended t)
      (ht : u.token = 1) : Phase fail s₀ u
  | woken (t : ℕ) (u : State) (hu : Replied fail s₀ t u) (hc : u.caller = .woken t)
      (ht : u.token = 0) : Phase fail s₀ u
  | returned (u : State) (hu : Returned fail s₀ u) : Phase fail s₀ u

/-- The calls that may fail, and the state in which `sthread_create` finds the caller's pipe. -/
def Harmless (fail : Option Syscall) (s₀ : State) : Prop :=
  fail = some .newthr ∨ s₀.token = 0 ∧ (fail = none ∨ fail = some .mmap)

section Steps
variable {fail : Option Syscall} {s₀ u v : State} {ans : Answers} {t a : ℕ}

theorem next_caller (hf : u.fault = none) : next fail u (.caller a) = sthreadCreate fail a u := by
  simp [next, hf]

theorem next_manager (hf : u.fault = none) :
    next fail u (.manager ans) = managerMain fail ans u := by
  simp [next, hf]

theorem next_child (hf : u.fault = none) : next fail u .child = startThread u := by
  simp [next, hf]

theorem managerMain_idle (hr : u.request = none) : managerMain fail ans u = none := by
  simp [managerMain, hr]

theorem sthreadCreate_accepts (hc : u.caller = .woken t) (hs : u.status = 0) (a : ℕ) :
    sthreadCreate fail a u = some { u with caller := .returned u.status } := by
  simp only [sthreadCreate, hc]
  rw [if_neg (not_not.mpr hs)]

theorem sthreadCreate_discards (hc : u.caller = .woken t) (hs : u.status ≠ 0)
    (ht : t ∈ u.res.blocks) (a : ℕ) :
    sthreadCreate fail a u = some { u with
      res := { u.res with blocks := u.res.blocks.erase t }, caller := .returned u.status } := by
  simp only [sthreadCreate, hc]
  rw [if_pos hs, State.free, if_pos ht]
  rfl

theorem Replied.start (hu : Replied fail s₀ t u) (h : startThread u = some v) :
    Replied fail s₀ t v ∧ v.caller = u.caller ∧ v.token = u.token := by
  by_cases hf : fail = none
  · obtain ⟨hstatus, hcr, hss⟩ := hu.created hf
    obtain ⟨ss, hc, rfl⟩ := startThread_eq h hss
    refine ⟨⟨hu.request, hu.fault, fun _ => ⟨hstatus, hcr, ?_⟩, fun hn => absurd hf hn⟩, rfl, rfl⟩
    intro ss' hss'
    cases hss'
  · have hc := (hu.refused hf).2.1
    simp [startThread, hc] at h

theorem Returned.start (hu : Returned fail s₀ u) (h : startThread u = some v) :
    Returned fail s₀ v := by
  obtain ⟨ss, hc, rfl⟩ := startThread_eq h fun ss hss => (hu.child ss hss).2
  have hf := (hu.child ss hc).1
  obtain ⟨ret, hret, hout⟩ := hu.outcome
  refine ⟨hu.request, hu.fault, fun ss' hss' => ?_, ret, hret, ?_⟩
  · cases hss'
  · rw [Outcome, if_pos hf] at hout ⊢
    exact hout

theorem managerMain_fresh (h : managerMain fail ans u = some v) : ans.Fresh u.res := by
  unfold managerMain at h
  split at h
  · cases h
  · split_ifs at h with hfresh
    exact hfresh

theorem managerMain_served {s : State} (hr : u.request = some t) (hans : ans.Fresh u.res)
    (hs : doCreate fail ans t { u with request := none } = .ok s) :
    managerMain fail ans u = some { s with token := s.token + 1 } := by
  simp only [managerMain, hr, if_pos hans, hs]
  rfl

theorem managerMain_replied (h₀ : Begins s₀) (hg : Harmless fail s₀) (ht : t ∉ s₀.res.blocks)
    (hf : fail ≠ some .newthr) (h : managerMain fail ans (s₀.requested t) = some v) :
    Replied fail s₀ t v ∧ v.caller = .suspended t ∧ v.token = 1 := by
  obtain ⟨htoken, hfail⟩ := hg.resolve_left hf
  have hfresh := managerMain_fresh h
  have hl : (s₀.requested t).listLock = false := h₀.listLock
  have htoken' : (s₀.requested t).token + 1 = 1 := congrArg (· + 1) htoken
  rcases hfail with rfl | rfl
  · obtain ⟨hstack, hfst, hsnd, hpipe, -, hpid⟩ := hfresh
    have hcreate := doCreate_none (s := { s₀.requested t with request := none }) hl
      (s₀.malloc_blocks t) hpid
    rw [managerMain_served rfl (managerMain_fresh h) hcreate, Option.some_inj] at h
    subst h
    refine ⟨⟨rfl, h₀.fault, fun _ => ⟨rfl, ?_, ?_⟩, fun hn => absurd rfl hn⟩, rfl, htoken'⟩
    · exact ⟨t, ans.stack, ans.pipe, rfl, hstack, rfl, hfst, hsnd, hpipe, rfl⟩
    · intro ss hss
      obtain rfl := Option.some_inj.mp hss
      exact Finset.mem_insert_self ..
  · have hcreate := doCreate_mmap (s := { s₀.requested t with request := none }) hl
      (s₀.malloc_blocks t) ans
    rw [managerMain_served rfl hfresh hcreate, Option.some_inj] at h
    subst h
    exact ⟨⟨rfl, h₀.fault, (fun hn => by cases hn), fun _ => ⟨rfl, h₀.child, ht, rfl⟩⟩, rfl,
      htoken'⟩

theorem Replied.wake (hu : Replied fail s₀ t u) (hc : u.caller = .woken t)
    (h : sthreadCreate fail a u = some v) : Returned fail s₀ v := by
  by_cases hf : fail = none
  · obtain ⟨hstatus, hcr, hss⟩ := hu.created hf
    rw [sthreadCreate_accepts hc hstatus, Option.some_inj] at h
    subst h
    refine ⟨hu.request, hu.fault, fun ss hs => ⟨hf, hss ss hs⟩, _, rfl, ?_⟩
    rw [Outcome, if_pos hf]
    exact ⟨hstatus, hcr⟩
  · obtain ⟨hstatus, hchild, ht, hres⟩ := hu.refused hf
    have hne : u.status ≠ 0 := by rw [hstatus]; decide
    have hmem : t ∈ u.res.blocks := by rw [hres]; exact s₀.malloc_blocks t
    rw [sthreadCreate_discards hc hne hmem, Option.some_inj] at h
    subst h
    refine ⟨hu.request, hu.fault, fun ss hs => absurd (hchild.symm.trans hs) (by simp), _, rfl, ?_⟩
    rw [Outcome, if_neg hf]
    exact ⟨hstatus, by rw [hres]; exact s₀.malloc_erase ht⟩

theorem Phase.fault (h : Phase fail s₀ u) (h₀ : Begins s₀) : u.fault = none := by
  cases h with
  | begun | allocated | requested => exact h₀.fault
  | replied t u hu => exact hu.fault
  | woken t u hu => exact hu.fault
  | returned u hu => exact hu.fault

theorem Phase.caller (h : Phase fail s₀ u) (h₀ : Begins s₀) (hg : Harmless fail s₀)
    (hn : sthreadCreate fail a u = some v) : Phase fail s₀ v := by
  cases h with
  | begun =>
    simp only [sthreadCreate, h₀.caller] at hn
    split_ifs at hn with hf ha
    · obtain rfl := Option.some_inj.mp hn
      refine .returned _ ⟨h₀.request, h₀.fault, fun ss hs => ?_, -1, rfl, ?_⟩
      · exact absurd (h₀.child.symm.trans hs) (by simp)
      · rw [Outcome, if_neg (by rw [hf]; simp)]
        exact ⟨rfl, rfl⟩
    · obtain rfl := Option.some_inj.mp hn
      exact .allocated a ha hf
  | allocated t ht hf =>
    obtain rfl := Option.some_inj.mp hn
    exact .requested t ht hf
  | requested t ht hf =>
    have htoken : (s₀.requested t).token = 0 := (hg.resolve_left hf).1
    simp only [sthreadCreate, State.requested_caller, htoken] at hn
    cases hn
  | replied t u hu hc htoken =>
    simp only [sthreadCreate, hc, htoken] at hn
    obtain rfl := Option.some_inj.mp hn
    exact .woken t _ ⟨hu.request, hu.fault, hu.created, hu.refused⟩ rfl rfl
  | woken t u hu hc => exact .returned v (hu.wake hc hn)
  | returned u hu =>
    obtain ⟨ret, hret, -⟩ := hu.outcome
    simp only [sthreadCreate, hret] at hn
    cases hn

theorem Phase.manager (h : Phase fail s₀ u) (h₀ : Begins s₀) (hg : Harmless fail s₀)
    (hn : managerMain fail ans u = some v) : Phase fail s₀ v := by
  have hidle : u.request = none → Phase fail s₀ v := by
    intro hr
    rw [managerMain_idle hr] at hn
    cases hn
  cases h with
  | begun => exact hidle h₀.request
  | allocated t => exact hidle h₀.request
  | requested t ht hf =>
    obtain ⟨hv, hc, htoken⟩ := managerMain_replied h₀ hg ht hf hn
    exact .replied t v hv hc htoken
  | replied t u hu => exact hidle hu.request
  | woken t u hu => exact hidle hu.request
  | returned u hu => exact hidle hu.request

theorem Phase.child (h : Phase fail s₀ u) (h₀ : Begins s₀) (hn : startThread u = some v) :
    Phase fail s₀ v := by
  cases h with
  | begun => simp [startThread, h₀.child] at hn
  | allocated t => simp [startThread, State.malloc, h₀.child] at hn
  | requested t => simp [startThread, State.requested, State.malloc, h₀.child] at hn
  | replied t u hu hc ht =>
    obtain ⟨hv, hcv, htv⟩ := hu.start hn
    exact .replied t v hv (hcv.trans hc) (htv.trans ht)
  | woken t u hu hc ht =>
    obtain ⟨hv, hcv, htv⟩ := hu.start hn
    exact .woken t v hv (hcv.trans hc) (htv.trans ht)
  | returned u hu => exact .returned v (hu.start hn)

theorem Phase.step (h : Phase fail s₀ u) (h₀ : Begins s₀) (hg : Harmless fail s₀) {act : Act}
    (hn : next fail u act = some v) : Phase fail s₀ v := by
  have hf := h.fault h₀
  cases act with
  | caller a => exact h.caller h₀ hg (next_caller hf ▸ hn)
  | manager ans => exact h.manager h₀ hg (next_manager hf ▸ hn)
  | child => exact h.child h₀ (next_child hf ▸ hn)

theorem exists_fresh (r : Resources) : ∃ ans : Answers, ans.Fresh r := by
  obtain ⟨stack, hstack⟩ := Infinite.exists_notMem_finset r.regions
  obtain ⟨x, hx⟩ := Infinite.exists_notMem_finset r.fds
  obtain ⟨y, hy⟩ := Infinite.exists_notMem_finset (insert x r.fds)
  obtain ⟨ss, hss⟩ := Infinite.exists_notMem_finset r.blocks
  rw [Finset.mem_insert, not_or] at hy
  exact ⟨⟨stack, (x, y), ss, 1⟩, hstack, hx, hy.2, Ne.symm hy.1, hss, Int.one_pos⟩

def remaining (u : State) : ℕ :=
  match u.caller with
  | .malloc => 5
  | .send _ => 4
  | .suspended _ => if u.token = 0 then 3 else 2
  | .woken _ => 1
  | .returned _ => 0

theorem Phase.progress (h : Phase fail s₀ u) (h₀ : Begins s₀) (hg : Harmless fail s₀)
    (hd : ¬ ∃ ret, u.caller = .returned ret) :
    ∃ act v, next fail u act = some v ∧ Phase fail s₀ v ∧ remaining v < remaining u := by
  have hfault := h.fault h₀
  have hstep (act : Act) (v : State) (hn : next fail u act = some v)
      (hlt : remaining v < remaining u) :
      ∃ act v, next fail u act = some v ∧ Phase fail s₀ v ∧ remaining v < remaining u :=
    ⟨act, v, hn, h.step h₀ hg hn, hlt⟩
  cases h with
  | begun =>
    by_cases hf : fail = some .newthr
    · refine hstep (.caller 0) { s₀ with caller := .returned (-1) } ?_ ?_
      · simp only [next_caller hfault, sthreadCreate, h₀.caller, if_pos hf]
      · simp [remaining, h₀.caller]
    · obtain ⟨a, ha⟩ := Infinite.exists_notMem_finset s₀.res.blocks
      refine hstep (.caller a) { s₀.malloc a with caller := .send a } ?_ ?_
      · simp only [next_caller hfault, sthreadCreate, h₀.caller, if_neg hf, if_neg ha]
      · simp [remaining, h₀.caller]
  | allocated t ht hf =>
    refine hstep (.caller 0) _ (next_caller hfault) ?_
    simp only [remaining]
    split_ifs <;> omega
  | requested t ht hf =>
    obtain ⟨ans, hans⟩ := exists_fresh (s₀.malloc t).res
    obtain ⟨v, hv⟩ : ∃ v, managerMain fail ans (s₀.requested t) = some v :=
      ⟨_, if_pos hans⟩
    obtain ⟨-, hc, htoken⟩ := managerMain_replied h₀ hg ht hf hv
    refine hstep (.manager ans) v ((next_manager hfault).trans hv) ?_
    have htoken' : (s₀.requested t).token = 0 := (hg.resolve_left hf).1
    simp [remaining, hc, htoken, htoken']
  | replied t u hu hc ht =>
    refine hstep (.caller 0) { u with token := 0, caller := .woken t } ?_ ?_
    · simp only [next_caller hfault, sthreadCreate, hc, ht]
    · simp [remaining, hc, ht]
  | woken t u hu hc ht =>
    obtain ⟨v, hv⟩ : ∃ v, sthreadCreate fail 0 u = some v := by simp [sthreadCreate, hc]
    obtain ⟨ret, hret, -⟩ := (hu.wake hc hv).outcome
    refine hstep (.caller 0) v ((next_caller hfault).trans hv) ?_
    simp [remaining, hc, hret]
  | returned u hu =>
    obtain ⟨ret, hret, -⟩ := hu.outcome
    exact absurd ⟨ret, hret⟩ hd

end Steps

theorem leavesNothing_of_harmless {fail : Option Syscall} {s₀ : State} (h₀ : Begins s₀)
    (hg : Harmless fail s₀) : LeavesNothing fail s₀ := by
  intro as u hu
  have hp : Phase fail s₀ u :=
    exec_invariant (P := Phase fail s₀) (fun _ _ _ h hn => h.step h₀ hg hn) .begun hu
  refine ⟨hp.fault h₀, fun ret hret => ?_, ?_⟩
  · cases hp with
    | begun => rw [h₀.caller] at hret; cases hret
    | allocated | requested => cases hret
    | replied t u hr hc => rw [hc] at hret; cases hret
    | woken t u hr hc => rw [hc] at hret; cases hret
    | returned u hr =>
      obtain ⟨ret', hret', hout⟩ := hr.outcome
      rw [hret'] at hret
      cases hret
      exact hout
  · obtain ⟨bs, v, hv, ret, hret⟩ := exists_exec_of_measure (P := Phase fail s₀)
      (D := fun u => ∃ ret, u.caller = .returned ret) remaining
      (fun _ h hd => h.progress h₀ hg hd) hp
    exact ⟨bs, v, ret, hv, hret⟩

end AndroidKernel.Sthread.Creation
