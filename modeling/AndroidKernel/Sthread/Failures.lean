import AndroidKernel.Sthread.CreatePhases

/-! The other calls: a fault in the manager, and a caller that goes on before its request is served.
-/

namespace AndroidKernel.Sthread.Creation
open Lts

section Failures
variable {fail : Option Syscall} {s₀ u : State} {ans : Answers} {a : ℕ}

theorem exec_requested (h₀ : Begins s₀) (hf : fail ≠ some .newthr) (ha : a ∉ s₀.res.blocks) :
    exec (next fail) [.caller a, .caller 0] s₀ = some (s₀.requested a) := by
  have h₁ : next fail s₀ (.caller a) = some { s₀.malloc a with caller := .send a } := by
    simp only [next_caller h₀.fault, sthreadCreate, h₀.caller, if_neg hf, if_neg ha]
  exact exec_cons_eq_some.mpr ⟨_, h₁, exec_cons_eq_some.mpr ⟨_, next_caller h₀.fault, rfl⟩⟩

theorem next_manager_fault {e : Fault} (hfault : u.fault = none) (hr : u.request = some a)
    (hans : ans.Fresh u.res) (he : doCreate fail ans a { u with request := none } = .error e) :
    next fail u (.manager ans) = some { u with fault := some e } := by
  have hm : managerMain fail ans u = some (u.settle (.error e)) := by
    simp only [managerMain, hr, if_pos hans, he]
    rfl
  exact (next_manager hfault).trans hm

theorem LeavesNothing.doCreate_ne {e : Fault} (h : LeavesNothing fail s₀) (h₀ : Begins s₀)
    (hf : fail ≠ some .newthr)
    (he : ∀ ans t s, s.listLock = false → t ∈ s.res.blocks → doCreate fail ans t s = .error e) :
    False := by
  obtain ⟨a, ha⟩ := Infinite.exists_notMem_finset s₀.res.blocks
  obtain ⟨ans, hans⟩ := exists_fresh (s₀.malloc a).res
  have hn : next fail (s₀.requested a) (.manager ans) =
      some { s₀.requested a with fault := some e } :=
    next_manager_fault h₀.fault rfl hans (he ans a _ h₀.listLock (s₀.malloc_blocks a))
  have hfault := (h _ _ (exec_snoc (exec_requested h₀ hf ha) hn)).1
  cases hfault

def State.overtaken (s₀ : State) (a n : ℕ) : State :=
  { s₀.requested a with token := n, caller := .woken a }

theorem exec_overtaken {n : ℕ} (h₀ : Begins s₀) (hf : fail ≠ some .newthr)
    (ha : a ∉ s₀.res.blocks) (hn : s₀.token = n + 1) :
    exec (next fail) [.caller a, .caller 0, .caller 0] s₀ = some (s₀.overtaken a n) := by
  refine exec_snoc (exec_requested h₀ hf ha) ?_
  have htok : (s₀.requested a).token = n + 1 := hn
  have hfault : (s₀.requested a).fault = none := h₀.fault
  rw [next_caller hfault]
  simp only [sthreadCreate, State.requested_caller, htok, State.overtaken]

theorem LeavesNothing.status_ne {n : ℕ} (h : LeavesNothing fail s₀) (h₀ : Begins s₀)
    (hf : fail ≠ some .newthr) (ha : a ∉ s₀.res.blocks) (hn : s₀.token = n + 1) :
    s₀.status ≠ 0 := by
  intro hstatus
  set w := s₀.overtaken a n with hw
  have hret : next fail w (.caller 0) = some { w with caller := .returned w.status } :=
    (next_caller (u := w) h₀.fault).trans (sthreadCreate_accepts (u := w) rfl hstatus 0)
  obtain ⟨-, hout, -⟩ := h _ _ (exec_snoc (exec_overtaken h₀ hf ha hn) hret)
  have hout := hout _ rfl
  unfold Outcome at hout
  split_ifs at hout
  · obtain ⟨-, t, stack, p, hlist, -⟩ := hout
    have hlen := congrArg List.length hlist
    simp [hw, State.overtaken, State.requested, State.malloc] at hlen
  · have hneg : s₀.status = -1 := hout.1
    rw [hstatus] at hneg
    exact absurd hneg (by decide)

theorem LeavesNothing.status_eq {n : ℕ} (h : LeavesNothing fail s₀) (h₀ : Begins s₀)
    (hf : fail ≠ some .newthr) (ha : a ∉ s₀.res.blocks) (hn : s₀.token = n + 1) :
    s₀.status = 0 := by
  by_contra hstatus
  obtain ⟨ans, hans⟩ := exists_fresh s₀.res
  set w := s₀.overtaken a n
  set d : State := { w with
    res := { w.res with blocks := w.res.blocks.erase a }, caller := .returned w.status }
  have hret : next fail w (.caller 0) = some d :=
    (next_caller (u := w) h₀.fault).trans
      (sthreadCreate_discards (u := w) rfl hstatus (s₀.malloc_blocks a) 0)
  have hres : d.res = s₀.res := s₀.malloc_erase ha
  have hdangling : doCreate fail ans a { d with request := none } = .error .dangling := by
    have hout : a ∉ d.res.blocks := by rw [hres]; exact ha
    simp only [doCreate, if_pos hout]
  have hserve := next_manager_fault (u := d) h₀.fault rfl (hres ▸ hans) hdangling
  have hfault := (h _ _ (exec_snoc (exec_snoc (exec_overtaken h₀ hf ha hn) hret) hserve)).1
  cases hfault

/-- With a leftover token the caller does not wait for its reply and goes by the status of an
earlier call, whatever that is. -/
theorem LeavesNothing.token_eq (h : LeavesNothing fail s₀) (h₀ : Begins s₀)
    (hf : fail ≠ some .newthr) : s₀.token = 0 := by
  by_contra htoken
  obtain ⟨n, hn⟩ := Nat.exists_eq_succ_of_ne_zero htoken
  obtain ⟨a, ha⟩ := Infinite.exists_notMem_finset s₀.res.blocks
  exact h.status_ne h₀ hf ha hn (h.status_eq h₀ hf ha hn)

end Failures

/-- A call of `sthread_create` leaves nothing behind exactly if its own `malloc` fails, or if there
is no leftover token in the caller's pipe and nothing fails in `do_create` but `mmap`. -/
theorem leaves_nothing_iff (fail : Option Syscall) (s₀ : State) (h₀ : Begins s₀) :
    LeavesNothing fail s₀ ↔
      fail = some .newthr ∨ s₀.token = 0 ∧ (fail = none ∨ fail = some .mmap) := by
  refine ⟨fun h => ?_, leavesNothing_of_harmless h₀⟩
  by_cases hf : fail = some .newthr
  · exact Or.inl hf
  · refine Or.inr ⟨h.token_eq h₀ hf, ?_⟩
    cases fail with
    | none => exact Or.inl rfl
    | some call =>
      cases call with
      | newthr => exact absurd rfl hf
      | mmap => exact Or.inr rfl
      | pipe => exact (h.doCreate_ne h₀ hf fun _ _ _ => doCreate_pipe).elim
      | malloc => exact (h.doCreate_ne h₀ hf fun _ _ _ => doCreate_malloc).elim
      | clone => exact (h.doCreate_ne h₀ hf fun _ _ _ => doCreate_clone).elim

def busy : State where
  res := ⟨{10, 11}, {20, 21, 22}, {0, 1, 2, 3, 4}, [.worker 11, .worker 10, .manager, .main]⟩
  pid := fun t => if t = .worker 10 then 5 else if t = .worker 11 then 6 else 1
  listLock := false
  token := 0
  status := 0
  request := none
  caller := .malloc
  child := none
  fault := none

theorem leaves_nothing_busy : LeavesNothing none busy ∧ LeavesNothing (some .mmap) busy :=
  ⟨(leaves_nothing_iff none busy ⟨rfl, rfl, rfl, rfl, rfl⟩).mpr (Or.inr ⟨rfl, Or.inl rfl⟩),
    (leaves_nothing_iff (some .mmap) busy ⟨rfl, rfl, rfl, rfl, rfl⟩).mpr
      (Or.inr ⟨rfl, Or.inr rfl⟩)⟩

/-- When `pipe` fails, `do_create` frees the mapped stack. -/
theorem pipe_failure_frees_stack :
    ∃ u, exec (next (some .pipe))
        [.caller 12, .caller 0, .manager ⟨23, (5, 6), 13, 7⟩] busy = some u ∧
      u.fault = some .invalidFree ∧ ¬ LeavesNothing (some .pipe) busy := by
  obtain ⟨u, hu, hv⟩ := Option.map_eq_some_iff.mp (show (exec (next (some .pipe))
    [.caller 12, .caller 0, .manager ⟨23, (5, 6), 13, 7⟩] busy).map (fun u => u.fault) =
      some (some .invalidFree) by decide)
  refine ⟨u, hu, hv, fun h => ?_⟩
  have hfault := (h _ u hu).1
  rw [hv] at hfault
  cases hfault

end AndroidKernel.Sthread.Creation
