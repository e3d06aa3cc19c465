import AndroidKernel.Sthread.Creation

/-! What each way through `do_create` does, and that `thread_dealloc` gives back what it acquired.
-/

namespace AndroidKernel.Sthread.Creation
open Lts
variable {s u v : State} {ans : Answers} {t : ℕ}

theorem errnoLocation_eq (hl : s.listLock = false) : errnoLocation s = .ok s := by
  obtain ⟨res, pid, lock, token, status, request, caller, child, fault⟩ := s
  obtain rfl : lock = false := hl
  rfl

theorem threadlistAdd_eq (hl : s.listLock = false) (t : ℕ) :
    threadlistAdd s t = .ok { s with res := { s.res with list := .worker t :: s.res.list } } := by
  obtain ⟨res, pid, lock, token, status, request, caller, child, fault⟩ := s
  obtain rfl : lock = false := hl
  rfl

theorem cloneThread_eq (hl : s.listLock = false) (ans : Answers) (t : ℕ) :
    cloneThread false ans t s = .ok { s with
      pid := Function.update s.pid (.worker t) ans.pid, child := some ans.ss } := by
  obtain ⟨res, pid, lock, token, status, request, caller, child, fault⟩ := s
  obtain rfl : lock = false := hl
  rfl

theorem cloneThread_fails (hl : s.listLock = false) (ans : Answers) (t : ℕ) :
    cloneThread true ans t s = .error .deadlock := by
  obtain ⟨res, pid, lock, token, status, request, caller, child, fault⟩ := s
  obtain rfl : lock = false := hl
  rfl

theorem doCreate_mmap (hl : s.listLock = false) (ht : t ∈ s.res.blocks) (ans : Answers) :
    doCreate (some .mmap) ans t s = .ok { s with status := -1 } := by
  have he := errnoLocation_eq (s := { s with status := 0 }) hl
  simp only [doCreate, ht, not_true_eq_false, if_false, if_true, he]
  rfl

theorem doCreate_pipe (hl : s.listLock = false) (ht : t ∈ s.res.blocks) :
    doCreate (some .pipe) ans t s = .error .invalidFree := by
  have he := errnoLocation_eq (s := { s with status := 0 }.mmap ans.stack) hl
  simp only [doCreate, ht, not_true_eq_false, if_false, Option.some.injEq, reduceCtorEq, if_true]
  rw [he]
  rfl

theorem doCreate_malloc (hl : s.listLock = false) (ht : t ∈ s.res.blocks) :
    doCreate (some .malloc) ans t s = .error .invalidFree := by
  have he := errnoLocation_eq
    (s := ({ s with status := 0 }.mmap ans.stack).openPipe ans.pipe) hl
  simp only [doCreate, ht, not_true_eq_false, if_false, Option.some.injEq, reduceCtorEq, if_true]
  rw [he]
  rfl

def State.linked (s : State) (ans : Answers) (t : ℕ) : State :=
  { s with
    res :=
      { blocks := insert ans.ss s.res.blocks
        regions := insert ans.stack s.res.regions
        fds := insert ans.pipe.1 (insert ans.pipe.2 s.res.fds)
        list := .worker t :: s.res.list }
    status := 0 }

theorem doCreate_linked {fail : Option Syscall} (hl : s.listLock = false) (ht : t ∈ s.res.blocks)
    (hf : fail = none ∨ fail = some .clone) :
    doCreate fail ans t s = (do
      let s ← cloneThread (fail = some .clone) ans t (s.linked ans t)
      if s.pid (.worker t) = -1 then createListdel ans t s else .ok s) := by
  have hne : fail ≠ some .mmap ∧ fail ≠ some .pipe ∧ fail ≠ some .malloc := by
    rcases hf with rfl | rfl <;> decide
  have ha := threadlistAdd_eq
    (s := (({ s with status := 0 }.mmap ans.stack).openPipe ans.pipe).malloc ans.ss) hl t
  simp only [doCreate, ht, not_true_eq_false, if_false, hne]
  rw [ha]
  rfl

theorem doCreate_clone (hl : s.listLock = false) (ht : t ∈ s.res.blocks) :
    doCreate (some .clone) ans t s = .error .deadlock := by
  have hl' : (s.linked ans t).listLock = false := hl
  rw [doCreate_linked hl ht (Or.inr rfl)]
  change cloneThread true ans t (s.linked ans t) >>= _ = _
  rw [cloneThread_fails hl']
  rfl

theorem doCreate_none (hl : s.listLock = false) (ht : t ∈ s.res.blocks) (hp : 0 < ans.pid) :
    doCreate none ans t s = .ok { s.linked ans t with
      pid := Function.update s.pid (.worker t) ans.pid, child := some ans.ss } := by
  have hne : ans.pid ≠ -1 := by omega
  have hl' : (s.linked ans t).listLock = false := hl
  rw [doCreate_linked hl ht (Or.inl rfl)]
  change cloneThread false ans t (s.linked ans t) >>= _ = _
  rw [cloneThread_eq hl']
  change (if Function.update s.pid (.worker t) ans.pid (.worker t) = -1 then _ else _) = _
  rw [Function.update_self, if_neg hne]
  rfl

theorem threadDealloc_newest {s : State} {ans : Answers} {t : ℕ} {list : List Thr}
    (hl : s.listLock = false) (hs : s.res.list = .worker t :: list) (ht : t ∈ s.res.blocks) :
    threadDealloc ans t s = .ok { s with
      res :=
        { blocks := s.res.blocks.erase t
          regions := s.res.regions.erase ans.stack
          fds := (s.res.fds.erase ans.pipe.1).erase ans.pipe.2
          list := list } } := by
  have hdel : Sthread.threadlistDel s.pid (.worker t) s.res.list = some list := by
    rw [hs, Sthread.threadlistDel, if_neg (by simp), if_pos rfl]
  have hlist := threadlistDel_eq hl hdel
  rw [threadDealloc, hlist]
  exact if_pos ht

theorem startThread_eq (h : startThread u = some v)
    (hss : ∀ ss, u.child = some ss → ss ∈ u.res.blocks) :
    ∃ ss, u.child = some ss ∧ v = { u with
      res := { u.res with blocks := u.res.blocks.erase ss }, child := none } := by
  unfold startThread at h
  cases hc : u.child with
  | none => rw [hc] at h; cases h
  | some ss =>
    rw [hc, Option.map_some, Option.some_inj] at h
    refine ⟨ss, rfl, ?_⟩
    rw [← h, State.free, if_pos (hss ss hc)]
    rfl

/-- `thread_dealloc` does pair each resource with its own release: once the new thread has freed its
`start_struct`, it undoes a creation. -/
theorem threadDealloc_doCreate {s s' : State} {ans : Answers} {t : ℕ} (hl : s.listLock = false)
    (ht : t ∉ s.res.blocks) (hans : ans.Fresh (s.malloc t).res)
    (h : doCreate none ans t (s.malloc t) = .ok s') :
    ∃ s₁ s₂, startThread s' = some s₁ ∧ threadDealloc ans t s₁ = .ok s₂ ∧ s₂.res = s.res := by
  obtain ⟨hstack, hfst, hsnd, hpipe, hss, hpid⟩ := hans
  have hcreate := doCreate_none (s := s.malloc t) hl (s.malloc_blocks t) hpid
  rw [hcreate, Except.ok.injEq] at h
  obtain ⟨s₁, hs₁⟩ : ∃ s₁, startThread s' = some s₁ := by
    subst h
    exact ⟨_, rfl⟩
  obtain ⟨ss, hchild, hv⟩ := startThread_eq hs₁ fun ss hss => by
    subst h
    obtain rfl := Option.some_inj.mp hss
    exact Finset.mem_insert_self ..
  subst h
  obtain rfl := Option.some_inj.mp hchild
  have hblocks : s₁.res.blocks = insert t s.res.blocks := by
    rw [hv]
    exact Finset.erase_insert hss
  have hfds : ans.pipe.1 ∉ insert ans.pipe.2 s.res.fds := by
    rw [Finset.mem_insert, not_or]
    exact ⟨hpipe, hfst⟩
  have hmem : t ∈ s₁.res.blocks := by
    rw [hblocks]
    exact Finset.mem_insert_self ..
  have hlist : s₁.res.list = .worker t :: s.res.list := by rw [hv]; rfl
  have hlock : s₁.listLock = false := by rw [hv]; exact hl
  refine ⟨s₁, _, hs₁, threadDealloc_newest hlock hlist hmem, ?_⟩
  have hregions : s₁.res.regions.erase ans.stack = s.res.regions := by
    rw [hv]
    exact Finset.erase_insert hstack
  have hpipes : (s₁.res.fds.erase ans.pipe.1).erase ans.pipe.2 = s.res.fds := by
    rw [hv]
    change ((insert ans.pipe.1 (insert ans.pipe.2 s.res.fds)).erase ans.pipe.1).erase _ = _
    rw [Finset.erase_insert hfds]
    exact Finset.erase_insert hsnd
  simp only [hblocks, hregions, hpipes, Finset.erase_insert ht]

end AndroidKernel.Sthread.Creation
