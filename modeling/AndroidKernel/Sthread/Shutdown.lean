import AndroidKernel.Sthread.ListShape

/-! `MSG_ALL_EXIT` in `manager_main` of `hw3/sthread.c`, which `cleanup` sends from the thread that
calls `exit`. The manager walks the list twice, and in the second walk takes apart what it walks
over. The other threads do not change the list meanwhile. -/

namespace AndroidKernel.Sthread.ThreadList
open LinkedList Lts

/-- How the handling of the message can end short: by following a pointer of a struct that is not
allocated, in the `abort()` of `threadlist_del`, or never. -/
inductive Fault
  | dangling | abort | endless
deriving DecidableEq, Repr

inductive Event
  | wake (t : Thr)
  | kill (t : Thr)
  | waitpid (t : Thr)
  | dealloc (t : Thr)
deriving DecidableEq, Repr

structure Shutdown where
  mem : Mem
  log : List Event
  running : Bool

def Mem.aborts (m : Mem) (t : Thr) : Bool :=
  ((m.heap t).bind fun self => search m.heap self.data m.structs.card none m.listHd).map Prod.snd ==
    some .manager

def Shutdown.dealloc (s : Shutdown) (t : Thr) : Except Fault Shutdown :=
  match threadDealloc s.mem t with
  | some mem => .ok { s with mem := mem, log := s.log ++ [.dealloc t] }
  | none => .error (if s.mem.aborts t then .abort else .dangling)

def killAll (sender : Thr) : ℕ → Option Thr → Shutdown → Except Fault Shutdown
  | _, none, s => .ok s
  | 0, some _, _ => .error .endless
  | n + 1, some p, s =>
    match s.mem.heap p with
    | none => .error .dangling
    | some node => killAll sender n node.next
        (if p ≠ .manager ∧ p ≠ sender then { s with log := s.log ++ [.kill p] } else s)

def Shutdown.collect (s : Shutdown) (sender p : Thr) : Except Fault Shutdown :=
  if p ≠ .manager ∧ p ≠ sender then Shutdown.dealloc { s with log := s.log ++ [.waitpid p] } p
  else .ok s

def collectAll (sender : Thr) : ℕ → Option Thr → Shutdown → Except Fault Shutdown
  | _, none, s => .ok s
  | 0, some _, _ => .error .endless
  | n + 1, some p, s =>
    match s.collect sender p with
    | .error e => .error e
    | .ok s =>
      match s.mem.heap p with
      | none => .error .dangling
      | some node => collectAll sender n node.next s

def msgAllExit (m : Mem) (sender : Thr) : Except Fault Shutdown := do
  let s ← killAll sender m.structs.card m.listHd ⟨m, [.wake sender], true⟩
  let s ← collectAll sender m.structs.card m.listHd s
  .ok { s with running := false }

/-- The handling comes to its end, every thread but the manager and the sender was signalled and
waited for once and, unless it is the main thread, deallocated once, and the manager stops. -/
def ShutsDown (m : Mem) (workers : List Thr) (sender : Thr) : Prop :=
  ∃ s, msgAllExit m sender = .ok s ∧
    (∀ t ∈ workers ++ [.main], t ≠ sender →
      s.log.count (.kill t) = 1 ∧ s.log.count (.waitpid t) = 1) ∧
    (∀ t ∈ workers, t ≠ sender → s.log.count (.dealloc t) = 1) ∧
    .dealloc .main ∉ s.log ∧ s.running = false

variable {s : State} {d : Shutdown} {sender : Thr} {p q : Option Thr} {xs ys : List (Thr × ℤ)}
  {y : Thr × ℤ} {managerPid mainPid : ℤ} {n : ℕ}

theorem threadDealloc_heap {m m' : Mem} {t : Thr} (h : threadDealloc m t = some m') :
    m'.heap t = none := by
  obtain ⟨m₁, -, h₁⟩ := Option.bind_eq_some_iff.mp h
  obtain rfl := Option.some_inj.mp h₁
  exact Function.update_self ..

theorem killAll_eq (h : Chain d.mem.heap p xs none) (hn : xs.length ≤ n) :
    killAll sender n p d = .ok { d with
      log := d.log ++
        ((xs.map Prod.fst).filter fun t => t ≠ .manager ∧ t ≠ sender).map Event.kill } := by
  induction xs generalizing p d n with
  | nil =>
    obtain rfl : p = none := h
    cases n <;> simp [killAll]
  | cons x xs ih =>
    obtain ⟨rfl, r, hr, ht⟩ := h
    obtain ⟨n, rfl⟩ : ∃ k, n = k + 1 := ⟨n - 1, by rw [List.length_cons] at hn; omega⟩
    have hlen : xs.length ≤ n := Nat.le_of_succ_le_succ hn
    simp only [killAll, hr]
    by_cases hx : x.1 ≠ .manager ∧ x.1 ≠ sender
    · rw [if_pos hx, ih (d := { d with log := d.log ++ [.kill x.1] }) ht hlen]
      simp [hx]
    · rw [if_neg hx, ih ht hlen]
      simp only [List.map_cons, List.filter_cons, hx, decide_false, Bool.false_eq_true, if_false]

/-- A struct that the second walk is to deallocate is its last: the walk aborts in the call, or
reads `p->next` of the struct that the call has freed. -/
theorem collectAll_fault (h : Chain d.mem.heap p (xs ++ y :: ys) q)
    (hx : ∀ x ∈ xs, ¬ (x.1 ≠ .manager ∧ x.1 ≠ sender)) (hy : y.1 ≠ .manager ∧ y.1 ≠ sender) :
    ∃ e, collectAll sender n p d = .error e := by
  induction xs generalizing p n with
  | nil =>
    obtain ⟨rfl, r, hr, -⟩ := h
    cases n with
    | zero => exact ⟨_, rfl⟩
    | succ n =>
      simp only [collectAll, Shutdown.collect, if_pos hy, Shutdown.dealloc]
      cases hd : threadDealloc d.mem y.1 with
      | none => exact ⟨_, rfl⟩
      | some m => exact ⟨.dangling, by simp only [threadDealloc_heap hd]⟩
  | cons x xs ih =>
    obtain ⟨rfl, r, hr, ht⟩ := h
    cases n with
    | zero => exact ⟨_, rfl⟩
    | succ n =>
      have hskip := hx x (List.mem_cons_self ..)
      simp only [collectAll, Shutdown.collect, if_neg hskip, hr]
      exact ih ht fun z hz => hx z (List.mem_cons_of_mem _ hz)

theorem collectAll_eq (h : Chain d.mem.heap p xs none)
    (hx : ∀ x ∈ xs, ¬ (x.1 ≠ .manager ∧ x.1 ≠ sender)) (hn : xs.length ≤ n) :
    collectAll sender n p d = .ok d := by
  induction xs generalizing p n with
  | nil =>
    obtain rfl : p = none := h
    cases n <;> rfl
  | cons x xs ih =>
    obtain ⟨rfl, r, hr, ht⟩ := h
    obtain ⟨n, rfl⟩ : ∃ k, n = k + 1 := ⟨n - 1, by rw [List.length_cons] at hn; omega⟩
    have hskip := hx x (List.mem_cons_self ..)
    simp only [collectAll, Shutdown.collect, if_neg hskip, hr]
    exact ih ht (fun z hz => hx z (List.mem_cons_of_mem _ hz)) (Nat.le_of_succ_le_succ hn)

theorem msgAllExit_eq_map {m : Mem}
    (h : killAll sender m.structs.card m.listHd ⟨m, [.wake sender], true⟩ = .ok d) :
    msgAllExit m sender = (collectAll sender m.structs.card m.listHd d).map
      fun s => { s with running := false } := by
  rw [msgAllExit, h]
  change (collectAll sender m.structs.card m.listHd d >>= _) = _
  cases collectAll sender m.structs.card m.listHd d <;> rfl

def Others (s : State) (managerPid mainPid : ℤ) (sender : Thr) : Prop :=
  ∃ y ∈ s.children ++ [(.manager, managerPid), (.main, mainPid)], y.1 ≠ .manager ∧ y.1 ≠ sender

theorem Shape.killAll (h : Shape managerPid mainPid s) (sender : Thr) :
    ∃ log, killAll sender s.mem.structs.card s.mem.listHd ⟨s.mem, [.wake sender], true⟩ =
      .ok ⟨s.mem, .wake sender :: log, true⟩ ∧
      (¬ Others s managerPid mainPid sender → log = []) := by
  have hlen : (s.children ++ [(Thr.manager, managerPid), (Thr.main, mainPid)]).length ≤
      s.mem.structs.card := by simpa using h.length_le
  refine ⟨_, killAll_eq (d := ⟨s.mem, [.wake sender], true⟩) h.chain hlen, fun ho => ?_⟩
  change List.map _ _ = []
  rw [List.map_eq_nil_iff, List.filter_eq_nil_iff]
  intro t ht hkill
  obtain ⟨y, hy, rfl⟩ := List.mem_map.mp ht
  exact ho ⟨y, hy, of_decide_eq_true hkill⟩

theorem Shape.msgAllExit_fault (h : Shape managerPid mainPid s)
    (ho : Others s managerPid mainPid sender) : ∃ e, msgAllExit s.mem sender = .error e := by
  obtain ⟨y, hy, hout⟩ := ho
  obtain ⟨log, hlog, -⟩ := h.killAll sender
  -- the first struct that is not passed over
  have hsome : ((s.children ++ [(Thr.manager, managerPid), (Thr.main, mainPid)]).find?
      fun y => y.1 ≠ .manager ∧ y.1 ≠ sender).isSome := by
    rw [List.find?_isSome]
    exact ⟨y, hy, decide_eq_true hout⟩
  obtain ⟨z, hz⟩ := Option.isSome_iff_exists.mp hsome
  obtain ⟨hzout, xs, ys, hsplit, hxs⟩ := List.find?_eq_some_iff_append.mp hz
  have hchain := h.chain
  rw [hsplit] at hchain
  have hskip : ∀ x ∈ xs, ¬ (x.1 ≠ .manager ∧ x.1 ≠ sender) := by
    intro x hx
    exact of_decide_eq_false (Bool.not_eq_true' _ ▸ hxs x hx)
  obtain ⟨e, he⟩ := collectAll_fault (d := ⟨s.mem, .wake sender :: log, true⟩)
    (n := s.mem.structs.card) hchain hskip (of_decide_eq_true hzout)
  refine ⟨e, ?_⟩
  rw [msgAllExit_eq_map hlog, he]
  rfl

theorem Shape.msgAllExit_eq (h : Shape managerPid mainPid s)
    (ho : ¬ Others s managerPid mainPid sender) :
    msgAllExit s.mem sender = .ok ⟨s.mem, [.wake sender], false⟩ := by
  obtain ⟨log, hlog, hnil⟩ := h.killAll sender
  obtain rfl := hnil ho
  have hc : collectAll sender s.mem.structs.card s.mem.listHd ⟨s.mem, [.wake sender], true⟩ =
      .ok ⟨s.mem, [.wake sender], true⟩ :=
    collectAll_eq (d := ⟨s.mem, [.wake sender], true⟩) h.chain
      (fun x hx hout => ho ⟨x, hx, hout⟩) (by simpa using h.length_le)
  rw [msgAllExit_eq_map hlog, hc]
  rfl

theorem Shape.others_iff (h : Shape managerPid mainPid s)
    (hs : sender = .main ∨ sender ∈ s.children.map Prod.fst) :
    Others s managerPid mainPid sender ↔ s.children ≠ [] := by
  constructor
  · rintro ⟨y, hy, hman, hsend⟩ hnil
    rw [hnil] at hy hs
    have hmain : sender = .main := hs.resolve_right (by simp)
    simp only [List.nil_append, List.mem_cons, List.not_mem_nil, or_false] at hy
    rcases hy with rfl | rfl
    · exact hman rfl
    · exact hsend hmain.symm
  · intro hne
    rcases hs with rfl | hs
    · obtain ⟨x, xs, hc⟩ := List.exists_cons_of_ne_nil hne
      have hx : x ∈ s.children := by simp [hc]
      obtain ⟨hmain, hman⟩ := h.workers x.1 (List.mem_map_of_mem hx)
      exact ⟨x, List.mem_append_left _ hx, hman, hmain⟩
    · exact ⟨(.main, mainPid), by simp, by simp, (h.workers sender hs).1.symm⟩

/-- Whatever the list, the shutdown does its work exactly if no worker is there, in which case the
sender is the main thread and there is nothing to do. -/
theorem shuts_down_iff (managerPid mainPid : ℤ) (s : State) (h : Shape managerPid mainPid s)
    (sender : Thr) (hs : sender = .main ∨ sender ∈ s.children.map Prod.fst) :
    ShutsDown s.mem (s.children.map Prod.fst) sender ↔ s.children = [] := by
  constructor
  · rintro ⟨d, hd, -⟩
    by_contra hne
    obtain ⟨e, he⟩ := h.msgAllExit_fault ((h.others_iff hs).mpr hne)
    rw [he] at hd
    cases hd
  · intro hnil
    have ho : ¬ Others s managerPid mainPid sender := fun ho => (h.others_iff hs).mp ho hnil
    rw [hnil] at hs ⊢
    have hmain : sender = .main := hs.resolve_right (by simp)
    refine ⟨_, h.msgAllExit_eq ho, ?_, ?_, by simp, rfl⟩
    · intro t ht hne
      have ht' : t = .main := by simpa using ht
      exact absurd (ht'.trans hmain.symm) hne
    · intro t ht
      cases ht

/-- The main thread alone. -/
theorem shuts_down_alone : ShutsDown (start 2 1).mem [] .main :=
  (shuts_down_iff 2 1 (start 2 1) (start_shape 2 1) .main (Or.inl rfl)).mpr rfl

/-- One worker: at the exit of the main thread the manager reads `next` of the struct it has freed,
and at an `exit` of the worker it aborts in `thread_dealloc(&main_thread)`. -/
theorem shutdown_faults : ∃ s,
    exec next [.malloc (.worker 0) ⟨0, none⟩, .create (.worker 0) (.clone 10)] (start 2 1) = some s ∧
      s.mem.list = some [.worker 0, .manager, .main] ∧
      (msgAllExit s.mem .main).map (fun d => d.log) = .error .dangling ∧
      (msgAllExit s.mem (.worker 0)).map (fun d => d.log) = .error .abort ∧
      ¬ ShutsDown s.mem [.worker 0] .main ∧ ¬ ShutsDown s.mem [.worker 0] (.worker 0) := by
  obtain ⟨s, hs, hv⟩ := Option.map_eq_some_iff.mp (show (exec next
    [.malloc (.worker 0) ⟨0, none⟩, .create (.worker 0) (.clone 10)] (start 2 1)).map
      (fun s => (s.mem.list, (msgAllExit s.mem .main).map (fun d => d.log),
        (msgAllExit s.mem (.worker 0)).map (fun d => d.log))) =
    some (some [.worker 0, .manager, .main], .error .dangling, .error .abort) by decide)
  simp only [Prod.mk.injEq] at hv
  obtain ⟨hlist, hdangling, habort⟩ := hv
  refine ⟨s, hs, hlist, hdangling, habort, ?_, ?_⟩
  · rintro ⟨d, hd, -⟩
    rw [hd] at hdangling
    cases hdangling
  · rintro ⟨d, hd, -⟩
    rw [hd] at habort
    cases habort

end AndroidKernel.Sthread.ThreadList
