import AndroidKernel.Sthread.LifeSteps

/-! A struct is always in one pair of hands: those of the `sthread_create` that allocated it, of the
message that announces it, of `do_create`, of the task that runs on it, or of the caller that has
to free it. An exit message is the last one that refers to its sender. -/

namespace AndroidKernel.Sthread.Lifecycle
variable {κ : Type}

def pending (letters : List Letter) : List Thr :=
  letters.filterMap fun l => match l.msg with
    | .create _ t => some t
    | .exit _ => none

def leaving (letters : List Letter) : List Thr :=
  letters.filterMap fun l => match l.msg with
    | .create _ _ => none
    | .exit t => some t

def ManagerPc.unborn : ManagerPc → Option Thr
  | .create .wake _ _ => none
  | .create _ _ t => some t
  | _ => none

def ManagerPc.adding : ManagerPc → Option Thr
  | .create .clone _ t | .create .listdel _ t => some t
  | _ => none

def ManagerPc.ending : ManagerPc → Option Thr
  | .wakeExit t | .wait t => some t
  | _ => none

def ManagerPc.dying : ManagerPc → Option Thr
  | .dealloc t => some t
  | _ => none

def Task.thread : Task κ → Option Thr
  | .none => Option.none
  | .running t _ | .zombie t => some t

def Task.leaving : Task κ → Bool
  | .running _ .exitWait | .zombie _ => true
  | _ => false

def Task.returned : Task κ → Bool
  | .running _ .exitSend | .running _ .exitWait | .zombie _ => true
  | _ => false

def owned (s : Life κ) (unsent live : List Thr) : List Thr :=
  unsent ++ pending s.letters ++ s.manager.unborn.toList ++ live ++ s.refused

/-- Who has which struct, and how often it was deallocated: `unsent` are the structs that a
`sthread_create` has still to announce, `live` those of the workers, newest first. -/
structure Hands (s : Life κ) (unsent live : List Thr) : Prop where
  list : s.list = s.manager.adding.toList ++ live ++ [.manager, .main]
  nodup : (owned s unsent live).Nodup
  allocated : ∀ t ∈ owned s unsent live, t ∈ s.allocated ∧ t ≠ .main ∧ t ≠ .manager
  home : .main ∈ s.allocated
  called : ∀ t, s.deallocs t ≤ 1
  uncalled : ∀ t ∈ owned s unsent live, s.manager.dying ≠ some t → s.deallocs t = 0

structure Tasks (s : Life κ) (unsent live : List Thr) : Prop where
  sends : ∀ p u self n, s.task p = .running u (.send self n) → n ∈ unsent
  once : ∀ p q u v self self' n, s.task p = .running u (.send self n) →
    s.task q = .running v (.send self' n) → p = q
  thread : ∀ p t, (s.task p).thread = some t → (t ∈ live ∨ t = .main) ∧ s.pid t = p ∧ 0 < p
  task : ∀ t ∈ live, s.manager.dying ≠ some t → (s.task (s.pid t)).thread = some t
  dying : ∀ t, s.manager.dying = some t → t ∈ live ∧ (s.task (s.pid t)).thread = none
  manager : s.pid .manager = s.managerPid ∧ (s.task s.managerPid).thread = none
  adding : ∀ t, s.manager.adding = some t → (s.task (s.pid t)).isRunning = false
  self : ∀ p t pc, s.task p = .running t pc → ∀ u ∈ pc.self, u = t
  main : (s.task (s.pid .main)).thread = some .main
  stays : ∀ p, (s.task p).returned = true → (s.task p).thread ≠ some .main

/-- The tasks that have announced their exit are those whose message is in the pipe, and the one
that the manager collects; none of the messages is stale. -/
structure Mail (s : Life κ) : Prop where
  exits : (leaving s.letters ++ s.manager.ending.toList).Nodup
  leavers : ∀ t, t ∈ leaving s.letters ++ s.manager.ending.toList ↔
    ∃ p, (s.task p).thread = some t ∧ (s.task p).leaving = true
  ordered : s.letters.Pairwise fun x y => ∀ t, x.msg = .exit t → t ∉ y.msg.refers
  callers : ∀ x ∈ s.letters, ∀ c t, x.msg = .create c t →
    (∃ p, (s.task p).thread = some c) ∧ s.manager.ending ≠ some c
  fresh : (∀ x ∈ s.letters, x.stale = false) ∧ s.staleHandled = false

structure Alive (s : Life κ) (unsent live : List Thr) : Prop extends
  Hands s unsent live, Tasks s unsent live, Mail s

section Facts
variable {s : Life κ} {unsent live : List Thr} {p q : ℤ} {t u : Thr} {letters : List Letter}

theorem mem_pending : t ∈ pending letters ↔ ∃ x ∈ letters, ∃ c, x.msg = .create c t := by
  simp only [pending, List.mem_filterMap]
  refine exists_congr fun x => and_congr_right fun _ => ?_
  cases x.msg <;> simp

theorem mem_leaving : t ∈ leaving letters ↔ ∃ x ∈ letters, x.msg = .exit t := by
  simp only [leaving, List.mem_filterMap]
  refine exists_congr fun x => and_congr_right fun _ => ?_
  cases x.msg <;> simp

theorem mem_leaving_iff : t ∈ leaving letters ↔ .exit t ∈ letters.map Letter.msg := by
  rw [mem_leaving, List.mem_map]

theorem Task.thread_of_isRunning {x : Task κ} (h : x.isRunning = true) :
    x.thread ≠ Option.none := by
  cases x with
  | running => simp [Task.thread]
  | none | zombie => cases h

theorem Task.returned_of_leaving {x : Task κ} (h : x.leaving = true) : x.returned = true := by
  cases x with
  | none => cases h
  | running u pc => cases pc <;> first | rfl | cases h
  | zombie => rfl

theorem mem_owned : t ∈ owned s unsent live ↔ t ∈ unsent ∨ t ∈ pending s.letters ∨
    s.manager.unborn = some t ∨ t ∈ live ∨ t ∈ s.refused := by
  simp only [owned, List.mem_append, Option.mem_toList]
  tauto

theorem Alive.worker (h : Alive s unsent live) (ht : t ∈ live) : t ≠ .main ∧ t ≠ .manager :=
  (h.allocated t (mem_owned.mpr (by tauto))).2

theorem Alive.unique (h : Alive s unsent live) (hp : (s.task p).thread = some t)
    (hq : (s.task q).thread = some t) : p = q :=
  (h.thread p t hp).2.1.symm.trans (h.thread q t hq).2.1

theorem Alive.allocated_of_thread (h : Alive s unsent live) (hp : (s.task p).thread = some t) :
    t ∈ s.allocated := by
  rcases (h.thread p t hp).1 with hl | rfl
  · exact (h.allocated t (mem_owned.mpr (by tauto))).1
  · exact h.home

theorem Alive.pid_inj (h : Alive s unsent live) (ht : t ∈ live)
    (hp : (s.task (s.pid t)).thread = some u) : t = u := by
  by_cases hd : s.manager.dying = some t
  · have := (h.dying t hd).2
    simp [hp] at this
  · exact Option.some.inj ((h.task t ht hd).symm.trans hp)

theorem Alive.sthreadSelf_eq (h : Alive s unsent live) {pc : Pc κ}
    (hp : s.task p = .running t pc) : s.sthreadSelf p = some t := by
  have hthread : (s.task p).thread = some t := by rw [hp]; rfl
  obtain ⟨hlive, hpid, -⟩ := h.thread p t hthread
  have hmem : t ∈ s.list := by
    rw [h.list]
    rcases hlive with hl | rfl
    · simp [hl]
    · simp
  have honly : ∀ u ∈ s.list, s.pid u = p → u = t := by
    intro u hu hup
    rw [h.list] at hu
    simp only [List.mem_append, Option.mem_toList, List.mem_cons, List.not_mem_nil,
      or_false] at hu
    rcases hu with (hu | hu) | rfl | rfl
    · have := h.adding u hu
      simp [hup, hp, Task.isRunning] at this
    · exact h.pid_inj hu (by rw [hup, hthread])
    · have := h.manager
      rw [hup] at this
      obtain ⟨rfl, hnone⟩ := this
      simp [hthread] at hnone
    · have := h.main
      rw [hup, hthread] at this
      exact (Option.some.inj this).symm
  have hsome : (s.list.find? (s.pid · = p)).isSome :=
    List.find?_isSome.mpr ⟨t, hmem, by simpa using hpid⟩
  obtain ⟨u, hu⟩ := Option.isSome_iff_exists.mp hsome
  have hup : s.pid u = p := by simpa using List.find?_some hu
  obtain rfl := honly u (List.mem_of_find?_eq_some hu) hup
  exact hu

theorem Alive.ending (h : Alive s unsent live) (he : s.manager.ending = some t) :
    t ∈ live ∧ (s.task (s.pid t)).thread = some t ∧ t ∉ leaving s.letters := by
  have hmem : t ∈ leaving s.letters ++ s.manager.ending.toList := by simp [he]
  obtain ⟨p, hp, hl⟩ := (h.leavers t).mp hmem
  obtain ⟨hlive, rfl, -⟩ := h.thread p t hp
  have hmain : t ≠ .main := by
    rintro rfl
    exact h.stays _ (Task.returned_of_leaving hl) hp
  have hn := h.exits
  simp only [he, Option.toList_some, List.nodup_append] at hn
  exact ⟨hlive.resolve_right hmain, hp, fun ht => hn.2.2 t ht t (List.mem_singleton_self t) rfl⟩

theorem Alive.disjoint (h : Alive s unsent live) :
    (∀ u ∈ unsent, u ∉ pending s.letters ∧ u ∉ live ∧ u ∉ s.refused) ∧
      (∀ u ∈ pending s.letters, u ∉ live ∧ u ∉ s.refused) ∧
      (∀ u, s.manager.unborn = some u → u ∉ live ∧ u ∉ s.refused) ∧
      ∀ u ∈ live, u ∉ s.refused := by
  have hn := h.nodup
  simp only [owned, List.nodup_append, List.mem_append, Option.mem_toList] at hn
  obtain ⟨⟨⟨⟨-, -, h₁⟩, -, h₂⟩, -, h₃⟩, -, h₄⟩ := hn
  refine ⟨fun u hu => ⟨fun hx => ?_, fun hx => ?_, fun hx => ?_⟩, fun u hu => ⟨fun hx => ?_,
    fun hx => ?_⟩, fun u hu => ⟨fun hx => ?_, fun hx => ?_⟩, fun u hu hx => ?_⟩
  · exact h₁ u hu u hx rfl
  · exact h₃ u (Or.inl (Or.inl hu)) u hx rfl
  · exact h₄ u (Or.inl (Or.inl (Or.inl hu))) u hx rfl
  · exact h₃ u (Or.inl (Or.inr hu)) u hx rfl
  · exact h₄ u (Or.inl (Or.inl (Or.inr hu))) u hx rfl
  · exact h₃ u (Or.inr hu) u hx rfl
  · exact h₄ u (Or.inl (Or.inr hu)) u hx rfl
  · exact h₄ u (Or.inr hu) u hx rfl

theorem Alive.referred (h : Alive s unsent live) {x : Letter} (hx : x ∈ s.letters)
    (hu : u ∈ x.msg.refers) : u ∈ pending s.letters ∨ ∃ p, (s.task p).thread = some u := by
  cases hmsg : x.msg with
  | create c t =>
    rw [hmsg] at hu
    have hu' : u = c ∨ u = t := by simpa [Msg.refers] using hu
    rcases hu' with rfl | rfl
    · exact Or.inr (h.callers x hx u t hmsg).1
    · exact Or.inl (mem_pending.mpr ⟨x, hx, c, hmsg⟩)
  | exit t =>
    rw [hmsg] at hu
    obtain rfl : u = t := by simpa [Msg.refers] using hu
    obtain ⟨p, hp, -⟩ := (h.leavers u).mp
      (List.mem_append_left _ (mem_leaving.mpr ⟨x, hx, hmsg⟩))
    exact Or.inr ⟨p, hp⟩

theorem Alive.not_leaving (h : Alive s unsent live) (hp : (s.task p).thread = some t)
    (hl : (s.task p).leaving = false) : t ∉ leaving s.letters ++ s.manager.ending.toList := by
  intro hm
  obtain ⟨q, hq, hlq⟩ := (h.leavers t).mp hm
  obtain rfl := h.unique hq hp
  simp [hl] at hlq

theorem Alive.ordered_snoc (h : Alive s unsent live) {y : Letter}
    (hy : ∀ u ∈ leaving s.letters, u ∉ y.msg.refers) :
    (s.letters ++ [y]).Pairwise fun x y => ∀ t, x.msg = .exit t → t ∉ y.msg.refers := by
  refine List.pairwise_append.mpr ⟨h.ordered, List.pairwise_singleton _ _, ?_⟩
  intro x hx z hz u hu
  rw [List.mem_singleton.mp hz]
  exact hy u (mem_leaving.mpr ⟨x, hx, hu⟩)

theorem Alive.fresh_snoc (h : Alive s unsent live) {y : Letter} (hy : y.stale = false) :
    ∀ x ∈ s.letters ++ [y], x.stale = false := by
  intro x hx
  rcases List.mem_append.mp hx with hx | hx
  · exact h.fresh.1 x hx
  · rw [List.mem_singleton.mp hx, hy]

theorem Alive.allocated_erase (h : Alive s unsent live) {s' : Life κ} {live' : List Thr}
    (hsub : (owned s' unsent live').Sublist (owned s unsent live))
    (ht : t ∉ owned s' unsent live') : ∀ u ∈ owned s' unsent live',
      u ∈ s.allocated.erase t ∧ u ≠ .main ∧ u ≠ .manager := by
  intro u hu
  obtain ⟨hu', hw⟩ := h.allocated u (hsub.subset hu)
  refine ⟨Finset.mem_erase.mpr ⟨?_, hu'⟩, hw⟩
  rintro rfl
  exact ht hu

theorem freed_eq (h : ∀ x ∈ letters, t ∉ x.msg.refers) :
    letters.map (Letter.freed t) = letters := by
  refine List.map_congr_left (fun x hx => ?_) |>.trans (List.map_id letters)
  have := h x hx
  simp [Letter.freed, this]

theorem Alive.unreferred (h : Alive s unsent live) (hp : t ∉ pending s.letters)
    (ht : ∀ p, (s.task p).thread ≠ some t) : s.letters.map (Letter.freed t) = s.letters := by
  refine freed_eq fun x hx hu => ?_
  rcases h.referred hx hu with hu | ⟨p, hu⟩
  · exact hp hu
  · exact ht p hu

end Facts

end AndroidKernel.Sthread.Lifecycle
