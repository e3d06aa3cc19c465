import AndroidKernel.Sthread.TaskHands

/-! The steps of the manager leave every struct in one pair of hands: it takes a struct from a
message, gives it to a new task or back to the caller, and frees the one whose task it has waited
for. -/

namespace AndroidKernel.Sthread.Lifecycle
variable {κ : Type}

variable {s s' : Life κ} {unsent live : List Thr} {p : ℤ} {c t : Thr}

theorem Alive.pass (h : Alive s unsent live)
    (hsame : s' = { s with
      letters := s'.letters, list := s'.list, refused := s'.refused, manager := s'.manager,
      staleHandled := s'.staleHandled })
    (hown : (owned s' unsent live).Perm (owned s unsent live))
    (hlist : s'.list = s'.manager.adding.toList ++ live ++ [.manager, .main])
    (hd : s.manager.dying = none) (hd' : s'.manager.dying = none)
    (hadding : ∀ t, s'.manager.adding = some t → (s.task (s.pid t)).isRunning = false)
    (hexits : (leaving s'.letters ++ s'.manager.ending.toList).Perm
      (leaving s.letters ++ s.manager.ending.toList))
    (hletters : s'.letters.Sublist s.letters)
    (hcallers : ∀ x ∈ s'.letters, ∀ c t, x.msg = .create c t → s'.manager.ending ≠ some c)
    (hstale : s'.staleHandled = false) : Alive s' unsent live := by
  have htask : s'.task = s.task := by rw [hsame]
  have hpid : s'.pid = s.pid := by rw [hsame]
  have halloc : s'.allocated = s.allocated := by rw [hsame]
  have hcount : s'.deallocs = s.deallocs := by rw [hsame]
  have hmpid : s'.managerPid = s.managerPid := by rw [hsame]
  refine ⟨⟨hlist, hown.nodup_iff.mpr h.nodup, ?_, ?_, ?_, ?_⟩, ⟨?_, ?_, ?_, ?_, ?_, ?_, ?_, ?_,
    ?_, ?_⟩, ⟨hexits.nodup_iff.mpr h.exits, ?_, h.ordered.sublist hletters, ?_,
    ⟨fun x hx => h.fresh.1 x (hletters.subset hx), hstale⟩⟩⟩
  · rw [halloc]
    exact fun u hu => h.allocated u (hown.mem_iff.mp hu)
  · rw [halloc]
    exact h.home
  · rw [hcount]
    exact h.called
  · rw [hcount]
    exact fun u hu _ => h.uncalled u (hown.mem_iff.mp hu) (by simp [hd])
  · rw [htask]
    exact h.sends
  · rw [htask]
    exact h.once
  · rw [htask, hpid]
    exact h.thread
  · rw [htask, hpid]
    exact fun u hu _ => h.task u hu (by simp [hd])
  · rw [hd']
    exact fun u hu => by cases hu
  · rw [htask, hpid, hmpid]
    exact h.manager
  · rw [htask, hpid]
    exact hadding
  · rw [htask]
    exact h.self
  · rw [htask, hpid]
    exact h.main
  · rw [htask]
    exact h.stays
  · rw [htask]
    exact fun u => hexits.mem_iff.trans (h.leavers u)
  · rw [htask]
    exact fun x hx c t hc => ⟨(h.callers x (hletters.subset hx) c t hc).1, hcallers x hx c t hc⟩

theorem Alive.remanage (h : Alive s unsent live) {m : ManagerPc} (hu : m.unborn = s.manager.unborn)
    (ha : m.adding = s.manager.adding) (he : m.ending = s.manager.ending)
    (hd : s.manager.dying = none) (hd' : m.dying = none) :
    Alive { s with manager := m } unsent live := by
  refine h.pass rfl ?_ ?_ hd hd' ?_ ?_ (List.Sublist.refl _) ?_ h.fresh.2
  · simp only [owned, hu]
    rfl
  · simpa only [ha] using h.list
  · simpa only [ha] using h.adding
  · simp only [he]
    rfl
  · simp only [he]
    exact fun x hx c t hc => (h.callers x hx c t hc).2

theorem Alive.receiveCreate (h : Alive s unsent live) {stale : Bool} {letters : List Letter}
    (hm : s.manager = .read) (hl : s.letters = ⟨.create c t, stale⟩ :: letters) :
    Alive { s with
      letters := letters
      staleHandled := s.staleHandled || stale
      manager := .create .mmap c t } unsent live := by
  have hstale : stale = false := h.fresh.1 _ (hl ▸ List.mem_cons_self ..)
  refine h.pass rfl ?_ ?_ (by rw [hm]; rfl) rfl (fun u hu => by cases hu) ?_ ?_
    (fun _ _ _ _ _ he => by cases he) (by simp [h.fresh.2, hstale])
  · simp only [owned, hm, hl, pending, ManagerPc.unborn, Option.toList_some, Option.toList_none,
      List.filterMap_cons, List.append_nil, List.append_assoc, List.singleton_append]
    exact List.Perm.append_left _ List.perm_middle
  · have hlist := h.list
    rw [hm] at hlist
    exact hlist
  · simp only [hm, hl, leaving, List.filterMap_cons]
    rfl
  · simp only [hl]
    exact List.sublist_cons_self ..

theorem Alive.receiveExit (h : Alive s unsent live) {stale : Bool} {letters : List Letter}
    (hm : s.manager = .read) (hl : s.letters = ⟨.exit t, stale⟩ :: letters) :
    Alive { s with
      letters := letters
      staleHandled := s.staleHandled || stale
      manager := .wakeExit t } unsent live := by
  have hstale : stale = false := h.fresh.1 _ (hl ▸ List.mem_cons_self ..)
  obtain ⟨hlast, -⟩ := List.pairwise_cons.mp (hl ▸ h.ordered)
  refine h.pass rfl ?_ ?_ (by rw [hm]; rfl) rfl (fun u hu => by cases hu) ?_ ?_
    (fun x hx c' t' hc he => hlast x hx t rfl ?_) (by simp [h.fresh.2, hstale])
  · simp only [owned, hm, hl, pending, List.filterMap_cons]
    rfl
  · have hlist := h.list
    rw [hm] at hlist
    exact hlist
  · simp only [hm, hl, leaving, List.filterMap_cons, ManagerPc.ending, Option.toList_some,
      Option.toList_none, List.append_nil]
    exact List.perm_append_singleton t _
  · simp only [hl]
    exact List.sublist_cons_self ..
  · obtain rfl : t = c' := Option.some.inj he
    simp [hc, Msg.refers]

theorem Alive.refuse (h : Alive s unsent live) {stage : Stage} {list : List Thr}
    (hm : s.manager = .create stage c t) (hs : stage ≠ .wake)
    (hl : list = live ++ [.manager, .main]) :
    Alive { s with list := list, refused := t :: s.refused, manager := .create .wake c t }
      unsent live := by
  have hu : s.manager.unborn = some t := by
    rw [hm]
    cases stage <;> first | rfl | exact absurd rfl hs
  refine h.pass rfl ?_ hl (by rw [hm]; rfl) rfl (fun u hu => by cases hu) ?_ (List.Sublist.refl _)
    (fun _ _ _ _ _ he => by cases he) h.fresh.2
  · have hu' : (ManagerPc.create .wake c t).unborn = none := rfl
    simp only [owned, hu, hu', Option.toList_some, Option.toList_none, List.append_nil,
      List.append_assoc, List.singleton_append]
    exact List.Perm.append_left _ (List.Perm.append_left _ List.perm_middle)
  · simp only [hm]
    rfl

theorem Alive.add (h : Alive s unsent live) (hm : s.manager = .create .add c t)
    (hp : (s.task (s.pid t)).isRunning = false) :
    Alive { s with list := t :: s.list, manager := .create .clone c t } unsent live := by
  refine h.pass rfl ?_ ?_ (by rw [hm]; rfl) rfl ?_ ?_ (List.Sublist.refl _)
    (fun _ _ _ _ _ he => by cases he) h.fresh.2
  · simp only [owned, hm]
    rfl
  · have hlist := h.list
    rw [hm] at hlist
    exact congrArg (t :: ·) hlist
  · intro u hu
    obtain rfl : t = u := Option.some.inj hu
    exact hp
  · simp only [hm]
    rfl

theorem Alive.cloneFail (h : Alive s unsent live) (hm : s.manager = .create .clone c t) :
    Alive { s with pid := Function.update s.pid t (-1), manager := .create .listdel c t }
      unsent live := by
  have hu : s.manager.unborn = some t := by rw [hm]; rfl
  obtain ⟨-, hmain, hman⟩ := h.allocated t (mem_owned.mpr (by tauto))
  have hlive := (h.disjoint.2.2.1 t hu).1
  have hnone : (s.task (-1)).isRunning = false := by
    by_contra hr
    obtain ⟨u, hu⟩ := Option.ne_none_iff_exists'.mp
      (Task.thread_of_isRunning (Bool.not_eq_false _ ▸ hr))
    exact absurd (h.thread _ u hu).2.2 (by decide)
  have hpid : Alive { s with pid := Function.update s.pid t (-1) } unsent live := by
    refine h.repid hlive hmain hman fun u hu => ?_
    rw [hm] at hu
    obtain rfl : t = u := Option.some.inj hu
    rwa [Function.update_self]
  exact hpid.remanage (m := .create .listdel c t) (by rw [hm]; rfl) (by rw [hm]; rfl)
    (by rw [hm]; rfl) (by rw [hm]; rfl) rfl

theorem Alive.listdel (h : Alive s unsent live) {list : List Thr}
    (hm : s.manager = .create .listdel c t) (hl : threadlistDel s.pid t s.list = some list) :
    Alive { s with list := list, refused := t :: s.refused, manager := .create .wake c t }
      unsent live := by
  have hu : s.manager.unborn = some t := by rw [hm]; rfl
  have hman := (h.allocated t (mem_owned.mpr (by tauto))).2.2
  have hlist := h.list
  rw [hm] at hlist
  have hdel : threadlistDel s.pid t s.list = some (live ++ [.manager, .main]) := by
    rw [hlist]
    simp [ManagerPc.adding, threadlistDel, hman]
  exact h.refuse hm (by decide) (Option.some.inj (hl.symm.trans hdel))

theorem Alive.clone_tasks (h : Alive s unsent live) (hm : s.manager = .create .clone c t)
    (hpt : s.pid t = p) (h0 : 0 < p) (hp : p ≠ s.managerPid) (hf : s.task p = .none) :
    Tasks { s with
      task := Function.update s.task p (.running t .idle)
      manager := .create .wake c t } unsent (t :: live) := by
  have hthread : ∀ q u, (s.task q).thread = some u →
      (Function.update s.task p (.running t .idle) q).thread = some u := by
    intro q u hq
    have hqp : q ≠ p := by
      rintro rfl
      rw [hf] at hq
      cases hq
    rwa [Function.update_of_ne hqp]
  refine ⟨?_, ?_, ?_, ?_, (fun u hu => by cases hu), ⟨h.manager.1, ?_⟩, (fun u hu => by cases hu),
    ?_, hthread _ _ h.main, ?_⟩
  · intro q u self n hq
    rcases update_eq_iff.mp hq with ⟨-, hx⟩ | ⟨-, hq⟩
    · cases hx
    · exact h.sends q u self n hq
  · intro q q' u v self self' n hq hq'
    rcases update_eq_iff.mp hq with ⟨-, hx⟩ | ⟨-, hq⟩
    · cases hx
    · rcases update_eq_iff.mp hq' with ⟨-, hx⟩ | ⟨-, hq'⟩
      · cases hx
      · exact h.once q q' u v self self' n hq hq'
  · intro q u hq
    by_cases hqp : q = p
    · simp only [hqp, Function.update_self] at hq
      obtain rfl : t = u := Option.some.inj hq
      exact ⟨Or.inl (List.mem_cons_self ..), hpt.trans hqp.symm, hqp ▸ h0⟩
    · simp only [Function.update_of_ne hqp] at hq
      obtain ⟨hl, hpq⟩ := h.thread q u hq
      exact ⟨hl.imp (List.mem_cons_of_mem _) id, hpq⟩
  · intro u hu _
    rcases List.mem_cons.mp hu with rfl | hu
    · simp only [hpt, Function.update_self]
      rfl
    · exact hthread _ u (h.task u hu (by rw [hm]; simp [ManagerPc.dying]))
  · simp only [Function.update_of_ne (Ne.symm hp)]
    exact h.manager.2
  · intro q u pc hq
    rcases update_eq_iff.mp hq with ⟨-, hx⟩ | ⟨-, hq⟩
    · cases hx
      exact fun v hv => by cases hv
    · exact h.self q u pc hq
  · intro q hq
    by_cases hqp : q = p
    · simp only [hqp, Function.update_self] at hq
      cases hq
    · simp only [Function.update_of_ne hqp] at hq ⊢
      exact h.stays q hq

theorem Alive.clone_mail (h : Alive s unsent live) (hm : s.manager = .create .clone c t)
    (hf : s.task p = .none) :
    Mail { s with
      task := Function.update s.task p (.running t .idle)
      manager := .create .wake c t } := by
  have hleaving : ∀ q, (Function.update s.task p (.running t .idle) q).leaving =
      (s.task q).leaving := update_view Task.leaving (by rw [hf]; rfl)
  have hold : ∀ q, s.task q ≠ .none →
      Function.update s.task p (.running t .idle) q = s.task q := by
    intro q hq
    refine Function.update_of_ne ?_ _ _
    rintro rfl
    exact hq hf
  have hexits := h.exits
  have hleavers := h.leavers
  rw [hm] at hexits hleavers
  refine ⟨hexits, fun u => (hleavers u).trans (exists_congr fun q => ?_), h.ordered, ?_, h.fresh⟩
  · simp only [hleaving]
    refine and_congr_left fun hl => ?_
    rw [hold q (fun hn => by rw [hn] at hl; cases hl)]
  · intro x hx c' t' hc
    obtain ⟨⟨q, hq⟩, -⟩ := h.callers x hx c' t' hc
    refine ⟨⟨q, ?_⟩, fun he => by cases he⟩
    simp only [hold q (fun hn => by rw [hn] at hq; cases hq), hq]

theorem Alive.clone (h : Alive s unsent live) (hm : s.manager = .create .clone c t) (h0 : 0 < p)
    (hp : p ≠ s.managerPid) (hf : s.task p = .none) :
    Alive { s with
      pid := Function.update s.pid t p
      task := Function.update s.task p (.running t .idle)
      manager := .create .wake c t } unsent (t :: live) := by
  have hu : s.manager.unborn = some t := by rw [hm]; rfl
  obtain ⟨-, hmain, hman⟩ := h.allocated t (mem_owned.mpr (by tauto))
  have hlive := (h.disjoint.2.2.1 t hu).1
  have hpid : Alive { s with pid := Function.update s.pid t p } unsent live := by
    refine h.repid hlive hmain hman fun u hu => ?_
    rw [hm] at hu
    obtain rfl : t = u := Option.some.inj hu
    rw [Function.update_self, hf]
    rfl
  have hown : owned { s with manager := .create .wake c t } unsent (t :: live) =
      owned s unsent live := by
    simp [owned, hm, ManagerPc.unborn]
  have hlist := h.list
  have huncalled := h.uncalled
  rw [hm] at hlist huncalled
  exact { hpid.clone_tasks hm (Function.update_self ..) h0 hp hf, hpid.clone_mail hm hf with
    list := hlist, nodup := hown ▸ h.nodup, allocated := hown ▸ h.allocated, home := h.home,
    called := h.called, uncalled := hown ▸ huncalled }

theorem Alive.waited_thread (h : Alive s unsent live) (he : s.manager.ending = some t) (q : ℤ)
    (u : Thr) : (Function.update s.task (s.pid t) .none q).thread = some u ↔
      (s.task q).thread = some u ∧ u ≠ t := by
  obtain ⟨-, hp, -⟩ := h.ending he
  by_cases hq : q = s.pid t
  · rw [hq, Function.update_self, hp]
    simp [Task.thread, eq_comm]
  · rw [Function.update_of_ne hq]
    refine ⟨fun hu => ⟨hu, ?_⟩, fun hu => hu.1⟩
    rintro rfl
    exact hq (h.unique hu hp)

theorem Alive.waited_tasks (h : Alive s unsent live) (hm : s.manager = .wait t) (n : Thr → ℕ) :
    Tasks { s with
      task := Function.update s.task (s.pid t) .none
      manager := .dealloc t
      deallocs := n } unsent live := by
  have he : s.manager.ending = some t := by rw [hm]; rfl
  have hdying : s.manager.dying = none := by rw [hm]; rfl
  obtain ⟨hlive, -, -⟩ := h.ending he
  have hthread := h.waited_thread he
  have hrun : ∀ q u pc, Function.update s.task (s.pid t) .none q = .running u pc →
      s.task q = .running u pc := by
    intro q u pc hq
    rcases update_eq_iff.mp hq with ⟨-, hx⟩ | ⟨-, hq⟩
    · cases hx
    · exact hq
  refine ⟨fun q u self n hq => h.sends q u self n (hrun q u _ hq), ?_,
    fun q u hq => h.thread q u ((hthread q u).mp hq).1, ?_, ?_, ⟨h.manager.1, ?_⟩,
    (fun u hu => by cases hu), fun q u pc hq => h.self q u pc (hrun q u pc hq),
    (hthread _ _).mpr ⟨h.main, Ne.symm (h.worker hlive).1⟩, ?_⟩
  · intro q q' u v self self' n hq hq'
    exact h.once q q' u v self self' n (hrun q u _ hq) (hrun q' v _ hq')
  · intro u hu hd
    refine (hthread _ u).mpr ⟨h.task u hu (by simp [hdying]), ?_⟩
    rintro rfl
    exact hd rfl
  · intro u hu
    obtain rfl : t = u := Option.some.inj hu
    refine ⟨hlive, ?_⟩
    simp only [Function.update_self]
    rfl
  · by_contra hn
    obtain ⟨u, hu⟩ := Option.ne_none_iff_exists'.mp hn
    have := ((hthread _ u).mp hu).1
    simp [h.manager.2] at this
  · intro q hq
    by_cases hqp : q = s.pid t
    · simp only [hqp, Function.update_self] at hq
      cases hq
    · simp only [Function.update_of_ne hqp] at hq ⊢
      exact h.stays q hq

theorem Alive.waited_mail (h : Alive s unsent live) (hm : s.manager = .wait t) (n : Thr → ℕ) :
    Mail { s with
      task := Function.update s.task (s.pid t) .none
      manager := .dealloc t
      deallocs := n } := by
  have he : s.manager.ending = some t := by rw [hm]; rfl
  obtain ⟨-, hp, hout⟩ := h.ending he
  have hthread := h.waited_thread he
  have hexits := h.exits.sublist (List.sublist_append_left _ _)
  have hleave : ∀ q u, (s.task q).thread = some u → u ≠ t →
      Function.update s.task (s.pid t) .none q = s.task q := by
    intro q u hq hut
    refine Function.update_of_ne ?_ _ _
    rintro rfl
    exact hut (Option.some.inj (hq.symm.trans hp))
  refine ⟨?_, fun u => ?_, h.ordered, ?_, h.fresh⟩
  · simpa [ManagerPc.ending] using hexits
  · simp only [ManagerPc.ending, Option.toList_none, List.append_nil]
    constructor
    · intro hu
      obtain ⟨q, hq, hl⟩ := (h.leavers u).mp (List.mem_append_left _ hu)
      have hut : u ≠ t := by
        rintro rfl
        exact hout hu
      exact ⟨q, (hthread q u).mpr ⟨hq, hut⟩, by rwa [hleave q u hq hut]⟩
    · rintro ⟨q, hq, hl⟩
      obtain ⟨hq', hut⟩ := (hthread q u).mp hq
      rw [hleave q u hq' hut] at hl
      have hu := (h.leavers u).mpr ⟨q, hq', hl⟩
      simp only [he, Option.toList_some, List.mem_append, List.mem_singleton] at hu
      exact hu.resolve_right hut
  · intro x hx c' t' hc
    obtain ⟨⟨q, hq⟩, hne⟩ := h.callers x hx c' t' hc
    refine ⟨⟨q, (hthread q c').mpr ⟨hq, ?_⟩⟩, fun he => by cases he⟩
    rintro rfl
    exact hne he

theorem Alive.waited (h : Alive s unsent live) (hm : s.manager = .wait t) :
    Alive { s with
      task := Function.update s.task (s.pid t) .none
      manager := .dealloc t
      deallocs := Function.update s.deallocs t (s.deallocs t + 1) } unsent live := by
  have hlive := (h.ending (t := t) (by rw [hm]; rfl)).1
  have hdying : ∀ u, s.manager.dying ≠ some u := by
    rw [hm]
    exact fun u hu => by cases hu
  have hown : owned { s with manager := .dealloc t } unsent live = owned s unsent live := by
    simp [owned, hm, ManagerPc.unborn]
  have hlist := h.list
  rw [hm] at hlist
  refine { h.waited_tasks hm _, h.waited_mail hm _ with
    list := hlist, nodup := hown ▸ h.nodup, allocated := hown ▸ h.allocated, home := h.home,
    called := ?_, uncalled := ?_ }
  · intro u
    by_cases hut : u = t
    · simp only [hut, Function.update_self]
      rw [h.uncalled t (mem_owned.mpr (by tauto)) (hdying t)]
    · simp only [Function.update_of_ne hut]
      exact h.called u
  · intro u hu hd
    have hut : u ≠ t := by
      rintro rfl
      exact hd rfl
    simp only [Function.update_of_ne hut]
    have hu' : u ∈ owned s unsent live := hown ▸ hu
    exact h.uncalled u hu' (hdying u)

theorem Alive.dealloc_list (h : Alive s unsent live) {list : List Thr} (hm : s.manager = .dealloc t)
    (hl : threadlistDel s.pid t s.list = some list) :
    list = live.erase t ++ [.manager, .main] := by
  have hd : s.manager.dying = some t := by rw [hm]; rfl
  obtain ⟨hlive, hnone⟩ := h.dying t hd
  have honly : ∀ u ∈ live, s.pid u = s.pid t → u = t := by
    intro u hu hp
    by_contra hut
    have := h.task u hu (by rw [hd]; simpa [eq_comm] using hut)
    simp [hp, hnone] at this
  have hdel : threadlistDel s.pid t (live ++ [.manager, .main]) =
      some (live.erase t ++ [.manager, .main]) :=
    threadlistDel_eq_erase hlive (fun u hu => (h.worker hu).2) honly
  have hs := h.list
  rw [hm] at hs
  exact Option.some.inj (hl.symm.trans (by rw [hs]; exact hdel))

theorem Alive.dealloc (h : Alive s unsent live) {list : List Thr} (hm : s.manager = .dealloc t)
    (hl : threadlistDel s.pid t s.list = some list) :
    Alive { s with
      allocated := s.allocated.erase t
      letters := s.letters.map (Letter.freed t)
      refused := s.refused.erase t
      list := list
      manager := .reap } unsent (live.erase t) := by
  have hd : s.manager.dying = some t := by rw [hm]; rfl
  obtain ⟨hlive, hnone⟩ := h.dying t hd
  obtain ⟨hun, hpend, -, href⟩ := h.disjoint
  have hthread : ∀ q, (s.task q).thread ≠ some t := by
    intro q hq
    obtain ⟨-, rfl, -⟩ := h.thread q t hq
    simp [hq] at hnone
  have hletters : s.letters.map (Letter.freed t) = s.letters :=
    h.unreferred (fun ht => (hpend t ht).1 hlive) hthread
  have hrefused : s.refused.erase t = s.refused := List.erase_of_not_mem (href t hlive)
  have hsub : (owned { s with list := list, manager := .reap } unsent (live.erase t)).Sublist
      (owned s unsent live) := by
    simp only [owned, hm, ManagerPc.unborn, Option.toList_none, List.append_nil]
    exact (List.erase_sublist.append_left _).append_right _
  have hout : t ∉ owned { s with list := list, manager := .reap } unsent (live.erase t) := by
    have hn := h.nodup
    simp only [owned, List.nodup_append] at hn
    rw [mem_owned]
    rintro (hx | hx | hx | hx | hx)
    · exact (hun t hx).2.1 hlive
    · exact (hpend t hx).1 hlive
    · cases hx
    · exact hn.1.2.1.not_mem_erase hx
    · exact href t hlive hx
  have hexits := h.exits
  have hleavers := h.leavers
  rw [hm] at hexits hleavers
  rw [hletters, hrefused]
  refine { h with list := h.dealloc_list hm hl, nodup := hsub.nodup h.nodup,
                  allocated := h.allocated_erase hsub hout,
                  home := Finset.mem_erase.mpr ⟨Ne.symm (h.worker hlive).1, h.home⟩,
                  uncalled := ?_, thread := ?_, task := ?_, dying := (fun u hu => by cases hu),
                  adding := (fun u hu => by cases hu), exits := hexits, leavers := hleavers,
                  callers := ?_ }
  · intro u hu _
    refine h.uncalled u (hsub.subset hu) ?_
    rw [hd]
    rintro ⟨⟩
    exact hout hu
  · intro q u hq
    obtain ⟨hl, hp⟩ := h.thread q u hq
    have hut : u ≠ t := by
      rintro rfl
      exact hthread q hq
    exact ⟨hl.imp (fun hu => (List.mem_erase_of_ne hut).mpr hu) id, hp⟩
  · intro u hu _
    refine h.task u (List.mem_of_mem_erase hu) ?_
    rw [hd]
    rintro ⟨⟩
    exact hout (mem_owned.mpr (by tauto))
  · exact fun x hx c' t' hc => ⟨(h.callers x hx c' t' hc).1, fun he => by cases he⟩

end AndroidKernel.Sthread.Lifecycle
