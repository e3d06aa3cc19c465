import AndroidKernel.Sthread.ThreadList

/-! The shape of the list from `list_hd` over whole runs of the manager. A deletion goes by pid, so
the right struct is found because the children that are listed have different pids; a struct enters
the list before its pid is assigned, and the deletion after a failed `clone` finds it in front. -/

namespace AndroidKernel.Sthread.ThreadList
open LinkedList Lts

/-- The list is the children, then the manager and the main thread; the structs that wait for a
creation, or to be freed, are apart from it. -/
structure Shape (managerPid mainPid : ℤ) (s : State) : Prop where
  chain : Chain s.mem.heap s.mem.listHd
    (s.children ++ [(.manager, managerPid), (.main, mainPid)]) none
  nodup : (s.children.map Prod.fst).Nodup
  pids : (s.children.map Prod.snd).Nodup
  workers : ∀ t ∈ s.children.map Prod.fst, t ≠ .main ∧ t ≠ .manager
  structs : ∀ t, (s.mem.heap t).isSome → t ∈ s.mem.structs
  spare : (s.requests ++ s.refused).Nodup
  apart : ∀ t ∈ s.requests ++ s.refused,
    t ∉ s.children.map Prod.fst ∧ t ≠ .main ∧ t ≠ .manager ∧ (s.mem.heap t).isSome

variable {managerPid mainPid : ℤ} {s : State} {t : Thr} {p : ℤ} {xs ys : List (Thr × ℤ)}

theorem start_shape (managerPid mainPid : ℤ) :
    Shape managerPid mainPid (start managerPid mainPid) := by
  refine ⟨⟨rfl, _, rfl, rfl, _, rfl, rfl⟩, List.nodup_nil, List.nodup_nil, by simp [start], ?_,
    List.nodup_nil, by simp [start]⟩
  intro t ht
  cases t with
  | main | manager => simp [start]
  | worker a => cases ht

theorem Shape.listed_nodup (h : Shape managerPid mainPid s) :
    ((s.children ++ [(Thr.manager, managerPid), (Thr.main, mainPid)]).map Prod.fst).Nodup := by
  rw [List.map_append, List.nodup_append]
  refine ⟨h.nodup, by simp, fun a ha b hb => ?_⟩
  obtain ⟨hmain, hmanager⟩ := h.workers a ha
  have hb' : b = .manager ∨ b = .main := by simpa using hb
  rcases hb' with rfl | rfl
  · exact hmanager
  · exact hmain

theorem Shape.length_le (h : Shape managerPid mainPid s) :
    s.children.length + 2 ≤ s.mem.structs.card := by
  have := length_le_card h.chain h.listed_nodup h.structs
  simpa using this

theorem Shape.list_eq (h : Shape managerPid mainPid s) :
    s.mem.list = some (s.children.map Prod.fst ++ [.manager, .main]) := by
  have := h.chain.follow_eq (n := s.mem.structs.card) (by simpa using h.length_le)
  rw [Mem.list, this]
  simp

theorem Shape.split (h : Shape managerPid mainPid s) (hc : s.children = xs ++ (t, p) :: ys) :
    (∀ x ∈ xs, x.1 ≠ .manager ∧ x.2 ≠ p) ∧ t ≠ .manager ∧ t ∉ (xs ++ ys).map Prod.fst ∧
      (s.waitpid p).children = xs ++ ys ∧ xs.length < s.mem.structs.card := by
  have hpids := h.pids
  have hnodup := h.nodup
  have hlen := h.length_le
  rw [hc] at hpids hnodup hlen
  simp only [List.map_append, List.map_cons, List.nodup_append, List.nodup_cons] at hpids hnodup
  have hxs : ∀ x ∈ xs, x.2 ≠ p := fun x hx =>
    hpids.2.2 x.2 (List.mem_map_of_mem hx) p (List.mem_cons_self ..)
  have hys : ∀ x ∈ ys, x.2 ≠ p := by
    rintro x hx rfl
    exact hpids.2.1.1 (List.mem_map_of_mem hx)
  refine ⟨fun x hx => ⟨?_, hxs x hx⟩, ?_, ?_, ?_, ?_⟩
  · exact (h.workers x.1 (by rw [hc]; simpa using Or.inl ⟨x.2, hx⟩)).2
  · exact (h.workers t (by simp [hc])).2
  · rw [List.map_append, List.mem_append, not_or]
    refine ⟨fun hx => ?_, hnodup.2.1.1⟩
    exact hnodup.2.2 t hx t (List.mem_cons_self ..) rfl
  · have hfx : xs.filter (·.2 ≠ p) = xs := List.filter_eq_self.mpr (by simpa using hxs)
    have hfy : ys.filter (·.2 ≠ p) = ys := List.filter_eq_self.mpr (by simpa using hys)
    simp only [State.waitpid, hc, List.filter_append, List.filter_cons, hfx, hfy, ne_eq,
      not_true_eq_false, decide_false, Bool.false_eq_true, if_false]
  · simp only [List.length_append, List.length_cons] at hlen
    omega

theorem Shape.threadlistDel_eq (h : Shape managerPid mainPid s)
    (hc : s.children = xs ++ (t, p) :: ys) :
    ∃ m, threadlistDel s.mem t = some m ∧
      Chain m.heap m.listHd (xs ++ ys ++ [(.manager, managerPid), (.main, mainPid)]) none ∧
      m.structs = s.mem.structs ∧ ∀ b, (m.heap b).isSome = (s.mem.heap b).isSome := by
  obtain ⟨hxs, ht, -, -, hlen⟩ := h.split hc
  have hchain := h.chain
  have hd := h.listed_nodup
  rw [hc, List.append_assoc, List.cons_append] at hchain hd
  obtain ⟨m, hm, hch, hst, -, hsome⟩ := ThreadList.threadlistDel_eq hchain hd hxs ht hlen
  exact ⟨m, hm, by rwa [List.append_assoc], hst, hsome⟩

theorem Shape.dealloc (h : Shape managerPid mainPid s) (hc : s.children = xs ++ (t, p) :: ys) :
    ∃ m, threadDealloc s.mem t = some m ∧
      Shape managerPid mainPid { s.waitpid p with mem := m } := by
  obtain ⟨m, hm, hch, hst, hsome⟩ := h.threadlistDel_eq hc
  obtain ⟨-, htm, hout, hwait, -⟩ := h.split hc
  have hsub : ∀ b, b ∈ (xs ++ ys).map Prod.fst → b ∈ s.children.map Prod.fst := by
    intro b hb
    rw [hc]
    simp only [List.map_append, List.map_cons, List.mem_append, List.mem_cons] at hb ⊢
    tauto
  have htmain : t ≠ .main := (h.workers t (by simp [hc])).1
  refine ⟨free m t, by simp [threadDealloc, hm], ?_, ?_, ?_, ?_, fun b hb => ?_, h.spare,
    fun b hb => ?_⟩
  · simp only [hwait]
    refine hch.frame fun b hb => Function.update_of_ne ?_ _ _
    rintro rfl
    rw [List.map_append, List.mem_append] at hb
    rcases hb with hb | hb
    · exact hout hb
    · have : b = .manager ∨ b = .main := by simpa using hb
      tauto
  · exact (List.filter_sublist.map Prod.fst).nodup h.nodup
  · exact (List.filter_sublist.map Prod.snd).nodup h.pids
  · intro b hb
    simp only [hwait] at hb
    exact h.workers b (hsub b hb)
  · by_cases hbt : b = t
    · rw [hbt] at hb
      simp [free] at hb
    · simp only [free, Function.update_of_ne hbt, hsome] at hb
      exact Finset.mem_erase.mpr ⟨hbt, hst ▸ h.structs b hb⟩
  · obtain ⟨hnc, hmain, hman, hb'⟩ := h.apart b hb
    have hbt : b ≠ t := by
      rintro rfl
      exact hnc (by simp [hc])
    refine ⟨?_, hmain, hman, ?_⟩
    · simp only [hwait]
      exact fun hx => hnc (hsub b hx)
    · simp only [free, Function.update_of_ne hbt, hsome, hb']

theorem Shape.add (h : Shape managerPid mainPid s) (ht : t ∈ s.requests) (p : ℤ) :
    ∃ m m', threadlistAdd s.mem t = some m ∧ m.setPid t p = some m' ∧
      m.list = some (t :: s.children.map Prod.fst ++ [.manager, .main]) ∧
      Chain m'.heap m'.listHd
        ((t, p) :: s.children ++ [(.manager, managerPid), (.main, mainPid)]) none ∧
      m'.structs = s.mem.structs ∧ ∀ b, (m'.heap b).isSome = (s.mem.heap b).isSome := by
  obtain ⟨hnc, hmain, hman, hsome⟩ := h.apart t (List.mem_append_left _ ht)
  obtain ⟨⟨old, k⟩, hk⟩ := Option.isSome_iff_exists.mp hsome
  have hout : t ∉ (s.children ++ [(Thr.manager, managerPid), (Thr.main, mainPid)]).map
      Prod.fst := by
    simp only [List.map_append, List.mem_append, List.map_cons, List.map_nil, List.mem_cons,
      List.not_mem_nil, or_false, not_or]
    exact ⟨hnc, hman, hmain⟩
  obtain ⟨m, hadd, hmt, hch, hst, hframe⟩ := threadlistAdd_eq h.chain hout hk
  have hnodup := List.nodup_cons.mpr ⟨hout, h.listed_nodup⟩
  obtain ⟨m', hset, hch', hst', hsome'⟩ := setPid_eq (y := (t, p)) hch hnodup
  have hsame : ∀ b, (m.heap b).isSome = (s.mem.heap b).isSome := by
    intro b
    by_cases hb : b = t
    · subst hb
      simp [hmt, hk]
    · rw [hframe b hb]
  refine ⟨m, m', hadd, hset, ?_, hch', hst'.trans hst, fun b => (hsome' b).trans (hsame b)⟩
  have hlen := length_le_card hch hnodup fun b hb => by
    rw [hst]
    exact h.structs b (by rwa [hsame] at hb)
  rw [Mem.list, hch.follow_eq hlen]
  simp

theorem Shape.undo (h : Shape managerPid mainPid s) (ht : t ∈ s.requests) :
    ∃ m m' m'', threadlistAdd s.mem t = some m ∧ m.setPid t (-1) = some m' ∧
      threadlistDel m' t = some m'' ∧
      m.list = some (t :: s.children.map Prod.fst ++ [.manager, .main]) ∧
      Chain m''.heap m''.listHd
        (s.children ++ [(.manager, managerPid), (.main, mainPid)]) none ∧
      m''.structs = s.mem.structs ∧ ∀ b, (m''.heap b).isSome = (s.mem.heap b).isSome := by
  obtain ⟨m, m', hadd, hset, hlist, hch, hst, hsome⟩ := h.add ht (-1)
  obtain ⟨hnc, hmain, hman, -⟩ := h.apart t (List.mem_append_left _ ht)
  have hd : (((t, (-1 : ℤ)) :: (s.children ++
      [(Thr.manager, managerPid), (Thr.main, mainPid)])).map Prod.fst).Nodup := by
    refine List.nodup_cons.mpr ⟨?_, h.listed_nodup⟩
    simp only [List.map_append, List.mem_append, List.map_cons, List.map_nil, List.mem_cons,
      List.not_mem_nil, or_false, not_or]
    exact ⟨hnc, hman, hmain⟩
  have hcard : 0 < m'.structs.card := by
    have := h.length_le
    rw [hst]
    omega
  have hfront : Chain m'.heap m'.listHd ([] ++ (t, -1) :: (s.children ++
      [(Thr.manager, managerPid), (Thr.main, mainPid)])) none := hch
  obtain ⟨m'', hdel, hch', hst', -, hsome'⟩ :=
    ThreadList.threadlistDel_eq hfront hd (by simp) hman hcard
  exact ⟨m, m', m'', hadd, hset, hdel, hlist, hch', hst'.trans hst,
    fun b => (hsome' b).trans (hsome b)⟩

theorem Shape.refuse (h : Shape managerPid mainPid s) (ht : t ∈ s.requests) {m : Mem}
    (hch : Chain m.heap m.listHd (s.children ++ [(.manager, managerPid), (.main, mainPid)]) none)
    (hst : m.structs = s.mem.structs) (hsome : ∀ b, (m.heap b).isSome = (s.mem.heap b).isSome) :
    Shape managerPid mainPid
      { s with mem := m, requests := s.requests.erase t, refused := t :: s.refused } := by
  have hperm : (s.requests.erase t ++ t :: s.refused).Perm (s.requests ++ s.refused) :=
    List.perm_middle.trans ((List.perm_cons_erase ht).symm.append_right _)
  refine ⟨hch, h.nodup, h.pids, h.workers, fun b hb => ?_, hperm.nodup_iff.mpr h.spare,
    fun b hb => ?_⟩
  · rw [hst]
    exact h.structs b (by rwa [hsome] at hb)
  · obtain ⟨hnc, hmain, hman, hb'⟩ := h.apart b (hperm.mem_iff.mp hb)
    exact ⟨hnc, hmain, hman, by rw [hsome, hb']⟩

theorem Shape.create (h : Shape managerPid mainPid s) {outcome : Outcome} (ht : t ∈ s.requests)
    (hp : ∀ x ∈ s.children, outcome ≠ .clone x.2) :
    ∃ s', next s (.create t outcome) = some s' ∧ Shape managerPid mainPid s' := by
  cases outcome with
  | mmap | pipe | malloc =>
    exact ⟨_, rfl, h.refuse ht h.chain rfl fun _ => rfl⟩
  | clone p =>
    by_cases hp1 : p = -1
    · subst hp1
      obtain ⟨m, m', m'', hadd, hset, hdel, -, hch, hst, hsome⟩ := h.undo ht
      refine ⟨_, ?_, h.refuse ht hch hst hsome⟩
      simp [next, doCreate, hadd, hset, hdel]
    · obtain ⟨m, m', hadd, hset, -, hch, hst, hsome⟩ := h.add ht p
      obtain ⟨hnc, hmain, hman, -⟩ := h.apart t (List.mem_append_left _ ht)
      have hnext : next s (.create t (.clone p)) = some { s with
          mem := m'
          requests := s.requests.erase t
          children := (t, p) :: s.children } := by
        simp [next, doCreate, hadd, hset, hp1]
      refine ⟨_, hnext, hch, List.nodup_cons.mpr ⟨hnc, h.nodup⟩,
        List.nodup_cons.mpr ⟨?_, h.pids⟩, fun b hb => ?_, fun b hb => ?_, ?_, fun b hb => ?_⟩
      · intro hmem
        obtain ⟨x, hx, rfl⟩ := List.mem_map.mp hmem
        exact hp x hx rfl
      · rcases List.mem_cons.mp hb with rfl | hb
        · exact ⟨hmain, hman⟩
        · exact h.workers b hb
      · rw [hst]
        exact h.structs b (by rwa [hsome] at hb)
      · exact (List.erase_sublist.append_right _).nodup h.spare
      · have hsub : (s.requests.erase t ++ s.refused).Sublist (s.requests ++ s.refused) :=
          List.erase_sublist.append_right _
        obtain ⟨hnb, hbmain, hbman, hb'⟩ := h.apart b (hsub.subset hb)
        refine ⟨?_, hbmain, hbman, by rw [hsome, hb']⟩
        rw [List.map_cons, List.mem_cons, not_or]
        refine ⟨?_, hnb⟩
        rintro rfl
        -- `t` was requested once, so it is not among the structs that still wait
        have hperm : (b :: s.requests.erase b ++ s.refused).Nodup :=
          ((List.perm_cons_erase ht).append_right _).nodup_iff.mp h.spare
        exact (List.nodup_cons.mp hperm).1 hb

theorem Shape.reap (h : Shape managerPid mainPid s) {statuses : List (ℤ × Bool)}
    (hd : (statuses.map Prod.fst).Nodup) (hc : ∀ x ∈ statuses, x.1 ∈ s.children.map Prod.snd) :
    ∃ s', reapChildren statuses s = some s' ∧ Shape managerPid mainPid s' := by
  induction statuses generalizing s with
  | nil => exact ⟨s, rfl, h⟩
  | cons x statuses ih =>
    obtain ⟨pid, signaled⟩ := x
    obtain ⟨⟨t, p⟩, hmem, rfl⟩ := List.mem_map.mp (hc _ (List.mem_cons_self ..))
    obtain ⟨xs, ys, hsplit⟩ := List.append_of_mem hmem
    obtain ⟨hxs, -, -, hwait, hlen⟩ := h.split hsplit
    obtain ⟨m, hm, hshape⟩ := h.dealloc hsplit
    have hchain := h.chain
    rw [hsplit, List.append_assoc, List.cons_append] at hchain
    have hfind : threadlistFindbypid s.mem p = some (some t) :=
      find_eq hchain (fun x hx => (hxs x hx).2) hlen
    simp only [reapChildren, hfind, hm, Option.bind_eq_bind, Option.bind_some]
    cases signaled with
    | true =>
      refine ⟨_, rfl, ?_⟩
      exact ⟨hshape.chain, hshape.nodup, hshape.pids, hshape.workers, hshape.structs,
        hshape.spare, hshape.apart⟩
    | false =>
      rw [List.map_cons, List.nodup_cons] at hd
      refine ih hshape hd.2 fun x hx => ?_
      have hx' := hc x (List.mem_cons_of_mem _ hx)
      have hne : x.1 ≠ p := by
        intro he
        have hmem : x.1 ∈ statuses.map Prod.fst := List.mem_map_of_mem hx
        exact hd.1 (he ▸ hmem)
      simp only [hwait]
      rw [hsplit] at hx'
      simp only [List.map_append, List.map_cons, List.mem_append, List.mem_cons, hne,
        false_or] at hx' ⊢
      exact hx'

theorem Shape.malloc (h : Shape managerPid mainPid s) {block : Node Thr ℤ} (hmain : t ≠ .main)
    (hman : t ≠ .manager) (hfree : s.mem.heap t = none) : Shape managerPid mainPid
      { s with mem := ThreadList.malloc s.mem t block, requests := t :: s.requests } := by
  have hframe : ∀ b, (s.mem.heap b).isSome →
      (ThreadList.malloc s.mem t block).heap b = s.mem.heap b := by
    intro b hb
    refine Function.update_of_ne ?_ _ _
    rintro rfl
    simp [hfree] at hb
  have hlist : t ∉ s.children.map Prod.fst := by
    intro hmem
    refine h.chain.fresh_notMem hfree ?_
    rw [List.map_append]
    exact List.mem_append_left _ hmem
  have hspare : t ∉ s.requests ++ s.refused := by
    intro hmem
    have := (h.apart t hmem).2.2.2
    simp [hfree] at this
  refine ⟨h.chain.frame fun b hb => ?_, h.nodup, h.pids, h.workers, fun b hb => ?_,
    List.nodup_cons.mpr ⟨hspare, h.spare⟩, fun b hb => ?_⟩
  · obtain ⟨x, hx, rfl⟩ := List.mem_map.mp hb
    obtain ⟨k, hk⟩ := h.chain.allocated hx
    exact hframe x.1 (by simp [hk])
  · by_cases hbt : b = t
    · exact hbt ▸ Finset.mem_insert_self ..
    · simp only [ThreadList.malloc, Function.update_of_ne hbt] at hb
      exact Finset.mem_insert_of_mem (h.structs b hb)
  · rcases List.mem_cons.mp hb with rfl | hb
    · exact ⟨hlist, hmain, hman, by simp [ThreadList.malloc]⟩
    · obtain ⟨hnb, hbmain, hbman, hb'⟩ := h.apart b hb
      exact ⟨hnb, hbmain, hbman, (congrArg Option.isSome (hframe b hb')).trans hb'⟩

theorem Shape.discard (h : Shape managerPid mainPid s) (ht : t ∈ s.refused) :
    Shape managerPid mainPid { s with mem := free s.mem t, refused := s.refused.erase t } := by
  obtain ⟨hnc, hmain, hman, -⟩ := h.apart t (List.mem_append_right _ ht)
  have hsub : (s.requests ++ s.refused.erase t).Sublist (s.requests ++ s.refused) :=
    List.erase_sublist.append_left _
  refine ⟨h.chain.frame fun b hb => Function.update_of_ne ?_ _ _, h.nodup, h.pids,
    h.workers, fun b hb => ?_, hsub.nodup h.spare, fun b hb => ?_⟩
  · rintro rfl
    simp only [List.map_append, List.mem_append, List.map_cons, List.map_nil, List.mem_cons,
      List.not_mem_nil, or_false] at hb
    tauto
  · by_cases hbt : b = t
    · rw [hbt] at hb
      simp [free] at hb
    · simp only [free, Function.update_of_ne hbt] at hb
      exact Finset.mem_erase.mpr ⟨hbt, h.structs b hb⟩
  · have hbt : b ≠ t := by
      rintro rfl
      have hperm : (b :: (s.requests ++ s.refused.erase b)).Nodup :=
        (List.perm_middle.symm.trans
          ((List.perm_cons_erase ht).symm.append_left _)).nodup_iff.mpr h.spare
      exact (List.nodup_cons.mp hperm).1 hb
    obtain ⟨hnb, hbmain, hbman, hb'⟩ := h.apart b (hsub.subset hb)
    exact ⟨hnb, hbmain, hbman, by simpa only [free, Function.update_of_ne hbt] using hb'⟩

/-- Every step that its environment allows is carried through, and keeps the shape. -/
theorem Shape.step (h : Shape managerPid mainPid s) {a : Act} (ha : Allowed s a)
    (hf : FreesRefused s a) : ∃ s', next s a = some s' ∧ Shape managerPid mainPid s' := by
  cases a with
  | malloc t block =>
    obtain ⟨hmain, hman, hfree⟩ := ha
    exact ⟨_, rfl, h.malloc hmain hman hfree⟩
  | create t outcome => exact h.create ha.2.1 ha.2.2
  | discard t => exact ⟨_, rfl, h.discard hf⟩
  | exit t =>
    obtain ⟨⟨t, p⟩, hmem, rfl⟩ := List.mem_map.mp ha.2
    obtain ⟨xs, ys, hsplit⟩ := List.append_of_mem hmem
    obtain ⟨k, hk⟩ := h.chain.allocated (List.mem_append_left _ hmem)
    obtain ⟨m, hm, hshape⟩ := h.dealloc hsplit
    have hnext : next s (.exit t) = some { s.waitpid p with mem := m } := by
      simp only [next, hk, hm, Option.bind_eq_bind, Option.bind_some]
    exact ⟨_, hnext, hshape⟩
  | reap statuses => exact h.reap ha.2.1 ha.2.2

theorem Shape.del_list (h : Shape managerPid mainPid s) (ht : t ∈ s.children.map Prod.fst) :
    ∃ m, threadlistDel s.mem t = some m ∧
      m.list = some ((s.children.map Prod.fst).erase t ++ [.manager, .main]) := by
  obtain ⟨⟨t, p⟩, hmem, rfl⟩ := List.mem_map.mp ht
  obtain ⟨xs, ys, hsplit⟩ := List.append_of_mem hmem
  obtain ⟨-, -, hout, -, -⟩ := h.split hsplit
  obtain ⟨m, hm, hch, hst, -⟩ := h.threadlistDel_eq hsplit
  rw [List.map_append, List.mem_append, not_or] at hout
  have hlen := h.length_le
  rw [hsplit, ← hst] at hlen
  refine ⟨m, hm, ?_⟩
  rw [Mem.list, hch.follow_eq (by simp at hlen ⊢; omega), hsplit]
  simp [List.erase_append_right _ hout.1]

/-- The list functions of `Sthread.Model`, which work on the list of structs, are the ones in
memory. -/
theorem find_agrees {heap : Heap Thr ℤ} {q : Option Thr} {n : ℕ} {pid : Thr → ℤ}
    (h : Chain heap q xs none) (hn : xs.length ≤ n) (hp : ∀ x ∈ xs, pid x.1 = x.2) :
    find heap p n q = some (Sthread.threadlistFindbypid pid p (xs.map Prod.fst)) := by
  induction xs generalizing q n with
  | nil =>
    obtain rfl : q = none := h
    cases n <;> rfl
  | cons x xs ih =>
    obtain ⟨rfl, r, hr, ht⟩ := h
    obtain ⟨n, rfl⟩ : ∃ k, n = k + 1 := ⟨n - 1, by rw [List.length_cons] at hn; omega⟩
    have hx := hp x (List.mem_cons_self ..)
    simp only [find, hr, Option.bind_eq_bind, Option.bind_some]
    split_ifs with hpid
    · simp [Sthread.threadlistFindbypid, hx, hpid]
    · rw [ih ht (Nat.le_of_succ_le_succ hn) fun y hy => hp y (List.mem_cons_of_mem _ hy)]
      simp [Sthread.threadlistFindbypid, hx, hpid]

theorem Shape.del_agrees (h : Shape managerPid mainPid s) {pid : Thr → ℤ}
    (hp : ∀ x ∈ s.children, pid x.1 = x.2) (ht : t ∈ s.children.map Prod.fst) :
    (threadlistDel s.mem t).bind Mem.list =
      Sthread.threadlistDel pid t (s.children.map Prod.fst ++ [.manager, .main]) := by
  obtain ⟨m, hm, hlist⟩ := h.del_list ht
  obtain ⟨y, hy, rfl⟩ := List.mem_map.mp ht
  rw [hm, Option.bind_some, hlist, threadlistDel_eq_erase ht fun x hx => (h.workers x hx).2]
  intro u hu hpid
  obtain ⟨x, hx, rfl⟩ := List.mem_map.mp hu
  rw [hp x hx, hp y hy] at hpid
  exact congrArg Prod.fst (List.inj_on_of_nodup_map h.pids hx hy hpid)

/-- Every sequence of steps that the kernel, `malloc` and the clients allow, and in which no struct
is freed while its creation is pending, is carried through, without `abort()`, and after each of
them the list is the live workers, newest first, then the manager and the main thread. The deletion
of a worker takes off just that worker, and the addition of a struct adds just that struct, which
the deletion after a failed `clone` takes off again. -/
theorem list_shape (managerPid mainPid : ℤ) (as : List Act)
    (h : Meets next (fun s a => Allowed s a ∧ FreesRefused s a) as (start managerPid mainPid)) :
    ∃ s, exec next as (start managerPid mainPid) = some s ∧
      s.mem.list = some (s.children.map Prod.fst ++ [.manager, .main]) ∧
      (s.children.map Prod.fst).Nodup ∧
      (∀ t ∈ s.children.map Prod.fst, ∃ a, t = .worker a) ∧
      (∀ t ∈ s.children.map Prod.fst, ∃ m, threadlistDel s.mem t = some m ∧
        m.list = some ((s.children.map Prod.fst).erase t ++ [.manager, .main])) ∧
      ∀ t ∈ s.requests, ∃ m m' m'', threadlistAdd s.mem t = some m ∧
        m.list = some (t :: s.children.map Prod.fst ++ [.manager, .main]) ∧
        m.setPid t (-1) = some m' ∧ threadlistDel m' t = some m'' ∧ m''.list = s.mem.list := by
  obtain ⟨s, hs, hshape⟩ := h.total (fun _ _ hp ha => Shape.step hp ha.1 ha.2)
    (start_shape managerPid mainPid)
  refine ⟨s, hs, hshape.list_eq, hshape.nodup, fun t ht => ?_, fun t ht => hshape.del_list ht,
    fun t ht => ?_⟩
  · obtain ⟨hmain, hman⟩ := hshape.workers t ht
    cases t with
    | main => exact absurd rfl hmain
    | manager => exact absurd rfl hman
    | worker a => exact ⟨a, rfl⟩
  · obtain ⟨m, m', m'', hadd, hset, hdel, hlist, hch, hst, -⟩ := hshape.undo ht
    refine ⟨m, m', m'', hadd, hlist, hset, hdel, ?_⟩
    rw [hshape.list_eq, Mem.list, hch.follow_eq (by simpa [hst] using hshape.length_le)]
    simp

/-- Two threads are created, and between them a creation fails at `clone`; its struct is reused
with the pid that it still holds. Then the first thread exits. -/
def reused : List Act :=
  [.malloc (.worker 0) ⟨7, none⟩, .create (.worker 0) (.clone 10),
    .malloc (.worker 1) ⟨10, some .main⟩, .create (.worker 1) (.clone (-1)),
    .discard (.worker 1), .malloc (.worker 1) ⟨-1, none⟩, .create (.worker 1) (.clone 11),
    .reap [(10, false)]]

theorem list_shape_reused : ∃ s, exec next reused (start 2 1) = some s ∧
    s.children = [(.worker 1, 11)] ∧ s.mem.list = some [.worker 1, .manager, .main] := by
  obtain ⟨s, hs, hlist, -⟩ := list_shape 2 1 reused (by decide)
  have hc : (exec next reused (start 2 1)).map (fun s => s.children) =
      some [(.worker 1, 11)] := by decide
  rw [hs] at hc
  have hchildren : s.children = [(.worker 1, 11)] := Option.some.inj hc
  refine ⟨s, hs, hchildren, ?_⟩
  rw [hlist, hchildren]
  rfl

/-- A creation fails, and its struct is freed. The caller tries again, and is woken by someone else
before the manager has read the request: the status is still that of the first attempt, so the
struct is freed at once. At the third attempt `malloc` hands out the same block. -/
def recycled : List Act :=
  [.malloc (.worker 0) ⟨0, none⟩, .create (.worker 0) .mmap, .discard (.worker 0),
    .malloc (.worker 0) ⟨0, none⟩, .discard (.worker 0), .malloc (.worker 0) ⟨0, none⟩,
    .create (.worker 0) (.clone 10), .create (.worker 0) (.clone 11)]

/-- The manager links the one block for both requests, and the list is a cycle. -/
theorem list_cycle : Meets next Allowed recycled (start 2 1) ∧
    ∃ s, exec next recycled (start 2 1) = some s ∧
      s.children = [(.worker 0, 11), (.worker 0, 10)] ∧
      s.mem.heap (.worker 0) = some ⟨11, some (.worker 0)⟩ ∧ s.mem.list = none := by
  refine ⟨by decide, ?_⟩
  obtain ⟨s, hs, hv⟩ := Option.map_eq_some_iff.mp (show
    (exec next recycled (start 2 1)).map (fun s => decide (
      s.children = [(.worker 0, 11), (.worker 0, 10)] ∧
      s.mem.heap (.worker 0) = some ⟨11, some (.worker 0)⟩ ∧ s.mem.list = none)) =
        some true by decide)
  exact ⟨s, hs, of_decide_eq_true hv⟩

end AndroidKernel.Sthread.ThreadList
