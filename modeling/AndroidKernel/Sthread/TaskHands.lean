import AndroidKernel.Sthread.Hands

/-! The steps of the tasks leave every struct in one pair of hands. -/

namespace AndroidKernel.Sthread.Lifecycle
variable {κ : Type}

section Tasks
variable {s : Life κ} {unsent live : List Thr} {p : ℤ} {t : Thr}

theorem update_view {α : Type} (view : Task κ → α) {task : ℤ → Task κ} {x : Task κ}
    (h : view x = view (task p)) (q : ℤ) : view (Function.update task p x q) = view (task q) := by
  by_cases hq : q = p
  · rw [hq, Function.update_self, h]
  · rw [Function.update_of_ne hq]

theorem update_eq_iff {task : ℤ → Task κ} {x y : Task κ} {q : ℤ} :
    Function.update task p x q = y ↔ q = p ∧ x = y ∨ q ≠ p ∧ task q = y := by
  by_cases hq : q = p
  · simp [hq]
  · simp [hq]

theorem Alive.retask (h : Alive s unsent live) {x : Task κ} {letters : List Letter}
    (ht : x.thread = (s.task p).thread)
    (hr : x.isRunning = true → (s.task p).isRunning = true)
    (hsend : ∀ u self n, x = .running u (.send self n) →
      n ∈ unsent ∧ ∀ q v self', s.task q ≠ .running v (.send self' n))
    (hself : ∀ t pc, x = .running t pc → ∀ u ∈ pc.self, u = t)
    (hmain : x.returned = true → x.thread ≠ some .main)
    (hpend : pending letters = pending s.letters)
    (hexits : (leaving letters ++ s.manager.ending.toList).Nodup)
    (hleavers : ∀ t, t ∈ leaving letters ++ s.manager.ending.toList ↔
      ∃ q, (s.task q).thread = some t ∧ (Function.update s.task p x q).leaving = true)
    (hordered : letters.Pairwise fun x y => ∀ t, x.msg = .exit t → t ∉ y.msg.refers)
    (hold : ∀ y ∈ letters, ∀ c t, y.msg = .create c t → y ∈ s.letters)
    (hfresh : ∀ y ∈ letters, y.stale = false) :
    Alive { s with task := Function.update s.task p x, letters := letters } unsent live := by
  have hthread := update_view Task.thread ht
  have hidle : ∀ q, (s.task q).isRunning = false →
      (Function.update s.task p x q).isRunning = false := by
    intro q hq
    by_cases hqp : q = p
    · rw [hqp] at hq
      rw [hqp, Function.update_self, ← Bool.not_eq_true]
      intro hx
      simp [hr hx] at hq
    · rwa [Function.update_of_ne hqp]
  have hselves : ∀ q u pc, Function.update s.task p x q = .running u pc → ∀ v ∈ pc.self, v = u := by
    intro q u pc hq
    rcases update_eq_iff.mp hq with ⟨-, hx⟩ | ⟨-, hq⟩
    · exact hself u pc hx
    · exact h.self q u pc hq
  have hstays : ∀ q, (Function.update s.task p x q).returned = true →
      (Function.update s.task p x q).thread ≠ some .main := by
    intro q
    by_cases hqp : q = p
    · rw [hqp, Function.update_self]
      exact hmain
    · rw [Function.update_of_ne hqp]
      exact h.stays q
  have hown : owned { s with task := Function.update s.task p x, letters := letters } unsent live =
      owned s unsent live := by
    simp only [owned, hpend]
  refine { h with nodup := hown ▸ h.nodup, allocated := hown ▸ h.allocated, sends := ?_,
                  once := ?_, thread := ?_, task := ?_, dying := ?_, manager := ?_,
                  adding := ?_, self := hselves, main := (hthread _).trans h.main,
                  stays := hstays, exits := hexits, leavers := ?_, ordered := hordered,
                  callers := ?_, fresh := ⟨hfresh, h.fresh.2⟩, uncalled := hown ▸ h.uncalled }
  · intro q u self n hq
    rcases update_eq_iff.mp hq with ⟨-, hx⟩ | ⟨-, hq⟩
    · exact (hsend u self n hx).1
    · exact h.sends q u self n hq
  · intro q q' u v self self' n hq hq'
    rcases update_eq_iff.mp hq with ⟨hqp, hx⟩ | ⟨-, hs⟩
    · rcases update_eq_iff.mp hq' with ⟨hqp', -⟩ | ⟨-, hs'⟩
      · exact hqp.trans hqp'.symm
      · exact absurd hs' ((hsend u self n hx).2 q' v self')
    · rcases update_eq_iff.mp hq' with ⟨-, hx'⟩ | ⟨-, hs'⟩
      · exact absurd hs ((hsend v self' n hx').2 q u self)
      · exact h.once q q' u v self self' n hs hs'
  · intro q u hq
    exact h.thread q u ((hthread q).symm.trans hq)
  · intro u hu hd
    exact (hthread _).trans (h.task u hu hd)
  · intro u hu
    exact ⟨(h.dying u hu).1, (hthread _).trans (h.dying u hu).2⟩
  · exact ⟨h.manager.1, (hthread _).trans h.manager.2⟩
  · intro u hu
    exact hidle _ (h.adding u hu)
  · intro u
    refine (hleavers u).trans (exists_congr fun q => ?_)
    rw [hthread]
  · intro y hy c n hc
    obtain ⟨⟨q, hq⟩, he⟩ := h.callers y (hold y hy c n hc) c n hc
    exact ⟨⟨q, (hthread q).trans hq⟩, he⟩

theorem Alive.quiet (h : Alive s unsent live) {x : Task κ}
    (ht : x.thread = (s.task p).thread) (hl : x.leaving = (s.task p).leaving)
    (hr : x.isRunning = true → (s.task p).isRunning = true)
    (hsend : ∀ u self n, x = .running u (.send self n) →
      n ∈ unsent ∧ ∀ q v self', s.task q ≠ .running v (.send self' n))
    (hself : ∀ t pc, x = .running t pc → ∀ u ∈ pc.self, u = t)
    (hmain : x.returned = true → x.thread ≠ some .main) :
    Alive { s with task := Function.update s.task p x } unsent live := by
  have hleaving := update_view Task.leaving hl
  refine h.retask ht hr hsend hself hmain rfl h.exits (fun u => ?_) h.ordered
    (fun y hy _ _ _ => hy) h.fresh.1
  refine (h.leavers u).trans (exists_congr fun q => ?_)
  rw [hleaving]

theorem Alive.move (h : Alive s unsent live) {pc pc' : Pc κ} (hp : s.task p = .running t pc)
    (hpc : pc.plain = true) (hpc' : pc'.plain = true) (hx : pc' = .exitSend → t ≠ .main)
    (hself : ∀ u ∈ pc'.self, u ∈ pc.self ∨ s.sthreadSelf p = some u) :
    Alive { s with task := Function.update s.task p (.running t pc') } unsent live := by
  have hplain : ∀ c : Pc κ, c.plain = true → (Task.running t c).leaving = false := by
    intro c hc
    cases c <;> first | rfl | cases hc
  refine h.quiet (by rw [hp]; rfl) (by rw [hp, hplain _ hpc, hplain _ hpc'])
    (fun _ => by rw [hp]; rfl) ?_ ?_ ?_
  · rintro u self n hx
    cases hx
    cases hpc'
  · rintro u c ⟨⟩ v hv
    rcases hself v hv with hv | hv
    · exact h.self p t pc hp v hv
    · exact Option.some.inj (hv.symm.trans (h.sthreadSelf_eq hp))
  · intro hret
    cases pc' with
    | exitSend => simpa [Task.thread] using hx rfl
    | exitWait => cases hpc'
    | _ => cases hret

theorem Alive.exited (h : Alive s unsent live) (hp : s.task p = .running t .exitWait) :
    Alive { s with task := Function.update s.task p (.zombie t) } unsent live := by
  refine h.quiet (by rw [hp]; rfl) (by rw [hp]; rfl) (fun hr => by cases hr)
    (fun _ _ _ hx => by cases hx) (fun _ _ hx => by cases hx) fun _ => ?_
  have := h.stays p (by rw [hp]; rfl)
  rwa [hp] at this

theorem Alive.exitSend (h : Alive s unsent live) (hp : s.task p = .running t .exitSend) :
    Alive { s with
      task := Function.update s.task p (.running t .exitWait)
      letters := s.letters ++ [s.letter (.exit t)] } unsent live := by
  have hletter : s.letter (.exit t) = ⟨.exit t, false⟩ := by
    simp [Life.letter, Msg.refers, h.allocated_of_thread (t := t) (p := p) (by rw [hp]; rfl)]
  rw [hletter]
  have hthread : (s.task p).thread = some t := by rw [hp]; rfl
  have hstay : (s.task p).leaving = false := by rw [hp]; rfl
  have hnew := h.not_leaving hthread hstay
  have hperm : (leaving (s.letters ++ [⟨.exit t, false⟩]) ++ s.manager.ending.toList).Perm
      (t :: (leaving s.letters ++ s.manager.ending.toList)) := by
    simp only [leaving, List.filterMap_append, List.append_assoc]
    exact List.perm_middle
  refine h.retask (by rw [hp]; rfl) (fun _ => by rw [hp]; rfl) (fun _ _ _ hx => by cases hx)
    (fun _ _ hx => by cases hx; simp [Pc.self]) (fun _ => ?_) ?_
    (hperm.nodup_iff.mpr (List.nodup_cons.mpr ⟨hnew, h.exits⟩)) (fun u => ?_)
    (h.ordered_snoc fun u hu => ?_) ?_ (h.fresh_snoc rfl)
  · have := h.stays p (by rw [hp]; rfl)
    rwa [hp] at this
  · simp [pending]
  · rw [hperm.mem_iff, List.mem_cons, h.leavers u]
    constructor
    · rintro (rfl | ⟨q, hq, hl⟩)
      · exact ⟨p, hthread, by rw [Function.update_self]; rfl⟩
      · have hqp : q ≠ p := by
          rintro rfl
          simp [hstay] at hl
        exact ⟨q, hq, by rwa [Function.update_of_ne hqp]⟩
    · rintro ⟨q, hq, hl⟩
      by_cases hqp : q = p
      · rw [hqp, hthread] at hq
        exact Or.inl (Option.some.inj hq).symm
      · rw [Function.update_of_ne hqp] at hl
        exact Or.inr ⟨q, hq, hl⟩
  · have hut : u ≠ t := by
      rintro rfl
      exact hnew (List.mem_append_left _ hu)
    simpa [Msg.refers] using hut
  · intro y hy c n hc
    rcases List.mem_append.mp hy with hy | hy
    · exact hy
    · obtain rfl := List.mem_singleton.mp hy
      cases hc

theorem ManagerPc.unborn_of_adding {m : ManagerPc} {u : Thr} (h : m.adding = some u) :
    m.unborn = some u := by
  cases m with
  | create stage c t => cases stage <;> first | exact h | cases h
  | _ => cases h

end Tasks

section Structs
variable {s : Life κ} {unsent live : List Thr} {p : ℤ} {c n t : Thr}

theorem Alive.repid (h : Alive s unsent live) {q : ℤ} (hlive : n ∉ live)
    (hmain : n ≠ .main) (hman : n ≠ .manager)
    (ha : ∀ u, s.manager.adding = some u →
      (s.task (Function.update s.pid n q u)).isRunning = false) :
    Alive { s with pid := Function.update s.pid n q } unsent live := by
  have hpid : ∀ u, u ≠ n → Function.update s.pid n q u = s.pid u := fun u hu =>
    Function.update_of_ne hu _ _
  have hne : ∀ u ∈ live, u ≠ n := by
    rintro u hu rfl
    exact hlive hu
  refine { h with thread := ?_, task := ?_, dying := ?_, manager := ?_, adding := ha, main := ?_ }
  · intro p u hu
    obtain ⟨hl, hp⟩ := h.thread p u hu
    have hun : u ≠ n := by
      rcases hl with hl | rfl
      · exact hne u hl
      · exact Ne.symm hmain
    exact ⟨hl, by simpa only [hpid u hun] using hp⟩
  · intro u hu hd
    simp only [hpid u (hne u hu)]
    exact h.task u hu hd
  · intro u hu
    obtain ⟨hl, hnone⟩ := h.dying u hu
    simp only [hpid u (hne u hl)]
    exact ⟨hl, hnone⟩
  · simp only [hpid _ (Ne.symm hman)]
    exact h.manager
  · simp only [hpid _ (Ne.symm hmain)]
    exact h.main

theorem Alive.alloc (h : Alive s unsent live) (old : ℤ) (hn : n ∉ s.allocated) (hmain : n ≠ .main)
    (hman : n ≠ .manager) :
    Alive { s with
      allocated := insert n s.allocated
      pid := Function.update s.pid n old
      deallocs := Function.update s.deallocs n 0 } (n :: unsent) live := by
  have hne : ∀ u ∈ owned s unsent live, u ≠ n := by
    rintro u hu rfl
    exact hn (h.allocated u hu).1
  have hpid : Alive { s with pid := Function.update s.pid n old } unsent live := by
    refine h.repid (fun hl => hne n (mem_owned.mpr (by tauto)) rfl) hmain hman fun u hu => ?_
    have hun : u ≠ n := hne u (mem_owned.mpr (by have := ManagerPc.unborn_of_adding hu; tauto))
    rw [Function.update_of_ne hun]
    exact h.adding u hu
  have hcount : ∀ u, u ≠ n → Function.update s.deallocs n 0 u = s.deallocs u := fun u hu =>
    Function.update_of_ne hu _ _
  refine { hpid with nodup := List.nodup_cons.mpr ⟨fun hu => hne n hu rfl, h.nodup⟩,
                     allocated := ?_, sends := ?_, called := ?_, uncalled := ?_,
                     home := Finset.mem_insert_of_mem h.home }
  · intro u hu
    rcases List.mem_cons.mp hu with rfl | hu
    · exact ⟨Finset.mem_insert_self .., hmain, hman⟩
    · exact ⟨Finset.mem_insert_of_mem (h.allocated u hu).1, (h.allocated u hu).2⟩
  · intro u
    by_cases hu : u = n
    · simp only [hu, Function.update_self]
      exact Nat.zero_le 1
    · simp only [hcount u hu]
      exact h.called u
  · intro u hu hd
    rcases List.mem_cons.mp hu with rfl | hu
    · exact Function.update_self ..
    · simp only [hcount u (hne u hu)]
      exact h.uncalled u hu hd
  · exact fun q u self m hq => List.mem_cons_of_mem _ (h.sends q u self m hq)

theorem Alive.malloc (h : Alive s unsent live) {self : Thr} {old : ℤ}
    (hp : s.task p = .running t (.malloc self)) (hn : n ∉ s.allocated) (hmain : n ≠ .main)
    (hman : n ≠ .manager) :
    Alive { s with
      task := Function.update s.task p (.running t (.send self n))
      allocated := insert n s.allocated
      pid := Function.update s.pid n old
      deallocs := Function.update s.deallocs n 0 } (n :: unsent) live := by
  have hself : self = t := h.self p t _ hp self rfl
  refine (h.alloc old hn hmain hman).quiet (by rw [hp]; rfl) (by rw [hp]; rfl)
    (fun _ => by rw [hp]; rfl) ?_ ?_ (fun hr => by cases hr)
  · rintro u self' m hx
    cases hx
    refine ⟨List.mem_cons_self .., fun q v self' hq => hn ?_⟩
    exact (h.allocated n (mem_owned.mpr (Or.inl (h.sends q v self' n hq)))).1
  · rintro u pc hx v hv
    cases hx
    exact (Option.some.inj hv).symm.trans hself

theorem Alive.post (h : Alive s unsent live) (hc : (s.task p).thread = some c)
    (hl : (s.task p).leaving = false) (hn : n ∈ unsent)
    (hsend : ∀ q v self, s.task q ≠ .running v (.send self n)) :
    Alive { s with letters := s.letters ++ [s.letter (.create c n)] } (unsent.erase n) live := by
  have hletter : s.letter (.create c n) = ⟨.create c n, false⟩ := by
    simp [Life.letter, Msg.refers, h.allocated_of_thread hc,
      (h.allocated n (mem_owned.mpr (Or.inl hn))).1]
  rw [hletter]
  have hleaving : leaving (s.letters ++ [⟨.create c n, false⟩]) = leaving s.letters := by
    simp [leaving]
  have hperm : (owned { s with letters := s.letters ++ [⟨.create c n, false⟩] }
      (unsent.erase n) live).Perm (owned s unsent live) := by
    have hpend : pending (s.letters ++ [⟨.create c n, false⟩]) = pending s.letters ++ [n] := by
      simp [pending]
    simp only [owned, hpend]
    refine (List.Perm.append_right _ ?_).append_right _ |>.append_right _
    rw [← List.append_assoc]
    exact (List.perm_append_singleton n _).trans
      ((List.perm_cons_erase hn).append_right (pending s.letters)).symm
  have hstays := h.not_leaving hc hl
  refine { h with nodup := hperm.nodup_iff.mpr h.nodup,
                  allocated := fun u hu => h.allocated u (hperm.mem_iff.mp hu), sends := ?_,
                  exits := by rw [hleaving]; exact h.exits,
                  leavers := by rw [hleaving]; exact h.leavers,
                  ordered := h.ordered_snoc fun u hu => ?_, callers := ?_,
                  fresh := ⟨h.fresh_snoc rfl, h.fresh.2⟩,
                  uncalled := fun u hu hd => h.uncalled u (hperm.mem_iff.mp hu) hd }
  · intro q u self m hq
    have hmn : m ≠ n := by
      rintro rfl
      exact hsend q u self hq
    exact (List.mem_erase_of_ne hmn).mpr (h.sends q u self m hq)
  · have hm := List.mem_append_left s.manager.ending.toList hu
    have huc : u ≠ c := by
      rintro rfl
      exact hstays hm
    have hun : u ≠ n := by
      rintro rfl
      obtain ⟨q, hq, -⟩ := (h.leavers u).mp hm
      rcases (h.thread q u hq).1 with hlive | hmain
      · exact (h.disjoint.1 u hn).2.1 hlive
      · exact (h.allocated u (mem_owned.mpr (Or.inl hn))).2.1 hmain
    simp [Msg.refers, huc, hun]
  · intro x hx c' n' hmsg
    rcases List.mem_append.mp hx with hx | hx
    · exact h.callers x hx c' n' hmsg
    · rw [List.mem_singleton.mp hx] at hmsg
      cases hmsg
      refine ⟨⟨p, hc⟩, fun he => hstays (List.mem_append_right _ ?_)⟩
      simp [he]

theorem Alive.send (h : Alive s unsent live) {self : Thr}
    (hp : s.task p = .running t (.send self n)) :
    Alive { s with
      task := Function.update s.task p (.running t (.awaitReply self n))
      letters := s.letters ++ [s.letter (.create self n)] } (unsent.erase n) live := by
  have hself : self = t := h.self p t _ hp self rfl
  have hwait : Alive { s with task := Function.update s.task p (.running t (.awaitReply self n)) }
      unsent live := by
    refine h.quiet (by rw [hp]; rfl) (by rw [hp]; rfl) (fun _ => by rw [hp]; rfl)
      (fun _ _ _ hx => by cases hx) ?_ (fun hr => by cases hr)
    rintro u pc hx v hv
    cases hx
    exact (Option.some.inj hv).symm.trans hself
  refine hwait.post (p := p) ?_ ?_ (h.sends p t self n hp) ?_
  · simp only [Function.update_self, hself]
    rfl
  · simp only [Function.update_self]
    rfl
  · intro q v self' hq
    by_cases hqp : q = p
    · simp only [hqp, Function.update_self] at hq
      cases hq
    · simp only [Function.update_of_ne hqp] at hq
      exact hqp (h.once q p v t self' self n hq hp)

theorem Alive.discard (h : Alive s unsent live) (hn : n ∈ s.refused) :
    Alive { s with
      allocated := s.allocated.erase n
      letters := s.letters.map (Letter.freed n)
      refused := s.refused.erase n } unsent live := by
  obtain ⟨hun, hpend, hborn, href⟩ := h.disjoint
  have hmain : n ≠ .main := (h.allocated n (mem_owned.mpr (by tauto))).2.1
  have hletters : s.letters.map (Letter.freed n) = s.letters := by
    refine h.unreferred (fun hm => (hpend n hm).2 hn) fun q hq => ?_
    rcases (h.thread q n hq).1 with hl | hm
    · exact href n hl hn
    · exact hmain hm
  have hsub : (owned { s with refused := s.refused.erase n } unsent live).Sublist
      (owned s unsent live) := List.erase_sublist.append_left _
  have hout : n ∉ owned { s with refused := s.refused.erase n } unsent live := by
    have hnodup : s.refused.Nodup := (List.nodup_append.mp h.nodup).2.1
    rw [mem_owned]
    rintro (hx | hx | hx | hx | hx)
    · exact (hun n hx).2.2 hn
    · exact (hpend n hx).2 hn
    · exact (hborn n hx).2 hn
    · exact href n hx hn
    · exact hnodup.not_mem_erase hx
  rw [hletters]
  exact { h with nodup := hsub.nodup h.nodup, allocated := h.allocated_erase hsub hout,
                 home := Finset.mem_erase.mpr ⟨Ne.symm hmain, h.home⟩,
                 uncalled := fun u hu hd => h.uncalled u (hsub.subset hu) hd }

theorem Alive.free (h : Alive s unsent live) {self : Thr}
    (hp : s.task p = .running t (.replied self n)) (hn : n ∈ s.refused) :
    Alive { s with
      task := Function.update s.task p (.running t .idle)
      allocated := s.allocated.erase n
      letters := s.letters.map (Letter.freed n)
      refused := s.refused.erase n } unsent live :=
  (h.discard hn).move hp rfl rfl (by simp) (by simp [Pc.self])

end Structs

end AndroidKernel.Sthread.Lifecycle
