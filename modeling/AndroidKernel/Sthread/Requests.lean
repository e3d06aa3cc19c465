import AndroidKernel.Sthread.Threads

/-! The requests of `sthread_create` on their way through the manager: the struct that a request
carries belongs to it alone and does not run before its `clone`, and not at all once the caller
has been told of a failure. -/

namespace AndroidKernel.Sthread
open Sync
variable {κ : Type} {s s' : State κ}

def Pc.self : Pc κ → Option Thr
  | .suspended _ self | .malloc self | .send self _ | .awaitReply self _ | .replied self _ =>
    some self
  | _ => none

def Pc.newthr : Pc κ → Option Thr
  | .send _ n | .awaitReply _ n | .replied _ n => some n
  | _ => none

def Pc.sending : Pc κ → Bool
  | .send .. => true
  | _ => false

def Stage.going : Stage → Bool
  | .pipe | .malloc | .add | .clone => true
  | _ => false

def Unborn (s : State κ) (t : Thr) : Prop :=
  (s.pc t).sending = true ∨ t ∈ s.msgs.map Prod.fst ∨ s.manager.pending = some t ∨ s.status t ≠ 0

structure Requests (s : State κ) : Prop where
  own : ∀ t self, (s.pc t).self = some self → self = t
  idle : ∀ t, s.running t = none ∨ t = .manager → s.pc t = .idle
  allocated : ∀ t p, s.running t = some p → t ∈ s.allocated
  newthr : ∀ t n, (s.pc t).newthr = some n → n ∈ s.allocated
  distinct : ∀ t u n, (s.pc t).newthr = some n → (s.pc u).newthr = some n → t = u
  sent : ∀ c n, (c, n) ∈ s.msgs → s.pc c = .awaitReply c n
  handled : ∀ stage c n, s.manager = .create stage c n → s.pc c = .awaitReply c n
  status : ∀ stage c n, s.manager = .create stage c n → stage.going = true → s.status c = 0
  unborn : ∀ t n, (s.pc t).newthr = some n → Unborn s t → s.running n = none

theorem Requests.client (h : Requests s) {t : Thr} (hp : s.pc t ≠ .idle) :
    (s.running t).isSome ∧ t ≠ .manager := by
  refine ⟨Option.isSome_iff_ne_none.mpr fun hr => hp (h.idle t (Or.inl hr)), ?_⟩
  rintro rfl
  exact hp (h.idle _ (Or.inr rfl))

theorem Requests.outside (h : Requests s) {t : Thr} (hp : ∀ n, s.pc t ≠ .awaitReply t n) :
    t ∉ s.msgs.map Prod.fst ∧ s.manager.caller ≠ some t := by
  constructor
  · intro hm
    obtain ⟨⟨c, n⟩, hc, rfl⟩ := List.mem_map.mp hm
    exact hp n (h.sent c n hc)
  · intro hm
    cases hc : s.manager with
    | read => simp [hc, ManagerPc.caller] at hm
    | create stage c n =>
      obtain rfl : c = t := by simpa [hc, ManagerPc.caller] using hm
      exact hp n (h.handled stage c n hc)

theorem Requests.notRunning (h : Requests s) {stage : Stage} {c n : Thr}
    (hm : s.manager = .create stage c n) (hs : stage ≠ .wake) : s.running n = none := by
  have hpend : s.manager.pending = some c := by
    rw [hm]
    cases stage <;> first | rfl | exact absurd rfl hs
  exact h.unborn c n (by rw [h.handled stage c n hm]; rfl) (Or.inr (Or.inr (Or.inl hpend)))

theorem Requests.adding_allocated (h : Requests s) {n : Thr} (hm : s.manager.adding = some n) :
    n ∈ s.allocated := by
  cases hc : s.manager with
  | read => simp [hc, ManagerPc.adding] at hm
  | create stage c t =>
    have hn : t = n := by cases stage <;> simp_all [ManagerPc.adding]
    exact h.newthr c n (by rw [h.handled stage c t hc, hn]; rfl)

theorem Requests.update (h : Requests s) {t : Thr} {p : Pc κ}
    (hpc : s'.pc = Function.update s.pc t p) (hr : s'.running = s.running)
    (ha : ∀ x ∈ s.allocated, x ∈ s'.allocated) (hm : s'.manager = s.manager)
    (hst : s'.status = s.status) (hc : (s.running t).isSome ∧ t ≠ .manager)
    (hself : ∀ self, p.self = some self → self = t)
    (hnew : ∀ n, p.newthr = some n → n ∈ s'.allocated ∧
      (∀ u, u ≠ t → (s.pc u).newthr ≠ some n) ∧ (Unborn s' t → s.running n = none))
    (hsent : ∀ c n, (c, n) ∈ s'.msgs → ((c, n) ∈ s.msgs ∧ c ≠ t) ∨ (c = t ∧ p = .awaitReply t n))
    (hcaller : s.manager.caller ≠ some t) : Requests s' := by
  have hpt : s'.pc t = p := by rw [hpc, Function.update_self]
  have hpu : ∀ u, u ≠ t → s'.pc u = s.pc u := fun u hu => by rw [hpc, Function.update_of_ne hu]
  refine ⟨fun u self hu => ?_, fun u hu => ?_, fun u q hu => ?_, fun u n hu => ?_,
    fun u v n hu hv => ?_, fun c n hcn => ?_, fun stage c n hcn => ?_, ?_, fun u n hu hub => ?_⟩
  · by_cases hut : u = t
    · subst hut
      exact hself self (hpt ▸ hu)
    · exact h.own u self (hpu u hut ▸ hu)
  · rw [hr] at hu
    have hut : u ≠ t := by
      rintro rfl
      rcases hu with hu | hu
      · simp [hu] at hc
      · exact hc.2 hu
    rw [hpu u hut]
    exact h.idle u hu
  · exact ha u (h.allocated u q (hr ▸ hu))
  · by_cases hut : u = t
    · subst hut
      exact (hnew n (hpt ▸ hu)).1
    · exact ha n (h.newthr u n (hpu u hut ▸ hu))
  · by_cases hut : u = t <;> by_cases hvt : v = t
    · rw [hut, hvt]
    · subst hut
      exact absurd (hpu v hvt ▸ hv) ((hnew n (hpt ▸ hu)).2.1 v hvt)
    · subst hvt
      exact absurd (hpu u hut ▸ hu) ((hnew n (hpt ▸ hv)).2.1 u hut)
    · exact h.distinct u v n (hpu u hut ▸ hu) (hpu v hvt ▸ hv)
  · rcases hsent c n hcn with ⟨hcn, hct⟩ | ⟨rfl, hp⟩
    · rw [hpu c hct]
      exact h.sent c n hcn
    · rw [hpt, hp]
  · rw [hm] at hcn
    have hct : c ≠ t := by
      rintro rfl
      exact hcaller (by rw [hcn]; rfl)
    rw [hpu c hct]
    exact h.handled stage c n hcn
  · rw [hm, hst]
    exact h.status
  · rw [hr]
    by_cases hut : u = t
    · subst hut
      exact (hnew n (hpt ▸ hu)).2.2 hub
    · rw [hpu u hut] at hu
      apply h.unborn u n hu
      rw [Unborn, hpu u hut, hm, hst] at hub
      -- a message of another thread was already there before the step
      refine hub.imp_right (Or.imp_left fun hmem => ?_)
      obtain ⟨⟨c, m⟩, hcm, rfl⟩ := List.mem_map.mp hmem
      rcases hsent c m hcm with ⟨hcm, -⟩ | ⟨hct, -⟩
      · exact List.mem_map.mpr ⟨(c, m), hcm, rfl⟩
      · exact absurd hct hut

theorem Requests.goto (h : Requests s) {t : Thr} {p : Pc κ}
    (hpc : s'.pc = Function.update s.pc t p) (hr : s'.running = s.running)
    (ha : s'.allocated = s.allocated) (hq : s'.msgs = s.msgs) (hm : s'.manager = s.manager)
    (hst : s'.status = s.status) (hc : (s.running t).isSome ∧ t ≠ .manager)
    (hself : ∀ self, p.self = some self → self = t)
    (hnew : ∀ n, p.newthr = some n → (s.pc t).newthr = some n) (hsend : p.sending = false)
    (hout : t ∉ s.msgs.map Prod.fst ∧ s.manager.caller ≠ some t) : Requests s' := by
  apply h.update hpc hr (fun x hx => ha ▸ hx) hm hst hc hself _ _ hout.2
  · intro n hn
    refine ⟨ha ▸ h.newthr t n (hnew n hn), fun u hu hun => hu (h.distinct u t n hun (hnew n hn)),
      fun hub => h.unborn t n (hnew n hn) ?_⟩
    rw [Unborn, hpc, Function.update_self, hsend, hq, hm, hst] at hub
    exact hub.imp_left (by simp)
  · intro c n hcn
    rw [hq] at hcn
    exact Or.inl ⟨hcn, fun e => hout.1 (List.mem_map.mpr ⟨(c, n), hcn, e⟩)⟩

theorem Requests.move (h : Requests s) {t : Thr} {p : Pc κ}
    (hpc : s'.pc = Function.update s.pc t p) (hr : s'.running = s.running)
    (ha : s'.allocated = s.allocated) (hq : s'.msgs = s.msgs) (hm : s'.manager = s.manager)
    (hst : s'.status = s.status) (hc : (s.running t).isSome ∧ t ≠ .manager)
    (hself : ∀ self, p.self = some self → self = t) (hnew : p.newthr = none)
    (hout : ∀ n, s.pc t ≠ .awaitReply t n) : Requests s' := by
  refine h.goto hpc hr ha hq hm hst hc hself (fun n hn => ?_) ?_ (h.outside hout)
  · rw [hnew] at hn
    cases hn
  · cases p <;> first | rfl | cases hnew

theorem Requests.malloc (h : Requests s) {t self : Thr} {a : Addr} {p : ℤ}
    (hp : s.pc t = .malloc self) (ha : .worker a ∉ s.allocated) :
    Requests { s.goto t (.send self (.worker a)) with
      allocated := insert (.worker a) s.allocated
      pid := Function.update s.pid (.worker a) p } := by
  have hout := h.outside (t := t) (by simp [hp])
  have hself : self = t := h.own t self (by rw [hp]; rfl)
  refine h.update rfl rfl (fun x hx => Finset.mem_insert_of_mem hx) rfl rfl
    (h.client (t := t) (by simp [hp])) ?_ ?_ ?_ hout.2
  · intro v hv
    exact (Option.some_inj.mp hv).symm.trans hself
  · rintro n ⟨⟩
    -- the block is unused, so it is nobody's struct
    refine ⟨Finset.mem_insert_self .., fun u _ hu => ha (h.newthr u _ hu), fun _ => ?_⟩
    by_contra hr
    obtain ⟨q, hq⟩ := Option.ne_none_iff_exists'.mp hr
    exact ha (h.allocated _ q hq)
  · intro c n hcn
    exact Or.inl ⟨hcn, fun e => hout.1 (List.mem_map.mpr ⟨(c, n), hcn, e⟩)⟩

theorem Requests.send (h : Requests s) {t n : Thr} (hp : s.pc t = .send t n) :
    Requests { s.goto t (.awaitReply t n) with msgs := s.msgs ++ [(t, n)] } := by
  have hout := h.outside (t := t) (by simp [hp])
  have hn : (s.pc t).newthr = some n := by rw [hp]; rfl
  refine h.update rfl rfl (fun x hx => hx) rfl rfl (h.client (t := t) (by simp [hp])) ?_ ?_ ?_
    hout.2
  · intro v hv
    exact (Option.some_inj.mp hv).symm
  · rintro m ⟨⟩
    exact ⟨h.newthr t n hn, fun u hu hun => hu (h.distinct u t n hun hn),
      fun _ => h.unborn t n hn (Or.inl (by rw [hp]; rfl))⟩
  · intro c m hcm
    rcases List.mem_append.mp hcm with hcm | hcm
    · exact Or.inl ⟨hcm, fun e => hout.1 (List.mem_map.mpr ⟨(c, m), hcm, e⟩)⟩
    · obtain ⟨rfl, rfl⟩ : c = t ∧ m = n := by simpa using hcm
      exact Or.inr ⟨rfl, rfl⟩

theorem Requests.free (h : Requests s) {t n : Thr} (hp : s.pc t = .replied t n)
    (hs : s.status t ≠ 0) :
    Requests { s.goto t .idle with allocated := s.allocated.erase n } := by
  have hmove : Requests (s.goto t .idle) := h.move rfl rfl rfl rfl rfl rfl
    (h.client (by simp [hp])) (fun _ h => (by cases h)) rfl (by simp [hp])
  have hrun : s.running n = none :=
    h.unborn t n (by rw [hp]; rfl) (Or.inr (Or.inr (Or.inr hs)))
  refine ⟨hmove.own, hmove.idle, fun u q hu => ?_, fun u m hu => ?_, hmove.distinct, hmove.sent,
    hmove.handled, hmove.status, hmove.unborn⟩
  · refine Finset.mem_erase.mpr ⟨?_, h.allocated u q hu⟩
    rintro rfl
    exact absurd (hrun.symm.trans hu) (by simp)
  · refine Finset.mem_erase.mpr ⟨?_, hmove.newthr u m hu⟩
    rintro rfl
    by_cases hut : u = t
    · subst hut
      simp [State.goto, Pc.newthr] at hu
    · refine hut (h.distinct u t m ?_ (by rw [hp]; rfl))
      simpa [State.goto, hut] using hu

theorem Requests.manage (h : Requests s) (hpc : s'.pc = s.pc) (hr : s'.running = s.running)
    (ha : s'.allocated = s.allocated) (hq : ∀ c n, (c, n) ∈ s'.msgs → (c, n) ∈ s.msgs)
    (hm : ∀ stage c n, s'.manager = .create stage c n →
      s.pc c = .awaitReply c n ∧ (stage.going = true → s'.status c = 0))
    (hub : ∀ t, Unborn s' t → Unborn s t) : Requests s' := by
  refine ⟨?_, ?_, ?_, ?_, ?_, fun c n hcn => ?_, fun stage c n hcn => ?_,
    fun stage c n hcn => (hm stage c n hcn).2, fun t n ht htb => ?_⟩
  · rw [hpc]
    exact h.own
  · rw [hpc, hr]
    exact h.idle
  · rw [hr, ha]
    exact h.allocated
  · rw [hpc, ha]
    exact h.newthr
  · rw [hpc]
    exact h.distinct
  · rw [hpc]
    exact h.sent c n (hq c n hcn)
  · rw [hpc]
    exact (hm stage c n hcn).1
  · rw [hr]
    exact h.unborn t n (hpc ▸ ht) (hub t htb)

theorem Requests.receive (h : Requests s) {c t : Thr} {msgs : List (Thr × Thr)}
    (hq : s.msgs = (c, t) :: msgs) :
    Requests { s with msgs := msgs, manager := .create .mmap c t } := by
  have hsub : ∀ x ∈ msgs, x ∈ s.msgs := fun x hx => hq ▸ List.mem_cons_of_mem _ hx
  have hmem : (c, t) ∈ s.msgs := hq ▸ List.mem_cons_self ..
  refine h.manage rfl rfl rfl (fun _ _ => hsub _) (fun stage c' n hc => ?_) fun u hu => ?_
  · cases hc
    exact ⟨h.sent c t hmem, fun hg => by cases hg⟩
  · rcases hu with hu | hu | hu | hu
    · exact Or.inl hu
    · exact Or.inr (Or.inl (List.map_subset _ hsub hu))
    · cases hu
      exact Or.inr (Or.inl (List.mem_map.mpr ⟨_, hmem, rfl⟩))
    · exact Or.inr (Or.inr (Or.inr hu))

theorem Requests.reply (h : Requests s) (c : Thr) :
    Requests { s.sthreadWake c .reply with manager := .read } := by
  refine h.manage rfl rfl rfl (fun _ _ h => h) (fun _ _ _ hc => by cases hc) fun u hu => ?_
  rcases hu with hu | hu | hu | hu
  · exact Or.inl hu
  · exact Or.inr (Or.inl hu)
  · cases hu
  · exact Or.inr (Or.inr (Or.inr hu))

theorem Requests.advance (h : Requests s) {stage stage' : Stage} {c t : Thr}
    (hm : s.manager = .create stage c t) (hs : stage ≠ .wake)
    (hm' : s'.manager = .create stage' c t) (hpc : s'.pc = s.pc) (hr : s'.running = s.running)
    (ha : s'.allocated = s.allocated) (hq : s'.msgs = s.msgs)
    (hst : stage'.going = true → s'.status c = 0) (hst' : ∀ u, s'.status u ≠ 0 → s.status u ≠ 0) :
    Requests s' := by
  refine h.manage hpc hr ha (fun _ _ h => hq ▸ h) (fun stage₁ c₁ n hc => ?_) fun u hu => ?_
  · obtain ⟨rfl, rfl, rfl⟩ := ManagerPc.create.inj (hm'.symm.trans hc)
    exact ⟨h.handled stage c t hm, hst⟩
  · have hpend : s'.manager.pending = some u → s.manager.pending = some u := by
      rw [hm, hm']
      cases stage <;> cases stage' <;> simp_all [ManagerPc.pending]
    rw [Unborn, hpc, hq] at hu
    exact hu.imp_right (Or.imp_right (Or.imp hpend (hst' u)))

theorem Requests.createOut (h : Requests s) {stage : Stage} {c t : Thr}
    (hm : s.manager = .create stage c t) (hs : stage ≠ .wake) : Requests (s.createOut c t) := by
  have hpend : s.manager.pending = some c := by
    rw [hm]
    cases stage <;> first | rfl | exact absurd rfl hs
  refine h.manage rfl rfl rfl (fun _ _ h => h) (fun stage' c' n hc => ?_) fun u hu => ?_
  · cases hc
    exact ⟨h.handled stage c t hm, fun hg => by cases hg⟩
  · by_cases huc : u = c
    · subst huc
      exact Or.inr (Or.inr (Or.inl hpend))
    · rcases hu with hu | hu | hu | hu
      · exact Or.inl hu
      · exact Or.inr (Or.inl hu)
      · cases hu
      · exact Or.inr (Or.inr (Or.inr (by simpa [State.createOut, huc] using hu)))

theorem Requests.clone (h : Requests s) {c t : Thr} {p : ℤ} {pid : Thr → ℤ} {pids : Finset ℤ}
    (hm : s.manager = .create .clone c t) (hq : c ∉ s.msgs.map Prod.fst) :
    Requests { s with
      pid := pid
      running := Function.update s.running t (some p)
      pids := pids
      manager := .create .wake c t } := by
  have hpc := h.handled .clone c t hm
  refine ⟨h.own, fun u hu => h.idle u ?_, fun u q hu => ?_, h.newthr, h.distinct, h.sent,
    fun stage c' n hc => ?_, fun stage c' n hc => ?_, fun u n hu hub => ?_⟩
  · refine hu.imp_left fun hu => ?_
    have hut : u ≠ t := by
      rintro rfl
      simp at hu
    simpa [hut] using hu
  · by_cases hut : u = t
    · exact hut ▸ h.newthr c t (by rw [hpc]; rfl)
    · exact h.allocated u q (by simpa [hut] using hu)
  · cases hc
    exact hpc
  · cases hc
    exact fun hg => by cases hg
  -- the request of `c` itself is now executed; every other one carries another struct
  · have huc : u ≠ c := by
      rintro rfl
      have hst := h.status .clone u t hm rfl
      rcases hub with hu' | hu' | hu' | hu'
      · simp [hpc, Pc.sending] at hu'
      · exact hq hu'
      · cases hu'
      · exact hu' hst
    have hnt : n ≠ t := by
      rintro rfl
      exact huc (h.distinct u c n hu (by rw [hpc]; rfl))
    simp only [Function.update_of_ne hnt]
    apply h.unborn u n hu
    simpa [Unborn, ManagerPc.pending, hm, Ne.symm huc] using hub

end AndroidKernel.Sthread
