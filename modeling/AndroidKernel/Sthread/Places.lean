import AndroidKernel.Sthread.Requests

/-! Where the wakeup of a thread is. A thread that waits for a semaphore is on a queue, or the
`up` that took it off is about to wake it, or the token is in its pipe; a thread that waits for
the manager has its request in the manager's pipe, or in the manager's hands, or answered. The
rules below move one thread from one of these places to the next. -/

namespace AndroidKernel.Sthread
open Sync
variable {κ : Type}

inductive Place (κ : Type)
  | nowhere
  | queued (k : κ)
  | waking (k : κ) (waker : Thr)
  | token (k : κ)
  | requested
  | handled
  | replied
deriving DecidableEq, Repr

def Place.tokens : Place κ → List (Token κ)
  | .token k => [.sem k]
  | .replied => [.reply]
  | _ => []

def Place.InDown (k : κ) : Place κ → Prop
  | .queued j | .waking j _ | .token j => j = k
  | _ => False

def Place.InCreate : Place κ → Prop
  | .requested | .handled | .replied => True
  | _ => False

def Pc.waking : Pc κ → Option (κ × Thr)
  | .unlock k (.wake w) | .after k (.wake w) => some (k, w)
  | _ => none

def Fits (t : Thr) : Pc κ → Place κ → Prop
  | .unlock k .suspend, p | .after k .suspend, p => p.InDown k
  | .suspended k self, p => self = t ∧ p.InDown k
  | .awaitReply self _, p => self = t ∧ p.InCreate
  | _, p => p = .nowhere

variable [DecidableEq κ]

/-- The thread is at this place and at no other: on the queues as often as the place says, woken
by whom it says, with just the tokens it says, and so on. -/
structure At (queue : κ → List Thr) (s : State κ) (t : Thr) (p : Place κ) : Prop where
  queued : ∀ k, (queue k).count t = if p = .queued k then 1 else 0
  waking : ∀ k u, (s.pc u).waking = some (k, t) ↔ p = .waking k u
  tokens : s.pipe t = p.tokens
  requested : (s.msgs.map Prod.fst).count t = if p = .requested then 1 else 0
  handled : s.manager.caller = some t ↔ p = .handled

def Placed (queue : κ → List Thr) (s : State κ) (place : Thr → Place κ) : Prop :=
  ∀ t, At queue s t (place t) ∧ Fits t (s.pc t) (place t)

variable {s s' : State κ} {queue queue' : κ → List Thr} {place : Thr → Place κ} {t w : Thr}
  {p q : Place κ} {k : κ}

theorem At.unique (hp : At queue s t p) (hq : At queue s t q) : p = q := by
  cases p with
  | queued k =>
    have h := (hp.queued k).symm.trans (hq.queued k)
    by_contra hne
    simp [Ne.symm hne] at h
  | waking k u => exact ((hq.waking k u).mp ((hp.waking k u).mpr rfl)).symm
  | requested =>
    have h := hp.requested.symm.trans hq.requested
    by_contra hne
    simp [Ne.symm hne] at h
  | handled => exact (hq.handled.mp (hp.handled.mpr rfl)).symm
  | token k =>
    have h := hp.tokens.symm.trans hq.tokens
    cases q <;> simp_all [Place.tokens]
  | replied =>
    have h := hp.tokens.symm.trans hq.tokens
    cases q <;> simp_all [Place.tokens]
  | nowhere =>
    cases q with
    | nowhere => rfl
    | queued k => simpa using (hp.queued k).symm.trans (hq.queued k)
    | waking k u => exact (hp.waking k u).mp ((hq.waking k u).mpr rfl)
    | requested => simpa using hp.requested.symm.trans hq.requested
    | handled => exact hp.handled.mp (hq.handled.mpr rfl)
    | token k => simpa [Place.tokens] using hp.tokens.symm.trans hq.tokens
    | replied => simpa [Place.tokens] using hp.tokens.symm.trans hq.tokens

theorem At.congr (h : At queue s t p) (hq : ∀ k, (queue' k).count t = (queue k).count t)
    (hw : ∀ k u, (s'.pc u).waking = some (k, t) ↔ (s.pc u).waking = some (k, t))
    (hp : s'.pipe t = s.pipe t)
    (hr : (s'.msgs.map Prod.fst).count t = (s.msgs.map Prod.fst).count t)
    (hm : s'.manager.caller = some t ↔ s.manager.caller = some t) : At queue' s' t p :=
  ⟨fun k => (hq k).trans (h.queued k), fun k u => (hw k u).trans (h.waking k u),
    hp.trans h.tokens, hr.trans h.requested, hm.trans h.handled⟩

omit [DecidableEq κ] in
theorem Fits.inDown {pc : Pc κ} (h : Fits t pc p) (hp : p.InDown k) (hq : q.InDown k) :
    Fits t pc q := by
  have hne : p ≠ .nowhere := by
    rintro rfl
    exact hp
  have heq : ∀ j, p.InDown j → j = k := by
    intro j hj
    cases p with
    | queued | waking | token => exact hj.symm.trans hp
    | nowhere | requested | handled | replied => exact hp.elim
  have hcreate : ¬ p.InCreate := fun hc => by cases p <;> simp_all [Place.InDown, Place.InCreate]
  cases pc with
  | unlock j after | after j after =>
    cases after with
    | suspend => exact heq j h ▸ hq
    | ret | wake => exact absurd h hne
  | suspended j self => exact ⟨h.1, heq j h.2 ▸ hq⟩
  | awaitReply => exact absurd h.2 hcreate
  | idle | spin | body | woken | malloc | send | replied => exact absurd h hne

omit [DecidableEq κ] in
theorem Fits.inCreate {pc : Pc κ} (h : Fits t pc p) (hp : p.InCreate) (hq : q.InCreate) :
    Fits t pc q := by
  have hne : p ≠ .nowhere := by
    rintro rfl
    exact hp
  have hdown : ∀ j, ¬ p.InDown j := fun j hj => by
    cases p <;> simp_all [Place.InDown, Place.InCreate]
  cases pc with
  | unlock j after | after j after =>
    cases after with
    | suspend => exact absurd h (hdown j)
    | ret | wake => exact absurd h hne
  | suspended j self => exact absurd h.2 (hdown j)
  | awaitReply self n => exact ⟨h.1, hq⟩
  | idle | spin | body | woken | malloc | send | replied => exact absurd h hne

theorem Placed.move (h : Placed queue s place) (w : Thr) (p : Place κ)
    (hothers : ∀ t, t ≠ w → At queue s t (place t) → At queue' s' t (place t))
    (hfits : ∀ t, t ≠ w → Fits t (s.pc t) (place t) → Fits t (s'.pc t) (place t))
    (hat : At queue' s' w p) (hw : Fits w (s'.pc w) p) :
    Placed queue' s' (Function.update place w p) := by
  intro t
  by_cases htw : t = w
  · subst htw
    rw [Function.update_self]
    exact ⟨hat, hw⟩
  · rw [Function.update_of_ne htw]
    exact ⟨hothers t htw (h t).1, hfits t htw (h t).2⟩

omit [DecidableEq κ] in
theorem waking_update {pc : Pc κ} (hpc : s'.pc = Function.update s.pc t pc) {x : Thr}
    (hold : ∀ k, (s.pc t).waking ≠ some (k, x)) (hnew : ∀ k, pc.waking ≠ some (k, x)) (k : κ)
    (u : Thr) : (s'.pc u).waking = some (k, x) ↔ (s.pc u).waking = some (k, x) := by
  by_cases hut : u = t
  · subst hut
    rw [hpc, Function.update_self]
    exact iff_of_false (hnew k) (hold k)
  · rw [hpc, Function.update_of_ne hut]

omit [DecidableEq κ] in
theorem fits_update {pc : Pc κ} (hpc : s'.pc = Function.update s.pc t pc)
    (ht : Fits t pc (place t)) {u : Thr} (h : Fits u (s.pc u) (place u)) :
    Fits u (s'.pc u) (place u) := by
  by_cases hut : u = t
  · subst hut
    rw [hpc, Function.update_self]
    exact ht
  · rw [hpc, Function.update_of_ne hut]
    exact h

theorem Placed.goto (h : Placed queue s place) {pc : Pc κ}
    (hpc : s'.pc = Function.update s.pc t pc) (hw : pc.waking = (s.pc t).waking)
    (hp : s'.pipe = s.pipe) (hq : s'.msgs = s.msgs) (hm : s'.manager = s.manager)
    (hf : Fits t pc (place t)) : Placed queue s' place := by
  intro u
  have hwaking : ∀ v, (s'.pc v).waking = (s.pc v).waking := by
    intro v
    by_cases hvt : v = t
    · subst hvt
      rw [hpc, Function.update_self, hw]
    · rw [hpc, Function.update_of_ne hvt]
  exact ⟨(h u).1.congr (fun _ => rfl) (fun k v => by rw [hwaking]) (by rw [hp]) (by rw [hq])
    (by rw [hm]), fits_update hpc hf (h u).2⟩

theorem Placed.nowhere (h : Placed queue s place) {pc : Pc κ} (hp : s.pc t = pc)
    (hf : Fits t pc (place t) → place t = .nowhere) : place t = .nowhere := hf (hp ▸ (h t).2)

theorem At.answered (h : At queue s t p) {token : Token κ} {rest : List (Token κ)}
    (hpipe : s.pipe t = token :: rest) :
    t ∉ s.msgs.map Prod.fst ∧ s.manager.caller ≠ some t := by
  have htok := hpipe.symm.trans h.tokens
  have hne : p ≠ .requested ∧ p ≠ .handled := by
    cases p <;> simp_all [Place.tokens]
  refine ⟨List.count_eq_zero.mp ?_, fun hm => hne.2 (h.handled.mp hm)⟩
  rw [h.requested, if_neg hne.1]

theorem Placed.manage (h : Placed queue s place) (hpc : s'.pc = s.pc) (hp : s'.pipe = s.pipe)
    (hq : s'.msgs = s.msgs) (hm : s'.manager.caller = s.manager.caller) :
    Placed queue s' place := by
  intro u
  rw [hpc]
  exact ⟨(h u).1.congr (fun _ => rfl) (fun k v => by rw [hpc]) (by rw [hp]) (by rw [hq])
    (by rw [hm]), (h u).2⟩

section Moves
variable {pc : Pc κ} (h : Placed queue s place) (hpc : s'.pc = Function.update s.pc t pc)
include h hpc

theorem Placed.enqueue (ht : place t = .nowhere) (hw : (s.pc t).waking = none)
    (hw' : pc.waking = none) (hf : Fits t pc (.queued k)) (hp : s'.pipe = s.pipe)
    (hq : s'.msgs = s.msgs) (hm : s'.manager = s.manager) :
    Placed (Function.update queue k (queue k ++ [t])) s' (Function.update place t (.queued k)) := by
  have hat := (h t).1
  rw [ht] at hat
  have hwaking : ∀ x j u, (s'.pc u).waking = some (j, x) ↔ (s.pc u).waking = some (j, x) :=
    fun x => waking_update hpc (by simp [hw]) (by simp [hw'])
  refine h.move t _ (fun u hu hau => ?_) (fun u hu hfu => ?_) ⟨fun j => ?_, fun j u => ?_, ?_, ?_, ?_⟩
    ?_
  · refine hau.congr (fun j => ?_) (hwaking u) (by rw [hp]) (by rw [hq]) (by rw [hm])
    by_cases hj : j = k
    · subst hj
      simp [List.count_append, Ne.symm hu]
    · rw [Function.update_of_ne hj]
  · rwa [hpc, Function.update_of_ne hu]
  · have := hat.queued j
    by_cases hj : j = k
    · subst hj
      simp_all [List.count_append]
    · simp_all [Ne.symm hj]
  · rw [hwaking, hat.waking]
    simp
  · rw [hp, hat.tokens]
    rfl
  · rw [hq, hat.requested]
    simp
  · rw [hm, hat.handled]
    simp
  · rw [hpc, Function.update_self]
    exact hf

theorem Placed.dequeue {rest : List Thr} (hqueue : queue k = w :: rest) (ht : place t = .nowhere)
    (hw : (s.pc t).waking = none) (hw' : pc.waking = some (k, w)) (hf : Fits t pc .nowhere)
    (hp : s'.pipe = s.pipe) (hq : s'.msgs = s.msgs) (hm : s'.manager = s.manager) :
    Placed (Function.update queue k rest) s' (Function.update place w (.waking k t)) := by
  have hpw : place w = .queued k := by
    have := (h w).1.queued k
    rw [hqueue, List.count_cons_self] at this
    by_contra hne
    simp [hne] at this
  have hat := (h w).1
  rw [hpw] at hat
  have hwt : w ≠ t := by
    rintro rfl
    rw [ht] at hpw
    cases hpw
  refine h.move w _ (fun u hu hau => ?_) (fun u hu hfu => ?_) ⟨fun j => ?_, fun j u => ?_, ?_, ?_, ?_⟩
    ?_
  · refine hau.congr (fun j => ?_) (waking_update hpc (by simp [hw]) (by simp [hw', Ne.symm hu]))
      (by rw [hp]) (by rw [hq]) (by rw [hm])
    by_cases hj : j = k
    · subst hj
      rw [Function.update_self, hqueue, List.count_cons_of_ne (Ne.symm hu)]
    · rw [Function.update_of_ne hj]
  · exact fits_update hpc (ht ▸ hf) hfu
  · have := hat.queued j
    by_cases hj : j = k
    · subst hj
      rw [hqueue] at this
      simp_all
    · simp_all [Ne.symm hj]
  · by_cases hut : u = t
    · subst hut
      rw [hpc, Function.update_self, hw']
      simp
    · rw [hpc, Function.update_of_ne hut, hat.waking]
      simp [Ne.symm hut]
  · rw [hp, hat.tokens]
    rfl
  · rw [hq, hat.requested]
    simp
  · rw [hm, hat.handled]
    simp
  · rw [hpc, Function.update_of_ne hwt]
    exact (hpw ▸ (h w).2).inDown (k := k) rfl rfl

theorem Placed.wake (hw : (s.pc t).waking = some (k, w)) (hw' : pc.waking = none)
    (ht : place t = .nowhere) (hf : Fits t pc .nowhere)
    (hp : s'.pipe = Function.update s.pipe w (s.pipe w ++ [.sem k])) (hq : s'.msgs = s.msgs)
    (hm : s'.manager = s.manager) : Placed queue s' (Function.update place w (.token k)) := by
  have hpw : place w = .waking k t := ((h w).1.waking k t).mp hw
  have hat := (h w).1
  rw [hpw] at hat
  have hwt : w ≠ t := by
    rintro rfl
    rw [ht] at hpw
    cases hpw
  refine h.move w _ (fun u hu hau => ?_) (fun u hu hfu => ?_) ⟨fun j => ?_, fun j u => ?_, ?_, ?_, ?_⟩
    ?_
  · refine hau.congr (fun _ => rfl) (waking_update hpc (by simp [hw, Ne.symm hu]) (by simp [hw']))
      ?_ (by rw [hq]) (by rw [hm])
    rw [hp, Function.update_of_ne hu]
  · exact fits_update hpc (ht ▸ hf) hfu
  · rw [hat.queued]
    simp
  · by_cases hut : u = t
    · subst hut
      rw [hpc, Function.update_self, hw']
      simp
    · rw [hpc, Function.update_of_ne hut, hat.waking]
      simp [Ne.symm hut]
  · rw [hp, Function.update_self, hat.tokens]
    rfl
  · rw [hq, hat.requested]
    simp
  · rw [hm, hat.handled]
    simp
  · rw [hpc, Function.update_of_ne hwt]
    exact (hpw ▸ (h w).2).inDown (k := k) rfl rfl

theorem Placed.read {token : Token κ} {rest : List (Token κ)} (hpipe : s.pipe t = token :: rest)
    (hw : (s.pc t).waking = none) (hw' : pc.waking = none) (hf : Fits t pc .nowhere)
    (hp : s'.pipe = Function.update s.pipe t rest) (hq : s'.msgs = s.msgs)
    (hm : s'.manager = s.manager) : Placed queue s' (Function.update place t .nowhere) := by
  have hat := (h t).1
  have htok := hat.tokens
  rw [hpipe] at htok
  have hplace : (∃ j, place t = .token j) ∨ place t = .replied := by
    cases hpl : place t <;> simp_all [Place.tokens]
  have hrest : rest = [] := by
    rcases hplace with ⟨j, hj⟩ | hj
    · rw [hj] at htok
      exact (List.cons.inj htok).2
    · rw [hj] at htok
      exact (List.cons.inj htok).2
  have hwaking : ∀ x j u, (s'.pc u).waking = some (j, x) ↔ (s.pc u).waking = some (j, x) :=
    fun x => waking_update hpc (by simp [hw]) (by simp [hw'])
  refine h.move t _ (fun u hu hau => ?_) (fun u hu hfu => ?_) ⟨fun j => ?_, fun j u => ?_, ?_, ?_, ?_⟩
    ?_
  · refine hau.congr (fun _ => rfl) (hwaking u) ?_ (by rw [hq]) (by rw [hm])
    rw [hp, Function.update_of_ne hu]
  · rwa [hpc, Function.update_of_ne hu]
  · rw [hat.queued]
    rcases hplace with ⟨i, hi⟩ | hi <;> simp [hi]
  · rw [hwaking, hat.waking]
    rcases hplace with ⟨i, hi⟩ | hi <;> simp [hi]
  · rw [hp, Function.update_self, hrest]
    rfl
  · rw [hq, hat.requested]
    rcases hplace with ⟨i, hi⟩ | hi <;> simp [hi]
  · rw [hm, hat.handled]
    rcases hplace with ⟨i, hi⟩ | hi <;> simp [hi]
  · rw [hpc, Function.update_self]
    exact hf

theorem Placed.send {n : Thr} (ht : place t = .nowhere) (hw : (s.pc t).waking = none)
    (hw' : pc.waking = none) (hf : Fits t pc .requested) (hp : s'.pipe = s.pipe)
    (hq : s'.msgs = s.msgs ++ [(t, n)]) (hm : s'.manager = s.manager) :
    Placed queue s' (Function.update place t .requested) := by
  have hat := (h t).1
  rw [ht] at hat
  have hwaking : ∀ x j u, (s'.pc u).waking = some (j, x) ↔ (s.pc u).waking = some (j, x) :=
    fun x => waking_update hpc (by simp [hw]) (by simp [hw'])
  refine h.move t _ (fun u hu hau => ?_) (fun u hu hfu => ?_) ⟨fun j => ?_, fun j u => ?_, ?_, ?_, ?_⟩
    ?_
  · refine hau.congr (fun _ => rfl) (hwaking u) (by rw [hp]) ?_ (by rw [hm])
    rw [hq]
    simp [List.count_append, Ne.symm hu]
  · rwa [hpc, Function.update_of_ne hu]
  · rw [hat.queued]
    simp
  · rw [hwaking, hat.waking]
    simp
  · rw [hp, hat.tokens]
    rfl
  · have := hat.requested
    rw [hq]
    simp_all [List.count_append]
  · rw [hm, hat.handled]
    simp
  · rw [hpc, Function.update_self]
    exact hf

end Moves

theorem Placed.receive (h : Placed queue s place) {c n : Thr} {msgs : List (Thr × Thr)}
    (hm : s.manager = .read) (hq : s.msgs = (c, n) :: msgs) :
    Placed queue { s with msgs := msgs, manager := .create .mmap c n }
      (Function.update place c .handled) := by
  have hpl : place c = .requested := by
    have := (h c).1.requested
    rw [hq, List.map_cons, List.count_cons_self] at this
    by_contra hne
    simp [hne] at this
  have hat := (h c).1
  rw [hpl] at hat
  refine h.move c _ (fun u hu hau => ?_) (fun u hu hfu => hfu) ⟨fun j => ?_, fun j u => ?_, ?_, ?_, ?_⟩
    ?_
  · refine hau.congr (fun _ => rfl) (fun _ _ => Iff.rfl) rfl ?_ ?_
    · rw [hq, List.map_cons, List.count_cons_of_ne (Ne.symm hu)]
    · rw [hm]
      simp [ManagerPc.caller, Ne.symm hu]
  · rw [hat.queued]
    simp
  · rw [hat.waking]
    simp
  · rw [hat.tokens]
    rfl
  · have := hat.requested
    rw [hq] at this
    simp_all
  · simp [ManagerPc.caller]
  · exact (hpl ▸ (h c).2).inCreate trivial trivial

theorem Placed.reply (h : Placed queue s place) {c n : Thr} (hm : s.manager = .create .wake c n) :
    Placed queue { s.sthreadWake c .reply with manager := .read }
      (Function.update place c .replied) := by
  have hpl : place c = .handled := (h c).1.handled.mp (by rw [hm]; rfl)
  have hat := (h c).1
  rw [hpl] at hat
  refine h.move c _ (fun u hu hau => ?_) (fun u hu hfu => hfu) ⟨fun j => ?_, fun j u => ?_, ?_, ?_, ?_⟩
    ?_
  · refine hau.congr (fun _ => rfl) (fun _ _ => Iff.rfl) ?_ rfl ?_
    · simp [State.sthreadWake, hu]
    · rw [hm]
      simp [ManagerPc.caller, Ne.symm hu]
  · rw [hat.queued]
    simp
  · exact (hat.waking j u).trans (by simp)
  · simp [State.sthreadWake, hat.tokens, Place.tokens]
  · exact hat.requested.trans (by simp)
  · simp [ManagerPc.caller]
  · exact (hpl ▸ (h c).2).inCreate trivial trivial

end AndroidKernel.Sthread
