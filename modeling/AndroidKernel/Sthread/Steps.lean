import AndroidKernel.Sthread.Model

/-! What one step of a client or of the manager can do. -/

namespace AndroidKernel.Sthread
open Sync
variable {κ : Type} {s s' : State κ}

/-- The steps of the manager; `advance` are the stages of `do_create` that only move on. -/
inductive ManagerStep (s : State κ) : State κ → Prop
  | receive (c t : Thr) (msgs : List (Thr × Thr)) (hm : s.manager = .read)
      (hq : s.msgs = (c, t) :: msgs) :
      ManagerStep s { s with msgs := msgs, manager := .create .mmap c t }
  | mmap (c t : Thr) (hm : s.manager = .create .mmap c t) :
      ManagerStep s { s with
        status := Function.update (Function.update s.status c 0) t 0
        manager := .create .pipe c t }
  | mmapFail (c t : Thr) (hm : s.manager = .create .mmap c t) :
      ManagerStep s ({ s with
        status := Function.update (Function.update s.status c 0) t 0 }.createOut c t)
  | pipe (c t : Thr) (hm : s.manager = .create .pipe c t) :
      ManagerStep s { s with
        pipe := Function.update s.pipe t [], manager := .create .malloc c t }
  | malloc (c t : Thr) (hm : s.manager = .create .malloc c t) :
      ManagerStep s { s with manager := .create .add c t }
  | fail (c t : Thr) (hm : s.manager = .create .pipe c t ∨ s.manager = .create .malloc c t) :
      ManagerStep s (s.createOut c t)
  | add (c t : Thr) (hm : s.manager = .create .add c t) :
      ManagerStep s { s with list := t :: s.list, manager := .create .clone c t }
  | clone (c t : Thr) (p : ℤ) (hm : s.manager = .create .clone c t) (hp : 0 < p)
      (hf : p ∉ s.pids) :
      ManagerStep s { s with
        pid := Function.update s.pid t p
        running := Function.update s.running t (some p)
        pids := insert p s.pids
        manager := .create .wake c t }
  | cloneFail (c t : Thr) (hm : s.manager = .create .clone c t) :
      ManagerStep s { s with
        pid := Function.update s.pid t (-1), manager := .create .listdel c t }
  | listdel (c t : Thr) (list : List Thr) (hm : s.manager = .create .listdel c t)
      (hl : threadlistDel s.pid t s.list = some list) :
      ManagerStep s ({ s with list := list }.createOut c t)
  | wake (c t : Thr) (hm : s.manager = .create .wake c t) :
      ManagerStep s { s.sthreadWake c .reply with manager := .read }

theorem managerStep_of_managerMain {ok : Bool} {p : ℤ} (h : managerMain s ok p = some s') :
    ManagerStep s s' := by
  unfold managerMain at h
  split at h
  · rename_i hm
    split at h
    · cases h
    · rename_i c t msgs hq
      cases h
      exact .receive c t msgs hm hq
  · rename_i stage c t hm
    cases stage with
    | mmap =>
      simp only [doCreate, Option.some.injEq] at h
      subst h
      split_ifs
      · exact .mmap c t hm
      · exact .mmapFail c t hm
    | pipe =>
      simp only [doCreate, Option.some.injEq] at h
      subst h
      split_ifs
      · exact .pipe c t hm
      · exact .fail c t (Or.inl hm)
    | malloc =>
      simp only [doCreate, Option.some.injEq] at h
      subst h
      split_ifs
      · exact .malloc c t hm
      · exact .fail c t (Or.inr hm)
    | add =>
      cases h
      exact .add c t hm
    | clone =>
      simp only [doCreate] at h
      split_ifs at h with hok hp
      · cases h
        exact .clone c t p hm hp.1 hp.2
      · cases h
        exact .cloneFail c t hm
    | listdel =>
      obtain ⟨list, hl, rfl⟩ := Option.map_eq_some_iff.mp h
      exact .listdel c t list hm hl
    | wake =>
      cases h
      exact .wake c t hm

theorem selfSuspend_eq_some {self : Thr} (h : s.selfSuspend self = some s') :
    ∃ token rest, s.pipe self = token :: rest ∧
      s' = { s with pipe := Function.update s.pipe self rest } := by
  unfold State.selfSuspend at h
  split at h
  · cases h
  · rename_i token rest hpipe
    cases h
    exact ⟨token, rest, hpipe, rfl⟩

variable [DecidableEq κ]

inductive ClientStep (s : State κ) (t : Thr) : State κ → Prop
  | call (op : Op) (k : κ) (hr : (s.running t).isSome) (hm : t ≠ .manager) (hp : s.pc t = .idle) :
      ClientStep s t (s.goto t (.spin op k))
  | create (self : Thr) (hr : (s.running t).isSome) (hm : t ≠ .manager) (hp : s.pc t = .idle)
      (hself : s.sthreadSelf t = some self) : ClientStep s t (s.goto t (.malloc self))
  | mallocFail (self : Thr) (hp : s.pc t = .malloc self) : ClientStep s t (s.goto t .idle)
  | malloc (self : Thr) (a : Addr) (p : ℤ) (hp : s.pc t = .malloc self)
      (ha : .worker a ∉ s.allocated) :
      ClientStep s t { s.goto t (.send self (.worker a)) with
        allocated := insert (.worker a) s.allocated
        pid := Function.update s.pid (.worker a) p }
  | spin : ClientStep s t s
  | take (op : Op) (k : κ) (hp : s.pc t = .spin op k) :
      ClientStep s t { s.goto t (.body op k) with flag := true }
  | body (op : Op) (k : κ) (a : Addr) (self : Thr) (c : Cell Thr) (e : Exit Thr)
      (hp : s.pc t = .body op k) (ha : s.heap a = none) (hself : s.sthreadSelf t = some self)
      (hc : crit op self a (s.cell k) = some (c, e)) :
      ClientStep s t { s.goto t (.unlock k e.after) with
        sem := Function.update s.sem k c.sem, heap := c.heap }
  | unlock (k : κ) (after : After Thr) (hp : s.pc t = .unlock k after) :
      ClientStep s t { s.goto t (.after k after) with flag := false }
  | ret (k : κ) (hp : s.pc t = .after k .ret ∨ s.pc t = .woken k) :
      ClientStep s t (s.goto t .idle)
  | suspend (k : κ) (self : Thr) (hp : s.pc t = .after k .suspend)
      (hself : s.sthreadSelf t = some self) : ClientStep s t (s.goto t (.suspended k self))
  | wake (k : κ) (w : Thr) (hp : s.pc t = .after k (.wake w)) :
      ClientStep s t ((s.sthreadWake w (.sem k)).goto t .idle)
  | woken (k : κ) (self : Thr) (token : Token κ) (rest : List (Token κ))
      (hp : s.pc t = .suspended k self) (hpipe : s.pipe self = token :: rest) :
      ClientStep s t
        ({ s with pipe := Function.update s.pipe self rest }.goto t (.woken k))
  | send (self newthr : Thr) (hp : s.pc t = .send self newthr) :
      ClientStep s t
        { s.goto t (.awaitReply self newthr) with msgs := s.msgs ++ [(self, newthr)] }
  | replied (self newthr : Thr) (token : Token κ) (rest : List (Token κ))
      (hp : s.pc t = .awaitReply self newthr) (hpipe : s.pipe self = token :: rest) :
      ClientStep s t
        ({ s with pipe := Function.update s.pipe self rest }.goto t (.replied self newthr))
  | created (self newthr : Thr) (hp : s.pc t = .replied self newthr) (hs : s.status self = 0) :
      ClientStep s t (s.goto t .idle)
  | free (self newthr : Thr) (hp : s.pc t = .replied self newthr) (hs : s.status self ≠ 0) :
      ClientStep s t { s.goto t .idle with allocated := s.allocated.erase newthr }

inductive Step (s : State κ) : Act κ → State κ → Prop
  | client (a : Act κ) (t : Thr) (s' : State κ) (h : ClientStep s t s') : Step s a s'
  | manager (ok : Bool) (p : ℤ) (s' : State κ) (h : ManagerStep s s') :
      Step s (.manage ok p) s'

theorem clientStep_of_threadStep {t : Thr} {a : Addr} (h : threadStep s t a (s.pc t) = some s') :
    ClientStep s t s' := by
  cases hp : s.pc t with
  | idle | malloc => simp [hp, threadStep] at h
  | spin op k =>
    simp only [hp, threadStep, Option.some.injEq] at h
    subst h
    split_ifs
    · exact .spin
    · exact .take op k hp
  | body op k =>
    simp only [hp, threadStep] at h
    split_ifs at h with ha
    obtain ⟨self, hself, h⟩ := Option.bind_eq_some_iff.mp h
    obtain ⟨⟨c, e⟩, hc, h⟩ := Option.bind_eq_some_iff.mp h
    cases h
    exact .body op k a self c e hp (by simpa using ha) hself hc
  | unlock k after =>
    simp only [hp, threadStep, Option.some.injEq] at h
    subst h
    exact .unlock k after hp
  | after k after =>
    cases after with
    | ret =>
      simp only [hp, threadStep, Option.some.injEq] at h
      subst h
      exact .ret k (Or.inl hp)
    | suspend =>
      simp only [hp, threadStep] at h
      obtain ⟨self, hself, h⟩ := Option.bind_eq_some_iff.mp h
      cases h
      exact .suspend k self hp hself
    | wake w =>
      simp only [hp, threadStep, Option.some.injEq] at h
      subst h
      exact .wake k w hp
  | suspended k self =>
    simp only [hp, threadStep] at h
    obtain ⟨u, hu, h⟩ := Option.bind_eq_some_iff.mp h
    obtain ⟨token, rest, hpipe, rfl⟩ := selfSuspend_eq_some hu
    cases h
    exact .woken k self token rest hp hpipe
  | woken k =>
    simp only [hp, threadStep, Option.some.injEq] at h
    subst h
    exact .ret k (Or.inr hp)
  | send self newthr =>
    simp only [hp, threadStep, Option.some.injEq] at h
    subst h
    exact .send self newthr hp
  | awaitReply self newthr =>
    simp only [hp, threadStep] at h
    obtain ⟨u, hu, h⟩ := Option.bind_eq_some_iff.mp h
    obtain ⟨token, rest, hpipe, rfl⟩ := selfSuspend_eq_some hu
    cases h
    exact .replied self newthr token rest hp hpipe
  | replied self newthr =>
    simp only [hp, threadStep, Option.some.injEq] at h
    subst h
    split_ifs with hs
    · exact .free self newthr hp hs
    · exact .created self newthr hp (by simpa using hs)

theorem step_of_next {a : Act κ} (h : next s a = some s') : Step s a s' := by
  cases a with
  | call t op k =>
    simp only [next] at h
    split_ifs at h with hg
    cases h
    exact .client _ t _ (.call op k hg.1 hg.2.1 hg.2.2)
  | create t =>
    simp only [next] at h
    split_ifs at h with hg
    obtain ⟨self, hself, h⟩ := Option.bind_eq_some_iff.mp h
    cases h
    exact .client _ t _ (.create self hg.1 hg.2.1 hg.2.2 hself)
  | malloc t block =>
    simp only [next] at h
    split at h
    · rename_i self hp
      split at h
      · cases h
        exact .client _ t _ (.mallocFail self hp)
      · rename_i a p
        split_ifs at h with ha
        cases h
        exact .client _ t _ (.malloc self a p hp ha)
    · cases h
  | step t a => exact .client _ t _ (clientStep_of_threadStep h)
  | manage ok p => exact .manager ok p _ (managerStep_of_managerMain h)

end AndroidKernel.Sthread
