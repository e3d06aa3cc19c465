import AndroidKernel.Sthread.Lifecycle

/-! What one step does to the life of the structs, in runs that keep clear of three situations: a
new struct is linked whose old `pid` is that of a running task, `reap_children` collects a thread
whose `MSG_THREAD_EXIT` is still unread, and `sthread_create` frees a struct that the manager did
not refuse. -/

namespace AndroidKernel.Sthread.Lifecycle
open Sync
variable {κ : Type}

def Pc.self : Pc κ → Option Thr
  | .suspended self | .malloc self | .send self _ | .awaitReply self _ | .replied self _ => self
  | _ => none

def Pc.plain : Pc κ → Bool
  | .send _ _ | .exitWait => false
  | _ => true

def Task.isRunning : Task κ → Bool
  | .running _ _ => true
  | _ => false

def Orderly (s : State κ) : Act κ → Prop
  | .manage ok p => match s.manager with
    | .reap => match s.task p with
      | .zombie t => ok = true → .exit t ∉ s.letters.map Letter.msg
      | _ => True
    | .create .add _ t => (s.task (s.pid t)).isRunning = false
    | _ => True
  | .step p _ => match s.task p with
    | .running _ (.replied self newthr) => s.status self ≠ 0 → newthr ∈ s.refused
    | _ => True
  | _ => True

instance Orderly.decidable (s : State κ) (a : Act κ) : Decidable (Orderly s a) := by
  unfold Orderly
  split
  · split
    · split <;> infer_instance
    · infer_instance
    · infer_instance
  · split <;> infer_instance
  · infer_instance

def early : Stage → Bool
  | .mmap | .pipe | .malloc | .add => true
  | _ => false

/-- The steps of the tasks and of the manager; `move` is a task that only goes on, `hand` a stage
of `do_create` that does. -/
inductive Step (s : Life κ) : Life κ → Prop
  | stay : Step s s
  | move (p : ℤ) (t : Thr) (pc pc' : Pc κ) (hp : s.task p = .running t pc)
      (hpc : pc.plain = true) (hpc' : pc'.plain = true) (hx : pc' = .exitSend → t ≠ .main)
      (hself : ∀ u ∈ pc'.self, u ∈ pc.self ∨ s.sthreadSelf p = some u) :
      Step s { s with task := Function.update s.task p (.running t pc') }
  | malloc (p : ℤ) (t self : Thr) (a : Addr) (old : ℤ) (hp : s.task p = .running t (.malloc self))
      (ha : .worker a ∉ s.allocated) :
      Step s { s with
        task := Function.update s.task p (.running t (.send self (.worker a)))
        allocated := insert (.worker a) s.allocated
        pid := Function.update s.pid (.worker a) old
        deallocs := Function.update s.deallocs (.worker a) 0 }
  | send (p : ℤ) (t self n : Thr) (hp : s.task p = .running t (.send self n)) :
      Step s { s with
        task := Function.update s.task p (.running t (.awaitReply self n))
        letters := s.letters ++ [s.letter (.create self n)] }
  | free (p : ℤ) (t self n : Thr) (hp : s.task p = .running t (.replied self n))
      (hr : n ∈ s.refused) :
      Step s { s with
        task := Function.update s.task p (.running t .idle)
        allocated := s.allocated.erase n
        letters := s.letters.map (Letter.freed n)
        refused := s.refused.erase n }
  | exitSend (p : ℤ) (t : Thr) (hp : s.task p = .running t .exitSend) :
      Step s { s with
        task := Function.update s.task p (.running t .exitWait)
        letters := s.letters ++ [s.letter (.exit t)] }
  | exited (p : ℤ) (t : Thr) (hp : s.task p = .running t .exitWait) :
      Step s { s with task := Function.update s.task p (.zombie t) }
  | reaped (p : ℤ) (z t : Thr) (hm : s.manager = .reap) (hp : s.task p = .zombie z)
      (hz : .exit z ∉ s.letters.map Letter.msg) :
      Step s { s with
        task := Function.update s.task p .none
        manager := .dealloc t
        deallocs := Function.update s.deallocs t (s.deallocs t + 1) }
  | reapedAll (hm : s.manager = .reap) : Step s { s with manager := .read }
  | receiveCreate (c t : Thr) (stale : Bool) (letters : List Letter) (hm : s.manager = .read)
      (hl : s.letters = ⟨.create c t, stale⟩ :: letters) :
      Step s { s with
        letters := letters
        staleHandled := s.staleHandled || stale
        manager := .create .mmap c t }
  | receiveExit (t : Thr) (stale : Bool) (letters : List Letter) (hm : s.manager = .read)
      (hl : s.letters = ⟨.exit t, stale⟩ :: letters) :
      Step s { s with
        letters := letters
        staleHandled := s.staleHandled || stale
        manager := .wakeExit t }
  | hand (stage stage' : Stage) (c t : Thr) (hm : s.manager = .create stage c t)
      (he : early stage = true) (he' : early stage' = true) :
      Step s { s with manager := .create stage' c t }
  | refuse (stage : Stage) (c t : Thr) (hm : s.manager = .create stage c t)
      (he : early stage = true) :
      Step s { s with refused := t :: s.refused, manager := .create .wake c t }
  | add (c t : Thr) (hm : s.manager = .create .add c t)
      (hp : (s.task (s.pid t)).isRunning = false) :
      Step s { s with list := t :: s.list, manager := .create .clone c t }
  | clone (c t : Thr) (p : ℤ) (hm : s.manager = .create .clone c t) (h0 : 0 < p)
      (hp : p ≠ s.managerPid) (hf : s.task p = .none) :
      Step s { s with
        pid := Function.update s.pid t p
        task := Function.update s.task p (.running t .idle)
        manager := .create .wake c t }
  | cloneFail (c t : Thr) (hm : s.manager = .create .clone c t) :
      Step s { s with pid := Function.update s.pid t (-1), manager := .create .listdel c t }
  | listdel (c t : Thr) (list : List Thr) (hm : s.manager = .create .listdel c t)
      (hl : threadlistDel s.pid t s.list = some list) :
      Step s { s with
        list := list, refused := t :: s.refused, manager := .create .wake c t }
  | reply (c t : Thr) (hm : s.manager = .create .wake c t) : Step s { s with manager := .reap }
  | wakeExit (t : Thr) (hm : s.manager = .wakeExit t) : Step s { s with manager := .wait t }
  | waited (t z : Thr) (hm : s.manager = .wait t) (hz : s.task (s.pid t) = .zombie z) :
      Step s { s with
        task := Function.update s.task (s.pid t) .none
        manager := .dealloc t
        deallocs := Function.update s.deallocs t (s.deallocs t + 1) }
  | waitFails (t : Thr) (hm : s.manager = .wait t) (hz : s.task (s.pid t) = .none) :
      Step s { s with
        manager := .dealloc t
        deallocs := Function.update s.deallocs t (s.deallocs t + 1) }
  | dealloc (t : Thr) (list : List Thr) (hm : s.manager = .dealloc t)
      (hl : threadlistDel s.pid t s.list = some list) :
      Step s { s with
        allocated := s.allocated.erase t
        letters := s.letters.map (Letter.freed t)
        refused := s.refused.erase t
        list := list
        manager := .reap }

variable {s s' : State κ}

theorem sthreadWake_life {t : Thr} (h : s.sthreadWake t = some s') : s'.toLife = s.toLife := by
  unfold State.sthreadWake at h
  split_ifs at h
  obtain ⟨n, -, rfl⟩ := Option.map_eq_some_iff.mp h
  rfl

theorem selfSuspend_life {self : Thr} (h : s.selfSuspend self = some s') :
    s'.toLife = s.toLife := by
  unfold State.selfSuspend at h
  split_ifs at h
  split at h
  · cases h
    rfl
  · cases h

theorem doCreate_step {c t : Thr} {ok : Bool} {p : ℤ} {stage : Stage}
    (hm : s.manager = .create stage c t) (ho : Orderly s (.manage ok p))
    (h : doCreate s c t ok p stage = some s') : Step s.toLife s'.toLife := by
  cases stage with
  | mmap =>
    simp only [doCreate, Option.some.injEq] at h
    subst h
    split_ifs
    · exact .hand .mmap .pipe c t hm rfl rfl
    · exact .refuse .mmap c t hm rfl
  | pipe =>
    simp only [doCreate, Option.some.injEq] at h
    subst h
    split_ifs
    · exact .hand .pipe .malloc c t hm rfl rfl
    · exact .refuse .pipe c t hm rfl
  | malloc =>
    simp only [doCreate, Option.some.injEq] at h
    subst h
    split_ifs
    · exact .hand .malloc .add c t hm rfl rfl
    · exact .refuse .malloc c t hm rfl
  | add =>
    cases h
    simp only [Orderly, hm] at ho
    exact .add c t hm ho
  | clone =>
    simp only [doCreate] at h
    split_ifs at h with hok hp
    · cases h
      refine .clone c t p hm hp.1 hp.2.1 ?_
      have hu := hp.2.2
      cases ht : s.task p with
      | none => rfl
      | running | zombie => simp [ht, Task.unused] at hu
    · cases h
      exact .cloneFail c t hm
  | listdel =>
    obtain ⟨list, hl, rfl⟩ := Option.map_eq_some_iff.mp h
    exact .listdel c t list hm hl
  | wake =>
    obtain ⟨s₁, hw, rfl⟩ := Option.map_eq_some_iff.mp h
    have hlife := sthreadWake_life hw
    simp only [hlife]
    exact .reply c t hm

theorem managerMain_step {ok : Bool} {p : ℤ} (ho : Orderly s (.manage ok p))
    (h : managerMain s ok p = some s') : Step s.toLife s'.toLife := by
  unfold managerMain at h
  split at h
  · rename_i hm
    split_ifs at h with hok
    · split at h
      · rename_i z hz
        simp only [Option.bind_eq_bind, Option.bind_eq_some_iff] at h
        obtain ⟨t, -, h⟩ := h
        cases h
        simp only [Orderly, hm, hz] at ho
        exact .reaped p z t hm hz (ho hok)
      · cases h
    · cases h
      exact .reapedAll hm
  · rename_i hm
    split at h
    · cases h
    · rename_i l letters hl
      obtain ⟨msg, stale⟩ := l
      cases msg with
      | create c t =>
        cases h
        exact .receiveCreate c t stale letters hm hl
      | exit t =>
        cases h
        exact .receiveExit t stale letters hm hl
  · rename_i stage c t hm
    split_ifs at h
    exact doCreate_step hm ho h
  · rename_i t hm
    obtain ⟨s₁, hw, rfl⟩ := Option.map_eq_some_iff.mp h
    have hlife := sthreadWake_life hw
    simp only [hlife]
    exact .wakeExit t hm
  · rename_i t hm
    split_ifs at h
    split at h
    · rename_i z hz
      cases h
      exact .waited t z hm hz
    · cases h
    · rename_i hz
      cases h
      exact .waitFails t hm hz
  · rename_i t hm
    obtain ⟨s₁, hd, rfl⟩ := Option.map_eq_some_iff.mp h
    unfold State.threadDealloc at hd
    split_ifs at hd
    simp only [Option.bind_eq_bind, Option.bind_eq_some_iff, Option.some.injEq] at hd
    obtain ⟨list, hl, rfl⟩ := hd
    exact .dealloc t list hm hl

variable [DecidableEq κ]

theorem threadStep_step {p : ℤ} {t : Thr} {a : Addr} {pc : Pc κ} (hp : s.task p = .running t pc)
    (ho : Orderly s (.step p a)) (h : threadStep s p t a pc = some s') :
    Step s.toLife s'.toLife := by
  cases pc with
  | idle | malloc => cases h
  | spin op k =>
    simp only [threadStep, Option.some.injEq] at h
    subst h
    split_ifs
    · exact .stay
    · exact .move p t _ (.body op k) hp rfl rfl (by simp) (by simp [Pc.self])
  | body op k =>
    simp only [threadStep] at h
    split_ifs at h
    simp only [Option.bind_eq_bind, Option.bind_eq_some_iff, Option.some.injEq] at h
    obtain ⟨self, -, r, -, rfl⟩ := h
    exact .move p t _ (.unlock r.2.after) hp rfl rfl (by simp) (by simp [Pc.self])
  | unlock after =>
    cases h
    exact .move p t _ (.after after) hp rfl rfl (by simp) (by simp [Pc.self])
  | after after =>
    cases after with
    | ret =>
      cases h
      exact .move p t _ .idle hp rfl rfl (by simp) (by simp [Pc.self])
    | suspend =>
      simp only [threadStep, Option.bind_eq_bind, Option.bind_eq_some_iff, Option.some.injEq] at h
      obtain ⟨self, hself, rfl⟩ := h
      refine .move p t _ (.suspended self) hp rfl rfl (by simp) fun u hu => Or.inr ?_
      obtain rfl : self = u := Option.some.inj hu
      exact hself
    | wake w =>
      obtain ⟨s₁, hw, rfl⟩ := Option.map_eq_some_iff.mp h
      simp only [State.goto, sthreadWake_life hw]
      exact .move p t _ .idle hp rfl rfl (by simp) (by simp [Pc.self])
  | suspended self =>
    obtain ⟨s₁, hw, rfl⟩ := Option.map_eq_some_iff.mp h
    simp only [State.goto, selfSuspend_life hw]
    exact .move p t _ .idle hp rfl rfl (by simp) (by simp [Pc.self])
  | send self n =>
    cases h
    exact .send p t self n hp
  | awaitReply self n =>
    obtain ⟨s₁, hw, rfl⟩ := Option.map_eq_some_iff.mp h
    simp only [State.goto, selfSuspend_life hw]
    exact .move p t _ (.replied self n) hp rfl rfl (by simp) fun u hu => Or.inl hu
  | replied self n =>
    simp only [Orderly, hp] at ho
    simp only [threadStep] at h
    split_ifs at h with hs
    · cases h
      exact .move p t _ .idle hp rfl rfl (by simp) (by simp [Pc.self])
    · cases h
      exact .free p t self n hp (ho hs)
  | exitSend =>
    cases h
    exact .exitSend p t hp
  | exitWait =>
    obtain ⟨s₁, hw, rfl⟩ := Option.map_eq_some_iff.mp h
    simp only [selfSuspend_life hw]
    exact .exited p t hp

theorem step_of_next {a : Act κ} (ho : Orderly s a) (h : next s a = some s') :
    Step s.toLife s'.toLife := by
  cases a with
  | call p op k =>
    simp only [next] at h
    split at h
    · rename_i t hp
      cases h
      exact .move p t _ (.spin op k) hp rfl rfl (by simp) (by simp [Pc.self])
    · cases h
  | suspend p =>
    simp only [next] at h
    split at h
    · rename_i t hp
      simp only [Option.bind_eq_bind, Option.bind_eq_some_iff, Option.some.injEq] at h
      obtain ⟨self, hself, rfl⟩ := h
      refine .move p t _ (.suspended self) hp rfl rfl (by simp) fun u hu => Or.inr ?_
      obtain rfl : self = u := Option.some.inj hu
      exact hself
    · cases h
  | wake p w =>
    simp only [next] at h
    split at h
    · rw [sthreadWake_life h]
      exact .stay
    · cases h
  | create p =>
    simp only [next] at h
    split at h
    · rename_i t hp
      simp only [Option.bind_eq_bind, Option.bind_eq_some_iff, Option.some.injEq] at h
      obtain ⟨self, hself, rfl⟩ := h
      refine .move p t _ (.malloc self) hp rfl rfl (by simp) fun u hu => Or.inr ?_
      obtain rfl : self = u := Option.some.inj hu
      exact hself
    · cases h
  | malloc p block =>
    simp only [next] at h
    split at h
    · rename_i t self hp
      split at h
      · cases h
        exact .move p t _ .idle hp rfl rfl (by simp) (by simp [Pc.self])
      · rename_i a old
        split_ifs at h with ha
        cases h
        exact .malloc p t self a old hp ha
    · cases h
  | finish p retval =>
    simp only [next] at h
    split at h
    · rename_i a hp
      cases h
      exact .move p _ _ .exitSend hp rfl rfl (by simp) (by simp [Pc.self])
    · cases h
  | step p a =>
    simp only [next] at h
    split at h
    · rename_i t pc hp
      exact threadStep_step hp ho h
    · cases h
  | manage ok p => exact managerMain_step ho h

end AndroidKernel.Sthread.Lifecycle
