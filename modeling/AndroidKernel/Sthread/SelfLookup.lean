import AndroidKernel.Sthread.Dealloc

/-! `sthread_self` looks its caller up by pid in a list that `do_create` extends before the new
struct has a pid. -/

namespace AndroidKernel.Sthread.Lifecycle
open Sync Lts
variable {κ : Type}

def KnowsItself (s : State κ) : Prop :=
  ∀ p t pc, s.task p = .running t pc → s.sthreadSelf p = some t

def AddsCleanAt (s : State κ) : ManagerPc → Prop
  | .create .add _ t => (s.task (s.pid t)).isRunning = false
  | _ => True

/-- The list is extended without harm: the word at the place of `pid` in the new struct is not the
pid of a running thread. -/
def AddsClean (s : State κ) : Act κ → Prop
  | .manage _ _ => AddsCleanAt s s.manager
  | _ => True

def ReapsRead (s : State κ) (ok : Bool) : Task κ → Prop
  | .zombie t => ok = true → .exit t ∉ s.letters.map Letter.msg
  | _ => True

def FreesRefused (s : State κ) : Task κ → Prop
  | .running _ (.replied self newthr) => s.status self ≠ 0 → newthr ∈ s.refused
  | _ => True

def UndisturbedAt (s : State κ) (ok : Bool) (p : ℤ) : ManagerPc → Prop
  | .reap => ReapsRead s ok (s.task p)
  | .create .clone _ _ => ok = true
  | _ => True

/-- The manager is spared the other two situations that `Orderly` names, and no `clone` fails,
which would leave `list_lock` taken for ever. -/
def Undisturbed (s : State κ) : Act κ → Prop
  | .manage ok p => UndisturbedAt s ok p s.manager
  | .step p _ => FreesRefused s (s.task p)
  | _ => True

instance (s : State κ) (m : ManagerPc) : Decidable (AddsCleanAt s m) := match m with
  | .create .add _ t => inferInstanceAs (Decidable ((s.task (s.pid t)).isRunning = false))
  | .reap | .read | .create .mmap _ _ | .create .pipe _ _ | .create .malloc _ _
  | .create .clone _ _ | .create .listdel _ _ | .create .wake _ _ | .wakeExit _ | .wait _
  | .dealloc _ => inferInstanceAs (Decidable True)

instance (s : State κ) (a : Act κ) : Decidable (AddsClean s a) := match a with
  | .manage _ _ => inferInstanceAs (Decidable (AddsCleanAt s s.manager))
  | .call .. | .suspend _ | .wake .. | .create _ | .malloc .. | .finish .. | .step .. =>
    inferInstanceAs (Decidable True)

instance (s : State κ) (ok : Bool) (x : Task κ) : Decidable (ReapsRead s ok x) := match x with
  | .zombie t => inferInstanceAs (Decidable (ok = true → .exit t ∉ s.letters.map Letter.msg))
  | .none | .running _ _ => inferInstanceAs (Decidable True)

instance (s : State κ) (x : Task κ) : Decidable (FreesRefused s x) := match x with
  | .running _ (.replied self newthr) =>
    inferInstanceAs (Decidable (s.status self ≠ 0 → newthr ∈ s.refused))
  | .none | .zombie _ | .running _ .idle | .running _ (.spin ..) | .running _ (.body ..)
  | .running _ (.unlock _) | .running _ (.after _) | .running _ (.suspended _)
  | .running _ (.malloc _) | .running _ (.send ..) | .running _ (.awaitReply ..)
  | .running _ .exitSend | .running _ .exitWait => inferInstanceAs (Decidable True)

instance (s : State κ) (ok : Bool) (p : ℤ) (m : ManagerPc) :
    Decidable (UndisturbedAt s ok p m) := match m with
  | .reap => inferInstanceAs (Decidable (ReapsRead s ok (s.task p)))
  | .create .clone _ _ => inferInstanceAs (Decidable (ok = true))
  | .read | .create .mmap _ _ | .create .pipe _ _ | .create .malloc _ _ | .create .add _ _
  | .create .listdel _ _ | .create .wake _ _ | .wakeExit _ | .wait _ | .dealloc _ =>
    inferInstanceAs (Decidable True)

instance (s : State κ) (a : Act κ) : Decidable (Undisturbed s a) := match a with
  | .manage ok p => inferInstanceAs (Decidable (UndisturbedAt s ok p s.manager))
  | .step p _ => inferInstanceAs (Decidable (FreesRefused s (s.task p)))
  | .call .. | .suspend _ | .wake .. | .create _ | .malloc .. | .finish .. =>
    inferInstanceAs (Decidable True)

variable {s s' : State κ} {a : Act κ} {unsent live : List Thr}

theorem orderly_of_addsClean (hu : Undisturbed s a) (hc : AddsClean s a) : Orderly s a := by
  cases a with
  | manage ok p =>
    simp only [Undisturbed] at hu
    simp only [AddsClean] at hc
    simp only [Orderly]
    split
    · rename_i hm
      simp only [hm, UndisturbedAt] at hu
      cases htask : s.task p with
      | zombie t => simpa only [htask, ReapsRead] using hu
      | none | running => trivial
    · rename_i hm
      simpa only [hm, AddsCleanAt] using hc
    · trivial
  | step p a => exact hu
  | call | suspend | wake | create | malloc | finish => trivial

theorem addsClean_of_knowsItself [DecidableEq κ] (h : Alive s.toLife unsent live)
    (hn : next s a = some s') (hk : KnowsItself s') : AddsClean s a := by
  cases a with
  | manage ok p =>
    simp only [AddsClean]
    unfold AddsCleanAt
    split
    · rename_i c t hm
      by_contra hr
      rw [Bool.not_eq_false] at hr
      obtain ⟨u, pc, hu⟩ : ∃ u pc, s.task (s.pid t) = .running u pc := by
        cases htask : s.task (s.pid t) with
        | running u pc => exact ⟨u, pc, rfl⟩
        | none | zombie => rw [htask] at hr; cases hr
      have hs' : s' = { s with list := t :: s.list, manager := .create .clone c t } := by
        simp only [next, managerMain, hm] at hn
        split_ifs at hn
        exact (Option.some_inj.mp hn).symm
      have hself : s'.sthreadSelf (s.pid t) = some t := by
        rw [hs']
        simp [Life.sthreadSelf, threadlistFindbypid]
      have htu : t = u := by
        have hown := hk (s.pid t) u pc (by rw [hs']; exact hu)
        exact Option.some_inj.mp (hself.symm.trans hown)
      -- the new struct belongs to no thread yet
      have hthread : (s.task (s.pid t)).thread = some t := by rw [hu, htu]; rfl
      have hborn : s.manager.unborn = some t := by rw [hm]; rfl
      rcases (h.thread _ t hthread).1 with hl | hmain
      · exact (h.disjoint.2.2.1 t hborn).1 hl
      · exact (h.allocated t (mem_owned.mpr (by tauto))).2.1 hmain
    · trivial
  | call | suspend | wake | create | malloc | finish | step => trivial

variable [DecidableEq κ]

/-- In a run in which the manager is left undisturbed, `sthread_self` identifies its caller at every
moment exactly if no struct is linked whose leftover pid is that of a running thread. -/
theorem sthread_self_own_iff (count : κ → ℤ) (mainPid managerPid : ℤ) (h0 : 0 < mainPid)
    (hne : mainPid ≠ managerPid) (as : List (Act κ)) (s : State κ)
    (hd : Meets next Undisturbed as (start count mainPid managerPid))
    (h : exec next as (start count mainPid managerPid) = some s) :
    (∀ pre post u, as = pre ++ post → exec next pre (start count mainPid managerPid) = some u →
        KnowsItself u) ↔
      Meets next AddsClean as (start count mainPid managerPid) := by
  refine prefixes_iff_meets_of_invariant
    (I := fun s : State κ => ∃ unsent live, Alive s.toLife unsent live) ?_ ?_ ?_
    ⟨_, _, start_alive count h0 hne⟩ hd h
  · rintro s ⟨unsent, live, hs⟩ p t pc hp
    exact hs.sthreadSelf_eq hp
  · rintro s a s' ⟨unsent, live, hs⟩ hu hc hn
    exact hs.step (step_of_next (orderly_of_addsClean hu hc) hn)
  · rintro s a s' ⟨unsent, live, hs⟩ - hn hk
    exact addsClean_of_knowsItself hs hn hk

/-- The main thread creates a thread and the thread ends. -/
theorem sthread_self_own_exit : ∃ u s,
    exec next creation (start (fun _ : Unit => 0) 1 2) = some u ∧ KnowsItself u ∧
      exec next (creation ++ exit) (start (fun _ : Unit => 0) 1 2) = some s ∧ KnowsItself s := by
  obtain ⟨u, hu⟩ := Option.isSome_iff_exists.mp (show (exec next creation
    (start (fun _ : Unit => 0) 1 2)).isSome = true by decide)
  obtain ⟨s, hs⟩ := Option.isSome_iff_exists.mp (show (exec next (creation ++ exit)
    (start (fun _ : Unit => 0) 1 2)).isSome = true by decide)
  have hknows := (sthread_self_own_iff (fun _ => 0) 1 2 (by decide) (by decide) (creation ++ exit) s
    (by decide) hs).mpr (by decide)
  exact ⟨u, s, hu, hknows creation exit u rfl hu, hs,
    hknows (creation ++ exit) [] s (List.append_nil _).symm hs⟩

/-- The new thread creates another one. The block for its struct still has the pid of the main
thread where `pid` is, and the manager has linked it. -/
def leftover : List (Act Unit) :=
  creation ++ [.create 3, .malloc 3 (some (1, 1)), .step 3 0, .manage false 0, .manage true 0] ++
    List.replicate 4 (.manage true 0)

/-- The main thread, which is free to call, is told the struct of the thread that is not yet there,
and suspends itself on the pipe of that struct. -/
theorem sthread_self_other : ∃ s,
    exec next leftover (start (fun _ : Unit => 0) 1 2) = some s ∧
      s.task 1 = .running .main .idle ∧ s.sthreadSelf 1 = some (.worker 1) ∧ ¬ KnowsItself s ∧
      (next s (.suspend 1)).map (·.task 1) = some (.running .main (.suspended (.worker 1))) := by
  obtain ⟨s, hs, hv⟩ := Option.map_eq_some_iff.mp (show (exec next leftover
    (start (fun _ : Unit => 0) 1 2)).map
      (fun s => (s.task 1, s.sthreadSelf 1, (next s (.suspend 1)).map (·.task 1))) =
    some (.running .main .idle, some (.worker 1),
      some (.running .main (.suspended (.worker 1)))) by decide)
  simp only [Prod.mk.injEq] at hv
  obtain ⟨htask, hself, hnext⟩ := hv
  refine ⟨s, hs, htask, hself, fun hk => ?_, hnext⟩
  have hown := hk 1 .main _ htask
  rw [hself] at hown
  cases hown

end AndroidKernel.Sthread.Lifecycle
