import AndroidKernel.Lib.LockCode
import AndroidKernel.Lib.Runs
import AndroidKernel.Sthread.Model

/-! The locks of `hw3/sthread.c` and `hw3/sync.c`: which are taken and dropped on every path of the
exported functions and of the manager, with every libc call on it. `errno` is redirected to
`__errno_location`, which takes `list_lock`, so a failing call is a hidden acquisition. Functions
take what follows their return. Data only decides which way a branch goes. `MSG_ALL_EXIT` is left
out. -/

namespace AndroidKernel.Sthread.Locks
open LockCode Lts

inductive Lock
  | list | flag
deriving DecidableEq, Repr

inductive Call
  | mmap | munmap | pipe | close | read | write | malloc | clone | waitpid | kill | fprintf
deriving DecidableEq, Repr

abbrev Code := LockCode.Code Lock Call

def threadlistLock (k : Code) : Code := .take .list k

def threadlistUnlock (k : Code) : Code := .drop .list k

def threadlistFindbypid (k : Code) : Code := threadlistLock (threadlistUnlock k)

def threadlistAdd (k : Code) : Code := threadlistLock (threadlistUnlock k)

/-- The struct is not found, and the process aborts, or it is taken off. -/
def threadlistDel (k : Code) : Code := threadlistLock (.branch .stop (threadlistUnlock k))

def sthreadSelf (k : Code) : Code := threadlistFindbypid k

def errnoLocation (k : Code) : Code := sthreadSelf k

def libc (c : Call) (ok fail : Code) : Code := .call c ok (errnoLocation fail)

def ignoring (c : Call) (k : Code) : Code := libc c k k

def selfSuspend (k : Code) : Code :=
  .branch (ignoring .fprintf .stop) (.block (ignoring .read k))

def sthreadSuspend (k : Code) : Code := sthreadSelf (selfSuspend k)

def sthreadWake (k : Code) : Code := ignoring .write k

def sthreadCreate (k : Code) : Code :=
  sthreadSelf (libc .malloc (ignoring .write (selfSuspend k)) k)

/-- The end of `start_thread`, once `self->main` has returned. -/
def startThreadExit : Code := ignoring .write (selfSuspend .stop)

def lock (k : Code) : Code := .take .flag k

def unlock (k : Code) : Code := .drop .flag k

/-- `NULL` from `malloc` is written through, as is a `NULL` in `sem->head`. -/
def insertNode (k : Code) : Code :=
  .branch (libc .malloc k .stop) (libc .malloc (.branch .stop k) .stop)

def sthreadSemInit (k : Code) : Code := lock (unlock k)

def sthreadSemDestroy (k : Code) : Code := lock (unlock k)

def sthreadSemDown (k : Code) : Code :=
  lock (.branch (unlock k) (sthreadSelf (insertNode (unlock (sthreadSuspend k)))))

def sthreadSemTryDown (k : Code) : Code := lock (.branch (unlock k) (unlock k))

def sthreadSemUp (k : Code) : Code :=
  lock (.branch (unlock k) (.branch .stop (unlock (sthreadWake k))))

def threadDealloc (k : Code) : Code :=
  threadlistDel (ignoring .munmap (ignoring .close (ignoring .close k)))

def killAll (k : Code) : ℕ → Code
  | 0 => k
  | n + 1 => ignoring .kill (killAll k n)

/-- At most `n` threads are reaped; `listed` threads are sent the signal that one of them died
by, then the main thread and the manager. -/
def reapChildren (listed : ℕ) (k : Code) : ℕ → Code
  | 0 => ignoring .waitpid k
  | n + 1 => .branch (ignoring .waitpid k)
      (threadlistFindbypid (.branch .stop (threadDealloc (.branch
        (killAll (ignoring .kill (ignoring .kill .stop)) listed) (reapChildren listed k n)))))

def createOut (k : Code) : Code := k

def createFreestack (k : Code) : Code := createOut k

def createClosepipe (k : Code) : Code := ignoring .close (ignoring .close (createFreestack k))

def createFreess (k : Code) : Code := createClosepipe k

def createListdel (k : Code) : Code := threadlistDel (createFreess k)

def doCreate (k : Code) : Code :=
  libc .mmap
    (libc .pipe
      (libc .malloc
        (threadlistAdd (threadlistLock (libc .clone
          (threadlistUnlock k) (threadlistUnlock (createListdel k)))))
        (createClosepipe k))
      (createFreestack k))
    (createOut k)

def managerMain (listed reaped : ℕ) (k : Code) : Code :=
  .branch (killAll .stop listed)
    (reapChildren listed (.block (ignoring .read (.branch
      (doCreate (sthreadWake k))
      (sthreadWake (libc .waitpid (threadDealloc k) (ignoring .fprintf (threadDealloc k))))))) reaped)

inductive Entry
  | create | self | suspend | wake | exit
  | semInit | semDestroy | semDown | semTryDown | semUp
  | manage (listed reaped : ℕ)
deriving DecidableEq, Repr

def Entry.code : Entry → Code
  | .create => sthreadCreate .done
  | .self => sthreadSelf .done
  | .suspend => sthreadSuspend .done
  | .wake => sthreadWake .done
  | .exit => startThreadExit
  | .semInit => sthreadSemInit .done
  | .semDestroy => sthreadSemDestroy .done
  | .semDown => sthreadSemDown .done
  | .semTryDown => sthreadSemTryDown .done
  | .semUp => sthreadSemUp .done
  | .manage listed reaped => managerMain listed reaped .done

def program : Thr → Entry → Option Code
  | .manager, .manage listed reaped => some (Entry.code (.manage listed reaped))
  | .manager, _ | _, .manage _ _ | .main, .exit => none
  | _, e => some e.code

/-- Neither lock is waited for with `list_lock` held, and nothing is held in `read()` or after the
return to the caller. -/
def Discipline (H : List Lock) : Code → Prop
  | .take _ _ => .list ∉ H
  | .block _ | .done => H = []
  | _ => True

def Disciplined (s : LockCode.State Lock Call Thr) : Prop := ∀ t, Discipline (s.held t) (s.code t)

/-- `clone` is called with `list_lock` held, so that its failure asks for that lock again. -/
def Located (H : List Lock) : Code → Prop
  | .call .clone _ fail => .list ∈ H ∧ ∃ k, fail = .take .list k
  | _ => True

def CloneSucceeds : LockCode.State Lock Call Thr → LockCode.Act Thr Entry → Prop :=
  FailsOnly (· ≠ Call.clone)

instance (s : LockCode.State Lock Call Thr) (a : LockCode.Act Thr Entry) :
    Decidable (CloneSucceeds s a) := inferInstanceAs (Decidable (FailsOnly (· ≠ Call.clone) s a))

def Good (H : List Lock) (k : Code) : Prop :=
  Every (· ≠ Call.clone) (fun H k => Discipline H k ∧ Located H k) H k

variable {H : List Lock} {k ok fail : Code} {c : Call}

theorem good_stop : Good H .stop := ⟨trivial, trivial⟩

theorem good_done : Good [] .done := ⟨rfl, trivial⟩

theorem Good.branch {k₁ k₂ : Code} (h₁ : Good H k₁) (h₂ : Good H k₂) : Good H (.branch k₁ k₂) :=
  ⟨⟨trivial, trivial⟩, h₁, h₂⟩

theorem Good.drop {l : Lock} (h : Good (H.erase l) k) : Good H (.drop l k) :=
  ⟨⟨trivial, trivial⟩, h⟩

theorem Good.take {l : Lock} (hH : .list ∉ H) (h : Good (l :: H) k) : Good H (.take l k) :=
  ⟨⟨hH, trivial⟩, h⟩

theorem Good.findbypid (hH : .list ∉ H) (h : Good H k) : Good H (threadlistFindbypid k) := by
  refine .take hH (.drop ?_)
  rwa [List.erase_cons_head]

theorem Good.del (hH : .list ∉ H) (h : Good H k) : Good H (threadlistDel k) := by
  refine .take hH (.branch good_stop (.drop ?_))
  rwa [List.erase_cons_head]

theorem Good.libc (hc : c ≠ .clone) (hH : .list ∉ H) (h : Good H ok) (hf : Good H fail) :
    Good H (libc c ok fail) := by
  refine ⟨⟨trivial, ?_⟩, h, fun _ => hf.findbypid hH⟩
  cases c with
  | clone => exact absurd rfl hc
  | mmap | munmap | pipe | close | read | write | malloc | waitpid | kill | fprintf => trivial

theorem Good.ignoring (hc : c ≠ .clone) (hH : .list ∉ H) (h : Good H k) :
    Good H (ignoring c k) := Good.libc hc hH h h

theorem Good.selfSuspend (h : Good [] k) : Good [] (selfSuspend k) := by
  refine .branch (good_stop.ignoring (by decide) (by simp)) ⟨⟨rfl, trivial⟩, ?_⟩
  exact h.ignoring (by decide) (by simp)

theorem Good.wake (h : Good [] k) : Good [] (sthreadWake k) := h.ignoring (by decide) (by simp)

theorem Good.dealloc (h : Good [] k) : Good [] (threadDealloc k) := by
  have hclose : Good [] (Locks.ignoring .close k) := h.ignoring (by decide) (by simp)
  have hmunmap := (hclose.ignoring (c := .close) (by decide) (by simp)).ignoring (c := .munmap)
    (by decide) (by simp)
  exact hmunmap.del (by simp)

theorem Good.killAll (h : Good [] k) (n : ℕ) : Good [] (killAll k n) := by
  induction n with
  | zero => exact h
  | succ n ih => exact ih.ignoring (by decide) (by simp)

theorem Good.reapChildren (h : Good [] k) (listed n : ℕ) :
    Good [] (reapChildren listed k n) := by
  have hwait : Good [] (Locks.ignoring .waitpid k) := h.ignoring (by decide) (by simp)
  induction n with
  | zero => exact hwait
  | succ n ih =>
    have hkill : Good [] (Locks.ignoring .kill (Locks.ignoring .kill .stop)) :=
      (good_stop.ignoring (by decide) (by simp)).ignoring (by decide) (by simp)
    have hloop := (hkill.killAll listed).branch ih
    exact hwait.branch ((good_stop.branch hloop.dealloc).findbypid (by simp))

theorem Good.closepipe (h : Good [] k) : Good [] (createClosepipe k) := by
  have hclose : Good [] (Locks.ignoring .close k) := h.ignoring (by decide) (by simp)
  exact hclose.ignoring (by decide) (by simp)

/-- The failure path of `clone` is not followed here: it does not come back. -/
theorem Good.doCreate (h : Good [] k) : Good [] (doCreate k) := by
  have hclone : Good [.list] (Locks.libc .clone (threadlistUnlock k)
      (threadlistUnlock (createListdel k))) :=
    ⟨⟨trivial, by simp, _, rfl⟩, Good.drop h, fun hc => absurd rfl hc⟩
  have hadd : Good [] (threadlistAdd (threadlistLock (Locks.libc .clone (threadlistUnlock k)
      (threadlistUnlock (createListdel k))))) :=
    Good.findbypid (by simp) (.take (by simp) hclone)
  have hmalloc := Good.libc (c := .malloc) (by decide) (by simp) hadd h.closepipe
  have hpipe := Good.libc (c := .pipe) (by decide) (by simp) hmalloc h
  exact Good.libc (by decide) (by simp) hpipe h

theorem good_managerMain (listed reaped : ℕ) : Good [] (managerMain listed reaped .done) := by
  refine .branch (good_stop.killAll listed) (Good.reapChildren ?_ listed reaped)
  refine ⟨⟨rfl, trivial⟩, Good.ignoring (by decide) (by simp) (.branch ?_ ?_)⟩
  · exact good_done.wake.doCreate
  · have hfprintf := good_done.dealloc.ignoring (c := .fprintf) (by decide) (by simp)
    exact Good.wake (Good.libc (by decide) (by simp) good_done.dealloc hfprintf)

theorem good_sthreadSuspend (h : Good [] k) : Good [] (sthreadSuspend k) :=
  h.selfSuspend.findbypid (by simp)

theorem good_sthreadCreate : Good [] (sthreadCreate .done) := by
  have hsend := good_done.selfSuspend.ignoring (c := .write) (by decide) (by simp)
  exact Good.findbypid (by simp) (Good.libc (by decide) (by simp) hsend good_done)

theorem good_insertNode (h : Good [.flag] k) : Good [.flag] (insertNode k) :=
  .branch (Good.libc (by decide) (by simp) h good_stop)
    (Good.libc (by decide) (by simp) (good_stop.branch h) good_stop)

theorem good_sthreadSemDown : Good [] (sthreadSemDown .done) := by
  refine .take (by simp) (.branch (.drop good_done) (Good.findbypid (by simp) ?_))
  exact good_insertNode (.drop (good_sthreadSuspend good_done))

theorem good_sthreadSemUp : Good [] (sthreadSemUp .done) :=
  .take (by simp) (.branch (.drop good_done) (.branch good_stop (.drop good_done.wake)))

theorem good_code (e : Entry) : Good [] e.code := by
  cases e with
  | create => exact good_sthreadCreate
  | self => exact good_done.findbypid (by simp)
  | suspend => exact good_sthreadSuspend good_done
  | wake => exact good_done.wake
  | exit => exact good_stop.selfSuspend.ignoring (by decide) (by simp)
  | semInit => exact .take (by simp) (.drop good_done)
  | semDestroy => exact .take (by simp) (.drop good_done)
  | semDown => exact good_sthreadSemDown
  | semTryDown => exact .take (by simp) (.branch (.drop good_done) (.drop good_done))
  | semUp => exact good_sthreadSemUp
  | manage listed reaped => exact good_managerMain listed reaped

theorem good_program {t : Thr} {e : Entry} (h : program t e = some k) : Good [] k := by
  have hcode : k = e.code := by
    cases t <;> cases e <;> simp_all [program]
  rw [hcode]
  exact good_code e

abbrev start : LockCode.State Lock Call Thr := LockCode.start Lock Call Thr

abbrev next : LockCode.State Lock Call Thr → LockCode.Act Thr Entry →
    Option (LockCode.State Lock Call Thr) := LockCode.next program

def AllGood (s : LockCode.State Lock Call Thr) : Prop := ∀ t, Good (s.held t) (s.code t)

variable {s s' : LockCode.State Lock Call Thr} {a : LockCode.Act Thr Entry}

theorem start_allGood : AllGood start := fun _ => good_done

theorem AllGood.step (h : AllGood s) (hc : CloneSucceeds s a) (hn : next s a = some s') :
    AllGood s' :=
  Throughout.next (fun _ _ _ hk => good_program hk) (fun _ hd => hd.1) h hc hn

theorem AllGood.disciplined (h : AllGood s) : Disciplined s := fun t => (h t).here.1

/-- A failing `clone` leads straight to the second acquisition. -/
theorem AllGood.cloneSucceeds (h : AllGood s) (hn : next s a = some s') (hd : Disciplined s') :
    CloneSucceeds s a := by
  cases a with
  | enter t e => trivial
  | step t ok =>
    cases ok with
    | true => trivial
    | false =>
      simp only [CloneSucceeds, FailsOnly]
      split
      · rename_i c k fail hk
        rintro rfl
        have hloc : Located (s.held t) (s.code t) := (h t).here.2
        rw [hk] at hloc
        obtain ⟨hlist, k', rfl⟩ := hloc
        simp only [LockCode.next, hk, LockCode.step, Bool.false_eq_true, if_false,
          Option.some.injEq] at hn
        subst hn
        have ht := hd t
        simp only [LockCode.State.goto, Function.update_self] at ht
        exact ht hlist
      · trivial

/-- The discipline holds in every state of a run exactly if no `clone` of the run fails. -/
theorem lock_discipline_iff (as : List (LockCode.Act Thr Entry))
    (s : LockCode.State Lock Call Thr) (h : exec next as start = some s) :
    (∀ pre post u, as = pre ++ post → exec next pre start = some u → Disciplined u) ↔
      Meets next CloneSucceeds as start := by
  refine prefixes_iff_meets_of_invariant (I := AllGood) (D := fun _ _ => True) ?_ ?_ ?_ start_allGood
    (meets_of_forall (fun _ _ => trivial) as start) h
  · exact fun _ hs => hs.disciplined
  · exact fun _ _ _ hs _ hc hn => hs.step hc hn
  · exact fun _ _ _ hs _ hn hq => hs.cloneSucceeds hn hq

def creation : List (LockCode.Act Thr Entry) :=
  .enter .manager (.manage 0 0) :: .step .manager false :: List.replicate 10 (.step .manager true)

/-- A worker enters a `down` before the `clone`, which succeeds, and spins on `list_lock` inside
`flag`. -/
def concurrent : List (LockCode.Act Thr Entry) :=
  creation ++ [.enter (.worker 0) .semDown, .step (.worker 0) true, .step (.worker 0) false,
    .step (.worker 0) true, .step .manager true]

theorem lock_discipline_concurrent : ∃ s, exec next concurrent start = some s ∧
    s.held .manager = [.list] ∧ s.held (.worker 0) = [.flag] ∧ Disciplined s := by
  obtain ⟨s, hs, hv⟩ := Option.map_eq_some_iff.mp (show (exec next concurrent start).map
    (fun s => (s.held .manager, s.held (.worker 0))) = some ([.list], [.flag]) by decide)
  refine ⟨s, hs, congrArg Prod.fst hv, congrArg Prod.snd hv, ?_⟩
  exact (lock_discipline_iff concurrent s hs).mpr (by decide) concurrent [] s
    (List.append_nil _).symm hs

/-- The `clone` fails: the manager holds `list_lock`, waits for it, and spins for ever. -/
theorem clone_failure_deadlocks : ∃ s,
    exec next (creation ++ [.step .manager false]) start = some s ∧
    s.held .manager = [.list] ∧ (∃ k, s.code .manager = .take .list k) ∧ ¬ Disciplined s ∧
    ∀ ok, next s (.step .manager ok) = some s := by
  obtain ⟨s, hs, hv⟩ := Option.map_eq_some_iff.mp (show (exec next
      (creation ++ [.step .manager false]) start).map
        (fun s => (s.held .manager, s.word .list, s.code .manager)) =
      some ([.list], true,
        errnoLocation (threadlistUnlock (createListdel (sthreadWake .done)))) by decide)
  have hheld : s.held .manager = [.list] := congrArg Prod.fst hv
  have hword : s.word .list = true := congrArg (fun p => p.2.1) hv
  have hcode : s.code .manager = errnoLocation (threadlistUnlock (createListdel
    (sthreadWake .done))) := congrArg (fun p => p.2.2) hv
  refine ⟨s, hs, hheld, ⟨_, hcode⟩, fun hd => ?_, fun ok => ?_⟩
  · have hm := hd .manager
    rw [hcode, hheld] at hm
    exact hm (List.mem_singleton_self _)
  · simp only [LockCode.next, hcode, errnoLocation, sthreadSelf, threadlistFindbypid,
      threadlistLock, LockCode.step, hword, if_true]

end AndroidKernel.Sthread.Locks
