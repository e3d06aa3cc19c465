import AndroidKernel.Sync.Simulation
import AndroidKernel.Sync.Waiters

/-! `sthread_sem_destroy` of `hw3/sync.c`, called at any moment of a run. It clears `count` and
`head` and leaves `start` and `sthread_count` as they are. Its critical section is one step, since
`flag` keeps every other thread out of the semaphore meanwhile. -/

namespace AndroidKernel.Sync
open Lts
variable {τ : Type}

def sthreadSemDestroy (c : Cell τ) : Cell τ × ℤ :=
  let sem : Sem := { c.sem with count := 0, head := none }
  ({ c with sem := sem }, if sem.count = 0 ∧ sem.head = none then 0 else -1)

/-- A step of a thread, or a whole call of `sthread_sem_destroy` by an idle one. -/
inductive Life (τ : Type)
  | act (a : Act τ)
  | destroy (t : τ)

def State.destroyed (s : State τ) : State τ := { s with cell := (sthreadSemDestroy s.cell).1 }

def Suspended (s : State τ) (t : τ) : Prop :=
  (s.pc t).pending = .suspend ∧ s.tokens t = 0 ∧ ∀ u, (s.pc u).pending ≠ .wake t

variable [DecidableEq τ]

def live (s : State τ) : Life τ → Option (State τ)
  | .act a => next crit s a
  | .destroy t => match s.pc t with
    | .idle => if s.flag then none else some s.destroyed
    | _ => none

/-- Whatever the threads do next is what critical sections do on a semaphore that was just
initialised to 0, and none of them faults. -/
def BehavesFresh (s : State τ) : Prop :=
  ∀ s', Reaches (next crit) s s' →
    (∃ xs log, s'.log = s.log ++ log ∧
      exec (runSection crit) xs ((sthreadSemInit 0 s.cell).1, []) = some (s'.cell, log)) ∧
    ∀ t op c a, s'.pc t = .body op c → c.heap a = none → (crit op t a c).isSome

/-- A destroy in this state refuses and changes nothing, or it leaves the semaphore as
`sthread_sem_init(sem, 0)` would and nobody waiting on it. -/
def CleanDestroy (s : State τ) : Prop :=
  (sthreadSemDestroy s.cell).2 ≠ 0 ∧ s.destroyed = s ∨
    (sthreadSemDestroy s.cell).2 = 0 ∧ s.destroyed.cell = (sthreadSemInit 0 s.cell).1 ∧
      (∀ t, ¬ Suspended s.destroyed t) ∧ BehavesFresh s.destroyed

variable {s s' : State τ} {f : Fifo τ} {place : τ → Place τ} {count : ℤ} {c : Cell τ}

omit [DecidableEq τ] in
theorem sthreadSemDestroy_ret (c : Cell τ) : (sthreadSemDestroy c).2 = 0 := by
  simp [sthreadSemDestroy]

omit [DecidableEq τ] in
theorem Loose.destroyed {xs : List (Addr × τ)} (h : Loose c xs f) :
    Loose (sthreadSemDestroy c).1 xs { f with count := 0 } := by
  obtain ⟨h, hr, -⟩ := h
  exact ⟨h, hr.withCount 0, Or.inr rfl⟩

omit [DecidableEq τ] in
theorem Locked.destroyed (h : Locked s) (hf : s.flag = false) : Locked s.destroyed := by
  refine ⟨h.guarded, fun t op c hp => ?_⟩
  have hp' : s.pc t = .body op c := hp
  have := h.guarded.held t (by rw [hp']; trivial)
  simp [hf] at this

theorem Tracked.destroyed (h : Tracked s f place) (hf : s.flag = false) :
    Tracked s.destroyed { f with count := 0 } place := by
  obtain ⟨xs, hm⟩ := h.memory
  refine ⟨h.locked.destroyed hf, ⟨xs, hm.destroyed⟩, fun t => ?_⟩
  exact ⟨(h.waits t).queued, (h.waits t).waking, (h.waits t).tokens, (h.waits t).suspended⟩

theorem tracked_of_live (h : Reaches live (start count c) s) :
    ∃ f place, Tracked s f place := by
  refine h.invariant (P := fun s => ∃ f place, Tracked s f place) (fun s a s' hs ha => ?_)
    ⟨_, _, start_tracked count c⟩
  obtain ⟨f, place, ht⟩ := hs
  cases a with
  | act a => exact ⟨_, _, ht.step ha⟩
  | destroy t =>
    simp only [live] at ha
    split at ha
    · split_ifs at ha with hf
      cases ha
      exact ⟨_, _, ht.destroyed (by simpa using hf)⟩
    · cases ha

omit [DecidableEq τ] in
theorem Loose.destroyed_eq {xs : List (Addr × τ)} (h : Loose c xs f)
    (h0 : c.sem.sthreadCount = 0) : (sthreadSemDestroy c).1 = (sthreadSemInit 0 c).1 := by
  obtain ⟨h, hr, -⟩ := h
  obtain rfl : xs = [] := by
    have := hr.queued.length
    exact List.length_eq_zero_iff.mp (by simp only [h0] at this; omega)
  have hstart : c.sem.start = none := hr.queued.chain
  simp only [sthreadSemDestroy, sthreadSemInit, h0, hstart]

theorem behavesFresh_of_locked (hl : Locked s) (hc : s.cell = (sthreadSemInit 0 s.cell).1) :
    BehavesFresh s := by
  intro s' hs
  have hr := (sthreadSemInit_refines 0 s.cell).2
  rw [← hc] at hr
  obtain ⟨hl', xs, f, hr', -⟩ := crit_implements.models_run (I := fun _ _ => True)
    (fun _ _ _ _ _ => trivial) hl ⟨[], _, hr, trivial⟩ hs
  refine ⟨?_, fun t op d a hp ha => ?_⟩
  · rw [← hc]
    exact sections_run hl hs
  · obtain rfl := hl'.current t op d hp
    obtain ⟨c', xs', hb, -, -⟩ := crit_implements _ xs f op t a hr' ha
    exact Option.isSome_iff_exists.mpr ⟨_, hb⟩

/-- In every state that a run of `down`s, `try_down`s, `up`s and destroys reaches, a destroy is
clean exactly if no thread is queued. -/
theorem destroy_clean_iff (count : ℤ) (c : Cell τ) (s : State τ)
    (h : Reaches live (start count c) s) (hf : s.flag = false) :
    CleanDestroy s ↔ s.cell.sem.sthreadCount = 0 := by
  obtain ⟨f, place, ht⟩ := tracked_of_live h
  obtain ⟨xs, hm⟩ := ht.memory
  constructor
  · rintro (⟨hret, -⟩ | ⟨-, hc, -⟩)
    · exact absurd (sthreadSemDestroy_ret s.cell) hret
    · exact congrArg (fun c => c.sem.sthreadCount) hc
  · intro h0
    have hc : s.destroyed.cell = (sthreadSemInit 0 s.cell).1 := hm.destroyed_eq h0
    refine Or.inr ⟨sthreadSemDestroy_ret s.cell, hc, fun t hs => ?_, ?_⟩
    · obtain ⟨hsusp, htok, hwake⟩ := hs
      have hq : f.queue = [] := by
        have := hm.sthreadCount_eq
        exact List.length_eq_zero_iff.mp (by omega)
      have hat := ht.waits t
      cases hp : place t with
      | nowhere => exact hat.suspended.mp hsusp hp
      | queued =>
        have := hat.queued
        simp [hq, hp] at this
      | waking u => exact hwake u ((hat.waking u).mpr hp)
      | token =>
        have := hat.tokens
        rw [hp, if_pos rfl] at this
        exact absurd (htok.symm.trans this) (by decide)
    · exact behavesFresh_of_locked (ht.locked.destroyed hf) hc

/-- One thread took the only unit; nobody waits. -/
theorem destroy_clean_taken : ∃ s, exec live ((callSteps 0 .down 0 5).map .act)
      (start 1 ⟨⟨0, 0, none, none⟩, fun _ => none⟩) = some s ∧ s.cell.sem.count = 0 ∧
    CleanDestroy s := by
  obtain ⟨s, hs, hv⟩ := Option.map_eq_some_iff.mp (show (exec live
      ((callSteps 0 .down 0 5).map .act) (start 1 ⟨⟨0, 0, none, none⟩, fun _ => none⟩)).map
        (fun s => (s.cell.sem, s.flag)) = some (⟨0, 0, none, none⟩, false) by decide)
  have hsem : s.cell.sem = ⟨0, 0, none, none⟩ := congrArg Prod.fst hv
  refine ⟨s, hs, by rw [hsem], ?_⟩
  exact (destroy_clean_iff 1 _ s ⟨_, hs⟩ (congrArg Prod.snd hv)).mpr (by rw [hsem])

/-- Thread 1 is queued when the semaphore is destroyed: the call returns 0, thread 1 stays
suspended and counted, and the next `down` follows the `NULL` in `head`. -/
theorem destroy_strands_waiter : ∃ s, exec live ((callSteps 1 .down 0 4).map .act)
      (start 0 ⟨⟨0, 0, none, none⟩, fun _ => none⟩) = some s ∧ ¬ CleanDestroy s ∧
    (sthreadSemDestroy s.cell).2 = 0 ∧ s.destroyed.cell.sem = ⟨0, 1, none, some 0⟩ ∧
    (s.destroyed.pc 1).pending = .suspend ∧
    s.destroyed.cell.heap 1 = none ∧ crit .down 2 1 s.destroyed.cell = none := by
  obtain ⟨s, hs, hv⟩ := Option.map_eq_some_iff.mp (show (exec live
      ((callSteps 1 .down 0 4).map .act) (start 0 ⟨⟨0, 0, none, none⟩, fun _ => none⟩)).map
        (fun s => (s.destroyed.cell.sem, (s.pc 1).pending, s.cell.heap 1)) =
      some (⟨0, 1, none, some 0⟩, .suspend, none) by decide)
  have hsem : s.destroyed.cell.sem = ⟨0, 1, none, some 0⟩ := congrArg Prod.fst hv
  refine ⟨s, hs, ?_, sthreadSemDestroy_ret _, hsem, congrArg (fun p => p.2.1) hv,
    congrArg (fun p => p.2.2) hv, ?_⟩
  · rintro (⟨hret, -⟩ | ⟨-, hc, -⟩)
    · exact hret (sthreadSemDestroy_ret _)
    · rw [hc] at hsem
      simp [sthreadSemInit] at hsem
  · simp [crit, sthreadSemDown, insertNode, hsem]

end AndroidKernel.Sync
