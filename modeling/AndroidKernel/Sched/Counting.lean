import AndroidKernel.Sched.Entering

/-! `rq->nr_running` against the tasks that are queued. The hooks of the stop, rt and fair classes
count the task that they are given, those of MYCFS do not: their calls of `inc_nr_running` and
`dec_nr_running` are commented out. -/

namespace AndroidKernel.Sched
open Lts
variable {rq rq' : Rq} {p q : Tid} {k : Picks} {f : Task → Task} {a : Act}

theorem tidy_boot (idle : Tid) (stop : Option Tid) (alive : List Tid) (task : Tid → Task) :
    Tidy (boot idle stop alive task) := by
  have hnil : ∀ c, (boot idle stop alive task).list c = [] := by
    intro c
    cases c <;> rfl
  refine ⟨fun c p hp => ?_, fun c p hp => ?_, fun c => ?_, fun _ => rfl, rfl⟩
  · rw [hnil] at hp
    cases hp
  · rw [hnil] at hp
    cases hp
  · rw [hnil]
    exact List.nodup_nil

theorem noMycfs_boot (idle : Tid) (stop : Option Tid) (alive : List Tid) (task : Tid → Task) :
    NoMycfs (boot idle stop alive task) := fun _ _ h => Bool.false_ne_true h.2

/-- In an orderly run from boot, `nr_running` is at all times the number of queued tasks, `idle_cpu`
reports a CPU as idle and `__schedule` calls `idle_balance` only where no task is queued, if and
only if no step queues a task in MYCFS. -/
theorem nr_running_counts_iff (k : Picks) (idle : Tid) (stop : Option Tid) (alive : List Tid)
    (task : Tid → Task) (as : List Act) (rq' : Rq)
    (ho : Meets (next k) Orderly as (boot idle stop alive task))
    (h : exec (next k) as (boot idle stop alive task) = some rq') :
    ((∀ pre post r, as = pre ++ post → exec (next k) pre (boot idle stop alive task) = some r →
        Counts r) ∧
      ∀ pre preempt signal wakeup group post r,
        as = pre ++ .deschedule preempt signal wakeup group :: post →
        exec (next k) pre (boot idle stop alive task) = some r →
        callsIdleBalance r preempt signal wakeup = true →
        (deactivatePrev r preempt signal wakeup).queuedTasks = ∅) ↔
      Meets (next k) (fun rq a => ¬ EntersMycfs rq a) as (boot idle stop alive task) := by
  have htidy : ∀ s a t, Tidy s → Orderly s a → next k s a = some t → Tidy t :=
    fun s a t hs hca hn => hs.next hca hn
  have hno : NoMycfs (boot idle stop alive task) := noMycfs_boot idle stop alive task
  have hiff := prefixes_iff_meets (I := Tidy) (Q := Counts) (C := fun rq a => ¬ EntersMycfs rq a)
    htidy (fun s a t hs ht _ hq hn => by
      rw [ht.counts_iff, noMycfs_next (hs.counts_iff.mp hq) hn])
    (tidy_boot idle stop alive task) ((tidy_boot idle stop alive task).counts_iff.mpr hno) ho h
  rw [← hiff]
  refine ⟨fun hx => hx.1, fun hc => ⟨hc, ?_⟩⟩
  -- the counter that `idle_balance` depends on is that of the state in which the next task is picked
  intro pre preempt signal wakeup group post r has hr hbal
  have hgroup : group = [] := (ho.at_step has hr).2.2
  subst hgroup
  obtain ⟨v, hv⟩ := exec_next_of_append h has hr
  have hcv : Counts v := hc (pre ++ [.deschedule preempt signal wakeup []]) post v
    (by rw [has, List.append_assoc]; rfl) (exec_snoc hr hv)
  have hv' : v = { deactivatePrev r preempt signal wakeup with picking := true } := by
    rw [← (next_eq_some.mp hv).2]
    exact deschedule_nil r preempt signal wakeup
  subst hv'
  exact queuedTasks_eq_empty hcv.nrRunning (of_decide_eq_true hbal)

instance (rq : Rq) (p : Tid) : Decidable (rq.settled p) :=
  inferInstanceAs (Decidable (rq.queued p ↔ (rq.task p).onRq = true))

instance (rq : Rq) (a : Act) : Decidable (Orderly rq a) := match a with
  | .enqueue p | .wakeUpNew p => inferInstanceAs (Decidable (¬ rq.queued p))
  | .dequeue p => inferInstanceAs (Decidable (rq.queued p))
  | .wake p | .setscheduler p .. | .setprio p _ | .nice p _ | .normalize p _ =>
    inferInstanceAs (Decidable (rq.settled p))
  | .deschedule preempt signal wakeup group => inferInstanceAs (Decidable
    ((Sleeps rq preempt signal → rq.queued rq.curr) ∧ (∀ p ∈ wakeup, rq.settled p) ∧ group = []))
  | .fork _ | .setState _ | .unthrottle _ | .pick => inferInstanceAs (Decidable True)

instance (rq : Rq) (p : Tid) : Decidable (WakesMycfs rq p) :=
  inferInstanceAs (Decidable ((rq.task p).schedClass = .mycfs ∧ (rq.task p).state ≠ .running ∧
    (rq.task p).state ≠ .dead))

instance (rq : Rq) (a : Act) : Decidable (EntersMycfs rq a) := match a with
  | .enqueue p | .wakeUpNew p => inferInstanceAs (Decidable ((rq.task p).schedClass = .mycfs))
  | .wake p => inferInstanceAs (Decidable (WakesMycfs rq p))
  | .setscheduler p policy prio _ permitted => inferInstanceAs (Decidable
    ((rq.task p).onRq = true ∧
      ∃ reset, accepted rq p policy prio permitted = some (.mycfs, reset)))
  | .deschedule preempt signal wakeup _ => inferInstanceAs (Decidable
    (Sleeps rq preempt signal ∧ ∃ p ∈ wakeup, WakesMycfs rq p))
  | .fork _ | .setState _ | .dequeue _ | .setprio .. | .nice .. | .normalize .. | .unthrottle _
  | .pick => inferInstanceAs (Decidable False)

def handover : List Act :=
  [.wake 1, .deschedule false false none [], .pick, .wake 2, .nice 2 5, .setState .interruptible,
    .deschedule false false none [], .pick]

theorem nr_running_counts_handover : ∃ rq, exec (next heads) handover
      (boot 0 none [1, 2] fun _ => sleeper) = some rq ∧ rq.nrRunning = 1 ∧
    rq.queuedTasks = {2} ∧ Counts rq := by
  obtain ⟨rq, hrq, hv⟩ := Option.map_eq_some_iff.mp (show (exec (next heads) handover
      (boot 0 none [1, 2] fun _ => sleeper)).map (fun rq => decide (rq.nrRunning = 1 ∧
        rq.queuedTasks = {2})) = some true by decide)
  obtain ⟨hnr, hq⟩ := of_decide_eq_true hv
  refine ⟨rq, hrq, hnr, hq, ?_⟩
  have hall := (nr_running_counts_iff heads 0 none [1, 2] _ handover rq (by decide) hrq).mpr
    (by decide)
  exact hall.1 handover [] rq (List.append_nil _).symm hrq

/-- Task 2 is moved to MYCFS while it is queued. When task 1 is gone, `nr_running` is 0, `idle_cpu`
reports the CPU as idle, and task 2 is still queued. -/
theorem mycfs_not_counted : ∃ rq, exec (next heads)
      (toMycfs 2 ++ [.deschedule false false none [], .pick])
      (boot 0 none [1, 2] fun _ => sleeper) = some rq ∧
    Meets (next heads) Orderly (toMycfs 2 ++ [.deschedule false false none [], .pick])
      (boot 0 none [1, 2] fun _ => sleeper) ∧
    rq.nrRunning = 0 ∧ rq.queuedTasks = {2} ∧ idleCpu rq [] = true ∧ ¬ Counts rq := by
  obtain ⟨rq, hrq, hv⟩ := Option.map_eq_some_iff.mp (show (exec (next heads)
      (toMycfs 2 ++ [.deschedule false false none [], .pick])
      (boot 0 none [1, 2] fun _ => sleeper)).map (fun rq => decide (rq.nrRunning = 0 ∧
        rq.queuedTasks = {2} ∧ idleCpu rq [] = true)) = some true by decide)
  obtain ⟨hnr, hq, hidle⟩ := of_decide_eq_true hv
  refine ⟨rq, hrq, by decide, hnr, hq, hidle, fun hc => ?_⟩
  have hempty := hc.idleCpu [] hidle
  rw [hq] at hempty
  exact Finset.singleton_ne_empty 2 hempty

end AndroidKernel.Sched
