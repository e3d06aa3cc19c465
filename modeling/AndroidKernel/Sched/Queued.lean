import AndroidKernel.Sched.Requeue

/-! The lists of the classes as long as every task that is on one is counted: what they say about
which tasks are queued, and what putting a task on its list and taking it off does to them. -/

namespace AndroidKernel.Sched
open Lts
variable {rq rq' : Rq} {p q : Tid} {k : Picks} {f : Task → Task} {a : Act}

def Rq.queued (rq : Rq) (p : Tid) : Prop := rq.queuedIn p (rq.task p).schedClass

instance (rq : Rq) (p : Tid) : Decidable (rq.queued p) :=
  inferInstanceAs (Decidable (rq.queuedIn p (rq.task p).schedClass))

def Rq.queuedTasks (rq : Rq) : Finset Tid := rq.alive.toFinset.filter rq.queued

/-- `idle_cpu`; in `wakeList` are the tasks that other CPUs have left to be woken here. -/
def idleCpu (rq : Rq) (wakeList : List Tid) : Bool :=
  if rq.curr ≠ rq.idle then false
  else if rq.nrRunning ≠ 0 then false
  else wakeList.isEmpty

/-- `__schedule` asks for tasks of other CPUs, once the running task is off the runqueue. -/
def callsIdleBalance (rq : Rq) (preempt signal : Bool) (wakeup : Option Tid) : Bool :=
  (deactivatePrev rq preempt signal wakeup).nrRunning = 0

/-- `nr_running` is the number of queued tasks, and `idle_cpu` does not take a CPU that has one for
idle. -/
structure Counts (rq : Rq) : Prop where
  nrRunning : rq.nrRunning = rq.queuedTasks.card
  idleCpu : ∀ wakeList, idleCpu rq wakeList = true → rq.queuedTasks = ∅

def NoMycfs (rq : Rq) : Prop := ∀ p ∈ rq.alive, ¬ rq.queuedMycfs p

/-- The lists hold tasks of their class, each once, `nr_running` counts their entries, and no group
is throttled. -/
structure Tidy (rq : Rq) : Prop where
  alive : ∀ c p, p ∈ rq.list c → p ∈ rq.alive
  schedClass : ∀ c p, p ∈ rq.list c → (rq.task p).schedClass = c
  nodup : ∀ c, (rq.list c).Nodup
  throttled : ∀ p, rq.throttled p = false
  nrRunning : rq.nrRunning =
    (rq.stopTasks.length + rq.rtTasks.length + rq.fairTasks.length : ℕ)

def Rq.listed (rq : Rq) : List Tid := rq.stopTasks ++ (rq.rtTasks ++ rq.fairTasks)

theorem mem_listed : p ∈ rq.listed ↔ ∃ c, p ∈ rq.list c := by
  simp only [Rq.listed, List.mem_append]
  constructor
  · rintro (h | h | h)
    · exact ⟨.stop, h⟩
    · exact ⟨.rt, h⟩
    · exact ⟨.fair, h⟩
  · rintro ⟨c, h⟩
    cases c with
    | stop => exact Or.inl h
    | rt => exact Or.inr (Or.inl h)
    | fair => exact Or.inr (Or.inr h)
    | mycfs | idle => cases h

theorem Tidy.disjoint (h : Tidy rq) {c d : Class} (hcd : c ≠ d) :
    (rq.list c).Disjoint (rq.list d) :=
  fun p hc hd => hcd ((h.schedClass c p hc).symm.trans (h.schedClass d p hd))

theorem Tidy.nodup_listed (h : Tidy rq) : rq.listed.Nodup := by
  have hrf : (rq.rtTasks ++ rq.fairTasks).Nodup :=
    (h.nodup .rt).append (h.nodup .fair) (h.disjoint (c := .rt) (d := .fair) (by decide))
  refine (h.nodup .stop).append hrf ?_
  rw [List.disjoint_append_right]
  exact ⟨h.disjoint (c := .stop) (d := .rt) (by decide),
    h.disjoint (c := .stop) (d := .fair) (by decide)⟩

theorem Tidy.nrRunning_eq (h : Tidy rq) : rq.nrRunning = rq.listed.length := by
  rw [h.nrRunning]
  simp only [Rq.listed, List.length_append, add_assoc]

theorem Tidy.mem_list_iff (h : Tidy rq) {c : Class} (hm : c ≠ .mycfs) :
    p ∈ rq.list c ↔ (rq.task p).schedClass = c ∧ rq.queued p := by
  constructor
  · intro hp
    have hc := h.schedClass c p hp
    refine ⟨hc, ?_⟩
    rw [Rq.queued, hc, queuedIn_of_ne hm]
    exact hp
  · rintro ⟨rfl, hq⟩
    exact (queuedIn_of_ne hm).mp hq

theorem Tidy.queued_iff (h : Tidy rq) : rq.queued p ↔ p ∈ rq.listed ∨ rq.queuedMycfs p := by
  rw [mem_listed]
  by_cases hm : (rq.task p).schedClass = .mycfs
  · have hno : ¬ ∃ c, p ∈ rq.list c := by
      rintro ⟨c, hc⟩
      have hcm := (h.schedClass c p hc).symm.trans hm
      rw [hcm] at hc
      cases hc
    rw [Rq.queued, hm, queuedIn_mycfs]
    simp [hno, Rq.queuedMycfs, hm]
  · constructor
    · intro hq
      exact Or.inl ⟨_, (h.mem_list_iff hm).mpr ⟨rfl, hq⟩⟩
    · rintro (⟨c, hc⟩ | hq)
      · have hcc := h.schedClass c p hc
        rw [← hcc] at hc
        exact ((h.mem_list_iff hm).mp hc).2
      · exact absurd hq.1 hm

theorem Tidy.listed_subset (h : Tidy rq) : rq.listed.toFinset ⊆ rq.queuedTasks := by
  intro p hp
  have hl := List.mem_toFinset.mp hp
  obtain ⟨c, hc⟩ := mem_listed.mp hl
  refine Finset.mem_filter.mpr ⟨List.mem_toFinset.mpr (h.alive c p hc), ?_⟩
  exact h.queued_iff.mpr (Or.inl hl)

theorem Tidy.nrRunning_iff (h : Tidy rq) : rq.nrRunning = rq.queuedTasks.card ↔ NoMycfs rq := by
  have hcard : rq.listed.toFinset.card = rq.listed.length :=
    List.toFinset_card_of_nodup h.nodup_listed
  rw [h.nrRunning_eq, Nat.cast_inj, ← hcard]
  constructor
  · intro heq p hp hq
    have hsets := Finset.eq_of_subset_of_card_le h.listed_subset heq.ge
    have hmem : p ∈ rq.queuedTasks :=
      Finset.mem_filter.mpr ⟨List.mem_toFinset.mpr hp, h.queued_iff.mpr (Or.inr hq)⟩
    rw [← hsets, List.mem_toFinset, mem_listed] at hmem
    obtain ⟨c, hc⟩ := hmem
    have hcm := (h.schedClass c p hc).symm.trans hq.1
    rw [hcm] at hc
    cases hc
  · intro hno
    refine congrArg Finset.card (Finset.Subset.antisymm h.listed_subset fun p hp => ?_)
    obtain ⟨halive, hq⟩ := Finset.mem_filter.mp hp
    refine List.mem_toFinset.mpr ((h.queued_iff.mp hq).resolve_right ?_)
    exact hno p (List.mem_toFinset.mp halive)

theorem queuedTasks_eq_empty (h : rq.nrRunning = rq.queuedTasks.card) (h0 : rq.nrRunning = 0) :
    rq.queuedTasks = ∅ := by
  rw [h0] at h
  exact Finset.card_eq_zero.mp (Int.natCast_eq_zero.mp h.symm)

theorem Tidy.counts_iff (h : Tidy rq) : Counts rq ↔ NoMycfs rq := by
  constructor
  · intro hc
    exact h.nrRunning_iff.mp hc.nrRunning
  · intro hno
    have hn := h.nrRunning_iff.mpr hno
    refine ⟨hn, fun wakeList hi => queuedTasks_eq_empty hn ?_⟩
    unfold idleCpu at hi
    split at hi
    · cases hi
    · split at hi
      · cases hi
      · rename_i h0
        exact not_not.mp h0

theorem Same.schedClass (h : Same rq rq') (q : Tid) :
    (rq'.task q).schedClass = (rq.task q).schedClass := by
  have hk := h.key q
  simp only [Task.key, Prod.mk.injEq] at hk
  exact hk.2.2

theorem Tidy.modify (h : Tidy rq) (hf : ∀ c, p ∈ rq.list c → (f (rq.task p)).schedClass = c) :
    Tidy (rq.modify p f) where
  alive := fun c q hq => by
    rw [list_modify] at hq
    exact h.alive c q hq
  schedClass := fun c q hq => by
    rw [list_modify] at hq
    by_cases hqp : q = p
    · subst hqp
      rw [modify_task_self]
      exact hf c hq
    · rw [modify_task_of_ne rq f hqp]
      exact h.schedClass c q hq
  nodup := fun c => by
    rw [list_modify]
    exact h.nodup c
  throttled := h.throttled
  nrRunning := h.nrRunning

theorem Tidy.setOnRq (h : Tidy rq) (p : Tid) (b : Bool) : Tidy (rq.setOnRq p b) :=
  h.modify fun c hc => h.schedClass c p hc

theorem Tidy.setState (h : Tidy rq) (p : Tid) (st : TaskState) : Tidy (rq.setState p st) :=
  h.modify fun c hc => h.schedClass c p hc

theorem list_enqueueTask_cases (rq : Rq) (p : Tid) (c : Class) :
    (enqueueTask rq p).list c = rq.list c ∨
      (c = (rq.task p).schedClass ∧ (enqueueTask rq p).list c = rq.list c ++ [p]) := by
  by_cases hm : c = .mycfs ∨ c = .idle
  · left
    rcases hm with rfl | rfl
    · rfl
    · rfl
  · rw [not_or] at hm
    rw [list_enqueueTask rq p hm.1 hm.2]
    split
    · rename_i hc
      exact Or.inr ⟨hc, rfl⟩
    · exact Or.inl rfl

theorem mem_list_enqueueTask {c : Class} (hq : q ∈ (enqueueTask rq p).list c) :
    q ∈ rq.list c ∨ (q = p ∧ c = (rq.task p).schedClass) := by
  rcases list_enqueueTask_cases rq p c with he | ⟨hc, he⟩
  · rw [he] at hq
    exact Or.inl hq
  · rw [he, List.mem_append, List.mem_singleton] at hq
    exact hq.imp_right fun h => ⟨h, hc⟩

theorem Tidy.enqueueTask (h : Tidy rq) (hp : p ∈ rq.alive) (hn : ∀ c, p ∉ rq.list c) :
    Tidy (enqueueTask rq p) := by
  have hs : Same rq (Sched.enqueueTask rq p) := same_enqueueTask
  refine ⟨fun c q hq => ?_, fun c q hq => ?_, fun c => ?_, fun q => ?_, ?_⟩
  · rw [hs.alive]
    rcases mem_list_enqueueTask hq with hq | ⟨rfl, -⟩
    · exact h.alive c q hq
    · exact hp
  · rw [hs.schedClass]
    rcases mem_list_enqueueTask hq with hq | ⟨rfl, rfl⟩
    · exact h.schedClass c q hq
    · rfl
  · rcases list_enqueueTask_cases rq p c with he | ⟨-, he⟩
    · rw [he]
      exact h.nodup c
    · rw [he, ← List.concat_eq_append]
      exact (h.nodup c).concat (hn c)
  · unfold Sched.enqueueTask
    split <;> exact h.throttled q
  · have hnr := h.nrRunning
    have hcounted : (if rq.throttled p = true then (0 : ℤ) else 1) = 1 := by
      rw [h.throttled p]
      rfl
    unfold Sched.enqueueTask
    split
    · simp only [List.length_append, List.length_singleton]
      omega
    · simp only [List.length_append, List.length_singleton]
      omega
    · simp only [List.length_append, List.length_singleton, hcounted]
      omega
    · exact hnr
    · exact hnr

theorem Tidy.dequeueTask (h : Tidy rq) (hq : rq.queued p) : Tidy (dequeueTask rq p) := by
  have hs : Same rq (Sched.dequeueTask rq p) := same_dequeueTask
  have hsub : ∀ c q, q ∈ (Sched.dequeueTask rq p).list c → q ∈ rq.list c := by
    intro c q hqc
    rw [list_dequeueTask] at hqc
    split at hqc
    · exact List.mem_of_mem_erase hqc
    · exact hqc
  refine ⟨fun c q hqc => ?_, fun c q hqc => ?_, fun c => ?_, fun q => ?_, ?_⟩
  · rw [hs.alive]
    exact h.alive c q (hsub c q hqc)
  · rw [hs.schedClass]
    exact h.schedClass c q (hsub c q hqc)
  · rw [list_dequeueTask]
    split
    · exact (h.nodup c).erase p
    · exact h.nodup c
  · unfold Sched.dequeueTask
    split <;> exact h.throttled q
  · have hnr := h.nrRunning
    have hcounted : (if rq.throttled p = true then (0 : ℤ) else 1) = 1 := by
      rw [h.throttled p]
      rfl
    unfold Rq.queued at hq
    unfold Sched.dequeueTask
    split <;> rename_i hc <;> rw [hc] at hq
    · have hlen := List.length_erase_add_one (show p ∈ rq.stopTasks from hq)
      simp only
      omega
    · have hlen := List.length_erase_add_one (show p ∈ rq.rtTasks from hq)
      simp only
      omega
    · have hlen := List.length_erase_add_one (show p ∈ rq.fairTasks from hq)
      simp only [hcounted]
      omega
    · exact hnr
    · exact hnr

theorem Tidy.not_mem_dequeueTask (h : Tidy rq) (c : Class) : p ∉ (Sched.dequeueTask rq p).list c := by
  rw [list_dequeueTask]
  split
  · exact (h.nodup c).not_mem_erase
  · rename_i hne
    intro hp
    exact hne (h.schedClass c p hp).symm

end AndroidKernel.Sched
