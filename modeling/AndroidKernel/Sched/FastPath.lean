import AndroidKernel.Sched.FairPicks

/-! `pick_next_task` of `core.c` with the effects of the hooks that it calls: the shortcut through
the fair class, and the scan of the classes behind it. -/

namespace AndroidKernel.Sched

/-- The hooks of the stop, rt and idle classes. Stop and rt pick only tasks that are queued with
them, and leave the runqueue as it is where they answer `NULL`. -/
structure PickHooks where
  fair : FairConfig
  stop : CpuRq → Option Tid × CpuRq
  rt : CpuRq → Option Tid × CpuRq
  idle : CpuRq → CpuRq
  stop_queued : ∀ s p, (stop s).1 = some p → p ∈ s.rq.stopTasks
  stop_null : ∀ s, (stop s).1 = none → (stop s).2 = s
  rt_queued : ∀ s p, (rt s).1 = some p → p ∈ s.rq.rtTasks
  rt_null : ∀ s, (rt s).1 = none → (rt s).2 = s

namespace PickHooks

def hook (k : PickHooks) (s : CpuRq) : Class → Option (Option Tid × CpuRq)
  | .stop => some (k.stop s)
  | .rt => some (k.rt s)
  | .fair => pickNextTaskFair k.fair s
  | .mycfs => some (pickNextTaskMycfs s.rq, s)
  | .idle => some (some s.rq.idle, k.idle s)

/-- The loop over the classes; behind its end stands `BUG()`. -/
def forEachClass (k : PickHooks) : List Class → CpuRq → Option (Tid × CpuRq)
  | [], _ => none
  | c :: cs, s =>
    match k.hook s c with
    | none => none
    | some (some p, s) => some (p, s)
    | some (none, s) => forEachClass k cs s

def pickNextTask (k : PickHooks) (s : CpuRq) : Option (Tid × CpuRq) :=
  if s.rq.nrRunning = s.rq.hNrRunning then
    match pickNextTaskFair k.fair s with
    | none => none
    | some (some p, s) => some (p, s)
    | some (none, s) => k.forEachClass classes s
  else k.forEachClass classes s

variable {k : PickHooks} {s s' : CpuRq} {c : Class} {cs : List Class}

theorem forEachClass_null (h : k.hook s c = some (none, s)) :
    k.forEachClass (c :: cs) s = k.forEachClass cs s := by
  rw [forEachClass, h]

theorem null_of_empty {f : CpuRq → Option Tid × CpuRq} {tasks : List Tid}
    (hq : ∀ p, (f s).1 = some p → p ∈ tasks) (hnull : (f s).1 = none → (f s).2 = s)
    (h : tasks = []) : f s = (none, s) := by
  have hn : (f s).1 = none := by
    cases hp : (f s).1 with
    | none => rfl
    | some p =>
      have hmem := hq p hp
      rw [h] at hmem
      cases hmem
  exact Prod.ext hn (hnull hn)

theorem stop_empty (h : s.rq.stopTasks = []) : k.hook s .stop = some (none, s) :=
  congrArg some (null_of_empty (k.stop_queued s) (k.stop_null s) h)

theorem rt_empty (h : s.rq.rtTasks = []) : k.hook s .rt = some (none, s) :=
  congrArg some (null_of_empty (k.rt_queued s) (k.rt_null s) h)

theorem queues_empty
    (hn : s.rq.nrRunning - s.rq.hNrRunning = s.rq.stopTasks.length + s.rq.rtTasks.length)
    (hg : s.rq.nrRunning = s.rq.hNrRunning) : s.rq.stopTasks = [] ∧ s.rq.rtTasks = [] := by
  constructor <;> apply List.eq_nil_of_length_eq_zero <;> omega

theorem forEachClass_fair (hstop : s.rq.stopTasks = []) (hrt : s.rq.rtTasks = []) :
    k.forEachClass classes s = k.forEachClass [.fair, .mycfs, .idle] s := by
  unfold classes
  rw [forEachClass_null (stop_empty hstop), forEachClass_null (rt_empty hrt)]

theorem hook_null (h : k.hook s c = some (none, s')) : s' = s := by
  cases c with
  | stop =>
    have he : k.stop s = (none, s') := Option.some_inj.mp h
    have hs := k.stop_null s (congrArg Prod.fst he)
    rwa [he] at hs
  | rt =>
    have he : k.rt s = (none, s') := Option.some_inj.mp h
    have hs := k.rt_null s (congrArg Prod.fst he)
    rwa [he] at hs
  | fair => exact (pickNextTaskFair_null h).2
  | mycfs => exact (congrArg Prod.snd (Option.some_inj.mp h)).symm
  | idle => cases h

theorem hook_returns (h : FairOrdered k.fair s) (c : Class) : ∃ q s', k.hook s c = some (q, s') := by
  cases c with
  | fair => exact h.pick
  | stop | rt | mycfs | idle => exact ⟨_, _, rfl⟩

theorem forEachClass_returns (h : FairOrdered k.fair s) (hi : .idle ∈ cs) :
    ∃ p t, k.forEachClass cs s = some (p, t) := by
  induction cs with
  | nil => cases hi
  | cons c cs ih =>
    obtain ⟨q, s', hc⟩ := hook_returns h c
    cases q with
    | some p => exact ⟨p, s', by rw [forEachClass, hc]⟩
    | none =>
      obtain rfl := hook_null hc
      rw [forEachClass_null hc]
      rcases List.mem_cons.mp hi with rfl | hi
      · cases hc
      · exact ih hi

theorem pickNextTask_eq
    (hn : s.rq.nrRunning - s.rq.hNrRunning = s.rq.stopTasks.length + s.rq.rtTasks.length) :
    k.pickNextTask s = k.forEachClass classes s := by
  unfold pickNextTask
  split
  · rename_i hg
    obtain ⟨hstop, hrt⟩ := queues_empty hn hg
    rw [forEachClass_fair hstop hrt, forEachClass]
    cases hf : pickNextTaskFair k.fair s with
    | none => rw [hook, hf]
    | some x =>
      obtain ⟨p, s'⟩ := x
      cases p with
      | some p => rw [hook, hf]
      | none =>
        -- the failed call has changed nothing, and the scan makes it once more
        have hnull : k.hook s .fair = some (none, s') := hf
        obtain rfl := hook_null hnull
        rw [hnull]
        dsimp only
        rw [forEachClass_fair hstop hrt, forEachClass_null hnull]
  · rfl

/-- Where the difference of the counters is the number of queued stop and rt tasks, the shortcut
picks the task that the scan picks and leaves the runqueue that the scan leaves. Both do pick one
while the fair class is in order. -/
theorem pickNextTask_eq_forEachClass (k : PickHooks) (s : CpuRq)
    (hn : s.rq.nrRunning - s.rq.hNrRunning = s.rq.stopTasks.length + s.rq.rtTasks.length) :
    k.pickNextTask s = k.forEachClass classes s ∧
      (FairOrdered k.fair s → ∃ p t, k.pickNextTask s = some (p, t)) := by
  refine ⟨pickNextTask_eq hn, fun h => ?_⟩
  rw [pickNextTask_eq hn]
  exact forEachClass_returns h (by decide)

def firstQueued : PickHooks where
  fair := ⟨1000000, true, 2, fun s _ => s⟩
  stop := fun s => (s.rq.stopTasks.head?, s)
  rt := fun s => (s.rq.rtTasks.head?, s)
  idle := id
  stop_queued := fun _ _ h => List.mem_of_head? h
  stop_null := fun _ _ => rfl
  rt_queued := fun _ _ h => List.mem_of_head? h
  rt_null := fun _ _ => rfl

def groupRq (fair : List Tid) : CpuRq where
  rq :=
    { task := fun p => ⟨if p = 1 then .mycfs else .normal, 0, 120, 120, 120,
        if p = 1 then .mycfs else .fair, true, .running, false, true⟩
      alive := [0, 1] ++ fair
      curr := 1
      idle := 0
      stop := none
      stopTasks := []
      rtTasks := []
      fairTasks := fair
      throttled := fun _ => false
      nrRunning := fair.length
      hNrRunning := fair.length
      nullHook := false
      picking := true }
  cfs := 0
  cfsRq := fun c =>
    if c = 0 then ⟨if fair = [] then 0 else 1, if fair = [] then [] else [0], none, fun _ => none⟩
    else ⟨if c = 1 then fair.length else 0, if c = 1 then fair else [], none, fun _ => none⟩
  se := fun e =>
    ⟨⟨1024, 0⟩, true, 0, 0, 0, 0, ⟨0, 0, 0, 0, 0⟩, if e = 0 then none else some 0,
      if e = 0 then 0 else 1, if e = 0 then some 1 else none, e⟩
  clock := 7
  clockTask := 7
  loadWeight := 1024

theorem groupRq_member {fair : List Tid} {c : Qid} {e : Eid} (hm : (groupRq fair).Member c e) :
    c = 0 ∧ fair ≠ [] ∧ e = 0 ∨ c = 1 ∧ e ∈ fair := by
  rcases hm with hm | ⟨b, hb⟩
  · simp only [groupRq] at hm
    split_ifs at hm with hc hf hc₁
    · cases hm
    · exact Or.inl ⟨hc, hf, List.mem_singleton.mp hm⟩
    · exact Or.inr ⟨hc₁, hm⟩
    · cases hm
  · simp only [groupRq] at hb
    split_ifs at hb

theorem groupRq_ordered (fair : List Tid) (h : 0 ∉ fair) :
    FairOrdered firstQueued.fair (groupRq fair) := by
  have hse : ∀ e, e ∈ fair → e ≠ 0 := fun e he => ne_of_mem_of_not_mem he h
  refine ⟨fun hn hnil => ?_, fun c => if c = 0 then 0 else 1, ?_, ?_, ?_, ?_, ?_⟩
  · by_cases hf : fair = [] <;> simp [groupRq, hf] at hn hnil
  · intro c
    change (if c = 0 then 0 else 1) < 2
    split_ifs <;> decide
  · intro c e hm
    rcases groupRq_member hm with ⟨rfl, -, rfl⟩ | ⟨rfl, he⟩
    · rfl
    · exact if_neg (hse e he)
  · intro e p hp
    by_cases he : e = 0
    · simp [groupRq, he] at hp
    · have hp' : p = 0 := by simpa [groupRq, he, eq_comm] using hp
      simp [groupRq, he, hp']
  · intro e d hd
    by_cases he : e = 0
    · have hd' : d = 1 := by simpa [groupRq, he, eq_comm] using hd
      simp [groupRq, he, hd']
    · simp [groupRq, he] at hd
  · intro c e d _ hm hd
    rcases groupRq_member hm with ⟨-, hf, rfl⟩ | ⟨-, he⟩
    · have hd' : d = 1 := by simpa [groupRq, eq_comm] using hd
      simpa [groupRq, hd'] using hf
    · simp [groupRq, hse e he] at hd

/-- A fair task behind a group entity is picked before the MYCFS task, and without fair tasks the
MYCFS task is. -/
theorem pickNextTask_groupRq :
    (firstQueued.pickNextTask (groupRq [2, 3])).map Prod.fst = some 2 ∧
      firstQueued.pickNextTask (groupRq [2, 3]) =
        firstQueued.forEachClass classes (groupRq [2, 3]) ∧
      FairOrdered firstQueued.fair (groupRq [2, 3]) ∧
      (firstQueued.pickNextTask (groupRq [])).map Prod.fst = some 1 ∧
      firstQueued.pickNextTask (groupRq []) = firstQueued.forEachClass classes (groupRq []) ∧
      ∃ p t, firstQueued.pickNextTask (groupRq []) = some (p, t) := by
  obtain ⟨heq, -⟩ := pickNextTask_eq_forEachClass firstQueued (groupRq [2, 3]) rfl
  obtain ⟨heq', hreturns⟩ := pickNextTask_eq_forEachClass firstQueued (groupRq []) rfl
  exact ⟨rfl, heq, groupRq_ordered [2, 3] (by decide), rfl, heq',
    hreturns (groupRq_ordered [] (by decide))⟩

def picks (k : PickHooks) (s : CpuRq) : Picks where
  stop := fun rq => (k.stop { s with rq := rq }).1
  rt := fun rq => (k.rt { s with rq := rq }).1
  fair := fun rq =>
    if rq.runnableFair = [] then none
    else (pickNextTaskFair k.fair { s with rq := rq }).bind Prod.fst
  stop_nil := fun rq h =>
    congrArg Prod.fst (null_of_empty (k.stop_queued { s with rq := rq }) (k.stop_null _) h)
  rt_nil := fun rq h =>
    congrArg Prod.fst (null_of_empty (k.rt_queued { s with rq := rq }) (k.rt_null _) h)
  fair_nil := fun _ h => if_pos h

/-- A `cfs_rq` without runnable tasks has no entity either. -/
def FairCounted (s : CpuRq) : Prop := s.rq.runnableFair = [] → (s.cfsRq s.cfs).nrRunning = 0

theorem picks_fair (hf : FairCounted s) {q : Option Tid}
    (h : pickNextTaskFair k.fair s = some (q, s')) : (k.picks s).fair s.rq = q := by
  by_cases hr : s.rq.runnableFair = []
  · have hnull : pickNextTaskFair k.fair s = some (none, s) := if_pos (hf hr)
    rw [hnull] at h
    obtain ⟨rfl, -⟩ := Prod.mk.inj (Option.some_inj.mp h)
    exact (k.picks s).fair_nil s.rq hr
  · have hpick : (k.picks s).fair s.rq = (pickNextTaskFair k.fair s).bind Prod.fst := if_neg hr
    rw [hpick, h]
    rfl

theorem hook_picks (hf : FairCounted s) {q : Option Tid} (h : k.hook s c = some (q, s')) :
    (k.picks s).hook s.rq c = q := by
  cases c with
  | fair => exact picks_fair hf h
  | stop | rt | mycfs | idle => exact congrArg Prod.fst (Option.some_inj.mp h)

theorem forEachClass_picks (hf : FairCounted s) {p : Tid}
    (h : k.forEachClass cs s = some (p, s')) :
    cs.findSome? ((k.picks s).hook s.rq) = some p := by
  induction cs with
  | nil => cases h
  | cons c cs ih =>
    rw [forEachClass] at h
    cases hc : k.hook s c with
    | none => rw [hc] at h; cases h
    | some x =>
      obtain ⟨q, t⟩ := x
      rw [hc] at h
      rw [List.findSome?_cons, hook_picks hf hc]
      cases q with
      | none =>
        obtain rfl := hook_null hc
        exact ih h
      | some q =>
        obtain ⟨rfl, -⟩ := Prod.mk.inj (Option.some_inj.mp h)
        rfl

/-- The task picked is the one that `pick_next_task` picks on the lists alone. -/
theorem pickNextTask_picks (hf : FairCounted s) {p : Tid} (h : k.pickNextTask s = some (p, s')) :
    Sched.pickNextTask (k.picks s) s.rq = p := by
  have hscan : ∀ t, k.forEachClass classes s = some (p, t) →
      Sched.forEachClass (k.picks s) s.rq = p := by
    intro t ht
    rw [Sched.forEachClass, forEachClass_picks hf ht, Option.getD_some]
  unfold pickNextTask at h
  unfold Sched.pickNextTask
  split at h
  · rename_i hg
    rw [if_pos hg]
    split at h
    · cases h
    · rename_i q t hfair
      obtain ⟨rfl, -⟩ := Prod.mk.inj (Option.some_inj.mp h)
      rw [picks_fair hf hfair, Option.getD_some]
    · rename_i t hfair
      obtain rfl := (pickNextTaskFair_null hfair).2
      rw [picks_fair hf hfair, Option.getD_none]
      exact hscan _ h
  · rename_i hg
    rw [if_neg hg]
    exact hscan _ h

end PickHooks

end AndroidKernel.Sched
