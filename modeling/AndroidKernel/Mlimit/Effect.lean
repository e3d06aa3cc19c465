import Mathlib.Data.BitVec
import AndroidKernel.Mlimit.Selection
import AndroidKernel.Mlimit.Frame

/-! What a call of the OOM killer does to the books: the process it goes for, what it takes off
which user, and whom it kills. -/

namespace AndroidKernel.Mlimit
open Outcome
variable {s s' r : Sys} {current p : Tid} {env : OomEnv} {memcg : Option Memcg}
  {nodemask : Option Nodemask} {totalpages : Long} {forceKill : Bool} {u : UserPtr}

def Sys.cumulative (s : Sys) (u : UserPtr) : Long := (s.users.obj u).cumulativeMem

def Event.debitOf (u : UserPtr) : Event → Option Long
  | .debit v a => if v = u then some a else none
  | .compare .. | .over _ | .charge .. | .kill .. => none

def Event.killOf (u : UserPtr) : Event → Option (Tid × Long)
  | .kill p v a => if v = u then some (p, a) else none
  | .compare .. | .over _ | .charge .. | .debit .. => none

def Event.comparison : Event → Option (UserPtr × Long)
  | .compare u limit => some (u, limit)
  | .over _ | .charge .. | .debit .. | .kill .. => none

def Sys.debits (s : Sys) (u : UserPtr) : List Long := s.log.filterMap (Event.debitOf u)

def Sys.victims (s : Sys) (u : UserPtr) : List (Tid × Long) := s.log.filterMap (Event.killOf u)

def Sys.compares (s : Sys) : List (UserPtr × Long) := s.log.filterMap Event.comparison

def selected (s : Sys) (current : Tid) (totalpages : Long) (memcg : Option Memcg)
    (nodemask : Option Nodemask) (forceKill : Bool) : Option Tid :=
  (selectBadProcess s current totalpages memcg nodemask forceKill).toOption.bind fun r => r.1.task?

def oomTarget (s : Sys) (current : Tid) (env : OomEnv) : Option Tid :=
  if 0 < env.freed ∨ s.fatalSignalPending current = true then none
  else if killsCurrent s current env then some current
  else selected s current env.totalpages none (mpolMask env) env.forceKill

def memcgTarget (s : Sys) (current : Tid) (memcg : Memcg) (limit : Long) : Option Tid :=
  if s.fatalSignalPending current then none
  else selected s current limit (some memcg) none false

def guarded (s : Sys) (p : Tid) : Bool := (s.tasks.task p).uid = s.user

def victim (s : Sys) (current p : Tid) (memcg : Option Memcg) (nodemask : Option Nodemask)
    (totalpages : Long) : Option Tid :=
  if (s.tasks.task p).exiting then none
  else findLockTaskMm s.tasks (chooseVictim s current p memcg nodemask totalpages)

def Tasks.childrenOf (w : Tasks) (p : Tid) : List Tid :=
  (w.ring p).flatMap fun t => (w.task t).children

def takeChild (s : Sys) (current p : Tid) (memcg : Option Memcg) (nodemask : Option Nodemask)
    (totalpages : Long) (best : Best) (c : Tid) : Best :=
  if (s.tasks.task c).mm = (s.tasks.task p).mm then best
  else better (fun c => oomBadness s.users s.tasks current c memcg nodemask totalpages) best c

theorem chooseVictim_eq_foldl : chooseVictim s current p memcg nodemask totalpages =
    (((s.tasks.childrenOf p).foldl (takeChild s current p memcg nodemask totalpages)
      (none, 0)).1).getD p := rfl

def takenFrom (w : Tasks) (u : UserPtr) (ps : List Tid) : List Long :=
  (ps.filter fun p => (w.task p).user = u).map (rssBytes w)

def lostBy (w : Tasks) (u : UserPtr) (ps : List Tid) : List (Tid × Long) :=
  (ps.filter fun p => (w.task p).user = u).map fun p => (p, rssBytes w p)

theorem takenFrom_nil (w : Tasks) (u : UserPtr) : takenFrom w u [] = [] := rfl

theorem takenFrom_singleton (w : Tasks) (u : UserPtr) (p : Tid) :
    takenFrom w u [p] = if (w.task p).user = u then [rssBytes w p] else [] := by
  unfold takenFrom
  by_cases hu : (w.task p).user = u
  · simp [hu]
  · simp [hu]

theorem lostBy_singleton (w : Tasks) (u : UserPtr) (p : Tid) :
    lostBy w u [p] = if (w.task p).user = u then [(p, rssBytes w p)] else [] := by
  unfold lostBy
  by_cases hu : (w.task p).user = u
  · simp [hu]
  · simp [hu]

structure Effect (s s' : Sys) (debited killed : List Tid) : Prop where
  cumulative : ∀ u, s'.cumulative u = s.cumulative u - (takenFrom s.tasks u debited).sum
  debits : ∀ u, s'.debits u = takenFrom s.tasks u debited ++ s.debits u
  victims : ∀ u, s'.victims u = lostBy s.tasks u killed ++ s.victims u
  compares : s'.compares = s.compares

theorem SameTasks.takenFrom (h : SameTasks s.tasks r.tasks) (u : UserPtr) (ps : List Tid) :
    takenFrom r.tasks u ps = takenFrom s.tasks u ps := by
  unfold Mlimit.takenFrom
  simp only [h.user]
  exact List.map_congr_left fun p _ => h.rssBytes p

theorem SameTasks.lostBy (h : SameTasks s.tasks r.tasks) (u : UserPtr) (ps : List Tid) :
    lostBy r.tasks u ps = lostBy s.tasks u ps := by
  unfold Mlimit.lostBy
  simp only [h.user, h.rssBytes]

theorem Effect.trans {d d' k k' : List Tid} (h : Effect s r d k)
    (ht : SameTasks s.tasks r.tasks) (h' : Effect r s' d' k') :
    Effect s s' (d' ++ d) (k' ++ k) := by
  refine ⟨fun u => ?_, fun u => ?_, fun u => ?_, h'.compares.trans h.compares⟩
  · have hsum : (Mlimit.takenFrom s.tasks u (d' ++ d)).sum =
        (Mlimit.takenFrom s.tasks u d').sum + (Mlimit.takenFrom s.tasks u d).sum := by
      unfold Mlimit.takenFrom
      rw [List.filter_append, List.map_append, List.sum_append]
    rw [h'.cumulative, h.cumulative, ht.takenFrom, hsum]
    bv_omega
  · rw [h'.debits, h.debits, ht.takenFrom]
    simp [Mlimit.takenFrom]
  · rw [h'.victims, h.victims, ht.lostBy]
    simp [Mlimit.lostBy]

structure Idle (s s' : Sys) : Prop where
  cumulative : ∀ u, s'.cumulative u = s.cumulative u
  log : s'.log = s.log

theorem Idle.effect (h : Idle s s') : Effect s s' [] [] where
  cumulative := fun u => by simp [h.cumulative u, takenFrom]
  debits := fun u => by simp [Sys.debits, h.log, takenFrom]
  victims := fun u => by simp [Sys.victims, h.log, lostBy]
  compares := congrArg (List.filterMap Event.comparison) h.log

theorem Idle.refl (s : Sys) : Idle s s := ⟨fun _ => rfl, rfl⟩

theorem Marked.idle (h : Marked s s') : Idle s s' := by
  obtain ⟨w, -, rfl⟩ := h
  exact ⟨fun _ => rfl, rfl⟩

theorem idle_get (s : Sys) (u : UserPtr) : Idle s { s with users := s.users.get u } :=
  ⟨modify_obj_field (g := User.cumulativeMem) (f := fun u => { u with count := u.count + 1 })
    fun _ => rfl, rfl⟩

theorem idle_selectBadProcess {sel : Selected} {points : Long}
    (h : selectBadProcess s current totalpages memcg nodemask forceKill = .ok (sel, points, s')) :
    Idle s s' := by
  rcases selectBadProcess_state h with rfl | ⟨u, rfl⟩
  · exact Idle.refl s'
  · exact idle_get s u

theorem effect_oomKillProcess : Effect s (oomKillProcess s current p memcg nodemask totalpages)
    [] (victim s current p memcg nodemask totalpages).toList := by
  unfold oomKillProcess victim
  split
  · exact marked_setMemdie.idle.effect
  · cases hv : findLockTaskMm s.tasks (chooseVictim s current p memcg nodemask totalpages) with
    | none => exact (Idle.refl s).effect
    | some v =>
      have hidle := (marked_kill s v).idle
      have heff := hidle.effect
      refine ⟨heff.cumulative, heff.debits, fun u => ?_, heff.compares⟩
      unfold Sys.victims lostBy
      by_cases hu : (s.tasks.task v).user = u
      · simp [Sys.emit, Event.killOf, hidle.log, hu]
      · simp [Sys.emit, Event.killOf, hidle.log, hu]

theorem effect_debited : Effect s (debited s p) [p] [] := by
  refine ⟨fun u => ?_, fun u => ?_, fun u => ?_, rfl⟩
  · unfold Sys.cumulative debited takenFrom
    by_cases hu : (s.tasks.task p).user = u
    · subst hu
      simp [Sys.emit, modify_obj_self]
    · have hne : u ≠ (s.tasks.task p).user := fun h => hu h.symm
      simp [Sys.emit, modify_obj_of_ne hne, hu]
  · unfold Sys.debits debited takenFrom
    by_cases hu : (s.tasks.task p).user = u
    · simp [Sys.emit, Event.debitOf, hu]
    · simp [Sys.emit, Event.debitOf, hu]
  · rfl

theorem effect_debitIf {guard : Bool} (h : debitIf guard s p = .ok s') :
    Effect s s' (if guard then [p] else []) [] := by
  unfold debitIf at h
  split at h
  · rename_i hg
    rw [if_pos hg, (debit_ok h).2]
    exact effect_debited
  · rename_i hg
    obtain rfl := Except.ok.inj h
    rw [if_neg hg]
    exact (Idle.refl s).effect

theorem chooseVictim_congr (h : SameLimits s.users r.users) (ht : r.tasks = s.tasks) :
    chooseVictim r current p memcg nodemask totalpages =
      chooseVictim s current p memcg nodemask totalpages := by
  simp only [chooseVictim, ht, oomBadness_congr h.memMax]

theorem victim_congr (h : SameLimits s.users r.users) (ht : r.tasks = s.tasks) :
    victim r current p memcg nodemask totalpages = victim s current p memcg nodemask totalpages := by
  unfold victim
  rw [ht, chooseVictim_congr h ht]

theorem selectBadProcess_tasks {sel : Selected} {points : Long}
    (h : selectBadProcess s current totalpages memcg nodemask forceKill = .ok (sel, points, s')) :
    s'.tasks = s.tasks := by
  rcases selectBadProcess_state h with rfl | ⟨u, rfl⟩
  · rfl
  · rfl

theorem debitIf_tasks {guard : Bool} (h : debitIf guard s p = .ok s') : s'.tasks = s.tasks := by
  unfold debitIf at h
  split at h
  · rw [(debit_ok h).2]
    rfl
  · rw [← Except.ok.inj h]

theorem effect_select {sel : Selected} {points : Long} {guard : Bool}
    (hsel : selectBadProcess s current totalpages memcg nodemask forceKill = .ok (sel, points, r))
    (hd : debitIf guard r p = .ok s') (memcg' : Option Memcg) (nodemask' : Option Nodemask) :
    Effect s (oomKillProcess s' current p memcg' nodemask' totalpages)
      (if guard then [p] else [])
      (victim s current p memcg' nodemask' totalpages).toList := by
  have hw := within_selectBadProcess hsel
  have hw' := hw.trans (within_debitIf hd)
  have ht : s'.tasks = s.tasks := (debitIf_tasks hd).trans (selectBadProcess_tasks hsel)
  have hkill : Effect s' (oomKillProcess s' current p memcg' nodemask' totalpages) []
      (victim s current p memcg' nodemask' totalpages).toList := by
    rw [← victim_congr hw'.users ht]
    exact effect_oomKillProcess
  have heff := ((idle_selectBadProcess hsel).effect.trans hw.tasks (effect_debitIf hd)).trans
    hw'.tasks hkill
  simpa using heff

theorem oomTarget_of_shortage (hf : ¬ 0 < env.freed) (hs : s.fatalSignalPending current = false) :
    oomTarget s current env = if killsCurrent s current env then some current
      else selected s current env.totalpages none (mpolMask env) env.forceKill := by
  unfold oomTarget
  rw [if_neg]
  rintro (h | h)
  · exact hf h
  · rw [hs] at h
    cases h

theorem selected_of_ok {sel : Selected} {points : Long}
    (h : selectBadProcess s current totalpages memcg nodemask forceKill = .ok (sel, points, r)) :
    selected s current totalpages memcg nodemask forceKill = sel.task? := by
  simp [selected, h, Except.toOption]

theorem outOfMemory_effect (h : outOfMemory s current env = .ok s') :
    Effect s s' ((oomTarget s current env).toList.filter (guarded s))
      ((oomTarget s current env).toList.flatMap fun p =>
        (victim s current p none env.nodemask env.totalpages).toList) := by
  cases outOfMemory_returns h with
  | freed hf =>
    rw [oomTarget, if_pos (Or.inl hf)]
    exact (Idle.refl s).effect
  | dying hf hs =>
    rw [oomTarget, if_pos (Or.inr hs)]
    exact marked_setMemdie.idle.effect
  | own r hf hs hk hd =>
    have hw : Within s (oomKillProcess s current current none env.nodemask env.totalpages) :=
      within_oomKillProcess
    have heff := effect_oomKillProcess.trans hw.tasks (effect_debitIf hd)
    rw [hw.tasks.uid, hw.user] at heff
    rw [oomTarget_of_shortage hf hs, if_pos hk]
    simpa [guarded, List.filter_cons] using heff
  | wait points r hf hs hk hsel =>
    rw [oomTarget_of_shortage hf hs, hk, if_neg Bool.false_ne_true, selected_of_ok hsel]
    exact (idle_selectBadProcess hsel).effect
  | kill p points r r' hf hs hk hsel hd =>
    rw [oomTarget_of_shortage hf hs, hk, if_neg Bool.false_ne_true, selected_of_ok hsel]
    have hw := within_selectBadProcess hsel
    have heff := effect_select hsel hd none env.nodemask
    rw [hw.tasks.uid, hw.user] at heff
    simpa [Selected.task?, guarded, List.filter_cons] using heff

theorem memCgroupOutOfMemory_effect {memcg : Memcg} {limit : Long}
    (h : memCgroupOutOfMemory s current memcg limit env = .ok s') :
    Effect s s' (memcgTarget s current memcg limit).toList
      ((memcgTarget s current memcg limit).toList.flatMap fun p =>
        (victim s current p (some memcg) none limit).toList) := by
  cases memCgroupOutOfMemory_returns h with
  | dying hs =>
    rw [memcgTarget, if_pos hs]
    exact marked_setMemdie.idle.effect
  | idle sel points r hs hnot hsel =>
    rw [memcgTarget, hs, if_neg Bool.false_ne_true, selected_of_ok hsel, hnot]
    exact (idle_selectBadProcess hsel).effect
  | kill p points r r' hs hsel hd =>
    rw [memcgTarget, hs, if_neg Bool.false_ne_true, selected_of_ok hsel]
    simpa [Selected.task?] using effect_select hsel hd (some memcg) none

end AndroidKernel.Mlimit
