import AndroidKernel.Lib.Outcome
import AndroidKernel.Mlimit.RefCounts
import AndroidKernel.Mlimit.Limit

/-! What the OOM killer and the limit check leave alone. They change the counts and the
`cumulative_mem` of users, never a limit, and of a task only the marks that say it is to die. -/

namespace AndroidKernel.Mlimit
open Outcome
variable {s s' s'' : Sys} {w w' w'' : Tasks} {us us' us'' : Users} {current p : Tid}
  {env : OomEnv} {memcg : Option Memcg} {nodemask : Option Nodemask} {totalpages : Long}
  {forceKill : Bool}

def Task.core (t : Task) : Task := { t with memdie := false, sigkill := false }

structure SameTasks (w w' : Tasks) : Prop where
  core : ∀ p, (w'.task p).core = (w.task p).core
  rest : { w' with task := w.task } = w

theorem SameTasks.refl (w : Tasks) : SameTasks w w := ⟨fun _ => rfl, rfl⟩

theorem SameTasks.trans (h : SameTasks w w') (h' : SameTasks w' w'') : SameTasks w w'' := by
  refine ⟨fun p => (h'.core p).trans (h.core p), ?_⟩
  rw [← h.rest, ← h'.rest]

theorem SameTasks.processes (h : SameTasks w w') : w'.processes = w.processes :=
  (congrArg Tasks.processes h.rest :)

theorem SameTasks.siblings (h : SameTasks w w') : w'.siblings = w.siblings :=
  (congrArg Tasks.siblings h.rest :)

theorem SameTasks.mms (h : SameTasks w w') : w'.mm = w.mm := (congrArg Tasks.mm h.rest :)

theorem SameTasks.uid (h : SameTasks w w') (p : Tid) : (w'.task p).uid = (w.task p).uid :=
  (congrArg Task.uid (h.core p) :)

theorem SameTasks.user (h : SameTasks w w') (p : Tid) : (w'.task p).user = (w.task p).user :=
  (congrArg Task.user (h.core p) :)

theorem SameTasks.ns (h : SameTasks w w') (p : Tid) : (w'.task p).ns = (w.task p).ns :=
  (congrArg Task.ns (h.core p) :)

theorem SameTasks.mm (h : SameTasks w w') (p : Tid) : (w'.task p).mm = (w.task p).mm :=
  (congrArg Task.mm (h.core p) :)

theorem SameTasks.rssBytes (h : SameTasks w w') (p : Tid) : rssBytes w' p = rssBytes w p := by
  unfold Mlimit.rssBytes Tasks.memory
  rw [h.mm, h.mms]

structure SameLimits (us us' : Users) : Prop where
  table : us'.table = us.table
  uid : ∀ p, (us'.obj p).uid = (us.obj p).uid
  memMax : ∀ p, (us'.obj p).memMax = (us.obj p).memMax

theorem SameLimits.refl (us : Users) : SameLimits us us := ⟨rfl, fun _ => rfl, fun _ => rfl⟩

theorem SameLimits.trans (h : SameLimits us us') (h' : SameLimits us' us'') :
    SameLimits us us'' where
  table := h'.table.trans h.table
  uid := fun p => (h'.uid p).trans (h.uid p)
  memMax := fun p => (h'.memMax p).trans (h.memMax p)

theorem SameLimits.lookup (h : SameLimits us us') (ns : Ns) (uid : Uid) :
    us'.lookup ns uid = us.lookup ns uid := by
  unfold Users.lookup Users.chain
  rw [h.table]
  congr 1
  funext p
  rw [h.uid]

theorem sameLimits_modify {u : UserPtr} {f : User → User} (hu : ∀ x, (f x).uid = x.uid)
    (hm : ∀ x, (f x).memMax = x.memMax) : SameLimits us (us.modify u f) :=
  ⟨rfl, modify_obj_uid hu, modify_obj_field hm⟩

structure Within (s s' : Sys) : Prop where
  user : s'.user = s.user
  start : s'.start = s.start
  users : SameLimits s.users s'.users
  tasks : SameTasks s.tasks s'.tasks
  log : s.log <:+ s'.log

theorem Within.refl (s : Sys) : Within s s :=
  ⟨rfl, rfl, SameLimits.refl _, SameTasks.refl _, List.suffix_rfl⟩

theorem Within.trans (h : Within s s') (h' : Within s' s'') : Within s s'' :=
  ⟨h'.user.trans h.user, h'.start.trans h.start, h.users.trans h'.users, h.tasks.trans h'.tasks,
    h.log.trans h'.log⟩

theorem within_emit (s : Sys) (e : Event) : Within s (s.emit e) :=
  ⟨rfl, rfl, SameLimits.refl _, SameTasks.refl _, List.suffix_cons ..⟩

def Marked (s s' : Sys) : Prop := ∃ w, SameTasks s.tasks w ∧ s' = { s with tasks := w }

theorem Marked.refl (s : Sys) : Marked s s := ⟨s.tasks, SameTasks.refl _, rfl⟩

theorem Marked.trans (h : Marked s s') (h' : Marked s' s'') : Marked s s'' := by
  obtain ⟨w, hw, rfl⟩ := h
  obtain ⟨w', hw', rfl⟩ := h'
  exact ⟨w', hw.trans hw', rfl⟩

theorem Marked.within (h : Marked s s') : Within s s' := by
  obtain ⟨w, hw, rfl⟩ := h
  exact ⟨rfl, rfl, SameLimits.refl _, hw, List.suffix_rfl⟩

theorem marked_setTask {f : Task → Task} (hf : ∀ t, (f t).core = t.core) :
    Marked s (s.setTask p f) := by
  refine ⟨(s.setTask p f).tasks, ⟨fun q => ?_, rfl⟩, rfl⟩
  unfold Sys.setTask
  by_cases hq : q = p
  · subst hq
    simp [hf]
  · simp [hq]

theorem marked_setMemdie : Marked s (s.setMemdie p) := marked_setTask fun _ => rfl

theorem marked_foldl {α : Type} {f : Sys → α → Sys} (hf : ∀ s a, Marked s (f s a)) (as : List α)
    (s : Sys) : Marked s (as.foldl f s) := by
  induction as generalizing s with
  | nil => exact Marked.refl s
  | cons a as ih => exact (hf s a).trans (ih (f s a))

theorem marked_sendSigkill : Marked s (s.sendSigkill p) := by
  apply marked_foldl
  intro r t
  exact marked_setTask fun _ => rfl

theorem marked_killSharers (s : Sys) (v : Tid) : Marked s (killSharers s v) := by
  apply marked_foldl
  intro r q
  dsimp only
  split
  · exact marked_sendSigkill
  · exact Marked.refl r

theorem marked_kill (s : Sys) (v : Tid) :
    Marked s (((killSharers s v).setMemdie v).sendSigkill v) :=
  ((marked_killSharers s v).trans marked_setMemdie).trans marked_sendSigkill

theorem within_oomKillProcess :
    Within s (oomKillProcess s current p memcg nodemask totalpages) := by
  unfold oomKillProcess
  split
  · exact marked_setMemdie.within
  · split
    · exact Within.refl s
    · exact (marked_kill s _).within.trans (within_emit _ _)

theorem within_users (h : SameLimits s.users us) : Within s { s with users := us } :=
  ⟨rfl, rfl, h, SameTasks.refl _, List.suffix_rfl⟩

theorem within_get (s : Sys) (u : UserPtr) : Within s { s with users := s.users.get u } :=
  within_users (sameLimits_modify (fun _ => by rfl) fun _ => by rfl)

def debited (s : Sys) (p : Tid) : Sys :=
  { s with users := s.users.modify (s.tasks.task p).user fun u =>
    { u with cumulativeMem := u.cumulativeMem - rssBytes s.tasks p } }.emit
      (.debit (s.tasks.task p).user (rssBytes s.tasks p))

theorem debit_ok (h : debit s p = .ok s') : (s.tasks.task p).mm.isSome = true ∧ s' = debited s p := by
  unfold debit at h
  split at h
  · cases h
  · rename_i hm
    refine ⟨?_, (Except.ok.inj h).symm⟩
    simpa [Option.isSome_iff_ne_none] using hm

theorem within_debited : Within s (debited s p) :=
  (within_users (sameLimits_modify (fun _ => by rfl) fun _ => by rfl)).trans (within_emit _ _)

theorem within_debitIf {guard : Bool} (h : debitIf guard s p = .ok s') : Within s s' := by
  unfold debitIf at h
  split at h
  · rw [(debit_ok h).2]
    exact within_debited
  · obtain rfl := Except.ok.inj h
    exact Within.refl s

theorem selectBadProcess_state {sel : Selected} {points : Long}
    (h : selectBadProcess s current totalpages memcg nodemask forceKill = .ok (sel, points, s')) :
    s' = s ∨ ∃ u, s' = { s with users := s.users.get u } := by
  unfold selectBadProcess findUser at h
  split at h
  · cases hl : s.users.lookup (s.tasks.task current).ns s.user with
    | none =>
      simp only [hl] at h
      cases h
    | some u =>
      simp only [hl] at h
      refine Or.inr ⟨u, ?_⟩
      split at h
      · exact (congrArg (fun r => r.2.2) (Except.ok.inj h)).symm
      · exact (congrArg (fun r => r.2.2) (Except.ok.inj h)).symm
  · refine Or.inl ?_
    split at h
    · exact (congrArg (fun r => r.2.2) (Except.ok.inj h)).symm
    · exact (congrArg (fun r => r.2.2) (Except.ok.inj h)).symm

theorem within_selectBadProcess {sel : Selected} {points : Long}
    (h : selectBadProcess s current totalpages memcg nodemask forceKill = .ok (sel, points, s')) :
    Within s s' := by
  rcases selectBadProcess_state h with rfl | ⟨u, rfl⟩
  · exact Within.refl s'
  · exact within_get s u

inductive OomReturns (s : Sys) (current : Tid) (env : OomEnv) : Sys → Prop
  | freed (h : 0 < env.freed) : OomReturns s current env s
  | dying (hf : ¬ 0 < env.freed) (h : s.fatalSignalPending current = true) :
      OomReturns s current env (s.setMemdie current)
  | own (r : Sys) (hf : ¬ 0 < env.freed) (hs : s.fatalSignalPending current = false)
      (hk : killsCurrent s current env = true)
      (hd : debitIf (((oomKillProcess s current current none env.nodemask
          env.totalpages).tasks.task current).uid = (oomKillProcess s current current none
          env.nodemask env.totalpages).user) (oomKillProcess s current current none env.nodemask
          env.totalpages) current = .ok r) : OomReturns s current env r
  | wait (points : Long) (r : Sys) (hf : ¬ 0 < env.freed)
      (hs : s.fatalSignalPending current = false) (hk : killsCurrent s current env = false)
      (hsel : selectBadProcess s current env.totalpages none (mpolMask env) env.forceKill =
        .ok (.err, points, r)) : OomReturns s current env r
  | kill (p : Tid) (points : Long) (r r' : Sys) (hf : ¬ 0 < env.freed)
      (hs : s.fatalSignalPending current = false) (hk : killsCurrent s current env = false)
      (hsel : selectBadProcess s current env.totalpages none (mpolMask env) env.forceKill =
        .ok (.task p, points, r))
      (hd : debitIf ((r.tasks.task p).uid = r.user) r p = .ok r') :
      OomReturns s current env (oomKillProcess r' current p none env.nodemask env.totalpages)

theorem outOfMemory_returns (h : outOfMemory s current env = .ok s') :
    OomReturns s current env s' := by
  unfold outOfMemory at h
  split at h
  · rename_i hf
    obtain rfl := Except.ok.inj h
    exact .freed hf
  · rename_i hf
    split at h
    · rename_i hs
      obtain rfl := Except.ok.inj h
      exact .dying hf hs
    · rename_i hs
      rw [Bool.not_eq_true] at hs
      obtain ⟨-, -, h⟩ := ok_of_bind h
      split at h
      · rename_i hk
        exact .own s' hf hs hk h
      · rename_i hk
        rw [Bool.not_eq_true] at hk
        obtain ⟨⟨sel, points, r⟩, hsel, h⟩ := ok_of_bind h
        cases sel with
        | null => cases h
        | err =>
          obtain rfl := Except.ok.inj h
          exact .wait points r hf hs hk hsel
        | task p =>
          obtain ⟨r', hd, h⟩ := ok_of_bind h
          obtain rfl := Except.ok.inj h
          exact .kill p points r r' hf hs hk hsel hd

theorem within_outOfMemory (h : outOfMemory s current env = .ok s') : Within s s' := by
  cases outOfMemory_returns h with
  | freed => exact Within.refl s
  | dying => exact marked_setMemdie.within
  | own r hf hs hk hd => exact within_oomKillProcess.trans (within_debitIf hd)
  | wait points r hf hs hk hsel => exact within_selectBadProcess hsel
  | kill p points r r' hf hs hk hsel hd =>
    exact ((within_selectBadProcess hsel).trans (within_debitIf hd)).trans within_oomKillProcess

def Selected.task? : Selected → Option Tid
  | .task p => some p
  | .null | .err => none

inductive MemcgReturns (s : Sys) (current : Tid) (memcg : Memcg) (limit : Long) : Sys → Prop
  | dying (h : s.fatalSignalPending current = true) :
      MemcgReturns s current memcg limit (s.setMemdie current)
  | idle (sel : Selected) (points : Long) (r : Sys) (hs : s.fatalSignalPending current = false)
      (hnot : sel.task? = none)
      (hsel : selectBadProcess s current limit (some memcg) none false = .ok (sel, points, r)) :
      MemcgReturns s current memcg limit r
  | kill (p : Tid) (points : Long) (r r' : Sys) (hs : s.fatalSignalPending current = false)
      (hsel : selectBadProcess s current limit (some memcg) none false =
        .ok (.task p, points, r))
      (hd : debitIf true r p = .ok r') :
      MemcgReturns s current memcg limit (oomKillProcess r' current p (some memcg) none limit)

theorem memCgroupOutOfMemory_returns {memcg : Memcg} {limit : Long}
    (h : memCgroupOutOfMemory s current memcg limit env = .ok s') :
    MemcgReturns s current memcg limit s' := by
  unfold memCgroupOutOfMemory at h
  split at h
  · rename_i hs
    obtain rfl := Except.ok.inj h
    exact .dying hs
  · rename_i hs
    rw [Bool.not_eq_true] at hs
    obtain ⟨-, -, h⟩ := ok_of_bind h
    obtain ⟨⟨sel, points, r⟩, hsel, h⟩ := ok_of_bind h
    cases sel with
    | null | err =>
      obtain rfl := Except.ok.inj h
      exact .idle _ points r hs rfl hsel
    | task p =>
      obtain ⟨r', hd, h⟩ := ok_of_bind h
      obtain rfl := Except.ok.inj h
      exact .kill p points r r' hs hsel hd

theorem within_memCgroupOutOfMemory {memcg : Memcg} {limit : Long}
    (h : memCgroupOutOfMemory s current memcg limit env = .ok s') : Within s s' := by
  cases memCgroupOutOfMemory_returns h with
  | dying => exact marked_setMemdie.within
  | idle sel points r hs hnot hsel => exact within_selectBadProcess hsel
  | kill p points r r' hs hsel hd =>
    exact ((within_selectBadProcess hsel).trans (within_debitIf hd)).trans within_oomKillProcess

theorem within_charge (s : Sys) (u : UserPtr) (amount : Long) : Within s (charge s u amount) :=
  (within_users (sameLimits_modify (fun _ => by rfl) fun _ => by rfl)).trans (within_emit _ _)

theorem within_limitLoop {u : UserPtr} {e : AllocEnv} {ps : List Tid} {refused : Bool}
    (h : limitLoop u e ps s = .ok (s', refused)) : Within s s' := by
  induction ps generalizing s with
  | nil =>
    obtain rfl := congrArg Prod.fst (Except.ok.inj h)
    exact Within.refl s
  | cons p ps ih =>
    simp only [limitLoop] at h
    split at h
    · have hc := within_emit s (.compare u (s.users.obj u).memMax)
      split at h
      · have ho := hc.trans (within_emit _ (.over u))
        split at h
        · obtain ⟨r, hr, h⟩ := ok_of_bind h
          exact (ho.trans (within_outOfMemory hr)).trans (ih h)
        · obtain rfl := congrArg Prod.fst (Except.ok.inj h)
          exact ho
      · exact (hc.trans (within_charge _ u _)).trans (ih h)
    · exact ih h

theorem within_limitCheck {e : AllocEnv} {refused : Bool}
    (h : limitCheck s e = .ok (s', refused)) : Within s s' := by
  unfold limitCheck findUser at h
  split at h
  · cases hl : s.users.lookup (s.tasks.task e.current).ns s.user with
    | none =>
      simp only [hl] at h
      obtain rfl := congrArg Prod.fst (Except.ok.inj h)
      exact Within.refl s
    | some u =>
      simp only [hl] at h
      split at h
      · exact (within_get s u).trans (within_limitLoop h)
      · obtain rfl := congrArg Prod.fst (Except.ok.inj h)
        exact within_get s u
  · obtain rfl := congrArg Prod.fst (Except.ok.inj h)
    exact Within.refl s

theorem within_slowPath {envs : List OomEnv} (h : slowPath current envs s = .ok s') :
    Within s s' := by
  induction envs generalizing s with
  | nil =>
    obtain rfl := Except.ok.inj h
    exact Within.refl s
  | cons env envs ih =>
    obtain ⟨r, hr, h⟩ := ok_of_bind h
    exact (within_outOfMemory hr).trans (ih h)

theorem within_allocPagesNodemask {e : AllocEnv} {page : Bool}
    (h : allocPagesNodemask s e = .ok (s', page)) : Within s s' := by
  unfold allocPagesNodemask at h
  obtain ⟨⟨r, refused⟩, hr, h⟩ := ok_of_bind h
  have hc := within_limitCheck hr
  dsimp only at h
  split at h
  · obtain rfl := congrArg Prod.fst (Except.ok.inj h)
    exact hc
  · obtain ⟨r', hr', h⟩ := ok_of_bind h
    obtain rfl := congrArg Prod.fst (Except.ok.inj h)
    exact hc.trans (within_slowPath hr')

end AndroidKernel.Mlimit
