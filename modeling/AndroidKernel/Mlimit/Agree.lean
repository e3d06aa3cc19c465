import AndroidKernel.Mlimit.Enforce

/-! Allocations in two states that differ only in users that do not matter. `K` are the users whose
limits decide a score in the course of the call, and `U` is the user whose account is compared. -/

namespace AndroidKernel.Mlimit
open Outcome
variable {K : Set UserPtr} {U : UserPtr} {s t s' : Sys} {current p : Tid} {env : OomEnv}
  {memcg : Option Memcg} {nodemask : Option Nodemask} {totalpages : Long} {forceKill : Bool}
  {e : AllocEnv}

structure Agree (K : Set UserPtr) (U : UserPtr) (s t : Sys) : Prop where
  user : t.user = s.user
  start : t.start = s.start
  tasks : t.tasks = s.tasks
  found : ∀ ns uid, t.users.lookup ns uid = s.users.lookup ns uid
  memMax : ∀ v ∈ K, (t.users.obj v).memMax = (s.users.obj v).memMax
  cumulative : t.cumulative U = s.cumulative U

theorem Agree.emit (h : Agree K U s t) (a b : Event) : Agree K U (s.emit a) (t.emit b) :=
  ⟨h.user, h.start, h.tasks, h.found, h.memMax, h.cumulative⟩

theorem Agree.setTask (h : Agree K U s t) (p : Tid) (f : Task → Task) :
    Agree K U (s.setTask p f) (t.setTask p f) := by
  refine ⟨h.user, h.start, ?_, h.found, h.memMax, h.cumulative⟩
  unfold Sys.setTask
  rw [h.tasks]

theorem Agree.modify (h : Agree K U s t) (v : UserPtr) {f : User → User} {g : Long → Long}
    (hu : ∀ x, (f x).uid = x.uid) (hm : ∀ x, (f x).memMax = x.memMax)
    (hc : ∀ x, (f x).cumulativeMem = g x.cumulativeMem) :
    Agree K U { s with users := s.users.modify v f } { t with users := t.users.modify v f } where
  user := h.user
  start := h.start
  tasks := h.tasks
  found := fun ns uid => by
    rw [(sameLimits_modify hu hm).lookup, (sameLimits_modify hu hm).lookup, h.found]
  memMax := fun w hw => by
    rw [(sameLimits_modify hu hm).memMax, (sameLimits_modify hu hm).memMax, h.memMax w hw]
  cumulative := by
    have hU := h.cumulative
    unfold Sys.cumulative at hU ⊢
    by_cases hv : U = v
    · subst hv
      rw [modify_obj_self, modify_obj_self, hc, hc, hU]
    · rw [modify_obj_of_ne hv, modify_obj_of_ne hv, hU]

theorem Agree.get (h : Agree K U s t) (v : UserPtr) :
    Agree K U { s with users := s.users.get v } { t with users := t.users.get v } :=
  h.modify v (g := id) (fun _ => rfl) (fun _ => rfl) fun _ => rfl

def Near (w : Tasks) (K : Set UserPtr) (p : Tid) : Prop :=
  (∀ t ∈ w.ring p, (w.task t).user ∈ K) ∧ ∀ c ∈ w.childrenOf p, ∀ t ∈ w.ring c, (w.task t).user ∈ K

structure Checked (K : Set UserPtr) (U : UserPtr) (current : Tid) (s : Sys) : Prop where
  user : s.user ≠ 0
  found : s.users.lookup (s.tasks.task current).ns s.user = some U
  own : U ∈ K

/-- The OOM killer only meets users of `K` on the way. -/
structure Confined (K : Set UserPtr) (U : UserPtr) (current : Tid) (s : Sys) : Prop
    extends Checked K U current s where
  current : Near s.tasks K current
  processes : ∀ p ∈ s.tasks.processes, (s.tasks.task p).uid = s.user → Near s.tasks K p

theorem SameTasks.ring {w w' : Tasks} (h : SameTasks w w') (p : Tid) : w'.ring p = w.ring p := by
  unfold Tasks.ring
  rw [h.siblings]

theorem SameTasks.childrenOf {w w' : Tasks} (h : SameTasks w w') (p : Tid) :
    w'.childrenOf p = w.childrenOf p := by
  have hc : ∀ t, (w'.task t).children = (w.task t).children :=
    fun t => (congrArg Task.children (h.core t) :)
  unfold Tasks.childrenOf
  rw [h.ring]
  simp only [hc]

theorem Near.same {w w' : Tasks} (hn : Near w K p) (h : SameTasks w w') : Near w' K p := by
  unfold Near
  simp only [h.ring, h.childrenOf, h.user]
  exact hn

theorem Checked.within (hc : Checked K U current s) (h : Within s s') :
    Checked K U current s' where
  user := by
    rw [h.user]
    exact hc.user
  found := by
    rw [h.tasks.ns, h.user, h.users.lookup]
    exact hc.found
  own := hc.own

theorem Confined.within (hc : Confined K U current s) (h : Within s s') :
    Confined K U current s' where
  toChecked := hc.toChecked.within h
  current := hc.current.same h.tasks
  processes := fun p hp hu => by
    rw [h.tasks.processes] at hp
    rw [h.tasks.uid, h.user] at hu
    exact (hc.processes p hp hu).same h.tasks

theorem Agree.oomBadness (h : Agree K U s t) (hp : ∀ q ∈ s.tasks.ring p, (s.tasks.task q).user ∈ K)
    (current : Tid) (memcg : Option Memcg) (nodemask : Option Nodemask) (totalpages : Long) :
    oomBadness t.users s.tasks current p memcg nodemask totalpages =
      oomBadness s.users s.tasks current p memcg nodemask totalpages := by
  unfold Mlimit.oomBadness badnessWith
  cases hq : findLockTaskMm s.tasks p with
  | none => rfl
  | some q =>
    have hmem : q ∈ s.tasks.ring p := List.mem_of_find?_eq_some hq
    simp only [limitPoints, h.memMax _ (hp q hmem)]

theorem Agree.chooseVictim (h : Agree K U s t) (hn : Near s.tasks K p) :
    chooseVictim t current p memcg nodemask totalpages =
      chooseVictim s current p memcg nodemask totalpages := by
  rw [chooseVictim_eq_foldl, chooseVictim_eq_foldl, h.tasks]
  congr 2
  apply List.foldl_ext
  intro best c hc
  simp only [takeChild, better, h.tasks, h.oomBadness (hn.2 c hc)]

theorem Agree.sendSigkill (h : Agree K U s t) (p : Tid) :
    Agree K U (s.sendSigkill p) (t.sendSigkill p) := by
  unfold Sys.sendSigkill
  rw [h.tasks]
  exact List.foldl_rel h fun q _ c c' hc => hc.setTask q _

theorem Agree.killSharers (h : Agree K U s t) (v : Tid) :
    Agree K U (killSharers s v) (killSharers t v) := by
  unfold Mlimit.killSharers
  rw [h.tasks]
  refine List.foldl_rel h fun q _ c c' hc => ?_
  dsimp only
  split
  · exact hc.sendSigkill q
  · exact hc

theorem Agree.oomKillProcess (h : Agree K U s t) (hn : Near s.tasks K p) (current : Tid)
    (memcg : Option Memcg) (nodemask : Option Nodemask) (totalpages : Long) :
    Agree K U (oomKillProcess s current p memcg nodemask totalpages)
      (oomKillProcess t current p memcg nodemask totalpages) := by
  unfold Mlimit.oomKillProcess
  rw [h.tasks, h.chooseVictim hn]
  split
  · exact h.setTask p _
  · cases findLockTaskMm s.tasks (Mlimit.chooseVictim s current p memcg nodemask totalpages) with
    | none => exact h
    | some v => exact (((h.killSharers v).setTask v _).sendSigkill v).emit _ _

theorem Agree.eq_update (h : Agree K U s t) : ∃ us l, t = { s with users := us, log := l } := by
  obtain ⟨us, user, start, tasks, l⟩ := t
  obtain ⟨rfl, rfl, rfl, -, -, -⟩ := h
  exact ⟨us, l, rfl⟩

theorem Agree.debitIf (h : Agree K U s t) (guard : Bool) (p : Tid) :
    Rel (Agree K U) (debitIf guard s p) (debitIf guard t p) := by
  obtain ⟨us, l, rfl⟩ := h.eq_update
  have hmod := h.modify (s.tasks.task p).user
    (f := fun x => { x with cumulativeMem := x.cumulativeMem - rssBytes s.tasks p })
    (g := fun c => c - rssBytes s.tasks p) (fun _ => rfl) (fun _ => rfl) fun _ => rfl
  unfold Mlimit.debitIf debit
  dsimp only
  split
  · split
    · rfl
    · exact hmod.emit _ _
  · exact h

theorem Agree.debitGuarded (h : Agree K U s t) (p : Tid) :
    Rel (Agree K U) (Mlimit.debitIf ((s.tasks.task p).uid = s.user) s p)
      (Mlimit.debitIf ((t.tasks.task p).uid = t.user) t p) := by
  have hguard : decide ((t.tasks.task p).uid = t.user) = decide ((s.tasks.task p).uid = s.user) := by
    rw [h.tasks, h.user]
  rw [hguard]
  exact h.debitIf _ p

theorem scanUser_congr {w : Tasks} {user : Uid} {f g : Tid → Long} {ps : List Tid}
    (h : ∀ p ∈ ps, (w.task p).uid = user → f p = g p) :
    scanUser w user f ps = scanUser w user g ps := by
  apply List.foldl_ext
  intro best p hp
  split
  · rename_i hu
    unfold better
    rw [h p hp hu]
  · rfl

theorem scanUser_mem {w : Tasks} {user : Uid} {score : Tid → Long} {ps : List Tid}
    (h : (scanUser w user score ps).1 = some p) : p ∈ ps ∧ (w.task p).uid = user := by
  have hfold : ∀ (qs : List Tid) (best : Best), (∀ q, best.1 = some q → q ∈ ps ∧
      (w.task q).uid = user) → (∀ q ∈ qs, q ∈ ps) → ∀ q,
      (qs.foldl (takeUser w user score) best).1 = some q → q ∈ ps ∧ (w.task q).uid = user := by
    intro qs
    induction qs with
    | nil => exact fun best hb _ q hq => hb q hq
    | cons r rs ih =>
      intro best hb hsub
      refine ih _ (fun q hq => ?_) fun q hq => hsub q (List.mem_cons_of_mem _ hq)
      unfold takeUser better at hq
      split at hq
      · rename_i hu
        split at hq
        · obtain rfl := Option.some_inj.mp hq
          exact ⟨hsub r (List.mem_cons_self ..), hu⟩
        · exact hb q hq
      · exact hb q hq
  exact hfold ps (none, 0) (fun q hq => by cases hq) (fun q hq => hq) p h

theorem Agree.selectBadProcess (h : Agree K U s t) (hc : Confined K U current s)
    (totalpages : Long) (memcg : Option Memcg) (nodemask : Option Nodemask) (forceKill : Bool) :
    Rel (fun a b => b.1 = a.1 ∧ Agree K U a.2.2 b.2.2 ∧ ∀ p, a.1 = .task p → Near s.tasks K p)
      (selectBadProcess s current totalpages memcg nodemask forceKill)
      (selectBadProcess t current totalpages memcg nodemask forceKill) := by
  have hscan : scanUser s.tasks s.user
      (fun p => Mlimit.oomBadness t.users s.tasks current p memcg nodemask totalpages)
        s.tasks.processes =
      scanUser s.tasks s.user
        (fun p => Mlimit.oomBadness s.users s.tasks current p memcg nodemask totalpages)
        s.tasks.processes :=
    scanUser_congr fun p hp hu => h.oomBadness (hc.processes p hp hu).1 ..
  have hfound := (h.found (s.tasks.task current).ns s.user).trans hc.found
  have hmax := h.memMax U hc.own
  have hget := h.get U
  obtain ⟨us, l, rfl⟩ := h.eq_update
  dsimp only at hscan hfound hmax
  unfold Mlimit.selectBadProcess findUser
  simp only [if_pos hc.user, hc.found, hfound, Refs.get_memMax,
    oomBadness_congr (Refs.get_memMax _ U), hmax, hscan]
  split
  · refine ⟨rfl, hget, fun p hp => ?_⟩
    cases hb : (scanUser s.tasks s.user (fun p => Mlimit.oomBadness s.users s.tasks current p
        memcg nodemask totalpages) s.tasks.processes).1 with
    | none =>
      rw [hb] at hp
      cases hp
    | some q =>
      rw [hb] at hp
      obtain rfl := Selected.task.inj hp
      obtain ⟨hmem, hu⟩ := scanUser_mem hb
      exact hc.processes q hmem hu
  · exact ⟨rfl, hget, fun p hp => by cases hp⟩

theorem Agree.outOfMemory (h : Agree K U s t) (hc : Confined K U current s) :
    Rel (Agree K U) (outOfMemory s current env) (outOfMemory t current env) := by
  unfold Mlimit.outOfMemory Sys.fatalSignalPending killsCurrent
  rw [h.tasks]
  split
  · exact h
  · split
    · exact h.setTask current _
    · refine (rel_eq_self _).bind fun _ _ _ _ _ => ?_
      split
      · exact (h.oomKillProcess hc.current ..).debitGuarded current
      · refine (h.selectBadProcess hc ..).bind fun a b ha _ hab => ?_
        obtain ⟨sel, points, r⟩ := a
        obtain ⟨sel', points', r'⟩ := b
        obtain ⟨hsel, hr, hnear⟩ := hab
        dsimp only at hsel
        subst hsel
        have hw := within_selectBadProcess ha
        cases sel' with
        | null => rfl
        | err => exact hr
        | task p =>
          refine (hr.debitGuarded p).bind fun c c' hcok _ hcc => ?_
          have hw' := hw.trans (within_debitIf hcok)
          exact hcc.oomKillProcess ((hnear p rfl).same hw'.tasks) ..

theorem Agree.overLimit (h : Agree K U s t) (hU : U ∈ K) (order : ℕ) :
    overLimit (t.users.obj U) order = overLimit (s.users.obj U) order := by
  have hcum := h.cumulative
  unfold Sys.cumulative at hcum
  unfold Mlimit.overLimit
  rw [h.memMax U hU, hcum]

theorem Agree.charge (h : Agree K U s t) (u : UserPtr) (amount : Long) :
    Agree K U (charge s u amount) (charge t u amount) := by
  have hmod := h.modify u (f := fun x => { x with cumulativeMem := x.cumulativeMem + amount })
    (g := fun c => c + amount) (fun _ => rfl) (fun _ => rfl) fun _ => rfl
  exact hmod.emit _ _

theorem Agree.limitLoop (h : Agree K U s t) (hc : Confined K U e.current s) (ps : List Tid) :
    Rel (fun a b => b.2 = a.2 ∧ Agree K U a.1 b.1) (limitLoop U e ps s) (limitLoop U e ps t) := by
  induction ps generalizing s t with
  | nil => exact ⟨rfl, h⟩
  | cons p ps ih =>
    have hcmp := h.emit (.compare U (s.users.obj U).memMax) (.compare U (t.users.obj U).memMax)
    have hwc := within_emit s (.compare U (s.users.obj U).memMax)
    have hover := hcmp.emit (.over U) (.over U)
    have hwo := hwc.trans (within_emit _ (.over U))
    simp only [Mlimit.limitLoop, h.overLimit hc.own]
    rw [h.tasks, h.user]
    split
    · split
      · split
        · refine (hover.outOfMemory (hc.within hwo)).bind fun a b ha _ hab => ?_
          exact ih hab ((hc.within hwo).within (within_outOfMemory ha))
        · exact ⟨rfl, hover⟩
      · exact ih (hcmp.charge U _) ((hc.within hwc).within (within_charge _ _ _))
    · exact ih h hc

/-- Whether the loop calls `out_of_memory`: it first finds the account over the limit at a process
whose zones it can lock. -/
def loopCallsOom (u : UserPtr) (e : AllocEnv) : List Tid → Sys → Bool
  | [], _ => false
  | p :: ps, s =>
    if (s.tasks.task p).uid = s.user then
      if overLimit (s.users.obj u) e.order then e.zonesFree p
      else loopCallsOom u e ps
        (charge (s.emit (.compare u (s.users.obj u).memMax)) u (required e.order))
    else loopCallsOom u e ps s

theorem Agree.limitLoop_of_calls (h : Agree K U s t) (hc : Checked K U e.current s) (ps : List Tid)
    (hnear : loopCallsOom U e ps s = true → Confined K U e.current s) :
    Rel (fun a b => b.2 = a.2 ∧ Agree K U a.1 b.1) (Mlimit.limitLoop U e ps s)
      (Mlimit.limitLoop U e ps t) := by
  by_cases hcalls : loopCallsOom U e ps s = true
  · exact h.limitLoop (hnear hcalls) ps
  clear hnear
  induction ps generalizing s t with
  | nil => exact ⟨rfl, h⟩
  | cons p ps ih =>
    have hcmp := h.emit (.compare U (s.users.obj U).memMax) (.compare U (t.users.obj U).memMax)
    have hwc := within_emit s (.compare U (s.users.obj U).memMax)
    rw [loopCallsOom] at hcalls
    simp only [Mlimit.limitLoop, h.overLimit hc.own]
    rw [h.tasks, h.user]
    split
    · rename_i hu
      rw [if_pos hu] at hcalls
      split
      · rename_i hover
        rw [if_pos hover] at hcalls
        rw [if_neg hcalls, if_neg hcalls]
        exact ⟨rfl, hcmp.emit (.over U) (.over U)⟩
      · rename_i hover
        rw [if_neg hover] at hcalls
        exact ih (hcmp.charge U _) ((hc.within hwc).within (within_charge _ _ _)) hcalls
    · rename_i hu
      rw [if_neg hu] at hcalls
      exact ih h hc hcalls

/-- The request calls `out_of_memory`, for the limit or in its slow path. -/
def CallsOom (s : Sys) (e : AllocEnv) (U : UserPtr) : Prop :=
  loopCallsOom U e s.tasks.processes { s with users := s.users.get U } = true ∨ e.slow ≠ []

theorem Agree.limitCheck (h : Agree K U s t) (hc : Checked K U e.current s)
    (hnear : CallsOom s e U → Confined K U e.current s) :
    Rel (fun a b => b.2 = a.2 ∧ Agree K U a.1 b.1) (limitCheck s e) (limitCheck t e) := by
  have hget := h.get U
  have hloop := hget.limitLoop_of_calls (hc.within (within_get s U)) s.tasks.processes
    fun hcalls => (hnear (Or.inl hcalls)).within (within_get s U)
  have hfound := (h.found (s.tasks.task e.current).ns s.user).trans hc.found
  have hmax := h.memMax U hc.own
  obtain ⟨us, l, rfl⟩ := h.eq_update
  dsimp only at hfound hmax
  unfold Mlimit.limitCheck findUser
  simp only [hc.found, hfound, Refs.get_memMax, hmax]
  split
  · split
    · exact hloop
    · exact ⟨rfl, hget⟩
  · exact ⟨rfl, h⟩

theorem Agree.slowPath (h : Agree K U s t) (hc : Confined K U current s) (envs : List OomEnv) :
    Rel (Agree K U) (slowPath current envs s) (slowPath current envs t) := by
  induction envs generalizing s t with
  | nil => exact h
  | cons env envs ih =>
    refine (h.outOfMemory hc).bind fun a b ha _ hab => ?_
    exact ih hab (hc.within (within_outOfMemory ha))

theorem Agree.allocPagesNodemask (h : Agree K U s t) (hc : Checked K U e.current s)
    (hnear : CallsOom s e U → Confined K U e.current s) :
    Rel (fun a b => b.2 = a.2 ∧ Agree K U a.1 b.1) (allocPagesNodemask s e)
      (allocPagesNodemask t e) := by
  unfold Mlimit.allocPagesNodemask
  refine (h.limitCheck hc hnear).bind fun a b ha _ hab => ?_
  obtain ⟨r, refused⟩ := a
  obtain ⟨r', refused'⟩ := b
  obtain ⟨hrefused, hr⟩ := hab
  dsimp only at hrefused
  subst hrefused
  have hw := within_limitCheck ha
  dsimp only
  split
  · exact ⟨rfl, hr⟩
  · have hslow : Rel (Agree K U) (Mlimit.slowPath e.current e.slow r)
        (Mlimit.slowPath e.current e.slow r') := by
      by_cases hs : e.slow = []
      · rw [hs]
        exact hr
      · exact hr.slowPath ((hnear (Or.inr hs)).within hw) e.slow
    refine hslow.bind fun c c' _ _ hcc => ?_
    exact ⟨rfl, hcc⟩

end AndroidKernel.Mlimit
