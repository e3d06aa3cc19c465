import AndroidKernel.Mlimit.Charge

/-! Whether a user stays within its limit. After `set_mlimit` the limit holds for every request,
but a request over the limit is refused only while another OOM kill holds the zones. Otherwise
`out_of_memory` is called and the request goes on, whatever that call has released. -/

namespace AndroidKernel.Mlimit
open Lts Outcome
variable {s s' r : Sys} {e : AllocEnv} {u : UserPtr} {current : Tid} {env : OomEnv}

def Sys.released (s : Sys) (u : UserPtr) : ℕ := ((s.debits u).map BitVec.toNat).sum

theorem Within.released_le (h : Within s s') (u : UserPtr) : s.released u ≤ s'.released u := by
  obtain ⟨es, hes⟩ := h.log
  unfold Sys.released Sys.debits
  rw [← hes, List.filterMap_append, List.map_append, List.sum_append]
  exact Nat.le_add_left ..

def attempt (s : Sys) (current : Tid) (env : OomEnv) (u : UserPtr) : ℕ :=
  ((takenFrom s.tasks u ((oomTarget s current env).toList.filter (guarded s))).map
    BitVec.toNat).sum

theorem outOfMemory_released (h : outOfMemory s current env = .ok s') :
    s'.released u = s.released u + attempt s current env u := by
  unfold Sys.released attempt
  rw [(outOfMemory_effect h).debits u, List.map_append, List.sum_append, Nat.add_comm]

theorem selected_congr (hl : SameLimits s.users r.users) (ht : r.tasks = s.tasks)
    (hu : r.user = s.user) (current : Tid) (totalpages : Long) (memcg : Option Memcg)
    (nodemask : Option Nodemask) (forceKill : Bool) :
    selected r current totalpages memcg nodemask forceKill =
      selected s current totalpages memcg nodemask forceKill := by
  unfold selected selectBadProcess findUser
  rw [hu, ht, hl.lookup, oomBadness_congr hl.memMax]
  split
  · cases hf : s.users.lookup (s.tasks.task current).ns s.user with
    | none => rfl
    | some v =>
      simp only [Refs.get_memMax, hl.memMax, oomBadness_congr (Refs.get_memMax _ v),
        oomBadness_congr hl.memMax]
      split
      · rfl
      · rfl
  · cases scanThreads s.tasks current memcg nodemask forceKill
      (fun p => oomBadness s.users s.tasks current p memcg nodemask totalpages)
      s.tasks.threads (none, 0) with
    | none => rfl
    | some best => rfl

theorem attempt_congr (hl : SameLimits s.users r.users) (ht : r.tasks = s.tasks)
    (hu : r.user = s.user) : attempt r current env u = attempt s current env u := by
  have hguard : guarded r = guarded s := by
    funext p
    unfold guarded
    rw [ht, hu]
  have htarget : oomTarget r current env = oomTarget s current env := by
    unfold oomTarget Sys.fatalSignalPending killsCurrent
    rw [selected_congr hl ht hu, ht]
  unfold attempt
  rw [htarget, hguard, ht]

theorem attempt_emit (s : Sys) (ev : Event) :
    attempt (s.emit ev) current env u = attempt s current env u :=
  attempt_congr (SameLimits.refl _) rfl rfl

def firstProcess (s : Sys) : Option Tid := s.tasks.processes.find? (chargeable s)

theorem limitLoop_over {ps : List Tid} {p : Tid} {refused : Bool}
    (h : limitLoop u e ps s = .ok (s', refused)) (hp : ps.find? (chargeable s) = some p)
    (hover : overLimit (s.users.obj u) e.order = true) :
    e.zonesFree p = false ∧ refused = true ∨ e.zonesFree p = true ∧
      s.released u + attempt s e.current (e.oom p) u ≤ s'.released u := by
  induction ps with
  | nil => cases hp
  | cons q ps ih =>
    simp only [limitLoop, hover, if_true] at h
    split at h
    · rename_i hq
      have hc : chargeable s q = true := decide_eq_true hq
      rw [List.find?_cons_of_pos hc, Option.some_inj] at hp
      subst hp
      split at h
      · rename_i hz
        obtain ⟨r, hr, h⟩ := ok_of_bind h
        have hrel : r.released u = s.released u + attempt s e.current (e.oom q) u := by
          rw [outOfMemory_released hr, attempt_emit, attempt_emit]
          rfl
        have hle := (within_limitLoop h).released_le u
        exact Or.inr ⟨hz, by omega⟩
      · rename_i hz
        rw [Bool.not_eq_true] at hz
        exact Or.inl ⟨hz, (congrArg Prod.snd (Except.ok.inj h)).symm⟩
    · rename_i hq
      have hc : ¬ chargeable s q = true := by simpa [chargeable] using hq
      rw [List.find?_cons_of_neg hc] at hp
      exact ih h hp

structure LimitSet (s : Sys) (ns : Ns) (uid : Uid) (u : UserPtr) (m : Long) : Prop where
  user : s.user = uid
  start : s.start = true
  found : s.users.lookup ns uid = some u
  memMax : (s.users.obj u).memMax = m

variable {ns : Ns} {uid : Uid} {m : Long}

theorem LimitSet.within (h : LimitSet s ns uid u m) (hw : Within s s') :
    LimitSet s' ns uid u m where
  user := hw.user.trans h.user
  start := hw.start.trans h.start
  found := (hw.users.lookup ns uid).trans h.found
  memMax := (hw.users.memMax u).trans h.memMax

def withLimit (s : Sys) (u : UserPtr) (uid : Uid) (sum m : Long) : Sys :=
  { s with
    users := (s.users.get u).modify u fun x => { x with cumulativeMem := sum, memMax := m }
    user := uid
    start := true }

theorem setMlimit_of_found {sum : Long} (hl : s.users.lookup ns uid = some u)
    (hs : sumRss s.tasks uid s.tasks.processes (s.cumulative u) = some sum) :
    setMlimit s ns uid m = .ok (withLimit s u uid sum m, sum) := by
  have hcum : ((s.users.get u).obj u).cumulativeMem = s.cumulative u :=
    (idle_get s u).cumulative u
  unfold setMlimit findUser
  simp only [hl, hcum, hs]
  rfl

theorem setMlimit_ok {ret : Long} (h : setMlimit s ns uid m = .ok (s', ret)) :
    ∃ u, s.users.lookup ns uid = some u ∧
      sumRss s.tasks uid s.tasks.processes (s.cumulative u) = some ret ∧
      s' = withLimit s u uid ret m := by
  cases hl : s.users.lookup ns uid with
  | none =>
    simp only [setMlimit, findUser, hl] at h
    cases h
  | some u =>
    cases hs : sumRss s.tasks uid s.tasks.processes (s.cumulative u) with
    | none =>
      have hcum : ((s.users.get u).obj u).cumulativeMem = s.cumulative u :=
        (idle_get s u).cumulative u
      simp only [setMlimit, findUser, hl, hcum, hs] at h
      cases h
    | some sum =>
      rw [setMlimit_of_found hl hs] at h
      obtain ⟨rfl, rfl⟩ := Prod.mk.inj (Except.ok.inj h)
      exact ⟨u, rfl, hs, rfl⟩

theorem withLimit_lookup (s : Sys) (u : UserPtr) (uid' : Uid) (sum m : Long) :
    (withLimit s u uid' sum m).users.lookup ns uid = s.users.lookup ns uid := by
  unfold Users.lookup Users.chain withLimit
  congr 1
  funext p
  rw [modify_obj_uid (fun _ => by rfl), Users.get, modify_obj_uid (fun _ => by rfl)]

theorem withLimit_memMax_self (s : Sys) (u : UserPtr) (uid : Uid) (sum m : Long) :
    ((withLimit s u uid sum m).users.obj u).memMax = m := by
  unfold withLimit
  rw [modify_obj_self]

theorem limitSet_setMlimit {ret : Long} (h : setMlimit s ns uid m = .ok (s', ret))
    (hu : s.users.lookup ns uid = some u) : LimitSet s' ns uid u m := by
  obtain ⟨v, hv, -, rfl⟩ := setMlimit_ok h
  obtain rfl := Option.some_inj.mp (hu.symm.trans hv)
  exact ⟨rfl, rfl, (withLimit_lookup ..).trans hu, withLimit_memMax_self ..⟩

theorem LimitSet.perform {c : Call} (h : LimitSet s ns uid u m)
    (hc : ∀ ns uid m, c ≠ .setMlimit ns uid m) (hs : perform s c = some s') :
    LimitSet s' ns uid u m := by
  cases c with
  | setMlimit ns uid m => exact absurd rfl (hc ns uid m)
  | others w =>
    obtain rfl := Option.some_inj.mp hs
    exact ⟨h.user, h.start, h.found, h.memMax⟩
  | alloc e =>
    obtain ⟨⟨r, page⟩, hr, rfl⟩ := ok_of_map_toOption hs
    exact h.within (within_allocPagesNodemask hr)
  | outOfMemory current env => exact h.within (within_outOfMemory (ok_of_toOption hs))
  | memCgroupOutOfMemory current memcg limit env =>
    exact h.within (within_memCgroupOutOfMemory (ok_of_toOption hs))

/-- The request is within the limit, or there is no page for it, or the check sees that it is over
the limit at a first process of the user, and there the zones are held by another OOM kill, or
what `out_of_memory` takes off the user makes it fit. -/
def KeepsLimit (s : Sys) (e : AllocEnv) (u : UserPtr) : Prop :=
  (s.cumulative u).toInt + 2 ^ e.order * 4096 ≤ (s.users.obj u).memMax.toInt ∨ e.page = false ∨
    overLimit (s.users.obj u) e.order = true ∧ ∃ p ∈ firstProcess s, e.zonesFree p = false ∨
      (s.cumulative u).toInt - attempt s e.current (e.oom p) u + 2 ^ e.order * 4096 ≤
        (s.users.obj u).memMax.toInt

theorem allocPagesNodemask_page (h : allocPagesNodemask s e = .ok (s', true)) :
    e.page = true ∧ ∃ r, limitCheck s e = .ok (r, false) ∧ Within r s' := by
  unfold allocPagesNodemask at h
  obtain ⟨⟨r, refused⟩, hr, h⟩ := ok_of_bind h
  cases refused with
  | true => cases h
  | false =>
    obtain ⟨r', hr', h⟩ := ok_of_bind h
    obtain ⟨rfl, hpage⟩ := Prod.mk.inj (Except.ok.inj h)
    exact ⟨hpage, r, hr, within_slowPath hr'⟩

theorem LimitSet.limitCheck_eq (h : LimitSet s ns uid u m) (huid : uid ≠ 0) (hm : m ≠ -1)
    (hns : (s.tasks.task e.current).ns = ns) :
    limitCheck s e = limitLoop u e s.tasks.processes { s with users := s.users.get u } := by
  unfold limitCheck findUser
  rw [if_pos ⟨h.start, by rw [h.user]; exact huid⟩, hns, h.user, h.found]
  dsimp only
  rw [if_pos]
  rw [Refs.get_memMax, h.memMax]
  exact hm

theorem LimitSet.keeps (h : LimitSet s ns uid u m) (huid : uid ≠ 0) (hm : 0 ≤ m.toInt)
    (hns : (s.tasks.task e.current).ns = ns) (hk : KeepsLimit s e u)
    (halloc : allocPagesNodemask s e = .ok (s', true)) :
    (s.cumulative u).toInt - (s'.released u - s.released u) + 2 ^ e.order * 4096 ≤ m.toInt := by
  obtain ⟨hpage, r, hr, hw⟩ := allocPagesNodemask_page halloc
  have hle := (within_allocPagesNodemask halloc).released_le u
  unfold KeepsLimit at hk
  rw [h.memMax] at hk
  rcases hk with hfit | hnone | ⟨hover, p, hp, hzones⟩
  · omega
  · rw [hpage] at hnone
    cases hnone
  · have hne : m ≠ -1 := by
      rintro rfl
      exact absurd hm (by decide)
    rw [h.limitCheck_eq huid hne hns] at hr
    have hover' : overLimit ((s.users.get u).obj u) e.order = true := by
      have hcum : ((s.users.get u).obj u).cumulativeMem = s.cumulative u :=
        (idle_get s u).cumulative u
      unfold overLimit at hover ⊢
      rw [hcum, Refs.get_memMax]
      exact hover
    have hatt : attempt { s with users := s.users.get u } e.current (e.oom p) u =
        attempt s e.current (e.oom p) u :=
      attempt_congr (within_get s u).users rfl rfl
    have hstart : Sys.released { s with users := s.users.get u } u = s.released u := rfl
    rcases limitLoop_over hr hp hover' with ⟨-, hrefused⟩ | ⟨hfree, hrel⟩
    · cases hrefused
    · rcases hzones with hbusy | hcovers
      · rw [hfree] at hbusy
        cases hbusy
      · have hmono := hw.released_le u
        rw [hatt, hstart] at hrel
        omega

/-- After `set_mlimit(uid, m)`, at every point of every run without another `set_mlimit`, a request
that meets the condition and is given a page leaves the user within the limit. -/
theorem limit_enforced (s₀ s₁ s s' : Sys) (ns : Ns) (uid : Uid) (m ret : Long) (u : UserPtr)
    (hu : s₀.users.lookup ns uid = some u) (hset : setMlimit s₀ ns uid m = .ok (s₁, ret))
    (huid : uid ≠ 0) (hm : 0 ≤ m.toInt) (cs : List Call)
    (hcs : ∀ c ∈ cs, ∀ ns uid m, c ≠ .setMlimit ns uid m) (hrun : exec perform cs s₁ = some s)
    (e : AllocEnv) (hns : (s.tasks.task e.current).ns = ns) (hk : KeepsLimit s e u)
    (halloc : allocPagesNodemask s e = .ok (s', true)) :
    (s.cumulative u).toInt - (s'.released u - s.released u) + 2 ^ e.order * 4096 ≤ m.toInt := by
  have hmeets := (meets_of_forall (C := fun _ _ => True) (fun _ _ => trivial) cs s₁ :
    Meets perform _ cs s₁).and_forall hcs
  have hlim : LimitSet s ns uid u m :=
    hmeets.invariant (P := fun s => LimitSet s ns uid u m)
      (fun _ _ _ hs hc hstep => hs.perform hc.2 hstep) (limitSet_setMlimit hset hu) hrun
  exact hlim.keeps huid hm hns hk halloc

instance (s : Sys) (e : AllocEnv) (u : UserPtr) : Decidable (KeepsLimit s e u) :=
  inferInstanceAs (Decidable (_ ≤ _ ∨ _ ∨ _ ∧ ∃ p ∈ firstProcess s, _ ∨ _ ≤ _))

/-- The only process of the user is killed for its own request, which fits after that. -/
theorem limit_enforced_by_kill : ∃ r s s', exec Refs.next created Refs.boot = some r ∧
    (setMlimit (processesOf [5] r) 0 1000 40960).toOption.map Prod.fst = some s ∧
    allocPagesNodemask s (request 5 0) = .ok (s', true) ∧
    (s.cumulative 1).toInt + 4096 = 45056 ∧ s'.released 1 = 40960 ∧
    (s.cumulative 1).toInt - (s'.released 1 - s.released 1) + 2 ^ 0 * 4096 ≤ 40960 := by
  obtain ⟨r, hr, hp⟩ := Option.bind_eq_some_iff.mp
    (show (exec Refs.next created Refs.boot).bind (fun r =>
      (setMlimit (processesOf [5] r) 0 1000 40960).toOption.bind fun s =>
        (allocPagesNodemask s.1 (request 5 0)).toOption.map fun s' => decide (s'.2 = true ∧
          r.users.lookup 0 1000 = some 1 ∧ (s.1.tasks.task 5).ns = 0 ∧
          KeepsLimit s.1 (request 5 0) 1 ∧ (s.1.cumulative 1).toInt + 4096 = 45056 ∧
          s'.1.released 1 = 40960)) = some true by decide)
  obtain ⟨⟨s, ret⟩, hs, hp⟩ := Option.bind_eq_some_iff.mp hp
  obtain ⟨⟨s', page⟩, hs', hfacts⟩ := Option.map_eq_some_iff.mp hp
  obtain ⟨hpage, hu, hns, hk, hcum, hrel⟩ := of_decide_eq_true hfacts
  dsimp only at hpage
  subst hpage
  have halloc := ok_of_toOption hs'
  refine ⟨r, s, s', hr, by rw [hs]; rfl, halloc, hcum, hrel, ?_⟩
  exact limit_enforced (processesOf [5] r) s s s' 0 1000 40960 ret 1 hu (ok_of_toOption hs)
    (by decide) (by decide) [] (fun c hc => absurd hc (List.not_mem_nil)) rfl (request 5 0) hns hk
    halloc

/-- A request over the limit gets its page when a notifier has freed some memory. -/
theorem limit_exceeded : ∃ r s s', exec Refs.next created Refs.boot = some r ∧
    exec perform [.setMlimit 0 1000 40960] (processesOf [5] r) = some s ∧
    (s.tasks.task 5).user = 1 ∧ (s.users.obj 1).memMax = 40960 ∧
    allocPagesNodemask s { request 5 0 with oom := fun _ => { plainOom with freed := 1 } } =
      .ok (s', true) ∧
    (s.cumulative 1).toInt - (s'.released 1 - s.released 1) + 2 ^ 0 * 4096 = 45056 := by
  obtain ⟨r, hr, hp⟩ := Option.bind_eq_some_iff.mp
    (show (exec Refs.next created Refs.boot).bind (fun r =>
      (exec perform [.setMlimit 0 1000 40960] (processesOf [5] r)).bind fun s =>
        (allocPagesNodemask s { request 5 0 with
          oom := fun _ => { plainOom with freed := 1 } }).toOption.map fun s' => decide (
          s'.2 = true ∧ (s.tasks.task 5).user = 1 ∧ (s.users.obj 1).memMax = 40960 ∧
          (s.cumulative 1).toInt - (s'.1.released 1 - s.released 1) + 2 ^ 0 * 4096 = 45056)) =
        some true by decide)
  obtain ⟨s, hs, hp⟩ := Option.bind_eq_some_iff.mp hp
  obtain ⟨⟨s', page⟩, hs', hfacts⟩ := Option.map_eq_some_iff.mp hp
  obtain ⟨hpage, huser, hmax, hover⟩ := of_decide_eq_true hfacts
  dsimp only at hpage
  subst hpage
  exact ⟨r, s, s', hr, hs, huser, hmax, ok_of_toOption hs', hover⟩

end AndroidKernel.Mlimit
