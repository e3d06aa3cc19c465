import AndroidKernel.Mlimit.Twin

/-! Limits of several users. `set_mlimit` writes the limit into the user it is for, and the uid of
that user into the one variable `user`, which says whose limit is checked. So a request is checked
against the limit of whoever came last. -/

namespace AndroidKernel.Mlimit
open Lts Outcome
variable {s₀ s s' t : Sys} {u uid : Uid} {U v : UserPtr} {ns : Ns} {m sum : Long} {c : Call}
  {cs : List Call} {e : AllocEnv}

theorem limitLoop_compares {ps : List Tid} {refused : Bool}
    (h : limitLoop U e ps s = .ok (s', refused)) (k : UserPtr × Long) :
    k ∈ s'.compares ↔ k ∈ s.compares ∨
      k = (U, (s.users.obj U).memMax) ∧ ∃ p ∈ ps, chargeable s p = true := by
  induction ps generalizing s with
  | nil =>
    obtain rfl := congrArg Prod.fst (Except.ok.inj h)
    simp
  | cons p ps ih =>
    have hcmp : ∀ r : Sys, r.compares = (U, (s.users.obj U).memMax) :: s.compares →
        (r.users.obj U).memMax = (s.users.obj U).memMax →
        ((k ∈ r.compares ∨ k = (U, (r.users.obj U).memMax) ∧ ∃ q ∈ ps, chargeable r q = true) ↔
          (k ∈ s.compares ∨ k = (U, (s.users.obj U).memMax))) := by
      intro r hr hm
      rw [hr, hm, List.mem_cons]
      tauto
    simp only [limitLoop] at h
    split at h
    · rename_i hp
      have hc : chargeable s p = true := decide_eq_true hp
      have hhead : (∃ q ∈ p :: ps, chargeable s q = true) := ⟨p, List.mem_cons_self .., hc⟩
      simp only [hhead, and_true]
      split at h
      · split at h
        · obtain ⟨r, hr, h⟩ := ok_of_bind h
          rw [ih h]
          exact hcmp r (outOfMemory_effect hr).compares ((within_outOfMemory hr).users.memMax U)
        · obtain rfl := congrArg Prod.fst (Except.ok.inj h)
          change k ∈ (U, (s.users.obj U).memMax) :: s.compares ↔ _
          rw [List.mem_cons, or_comm]
      · rw [ih h]
        exact hcmp _ rfl ((within_charge _ _ _).users.memMax U)
    · rename_i hp
      have hc : ¬ chargeable s p = true := by simpa [chargeable] using hp
      rw [ih h, List.exists_mem_cons_iff]
      simp only [hc, false_or, Bool.false_eq_true]

theorem limitCheck_compares {refused : Bool} (hstart : s.start = true) (hu : s.user ≠ 0)
    (hfound : s.users.lookup (s.tasks.task e.current).ns s.user = some U)
    (h : limitCheck s e = .ok (s', refused)) (k : UserPtr × Long) :
    k ∈ s'.compares ↔ k ∈ s.compares ∨ k = (U, (s.users.obj U).memMax) ∧
      (s.users.obj U).memMax ≠ -1 ∧ ∃ p ∈ s.tasks.processes, chargeable s p = true := by
  unfold limitCheck findUser at h
  simp only [if_pos (And.intro hstart hu), hfound, Refs.get_memMax] at h
  split at h
  · rename_i hm
    rw [limitLoop_compares h k, Refs.get_memMax]
    simp only [hm, ne_eq, not_false_eq_true, true_and]
    rfl
  · rename_i hm
    obtain ⟨rfl, -⟩ := Prod.mk.inj (Except.ok.inj h)
    simp only [hm, false_and, and_false, or_false]
    rfl

theorem slowPath_compares {current : Tid} {envs : List OomEnv}
    (h : slowPath current envs s = .ok s') : s'.compares = s.compares := by
  induction envs generalizing s with
  | nil => rw [← Except.ok.inj h]
  | cons env envs ih =>
    obtain ⟨r, hr, h⟩ := ok_of_bind h
    rw [ih h, (outOfMemory_effect hr).compares]

theorem allocPagesNodemask_compares {page : Bool} (h : allocPagesNodemask s e = .ok (s', page)) :
    ∃ r refused, limitCheck s e = .ok (r, refused) ∧ s'.compares = r.compares := by
  unfold allocPagesNodemask at h
  obtain ⟨⟨r, refused⟩, hr, h⟩ := ok_of_bind h
  refine ⟨r, refused, hr, ?_⟩
  dsimp only at h
  split at h
  · obtain ⟨rfl, -⟩ := Prod.mk.inj (Except.ok.inj h)
    rfl
  · obtain ⟨r', hr', h⟩ := ok_of_bind h
    obtain ⟨rfl, -⟩ := Prod.mk.inj (Except.ok.inj h)
    exact slowPath_compares hr'

def settled (s₀ s : Sys) (u : Uid) : Set UserPtr :=
  {v | (s₀.users.obj v).uid = u ∨ (s.users.obj v).memMax = (s₀.users.obj v).memMax}

/-- The limit check does nothing: there is no user to check, or it has no limit, or it has no
process. -/
def ChecksNothing (s : Sys) (current : Tid) : Prop :=
  ∀ v ∈ checkedUser s current, (s.users.obj v).memMax = -1 ∨
    ∀ p ∈ s.tasks.processes, chargeable s p = false

theorem limitLoop_without {ps : List Tid} (h : ∀ p ∈ ps, chargeable s p = false) :
    limitLoop U e ps s = .ok (s, false) := by
  induction ps with
  | nil => rfl
  | cons p ps ih =>
    have hp : ¬ (s.tasks.task p).uid = s.user :=
      of_decide_eq_false (h p (List.mem_cons_self ..))
    rw [limitLoop, if_neg hp, ih fun q hq => h q (List.mem_cons_of_mem _ hq)]

theorem ChecksNothing.limitCheck (h : ChecksNothing s e.current) :
    ∃ r, limitCheck s e = .ok (r, false) ∧ Idle s r := by
  unfold ChecksNothing checkedUser at h
  unfold Mlimit.limitCheck findUser
  split
  · rename_i hstart
    rw [if_pos hstart] at h
    cases hl : s.users.lookup (s.tasks.task e.current).ns s.user with
    | none => exact ⟨s, rfl, Idle.refl s⟩
    | some v =>
      have hidle := idle_get s v
      dsimp only
      split
      · rename_i hm
        rw [Refs.get_memMax] at hm
        have hnone := (h v hl).resolve_left hm
        exact ⟨_, limitLoop_without hnone, hidle⟩
      · exact ⟨_, rfl, hidle⟩
  · exact ⟨s, rfl, Idle.refl s⟩

theorem ChecksNothing.compares {page : Bool} (h : ChecksNothing s e.current)
    (hok : allocPagesNodemask s e = .ok (s', page)) : s'.compares = s.compares := by
  obtain ⟨r, hr, hidle⟩ := h.limitCheck
  obtain ⟨r', refused, hr', hcmp⟩ := allocPagesNodemask_compares hok
  rw [hr] at hr'
  obtain ⟨rfl, -⟩ := Prod.mk.inj (Except.ok.inj hr')
  rw [hcmp, hidle.effect.compares]

theorem ChecksNothing.alloc (h : ChecksNothing s e.current) (hslow : e.slow = []) :
    ∃ r, allocPagesNodemask s e = .ok (r, e.page) ∧ Idle s r := by
  obtain ⟨r, hr, hidle⟩ := h.limitCheck
  refine ⟨r, ?_, hidle⟩
  unfold allocPagesNodemask
  rw [hr, hslow]
  rfl

structure Fresh (s₀ : Sys) (u : Uid) (U : UserPtr) : Prop where
  user : s₀.user = 0
  log : s₀.log = []
  memMax : u ≠ 0 → (s₀.users.obj U).memMax = -1

theorem Fresh.twin (h : Fresh s₀ u U) : Twin u s₀ s₀ s₀ := by
  refine ⟨rfl, rfl, fun _ _ => rfl, fun _ _ => rfl, fun _ _ => rfl, fun _ _ => rfl, fun _ _ => rfl,
    fun hu hne => ?_, Or.inl h.user⟩
  rw [h.user] at hu
  exact absurd hu.symm hne

/-- No other user whose limit has changed decides a score of the OOM killer. -/
def Unmixed (s₀ s : Sys) (e : AllocEnv) (u : Uid) : Prop :=
  Near s.tasks (settled s₀ s u) e.current ∧
    ∀ p ∈ s.tasks.processes, chargeable s p = true → Near s.tasks (settled s₀ s u) p

/-- A request is not disturbed by the limits of others. Either the last `set_mlimit` was for the
user itself, which has a process, and the OOM killer, if it is called, does not see the others. Or
the user has no limit and nobody's limit is checked. What only serves to compare with the run
without the calls for other uids is not asked where there are no such calls. -/
def Undisturbed (s₀ s : Sys) (cs : List Call) (e : AllocEnv) (u : Uid) (U : UserPtr) : Prop :=
  ((s.user = u ∧ u ≠ 0 ∧ ∃ p ∈ s.tasks.processes, chargeable s p = true) ∧
    ((∀ c ∈ cs, concerns u c = true) ∨ (CallsOom s e U → Unmixed s₀ s e u))) ∨
  ((lastLimit s₀.users U cs = none ∨ lastLimit s₀.users U cs = some (-1)) ∧
    ((∀ c ∈ cs, concerns u c = true) ∨ ChecksNothing s e.current ∧ e.slow = []))

theorem Twin.agree (h : Twin u s₀ s t) (hu : s.user = u) (hne : u ≠ 0)
    (hU : (s₀.users.obj U).uid = u) : Agree (settled s₀ s u) U s t := by
  obtain ⟨htu, hss, hts⟩ := h.user hu hne
  refine ⟨htu.trans hu.symm, hts.trans hss.symm, h.tasks,
    fun ns uid => (h.right ns uid).trans (h.left ns uid).symm, fun v hv => ?_, h.cumulative U hU⟩
  by_cases hvu : (s₀.users.obj v).uid = u
  · exact h.memMax v hvu
  · rw [h.rest v hvu]
    exact (hv.resolve_left hvu).symm

theorem lastLimit_getD_eq {o : Option Long} (h : m = o.getD (-1)) (v : UserPtr) (limit : Long) :
    (v, limit) = (U, m) ∧ m ≠ -1 ↔ v = U ∧ o = some limit ∧ limit ≠ -1 := by
  subst h
  cases o with
  | none => simp
  | some m =>
    simp only [Option.getD_some, Prod.mk.injEq, Option.some_inj]
    constructor
    · rintro ⟨⟨rfl, rfl⟩, hm⟩
      exact ⟨rfl, rfl, hm⟩
    · rintro ⟨rfl, rfl, hm⟩
      exact ⟨⟨rfl, rfl⟩, hm⟩

theorem Twin.checksNothing (h : Twin u s₀ s t)
    (hU : s₀.users.lookup (s.tasks.task e.current).ns u = some U)
    (hm : u ≠ 0 → (s.users.obj U).memMax = -1) : ChecksNothing t e.current := by
  intro v hv
  unfold checkedUser at hv
  split at hv
  · rename_i hstart
    have htu : t.user = u := h.only.resolve_left hstart.2
    rw [htu, h.tasks, h.right, hU] at hv
    obtain rfl := Option.some_inj.mp hv
    refine Or.inl ?_
    rw [h.memMax U (lookup_uid hU)]
    apply hm
    rw [← htu]
    exact hstart.2
  · cases hv

/-- In every run of `set_mlimit` calls, a later request that is not disturbed is compared exactly
with the last limit set for its own user, if that is a limit, and does to the account of its user
what it would do had the calls for other uids not been made. -/
theorem limits_independent (s₀ s : Sys) (u : Uid) (U : UserPtr) (hfresh : Fresh s₀ u U)
    (cs : List Call) (hcs : ∀ c ∈ cs, Configures c) (hs : exec perform cs s₀ = some s)
    (e : AllocEnv) (hU : s₀.users.lookup (s.tasks.task e.current).ns u = some U)
    (hcond : Undisturbed s₀ s cs e u U) :
    ∃ t, exec perform (cs.filter (concerns u)) s₀ = some t ∧
      (∀ s' page, allocPagesNodemask s e = .ok (s', page) → ∀ v limit,
        (v, limit) ∈ s'.compares ↔
          v = U ∧ lastLimit s₀.users U cs = some limit ∧ limit ≠ -1) ∧
      (allocPagesNodemask s e).map (fun r => r.1.cumulative U) =
        (allocPagesNodemask t e).map fun r => r.1.cumulative U := by
  obtain ⟨t, ht, htwin⟩ := hfresh.twin.run hcs hs
  have huid : (s₀.users.obj U).uid = u := lookup_uid hU
  have hlog : s.compares = [] := by
    unfold Sys.compares
    rw [htwin.log, hfresh.log]
    rfl
  have hlast : u ≠ 0 → (s.users.obj U).memMax = (lastLimit s₀.users U cs).getD (-1) := by
    intro hne
    rw [memMax_run (fun _ _ => rfl) hcs hs U, hfresh.memMax hne]
  -- without calls for other uids there is one run only
  have hsame : (∀ c ∈ cs, concerns u c = true) → t = s := by
    intro hall
    rw [List.filter_eq_self.mpr hall, hs] at ht
    exact (Option.some_inj.mp ht).symm
  refine ⟨t, ht, ?_⟩
  rcases hcond with ⟨⟨hu, hne, hproc⟩, hrest⟩ | ⟨hno, hrest⟩
  · -- both runs check the same limit, and every score they need is the same
    have hfound : s.users.lookup (s.tasks.task e.current).ns s.user = some U := by
      rw [hu, htwin.left]
      exact hU
    have hchecked : Checked (settled s₀ s u) U e.current s :=
      ⟨by rw [hu]; exact hne, hfound, Or.inl huid⟩
    refine ⟨fun s' page hok v limit => ?_, ?_⟩
    · obtain ⟨r, refused, hr, hcmp⟩ := allocPagesNodemask_compares hok
      rw [hcmp, limitCheck_compares (htwin.user hu hne).2.1 hchecked.user hfound hr, hlog,
        ← lastLimit_getD_eq (hlast hne)]
      simp [hproc]
    · rcases hrest with hall | hnear
      · rw [hsame hall]
      · have hconf : CallsOom s e U → Confined (settled s₀ s u) U e.current s := fun hcalls =>
          ⟨hchecked, (hnear hcalls).1, fun p hp hpu => (hnear hcalls).2 p hp (decide_eq_true hpu)⟩
        exact ((htwin.agree hu hne huid).allocPagesNodemask hchecked hconf).map_eq
          fun a b hab => hab.2.cumulative.symm
  · -- neither run checks anything
    have hm : u ≠ 0 → (s.users.obj U).memMax = -1 := by
      intro hne
      rw [hlast hne]
      rcases hno with hno | hno
      · rw [hno]
        rfl
      · rw [hno]
        rfl
    have htnothing := htwin.checksNothing hU hm
    have hnothing : ChecksNothing s e.current := by
      rcases hrest with hall | hrest
      · rwa [hsame hall] at htnothing
      · exact hrest.1
    constructor
    · intro s' page hok v limit
      rw [hnothing.compares hok, hlog]
      simp only [List.not_mem_nil, false_iff]
      rintro ⟨-, hsome, hne⟩
      rcases hno with hno | hno
      · rw [hno] at hsome
        cases hsome
      · rw [hno] at hsome
        exact hne (Option.some_inj.mp hsome).symm
    · rcases hrest with hall | ⟨-, hslow⟩
      · rw [hsame hall]
      · obtain ⟨r, hr, hidle⟩ := hnothing.alloc hslow
        obtain ⟨r', hr', hidle'⟩ := htnothing.alloc hslow
        rw [hr, hr']
        refine congrArg Except.ok ?_
        dsimp only
        rw [hidle.cumulative, hidle'.cumulative, htwin.cumulative U huid]

instance (s₀ s : Sys) (u : Uid) : DecidablePred (· ∈ settled s₀ s u) := fun v =>
  inferInstanceAs (Decidable ((s₀.users.obj v).uid = u ∨
    (s.users.obj v).memMax = (s₀.users.obj v).memMax))

instance (w : Tasks) (K : Set UserPtr) [DecidablePred (· ∈ K)] (p : Tid) :
    Decidable (Near w K p) :=
  inferInstanceAs (Decidable ((∀ t ∈ w.ring p, (w.task t).user ∈ K) ∧
    ∀ c ∈ w.childrenOf p, ∀ t ∈ w.ring c, (w.task t).user ∈ K))

def createdTwo : List (Refs.Act Unit) :=
  created ++ [.allocUid () 0 1001, .step () (some 2), .step () none]

def twoUsers (r : Refs.State Unit) : Sys :=
  ⟨r.users, r.user, r.start, plainTasks [5, 6]
    (fun p => if p = 5 then plainTask 5 1000 1 else plainTask p 1001 2) fun _ => 10, []⟩

def otherFirst : List Call := [.setMlimit 0 1001 2000000, .setMlimit 0 1000 1000000]

def otherLast : List Call := [.setMlimit 0 1000 1000000, .setMlimit 0 1001 2000000]

theorem limits_independent_last : ∃ r s t, exec Refs.next createdTwo Refs.boot = some r ∧
    exec perform otherFirst (twoUsers r) = some s ∧
    exec perform [.setMlimit 0 1000 1000000] (twoUsers r) = some t ∧
    (allocPagesNodemask s (request 5 0)).map (fun r => r.1.cumulative 1) =
      (allocPagesNodemask t (request 5 0)).map fun r => r.1.cumulative 1 := by
  obtain ⟨r, hr, hp⟩ := Option.bind_eq_some_iff.mp
    (show (exec Refs.next createdTwo Refs.boot).bind (fun r =>
      (exec perform otherFirst (twoUsers r)).map fun s => decide (
        (r.user = 0 ∧ (r.users.obj 1).memMax = -1) ∧
        r.users.lookup (s.tasks.task 5).ns 1000 = some 1 ∧ s.user = 1000 ∧
        (∃ p ∈ s.tasks.processes, chargeable s p = true) ∧
        Near s.tasks (settled (twoUsers r) s 1000) 5 ∧
        ∀ p ∈ s.tasks.processes, chargeable s p = true →
          Near s.tasks (settled (twoUsers r) s 1000) p)) = some true by decide)
  obtain ⟨s, hs, hfacts⟩ := Option.map_eq_some_iff.mp hp
  obtain ⟨⟨huser, hmax⟩, hU, hu, hproc, hcur, hnear⟩ := of_decide_eq_true hfacts
  have hcs : ∀ c ∈ otherFirst, Configures c := by
    intro c hc
    simp only [otherFirst, List.mem_cons, List.not_mem_nil, or_false] at hc
    rcases hc with rfl | rfl
    · trivial
    · trivial
  obtain ⟨t, ht, -, heq⟩ := limits_independent (twoUsers r) s 1000 1
    ⟨huser, rfl, fun _ => hmax⟩ otherFirst hcs hs (request 5 0) hU
    (Or.inl ⟨⟨hu, by decide, hproc⟩, Or.inr fun _ => ⟨hcur, hnear⟩⟩)
  exact ⟨r, s, t, hr, hs, ht, heq⟩

/-- After a limit for user 1001, the request of user 1000 is compared with that limit and not
charged to user 1000, as it would be without that call. -/
theorem limit_of_another : ∃ r s t s' t' page, exec Refs.next createdTwo Refs.boot = some r ∧
    exec perform otherLast (twoUsers r) = some s ∧
    exec perform (otherLast.filter (concerns 1000)) (twoUsers r) = some t ∧
    (s.tasks.task 5).user = 1 ∧ lastLimit r.users 1 otherLast = some 1000000 ∧
    allocPagesNodemask s (request 5 0) = .ok (s', page) ∧
    allocPagesNodemask t (request 5 0) = .ok (t', page) ∧
    s'.compares = [(2, 2000000)] ∧ t'.compares = [(1, 1000000)] ∧
    s'.cumulative 1 = 40960 ∧ t'.cumulative 1 = 45056 := by
  obtain ⟨r, hr, hp⟩ := Option.bind_eq_some_iff.mp
    (show (exec Refs.next createdTwo Refs.boot).bind (fun r =>
      (exec perform otherLast (twoUsers r)).bind fun s =>
        (exec perform (otherLast.filter (concerns 1000)) (twoUsers r)).bind fun t =>
          (allocPagesNodemask s (request 5 0)).toOption.bind fun s' =>
            (allocPagesNodemask t (request 5 0)).toOption.map fun t' => decide (t'.2 = s'.2 ∧
              (s.tasks.task 5).user = 1 ∧ lastLimit r.users 1 otherLast = some 1000000 ∧
              s'.1.compares = [(2, 2000000)] ∧ t'.1.compares = [(1, 1000000)] ∧
              s'.1.cumulative 1 = 40960 ∧ t'.1.cumulative 1 = 45056)) = some true by decide)
  obtain ⟨s, hs, hp⟩ := Option.bind_eq_some_iff.mp hp
  obtain ⟨t, ht, hp⟩ := Option.bind_eq_some_iff.mp hp
  obtain ⟨⟨s', page⟩, hs', hp⟩ := Option.bind_eq_some_iff.mp hp
  obtain ⟨⟨t', page'⟩, ht', hfacts⟩ := Option.map_eq_some_iff.mp hp
  obtain ⟨hpage, huser, hlast, hrest⟩ := of_decide_eq_true hfacts
  dsimp only at hpage
  subst hpage
  exact ⟨r, s, t, s', t', page', hr, hs, ht, huser, hlast, ok_of_toOption hs', ok_of_toOption ht',
    hrest⟩

end AndroidKernel.Mlimit
