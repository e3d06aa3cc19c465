import AndroidKernel.Mlimit.Balance
import AndroidKernel.Mlimit.Oom

/-! The OOM killer while nobody has used `set_mlimit`. Every `user_struct` that `alloc_uid` makes
says that there is no limit, and for its tasks the patched functions are the old ones. The static
`root_user` does not say so: its `mem_max` is 0, and its tasks are scored as if it had a limit. -/

namespace AndroidKernel.Mlimit
open Lts

namespace Refs
variable {τ : Type} {s s' : State τ}

def Unlimited (s : State τ) : Prop :=
  ∀ p ∈ s.users.live, p ≠ rootUser → (s.users.obj p).memMax = -1

theorem Unlimited.keep (hu : Unlimited s) (hl : ∀ p ∈ s'.users.live, p ∈ s.users.live)
    (hm : ∀ p ∈ s'.users.live, (s'.users.obj p).memMax = (s.users.obj p).memMax) :
    Unlimited s' := by
  intro p hp hr
  rw [hm p hp]
  exact hu p (hl p hp) hr

theorem modify_memMax {us : Users} {q : UserPtr} {f : User → User}
    (hf : ∀ u, (f u).memMax = u.memMax) (p : UserPtr) :
    ((us.modify q f).obj p).memMax = (us.obj p).memMax := modify_obj_field hf p

theorem get_memMax (us : Users) (q p : UserPtr) :
    ((us.get q).obj p).memMax = (us.obj p).memMax :=
  modify_memMax (f := fun u => { u with count := u.count + 1 }) (fun _ => rfl) p

variable [DecidableEq τ] {a : Act τ} {t : τ}

theorem Unlimited.zalloc {ns : Ns} {uid : Uid} {q : UserPtr} (hun : Unlimited s) :
    Unlimited (zalloc s t ns uid q) := by
  intro p hp hr
  by_cases hpq : p = q
  · subst hpq
    simp [Refs.zalloc, newUser]
  · simp only [Refs.zalloc, Finset.mem_insert, hpq, false_or] at hp
    simpa [Refs.zalloc, hpq] using hun p hp hr

theorem Unlimited.next (hun : Unlimited s) (hu : Unused s) (hf : ¬ Finds s a)
    (h : next s a = some s') : Unlimited s' := by
  have hget : ∀ q, Unlimited (s.hold q) :=
    fun q => hun.keep (fun _ hp => hp) fun p _ => get_memMax _ _ p
  cases step_of_next h with
  | limitFound t ns uid m sum p ht hl =>
    exact absurd (show Finds s (.setMlimit t ns uid m sum) by simp [Finds, hl]) hf
  | pagesFound t ns p ht hs =>
    rw [hu.start] at hs
    cases hs
  | badFound t ns p ht hne | badMiss t ns ht hne => exact absurd hu.user hne
  | limit t new ns uid p m sum ht => exact absurd ht (hu.limit t ns uid p m sum)
  | allocFound t ns uid q | findFound t ns uid q => exact hget q
  | free t q ht hr =>
    have hdec : ∀ p, ((s.users.modify q fun u => { u with count := u.count - 1 }).obj p).memMax =
        (s.users.obj p).memMax := fun p => modify_memMax (fun _ => by rfl) p
    simp only [freeUid]
    split
    · exact hun.keep (fun _ hp => hp) fun p _ => hdec p
    · exact hun.keep (fun _ hp => hp) fun p _ => hdec p
  | zalloc => exact hun.zalloc
  | insertNew t new ns uid q ht =>
    unfold allocInsert
    split
    · exact hun.keep (fun p hp => Finset.mem_of_mem_erase hp) fun p _ => get_memMax _ _ p
    · exact hun
  | destroy => exact hun.keep (fun p hp => Finset.mem_of_mem_erase hp) fun _ _ => rfl
  | allocMiss | findMiss | limitMiss | pages | badIdle | zallocFails | pagesEnd => exact hun

omit [DecidableEq τ] in
theorem unlimited_boot : Unlimited (boot : State τ) := by
  intro p hp hr
  exact absurd (Finset.mem_singleton.mp hp) hr

theorem unused_unlimited_run {as : List (Act τ)} (h : exec next as boot = some s)
    (hn : ∀ a ∈ as, ∀ t ns uid m sum, a ≠ .setMlimit t ns uid m sum) :
    Unused s ∧ Unlimited s := by
  have hm := (meets_of_forall (C := fun _ _ => True) (fun _ _ => trivial) as boot :
    Meets (next (τ := τ)) _ as boot).and_forall hn
  refine hm.invariant (P := fun s => Unused s ∧ Unlimited s) ?_
    ⟨unused_boot, unlimited_boot⟩ h
  intro s a s' hs hc hnext
  have hf : ¬ Finds s a := by
    cases a with
    | setMlimit t ns uid m sum => exact absurd rfl (hc.2 t ns uid m sum)
    | allocUid | findUser | freeUid | allocPages | selectBad | step => exact id
  exact ⟨hs.1.next hf hnext, hs.2.next hs.1 hf hnext⟩

end Refs

variable {w : Tasks} {us : Users} {current p : Tid} {memcg : Option Memcg}
  {nodemask : Option Nodemask} {totalpages : Long}

def unpatchedSelect (s : Sys) (current : Tid) (totalpages : Long) (memcg : Option Memcg)
    (nodemask : Option Nodemask) (forceKill : Bool) : Selected × Long :=
  match scanThreads s.tasks current memcg nodemask forceKill
      (fun p => unpatchedBadness s.tasks current p memcg nodemask totalpages)
      s.tasks.threads (none, 0) with
  | none => (.err, 0)
  | some best => (.ofOption best.1, best.2)

/-- The score of the task is read off a thread of root's. -/
def ScoredAsRoot (w : Tasks) (current p : Tid) (memcg : Option Memcg)
    (nodemask : Option Nodemask) : Prop :=
  ¬ Ineligible w current p memcg nodemask ∧
    ∃ t, findLockTaskMm w p = some t ∧ (w.task t).user = rootUser

theorem oomBadness_eq_unpatched (h : ¬ Ineligible w current p memcg nodemask →
      ∀ t, findLockTaskMm w p = some t → (us.obj (w.task t).user).memMax = -1) :
    oomBadness us w current p memcg nodemask totalpages =
      unpatchedBadness w current p memcg nodemask totalpages := by
  by_cases hel : Ineligible w current p memcg nodemask
  · exact (badnessWith_of_ineligible hel ..).trans (badnessWith_of_ineligible hel ..).symm
  · unfold oomBadness unpatchedBadness badnessWith
    cases ht : findLockTaskMm w p with
    | none => rfl
    | some t =>
      have hm : (us.obj (w.task t).user).memMax = -1 := h hel t ht
      simp [limitPoints, unpatchedPoints, hm]

theorem scanThreads_congr (w : Tasks) (current : Tid) (memcg : Option Memcg)
    (nodemask : Option Nodemask) (forceKill : Bool) {f g : Tid → Long} {ps : List Tid}
    (h : ∀ p ∈ ps, (w.task p).exitState = false → (w.task p).mm.isSome → f p = g p)
    (best : Best) : scanThreads w current memcg nodemask forceKill f ps best =
      scanThreads w current memcg nodemask forceKill g ps best := by
  induction ps generalizing best with
  | nil => rfl
  | cons p ps ih =>
    have ih' := ih fun q hq => h q (List.mem_cons_of_mem _ hq)
    simp only [scanThreads, ih']
    -- the score of `p` is read only where the scan gets past its tests
    split_ifs with hskip hdying hmm
    · rfl
    · rfl
    · rfl
    · rfl
    all_goals
      have hexit : (w.task p).exitState = false := by
        cases hx : (w.task p).exitState with
        | false => rfl
        | true => simp [hx] at hskip
      have hp : f p = g p := by
        refine h p (List.mem_cons_self ..) hexit ?_
        cases hx : (w.task p).mm with
        | none => simp [hx] at hmm
        | some q => rfl
      simp only [better, hp]

/-- In every state that is reached without a `set_mlimit`, no user but root has a limit, the score
of every task that is not scored as one of root's is the old score, and if the scan meets no such
task, the choice is the old choice. -/
theorem unpatched_until_set_mlimit {τ : Type} [DecidableEq τ] (as : List (Refs.Act τ))
    (r : Refs.State τ) (h : exec Refs.next as Refs.boot = some r)
    (hn : ∀ a ∈ as, ∀ t ns uid m sum, a ≠ .setMlimit t ns uid m sum)
    (s : Sys) (husers : s.users = r.users) (huser : s.user = r.user)
    (hcred : ∀ t, (s.tasks.task t).user ∈ r.users.live) (current : Tid) (totalpages : Long)
    (memcg : Option Memcg) (nodemask : Option Nodemask) (forceKill : Bool) :
    (∀ p ∈ r.users.live, p ≠ rootUser → (r.users.obj p).memMax = -1) ∧
    (∀ p, ¬ ScoredAsRoot s.tasks current p memcg nodemask →
      oomBadness s.users s.tasks current p memcg nodemask totalpages =
        unpatchedBadness s.tasks current p memcg nodemask totalpages) ∧
    ((∀ p ∈ s.tasks.threads, (s.tasks.task p).exitState = false → (s.tasks.task p).mm.isSome →
        ¬ ScoredAsRoot s.tasks current p memcg nodemask) →
      selectBadProcess s current totalpages memcg nodemask forceKill =
        .ok ((unpatchedSelect s current totalpages memcg nodemask forceKill).1,
          (unpatchedSelect s current totalpages memcg nodemask forceKill).2, s)) := by
  obtain ⟨hu, hun⟩ := Refs.unused_unlimited_run h hn
  have hscore : ∀ p, ¬ ScoredAsRoot s.tasks current p memcg nodemask →
      oomBadness s.users s.tasks current p memcg nodemask totalpages =
        unpatchedBadness s.tasks current p memcg nodemask totalpages := by
    intro p hp
    refine oomBadness_eq_unpatched fun hel t ht => ?_
    rw [husers]
    exact hun _ (hcred t) fun hroot => hp ⟨hel, t, ht, hroot⟩
  refine ⟨hun, hscore, fun hall => ?_⟩
  have hscan := scanThreads_congr s.tasks current memcg nodemask forceKill
    (fun p hp hx hmm => hscore p (hall p hp hx hmm)) (none, 0)
  simp only [selectBadProcess, huser, hu.user, ne_eq, not_true_eq_false, if_false, hscan,
    unpatchedSelect]
  cases scanThreads s.tasks current memcg nodemask forceKill
    (fun p => unpatchedBadness s.tasks current p memcg nodemask totalpages) s.tasks.threads
    (none, 0) with
  | none => rfl
  | some best => rfl

def created : List (Refs.Act Unit) := [.allocUid () 0 1000, .step () (some 1), .step () none]

def oneTask : Tasks := plainTasks [5] (fun p => plainTask p 1000 1) fun _ => 10

/-- Root's init and an exempt daemon of root's, beside a task of the new user. -/
def initAndUser : Tasks :=
  plainTasks [1, 2, 5]
    (fun p => if p = 5 then plainTask 5 1000 1
      else { plainTask p 0 rootUser with oomScoreAdj := if p = 1 then 0 else OOM_SCORE_ADJ_MIN })
    fun _ => 10

theorem unpatched_created : ∃ r, exec Refs.next created Refs.boot = some r ∧
    oomBadness r.users initAndUser 5 1 none none 1000 = 0 ∧
    oomBadness r.users initAndUser 5 5 none none 1000 = 10 ∧
    (selectBadProcess ⟨r.users, r.user, r.start, initAndUser, []⟩ 5 1000 none none
      false).toOption.map Prod.fst = some (.task 5) := by
  obtain ⟨r, hr, hp⟩ := Option.map_eq_some_iff.mp
    (show (exec Refs.next created Refs.boot).map
      (fun r => decide (rootUser ∈ r.users.live ∧ 1 ∈ r.users.live)) = some true by decide)
  obtain ⟨hroot, hlive⟩ := of_decide_eq_true hp
  have hn : ∀ a ∈ created, ∀ t ns uid m sum, a ≠ .setMlimit t ns uid m sum := by
    intro a ha t ns uid m sum
    simp only [created, List.mem_cons, List.not_mem_nil, or_false] at ha
    rcases ha with rfl | rfl | rfl <;> simp
  have huser : ∀ t, (initAndUser.task t).user = if t = 5 then 1 else rootUser := by
    intro t
    by_cases ht : t = 5
    · simp [initAndUser, plainTasks, ht, plainTask]
    · simp [initAndUser, plainTasks, ht, plainTask]
  have hcred : ∀ t, (initAndUser.task t).user ∈ r.users.live := by
    intro t
    rw [huser]
    split
    · exact hlive
    · exact hroot
  have hexempt : ∀ p, ¬ ScoredAsRoot initAndUser 5 p none none := by
    rintro p ⟨hel, t, ht, hr⟩
    have hmem : t ∈ [p] := List.mem_of_find?_eq_some ht
    obtain rfl := List.mem_singleton.mp hmem
    by_cases hinit : t = 1
    · exact hel (Or.inl (by simp [oomUnkillableTask, hinit]))
    · have huid : t ≠ 5 := by
        rintro rfl
        cases hr
      refine hel (Or.inr (Or.inr ⟨t, ht, ?_⟩))
      simp [initAndUser, plainTasks, huid, hinit]
  obtain ⟨-, hscore, hselect⟩ := unpatched_until_set_mlimit created r hr hn
    ⟨r.users, r.user, r.start, initAndUser, []⟩ rfl rfl hcred 5 1000 none none false
  have hinit : unpatchedBadness initAndUser 5 1 none none 1000 = 0 := by decide
  have hfive : unpatchedBadness initAndUser 5 5 none none 1000 = 10 := by decide
  have hscan : scanThreads initAndUser 5 none none false
      (fun p => unpatchedBadness initAndUser 5 p none none 1000) initAndUser.threads (none, 0) =
      some (some 5, 10) := by decide
  refine ⟨r, hr, (hscore 1 (hexempt 1)).trans hinit, (hscore 5 (hexempt 5)).trans hfive, ?_⟩
  rw [hselect fun p _ _ _ => hexempt p]
  simp only [unpatchedSelect, hscan, Selected.ofOption, Except.toOption, Option.map_some]

def rootAndUser : Tasks :=
  plainTasks [5, 6]
    (fun p => if p = 5 then { plainTask 5 0 rootUser with oomScoreAdj := 500 }
      else plainTask p 1000 1)
    fun p => if p = 5 then 10 else 100

/-- The limit of root is 0 from the start, so that root's task scores 10 where it scored 510, and
the other task is chosen in its place. -/
theorem root_user_limited : ∃ r, exec Refs.next created Refs.boot = some r ∧
    (r.users.obj rootUser).memMax = 0 ∧
    oomBadness r.users rootAndUser 6 5 none none 1000 = 10 ∧
    unpatchedBadness rootAndUser 6 5 none none 1000 = 510 ∧
    (selectBadProcess ⟨r.users, r.user, r.start, rootAndUser, []⟩ 6 1000 none none
      false).toOption.map Prod.fst = some (.task 6) ∧
    unpatchedSelect ⟨r.users, r.user, r.start, rootAndUser, []⟩ 6 1000 none none false =
      (.task 5, 510) := by
  obtain ⟨r, hr, hp⟩ := Option.map_eq_some_iff.mp
    (show (exec Refs.next created Refs.boot).map (fun r => decide (
      (r.users.obj rootUser).memMax = 0 ∧
      oomBadness r.users rootAndUser 6 5 none none 1000 = 10 ∧
      unpatchedBadness rootAndUser 6 5 none none 1000 = 510 ∧
      (selectBadProcess ⟨r.users, r.user, r.start, rootAndUser, []⟩ 6 1000 none none
        false).toOption.map Prod.fst = some (.task 6) ∧
      unpatchedSelect ⟨r.users, r.user, r.start, rootAndUser, []⟩ 6 1000 none none false =
        (.task 5, 510))) = some true by decide)
  exact ⟨r, hr, of_decide_eq_true hp⟩

end AndroidKernel.Mlimit
