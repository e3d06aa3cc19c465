import AndroidKernel.Lib.Leader
import AndroidKernel.Mlimit.Charge

/-! Which process of a limited user is chosen. The scan keeps the first process with the highest
score, and scores stop at 1000, so that of two processes with more pages than that the earlier one
is killed, however large the other is. -/

namespace AndroidKernel.Mlimit
open Lts Outcome Leader
variable {w : Tasks} {current p : Tid} {memcg : Option Memcg} {nodemask : Option Nodemask}
  {totalpages : Long} {forceKill : Bool} {s : Sys} {u : UserPtr}

def Tasks.ofUser (w : Tasks) (uid : Uid) : List Tid :=
  w.processes.filter fun p => (w.task p).uid = uid

theorem mem_ofUser {uid : Uid} :
    p ∈ w.ofUser uid ↔ p ∈ w.processes ∧ (w.task p).uid = uid := by
  simp [Tasks.ofUser]

theorem better_eq_pick (score : Tid → Long) (best : Best) (p : Tid) :
    ((better score best p).1, (better score best p).2.toNat) =
      pick (fun p => (score p).toNat) (best.1, best.2.toNat) p := by
  unfold better pick
  by_cases h : best.2 < score p
  · rw [if_pos h, if_pos (BitVec.lt_def.mp h)]
  · rw [if_neg h, if_neg fun h' => h (BitVec.lt_def.mpr h')]

theorem foldl_takeUser_eq_pick (w : Tasks) (uid : Uid) (score : Tid → Long) (ps : List Tid)
    (best : Best) :
    (ps.foldl (takeUser w uid score) best).1 =
      ((ps.filter fun p => (w.task p).uid = uid).foldl (pick fun p => (score p).toNat)
        (best.1, best.2.toNat)).1 := by
  induction ps generalizing best with
  | nil => rfl
  | cons p ps ih =>
    rw [List.foldl_cons, ih]
    by_cases hp : (w.task p).uid = uid
    · rw [List.filter_cons_of_pos (by simpa using hp), List.foldl_cons, ← better_eq_pick, takeUser,
        if_pos hp]
    · rw [List.filter_cons_of_neg (by simpa using hp), takeUser, if_neg hp]

theorem scanUser_eq_some {uid : Uid} {score : Tid → Long} :
    (scanUser w uid score w.processes).1 = some p ↔
      Leads (fun p => (score p).toNat) (w.ofUser uid) p ∧ 0 < (score p).toNat := by
  rw [scanUser_eq_foldl, foldl_takeUser_eq_pick]
  exact foldl_pick_eq_some

def Sys.badness (s : Sys) (current : Tid) (memcg : Option Memcg) (nodemask : Option Nodemask)
    (totalpages : Long) (p : Tid) : ℕ :=
  (oomBadness s.users s.tasks current p memcg nodemask totalpages).toNat

def Tasks.pages (w : Tasks) (p : Tid) : ℕ :=
  ((findLockTaskMm w p).map fun t => (w.memory t).rss.toNat).getD 0

theorem Selected.ofOption_eq_task {o : Option Tid} :
    Selected.ofOption o = .task p ↔ o = some p := by
  cases o with
  | none => simp [Selected.ofOption]
  | some q => simp [Selected.ofOption]

theorem selectBadProcess_limited (huser : s.user ≠ 0)
    (hu : s.users.lookup (s.tasks.task current).ns s.user = some u)
    (hmax : (s.users.obj u).memMax ≠ -1) :
    (∃ points s', selectBadProcess s current totalpages memcg nodemask forceKill =
      .ok (.task p, points, s')) ↔
    Leads (s.badness current memcg nodemask totalpages) (s.tasks.ofUser s.user) p ∧
      0 < s.badness current memcg nodemask totalpages p := by
  have hbad : oomBadness (s.users.get u) s.tasks = oomBadness s.users s.tasks :=
    oomBadness_congr (Refs.get_memMax s.users u) s.tasks
  have hscan : (scanUser s.tasks s.user (fun p => oomBadness s.users s.tasks current p memcg
      nodemask totalpages) s.tasks.processes).1 = some p ↔
      Leads (s.badness current memcg nodemask totalpages) (s.tasks.ofUser s.user) p ∧
        0 < s.badness current memcg nodemask totalpages p := scanUser_eq_some
  rw [← hscan]
  unfold selectBadProcess findUser
  simp only [ne_eq, huser, not_false_eq_true, if_true, hu, hbad, Refs.get_memMax, hmax,
    Except.ok.injEq, Prod.mk.injEq, Selected.ofOption_eq_task, exists_and_left, exists_eq',
    and_true]

/-- The process that is returned is the user's, can be killed, and no other process of the user
that can be killed has more pages. -/
def TakesLargest (s : Sys) (current : Tid) (totalpages : Long) (memcg : Option Memcg)
    (nodemask : Option Nodemask) (forceKill : Bool) : Prop :=
  ∀ p points s', selectBadProcess s current totalpages memcg nodemask forceKill =
      .ok (.task p, points, s') →
    (s.tasks.task p).uid = s.user ∧ 0 < s.badness current memcg nodemask totalpages p ∧
      ∀ q ∈ s.tasks.processes, (s.tasks.task q).uid = s.user →
        0 < s.badness current memcg nodemask totalpages q → s.tasks.pages q ≤ s.tasks.pages p

/-- The victim among the processes of a limited user is the largest exactly if none of them can be
killed, or a largest of them scores more than the smaller ones before it in the process list and no
less than those behind it. -/
theorem takes_largest_iff (s : Sys) (current : Tid) (totalpages : Long) (memcg : Option Memcg)
    (nodemask : Option Nodemask) (forceKill : Bool) (u : UserPtr) (huser : s.user ≠ 0)
    (hu : s.users.lookup (s.tasks.task current).ns s.user = some u)
    (hmax : (s.users.obj u).memMax ≠ -1) :
    TakesLargest s current totalpages memcg nodemask forceKill ↔
      (∀ p ∈ s.tasks.ofUser s.user, s.badness current memcg nodemask totalpages p = 0) ∨
      LargestAhead (s.badness current memcg nodemask totalpages) s.tasks.pages 0
        (s.tasks.ofUser s.user) := by
  have hsel : ∀ p, (∃ points s', selectBadProcess s current totalpages memcg nodemask forceKill =
      .ok (.task p, points, s')) ↔
      Leads (s.badness current memcg nodemask totalpages) (s.tasks.ofUser s.user) p ∧
        0 < s.badness current memcg nodemask totalpages p :=
    fun p => selectBadProcess_limited huser hu hmax
  constructor
  · intro h
    by_cases hzero : ∀ p ∈ s.tasks.ofUser s.user, s.badness current memcg nodemask totalpages p = 0
    · exact Or.inl hzero
    · push Not at hzero
      obtain ⟨q, hq, hne⟩ := hzero
      obtain ⟨p, hp, hpos⟩ := exists_leads hq (Nat.pos_of_ne_zero hne)
      obtain ⟨points, s', hok⟩ := (hsel p).mpr ⟨hp, hpos⟩
      refine Or.inr ((hp.largest_iff hpos).mp fun x hx hxpos => ?_)
      obtain ⟨hmem, huid⟩ := mem_ofUser.mp hx
      exact (h p points s' hok).2.2 x hmem huid hxpos
  · intro h p points s' hok
    obtain ⟨hp, hpos⟩ := (hsel p).mp ⟨points, s', hok⟩
    refine ⟨(mem_ofUser.mp hp.mem).2, hpos, fun q hq huid hqpos => ?_⟩
    rcases h with hzero | hahead
    · exact absurd (hzero p hp.mem) hpos.ne'
    · exact (hp.largest_iff hpos).mpr hahead q (mem_ofUser.mpr ⟨hq, huid⟩) hqpos

def twoSizes (small large : Long) (r : Refs.State Unit) : Sys :=
  ⟨r.users, r.user, r.start, plainTasks [5, 6] (fun p => plainTask p 1000 1)
    fun p => if p = 5 then small else large, []⟩

theorem takes_largest_iff_small : ∃ r s, exec Refs.next created Refs.boot = some r ∧
    exec perform [.setMlimit 0 1000 40960] (twoSizes 10 20 r) = some s ∧
    TakesLargest s 5 1000 none none false := by
  obtain ⟨r, hr, hp⟩ := Option.bind_eq_some_iff.mp
    (show (exec Refs.next created Refs.boot).bind (fun r =>
      (exec perform [.setMlimit 0 1000 40960] (twoSizes 10 20 r)).map fun s => decide (
        s.user ≠ 0 ∧ s.users.lookup (s.tasks.task 5).ns s.user = some 1 ∧
        (s.users.obj 1).memMax ≠ -1 ∧ s.tasks.ofUser s.user = [5, 6] ∧
        s.badness 5 none none 1000 5 = 10 ∧ s.badness 5 none none 1000 6 = 20 ∧
        s.tasks.pages 5 = 10 ∧ s.tasks.pages 6 = 20)) = some true by decide)
  obtain ⟨s, hs, hfacts⟩ := Option.map_eq_some_iff.mp hp
  obtain ⟨huser, hu, hmax, hof, hb₅, hb₆, hp₅, hp₆⟩ := of_decide_eq_true hfacts
  refine ⟨r, s, hr, hs, (takes_largest_iff s 5 1000 none none false 1 huser hu hmax).mpr
    (Or.inr ⟨[5], 6, [], hof, by rw [hb₆]; decide, fun q hq _ => ?_, fun q hq _ _ => ?_,
      fun q hq => absurd hq List.not_mem_nil⟩)⟩
  · rw [hof] at hq
    rcases List.mem_pair.mp hq with rfl | rfl
    · rw [hp₅, hp₆]
      decide
    · exact le_rfl
  · rw [List.mem_singleton.mp hq, hb₅, hb₆]
    decide

/-- Both processes score 1000, so the first is chosen, with a fifth of the pages of the other. -/
theorem smaller_taken : ∃ r s points s', exec Refs.next created Refs.boot = some r ∧
    exec perform [.setMlimit 0 1000 40960] (twoSizes 1000 5000 r) = some s ∧
    selectBadProcess s 5 1000 none none false = .ok (.task 5, points, s') ∧
    s.tasks.pages 5 = 1000 ∧ s.tasks.pages 6 = 5000 ∧
    ¬ TakesLargest s 5 1000 none none false := by
  obtain ⟨r, hr, hp⟩ := Option.bind_eq_some_iff.mp
    (show (exec Refs.next created Refs.boot).bind (fun r =>
      (exec perform [.setMlimit 0 1000 40960] (twoSizes 1000 5000 r)).bind fun s =>
        (selectBadProcess s 5 1000 none none false).toOption.map fun sel => decide (
          sel.1 = .task 5 ∧ s.tasks.pages 5 = 1000 ∧ s.tasks.pages 6 = 5000 ∧
          6 ∈ s.tasks.processes ∧ (s.tasks.task 6).uid = s.user ∧
          0 < s.badness 5 none none 1000 6)) = some true by decide)
  obtain ⟨s, hs, hp⟩ := Option.bind_eq_some_iff.mp hp
  obtain ⟨⟨sel, points, s'⟩, hsel, hfacts⟩ := Option.map_eq_some_iff.mp hp
  obtain ⟨htask, hp₅, hp₆, hmem, huid, hpos⟩ := of_decide_eq_true hfacts
  dsimp only at htask
  subst htask
  have hok := ok_of_toOption hsel
  refine ⟨r, s, points, s', hr, hs, hok, hp₅, hp₆, fun h => ?_⟩
  have hle := (h 5 points s' hok).2.2 6 hmem huid hpos
  rw [hp₅, hp₆] at hle
  exact absurd hle (by decide)

end AndroidKernel.Mlimit
