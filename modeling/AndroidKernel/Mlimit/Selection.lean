import AndroidKernel.Lib.Outcome
import AndroidKernel.Mlimit.Unpatched
import AndroidKernel.Mlimit.Limit

/-! When `select_bad_process` returns NULL, which `out_of_memory` answers with a panic. Without a
user in `user` the threads of the machine are scanned; with one, only the processes of that user
are, and none at all once the limit of that user is removed. -/

namespace AndroidKernel.Mlimit
open Lts Outcome
variable {w : Tasks} {us us' : Users} {current p : Tid} {memcg : Option Memcg}
  {nodemask : Option Nodemask} {totalpages : Long} {forceKill : Bool} {score : Tid → Long}

theorem oomBadness_congr (h : ∀ p, (us'.obj p).memMax = (us.obj p).memMax) (w : Tasks) :
    oomBadness us' w = oomBadness us w := by
  have hp : limitPoints us' w = limitPoints us w := by
    funext t totalpages
    simp only [limitPoints, h]
  unfold oomBadness
  rw [hp]

theorem better_fst_isSome {best : Best} (h : best.1.isSome = true) (p : Tid) :
    (better score best p).1.isSome = true := by
  unfold better
  split
  · rfl
  · exact h

theorem better_none (score : Tid → Long) (p : Tid) : better score (none, 0) p =
    if score p = 0 then (none, 0) else (some p, score p) := by
  unfold better
  by_cases h : score p = 0
  · rw [if_pos h, if_neg]
    rw [h]
    exact BitVec.lt_irrefl 0
  · rw [if_neg h, if_pos]
    change (0 : Long) < score p
    bv_omega

def takeUser (w : Tasks) (user : Uid) (score : Tid → Long) (best : Best) (p : Tid) : Best :=
  if (w.task p).uid = user then better score best p else best

theorem scanUser_eq_foldl (w : Tasks) (user : Uid) (score : Tid → Long) (ps : List Tid) :
    scanUser w user score ps = ps.foldl (takeUser w user score) (none, 0) := rfl

theorem foldl_takeUser_isSome {user : Uid} {ps : List Tid} {best : Best}
    (h : best.1.isSome = true) : (ps.foldl (takeUser w user score) best).1.isSome = true := by
  induction ps generalizing best with
  | nil => exact h
  | cons p ps ih =>
    apply ih
    unfold takeUser
    split
    · exact better_fst_isSome h p
    · exact h

theorem scanUser_eq_none {user : Uid} {ps : List Tid} :
    (scanUser w user score ps).1 = none ↔ ∀ p ∈ ps, (w.task p).uid = user → score p = 0 := by
  rw [scanUser_eq_foldl]
  induction ps with
  | nil => simp
  | cons p ps ih =>
    rw [List.foldl_cons, List.forall_mem_cons]
    by_cases hu : (w.task p).uid = user
    · rw [takeUser, if_pos hu, better_none]
      by_cases hz : score p = 0
      · rw [if_pos hz, ih]
        exact ⟨fun h => ⟨fun _ => hz, h⟩, fun h => h.2⟩
      · rw [if_neg hz]
        constructor
        · intro hn
          have hsome : ((some p, score p) : Best).1.isSome = true := rfl
          have hfold : (ps.foldl (takeUser w user score) (some p, score p)).1.isSome = true :=
            foldl_takeUser_isSome hsome
          rw [hn] at hfold
          cases hfold
        · intro h
          exact absurd (h.1 hu) hz
    · rw [takeUser, if_neg hu, ih]
      exact ⟨fun h => ⟨fun h' => absurd h' hu, h⟩, fun h => h.2⟩

def stopsScan (w : Tasks) (current : Tid) (forceKill : Bool) (p : Tid) : Bool :=
  let t := w.task p
  !forceKill && (t.memdie || (t.mm.isSome && t.exiting && p != current && !t.traceExit))

def scores (w : Tasks) (current : Tid) (score : Tid → Long) (p : Tid) : Bool :=
  let t := w.task p
  t.mm.isSome && (score p != 0 || (t.exiting && p == current))

def visited (w : Tasks) (current : Tid) (memcg : Option Memcg) (nodemask : Option Nodemask)
    (p : Tid) : Bool :=
  !(w.task p).exitState && !oomUnkillableTask w current p memcg nodemask

def takeThread (w : Tasks) (current : Tid) (score : Tid → Long) (best : Best) (p : Tid) : Best :=
  if (w.task p).mm.isNone then best
  else better score (if (w.task p).exiting && p == current then (some p, 1000) else best) p

theorem scanThreads_cons {ps : List Tid} {best : Best} :
    scanThreads w current memcg nodemask forceKill score (p :: ps) best =
      if visited w current memcg nodemask p then
        if stopsScan w current forceKill p then none
        else scanThreads w current memcg nodemask forceKill score ps
          (takeThread w current score best p)
      else scanThreads w current memcg nodemask forceKill score ps best := by
  by_cases hv : visited w current memcg nodemask p = true
  · have hskip : ((w.task p).exitState || oomUnkillableTask w current p memcg nodemask) =
        false := by
      simpa [visited] using hv
    rw [if_pos hv, scanThreads, hskip, if_neg Bool.false_ne_true]
    unfold stopsScan takeThread
    cases hmm : (w.task p).mm with
    | none => cases hd : (w.task p).memdie <;> cases forceKill <;> simp [hmm, hd]
    | some q => cases hd : (w.task p).memdie <;> cases forceKill <;> simp [hmm, hd]
  · have hskip : ((w.task p).exitState || oomUnkillableTask w current p memcg nodemask) =
        true := by
      simpa [visited, imp_iff_not_or] using hv
    rw [if_neg hv, scanThreads, hskip, if_pos rfl]

theorem takeThread_isSome {best : Best} (h : best.1.isSome = true) (p : Tid) :
    (takeThread w current score best p).1.isSome = true := by
  unfold takeThread
  split
  · exact h
  · apply better_fst_isSome
    split
    · rfl
    · exact h

theorem takeThread_of_scores (h : scores w current score p = true) :
    (takeThread w current score (none, 0) p).1.isSome = true := by
  unfold scores at h
  unfold takeThread
  rw [Bool.and_eq_true, Bool.or_eq_true] at h
  obtain ⟨hmm, hscore⟩ := h
  rw [if_neg (by simpa [Option.isSome_iff_ne_none] using hmm)]
  split
  · exact better_fst_isSome rfl p
  · rename_i hcur
    have hne : score p ≠ 0 := by
      simpa [hcur] using hscore
    rw [better_none, if_neg hne]
    rfl

theorem takeThread_of_not_scores (h : scores w current score p = false) :
    takeThread w current score (none, 0) p = (none, 0) := by
  unfold scores at h
  unfold takeThread
  split
  · rfl
  · rename_i hmm
    have hsome : (w.task p).mm.isSome = true := by
      simpa [Option.isSome_iff_ne_none] using hmm
    dsimp only at h
    rw [hsome, Bool.true_and, Bool.or_eq_false_iff] at h
    rw [h.2, if_neg Bool.false_ne_true, better_none, if_pos (by simpa using h.1)]

theorem scanThreads_isSome {ps : List Tid} {best r : Best} (h : best.1.isSome = true)
    (hr : scanThreads w current memcg nodemask forceKill score ps best = some r) :
    r.1.isSome = true := by
  induction ps generalizing best with
  | nil =>
    obtain rfl := Option.some_inj.mp hr
    exact h
  | cons p ps ih =>
    rw [scanThreads_cons] at hr
    split at hr
    · split at hr
      · cases hr
      · exact ih (takeThread_isSome h p) hr
    · exact ih h hr

theorem scanThreads_eq_none {ps : List Tid} :
    (∃ r, scanThreads w current memcg nodemask forceKill score ps (none, 0) = some r ∧
      r.1 = none) ↔
    ∀ p ∈ ps, visited w current memcg nodemask p = true →
      stopsScan w current forceKill p = false ∧ scores w current score p = false := by
  induction ps with
  | nil => simp [scanThreads]
  | cons p ps ih =>
    rw [List.forall_mem_cons, scanThreads_cons]
    by_cases hv : visited w current memcg nodemask p = true
    · rw [if_pos hv]
      simp only [hv, forall_const]
      by_cases hstop : stopsScan w current forceKill p = true
      · simp [hstop]
      rw [if_neg hstop]
      rw [Bool.not_eq_true] at hstop
      by_cases hs : scores w current score p = true
      · constructor
        · rintro ⟨r, hr, hn⟩
          have hsome := scanThreads_isSome (takeThread_of_scores hs) hr
          rw [hn] at hsome
          cases hsome
        · rintro ⟨⟨-, hno⟩, -⟩
          rw [hs] at hno
          cases hno
      · rw [Bool.not_eq_true] at hs
        rw [takeThread_of_not_scores hs, ih]
        exact ⟨fun h => ⟨⟨hstop, hs⟩, h⟩, fun h => h.2⟩
    · rw [if_neg hv, ih]
      exact ⟨fun h => ⟨fun h' => absurd h' hv, h⟩, fun h => h.2⟩

/-- No live thread of the machine can be killed. -/
def NothingKillable (s : Sys) (current : Tid) (totalpages : Long) (memcg : Option Memcg)
    (nodemask : Option Nodemask) : Prop :=
  ∀ t ∈ s.tasks.threads, (s.tasks.task t).exitState = false →
    oomBadness s.users s.tasks current t memcg nodemask totalpages = 0

/-- What there is to return when `find_user` answers this: a user that is not found is a NULL
pointer. -/
def OffersOf (s : Sys) (current : Tid) (totalpages : Long) (memcg : Option Memcg)
    (nodemask : Option Nodemask) : Option UserPtr → Prop
  | none => True
  | some u => (s.users.obj u).memMax ≠ -1 ∧ ∃ p ∈ s.tasks.processes,
    (s.tasks.task p).uid = s.user ∧
      oomBadness s.users s.tasks current p memcg nodemask totalpages ≠ 0

/-- There is something for `select_bad_process` to return. Without a user in `user` it is a thread
with memory of its own that scores or is dying already. With one, it is a process of that user
that scores, if the limit has not been removed. -/
def Offers (s : Sys) (current : Tid) (totalpages : Long) (memcg : Option Memcg)
    (nodemask : Option Nodemask) (forceKill : Bool) : Prop :=
  if s.user = 0 then
    ∃ p ∈ s.tasks.threads, visited s.tasks current memcg nodemask p = true ∧
      (stopsScan s.tasks current forceKill p = true ∨ scores s.tasks current
        (fun p => oomBadness s.users s.tasks current p memcg nodemask totalpages) p = true)
  else OffersOf s current totalpages memcg nodemask
    (s.users.lookup (s.tasks.task current).ns s.user)

variable {s s' : Sys} {env : OomEnv}

theorem Selected.ofOption_eq_null {o : Option Tid} : Selected.ofOption o = .null ↔ o = none := by
  cases o with
  | none => simp [Selected.ofOption]
  | some p => simp [Selected.ofOption]

theorem selectBadProcess_null :
    (∃ points s', selectBadProcess s current totalpages memcg nodemask forceKill =
      .ok (.null, points, s')) ↔ ¬ Offers s current totalpages memcg nodemask forceKill := by
  unfold selectBadProcess Offers
  by_cases hu : s.user = 0
  · simp only [hu, ne_eq, not_true_eq_false, if_false, if_true]
    have hright : (¬ ∃ p ∈ s.tasks.threads, visited s.tasks current memcg nodemask p = true ∧
        (stopsScan s.tasks current forceKill p = true ∨ scores s.tasks current
          (fun p => oomBadness s.users s.tasks current p memcg nodemask totalpages) p = true)) ↔
        ∀ p ∈ s.tasks.threads, visited s.tasks current memcg nodemask p = true →
          stopsScan s.tasks current forceKill p = false ∧ scores s.tasks current
            (fun p => oomBadness s.users s.tasks current p memcg nodemask totalpages) p =
              false := by
      simp [not_or]
    rw [hright, ← scanThreads_eq_none]
    cases hr : scanThreads s.tasks current memcg nodemask forceKill
        (fun p => oomBadness s.users s.tasks current p memcg nodemask totalpages)
        s.tasks.threads (none, 0) with
    | none => simp
    | some best => simp [Selected.ofOption_eq_null]
  · simp only [ne_eq, hu, not_false_eq_true, if_true, if_false, findUser]
    cases hl : s.users.lookup (s.tasks.task current).ns s.user with
    | none => simp [OffersOf]
    | some u =>
      have hbad : oomBadness (s.users.get u) s.tasks = oomBadness s.users s.tasks :=
        oomBadness_congr (Refs.get_memMax s.users u) s.tasks
      simp only [hbad, Refs.get_memMax, OffersOf]
      by_cases hm : (s.users.obj u).memMax = -1
      · simp [hm]
      · simp only [ne_eq, hm, not_false_eq_true, if_true, true_and, Except.ok.injEq, Prod.mk.injEq,
          exists_and_left, exists_eq', and_true, Selected.ofOption_eq_null, scanUser_eq_none]
        simp

theorem debitIf_error {guard : Bool} {e : Halt} (h : debitIf guard s p = .error e) :
    e = .oops := by
  unfold debitIf debit at h
  split at h
  · split at h
    · exact (Except.error.inj h).symm
    · cases h
  · cases h

theorem checkPanicOnOom_error {c : Constraint} {e : Halt} (h : checkPanicOnOom env c = .error e) :
    e = .panicOnOom := by
  unfold checkPanicOnOom at h
  split at h
  · cases h
  · split at h
    · cases h
    · exact (Except.error.inj h).symm

theorem selectBadProcess_error {e : Halt}
    (h : selectBadProcess s current totalpages memcg nodemask forceKill = .error e) :
    e = .oops := by
  unfold selectBadProcess at h
  split at h
  · split at h
    · exact (Except.error.inj h).symm
    · split at h
      · cases h
      · cases h
  · split at h
    · cases h
    · cases h

/-- The panic for want of a process comes from a NULL of `select_bad_process`. -/
theorem outOfMemory_noKillable (h : outOfMemory s current env = .error .noKillable) :
    ∃ points s', selectBadProcess s current env.totalpages none (mpolMask env) env.forceKill =
      .ok (.null, points, s') := by
  unfold outOfMemory at h
  split at h
  · cases h
  · split at h
    · cases h
    · rcases error_of_bind h with h | ⟨-, -, h⟩
      · cases checkPanicOnOom_error h
      · split at h
        · cases debitIf_error h
        · rcases error_of_bind h with h | ⟨⟨sel, points, s'⟩, hsel, h⟩
          · cases selectBadProcess_error h
          · cases sel with
            | null => exact ⟨points, s', hsel⟩
            | err => cases h
            | task p =>
              rcases error_of_bind h with h | ⟨s', -, h⟩
              · cases debitIf_error h
              · cases h

/-- `select_bad_process` returns NULL only when nothing can be killed exactly in the states in
which nothing can be killed or there is something for it to return, and in these states
`out_of_memory` only panics for want of a process when there is none. -/
theorem null_only_if_nothing_iff (s : Sys) (current : Tid) :
    (∀ totalpages memcg nodemask forceKill,
      ((∃ points s', selectBadProcess s current totalpages memcg nodemask forceKill =
          .ok (.null, points, s')) → NothingKillable s current totalpages memcg nodemask) ↔
        (NothingKillable s current totalpages memcg nodemask ∨
          Offers s current totalpages memcg nodemask forceKill)) ∧
    ∀ env, (NothingKillable s current env.totalpages none (mpolMask env) ∨
        Offers s current env.totalpages none (mpolMask env) env.forceKill) →
      outOfMemory s current env = .error .noKillable →
        NothingKillable s current env.totalpages none (mpolMask env) := by
  constructor
  · intro totalpages memcg nodemask forceKill
    rw [selectBadProcess_null]
    tauto
  · intro env hor h
    have hnull := selectBadProcess_null.mp (outOfMemory_noKillable h)
    exact hor.resolve_right hnull

instance (s : Sys) (current : Tid) (totalpages : Long) (memcg : Option Memcg)
    (nodemask : Option Nodemask) :
    ∀ o, Decidable (OffersOf s current totalpages memcg nodemask o)
  | none => inferInstanceAs (Decidable True)
  | some u => inferInstanceAs (Decidable ((s.users.obj u).memMax ≠ -1 ∧
    ∃ p ∈ s.tasks.processes, (s.tasks.task p).uid = s.user ∧
      oomBadness s.users s.tasks current p memcg nodemask totalpages ≠ 0))

instance (s : Sys) (current : Tid) (totalpages : Long) (memcg : Option Memcg)
    (nodemask : Option Nodemask) (forceKill : Bool) :
    Decidable (Offers s current totalpages memcg nodemask forceKill) :=
  inferInstanceAs (Decidable (if s.user = 0 then _ else _))

def halted {α : Type} : Except Halt α → Option Halt
  | .error e => some e
  | .ok _ => none

def oneProcess (r : Refs.State Unit) : Sys := ⟨r.users, r.user, r.start, oneTask, []⟩

def plainOom : OomEnv where
  freed := 0
  constraint := .none
  totalpages := 1000
  nodemask := none
  forceKill := false
  panicOnOom := 0
  killAllocatingTask := false

theorem null_only_if_nothing_limited : ∃ r s, exec Refs.next created Refs.boot = some r ∧
    exec perform [.setMlimit 0 1000 40960] (oneProcess r) = some s ∧
    Offers s 5 1000 none none false ∧
    ((∃ points s', selectBadProcess s 5 1000 none none false = .ok (.null, points, s')) →
      NothingKillable s 5 1000 none none) := by
  obtain ⟨r, hr, hp⟩ := Option.bind_eq_some_iff.mp
    (show (exec Refs.next created Refs.boot).bind (fun r =>
      (exec perform [.setMlimit 0 1000 40960] (oneProcess r)).map fun s =>
        decide (Offers s 5 1000 none none false)) = some true by decide)
  obtain ⟨s, hs, ho⟩ := Option.map_eq_some_iff.mp hp
  have hoffers := of_decide_eq_true ho
  exact ⟨r, s, hr, hs, hoffers,
    ((null_only_if_nothing_iff s 5).1 1000 none none false).mpr (Or.inr hoffers)⟩

/-- Removing the limit of a user whose process can be killed makes the next shortage of memory a
panic. -/
theorem panic_after_limit_removed : ∃ r s, exec Refs.next created Refs.boot = some r ∧
    exec perform [.setMlimit 0 1000 (-1)] (oneProcess r) = some s ∧
    (selectBadProcess s 5 1000 none none false).toOption.map Prod.fst = some .null ∧
    halted (outOfMemory s 5 plainOom) = some .noKillable ∧
    5 ∈ s.tasks.threads ∧ (s.tasks.task 5).exitState = false ∧
    oomBadness s.users s.tasks 5 5 none none 1000 = 10 := by
  obtain ⟨r, hr, hp⟩ := Option.bind_eq_some_iff.mp
    (show (exec Refs.next created Refs.boot).bind (fun r =>
      (exec perform [.setMlimit 0 1000 (-1)] (oneProcess r)).map fun s => decide (
        (selectBadProcess s 5 1000 none none false).toOption.map Prod.fst = some .null ∧
        halted (outOfMemory s 5 plainOom) = some .noKillable ∧
        5 ∈ s.tasks.threads ∧ (s.tasks.task 5).exitState = false ∧
        oomBadness s.users s.tasks 5 5 none none 1000 = 10)) = some true by decide)
  obtain ⟨s, hs, hfacts⟩ := Option.map_eq_some_iff.mp hp
  exact ⟨r, s, hr, hs, of_decide_eq_true hfacts⟩

end AndroidKernel.Mlimit
