import AndroidKernel.Mlimit.Arithmetic
import AndroidKernel.Mlimit.Largest

/-! Where the limit code follows a NULL pointer. `find_user` answers NULL for a uid without a
`user_struct`, which neither `set_mlimit` nor `select_bad_process` expects, and a process whose
leader has given up its memory is judged by a thread of it while `p->mm` is what the callers
read. -/

namespace AndroidKernel.Mlimit
open Lts Outcome Leader
variable {s s' r : Sys} {w : Tasks} {current p : Tid} {memcg : Option Memcg}
  {nodemask : Option Nodemask} {totalpages points : Long} {forceKill : Bool} {env : OomEnv}

theorem better_fst {score : Tid → Long} {best : Best} {q : Tid}
    (h : (better score best p).1 = some q) : q = p ∨ best.1 = some q := by
  unfold better at h
  split at h
  · exact Or.inl (Option.some_inj.mp h).symm
  · exact Or.inr h

theorem takeThread_mapped {score : Tid → Long} {best : Best}
    (h : ∀ q, best.1 = some q → (w.task q).mm.isSome = true) (p q : Tid)
    (hq : (takeThread w current score best p).1 = some q) : (w.task q).mm.isSome = true := by
  unfold takeThread at hq
  split at hq
  · exact h q hq
  · rename_i hmm
    have hp : (w.task p).mm.isSome = true := by
      simpa [Option.isSome_iff_ne_none] using hmm
    rcases better_fst hq with rfl | hbest
    · exact hp
    · split at hbest
      · obtain rfl := Option.some_inj.mp hbest
        exact hp
      · exact h q hbest

theorem scanThreads_mapped {score : Tid → Long} {ps : List Tid} {best best' : Best}
    (h : ∀ q, best.1 = some q → (w.task q).mm.isSome = true)
    (hs : scanThreads w current memcg nodemask forceKill score ps best = some best') (q : Tid)
    (hq : best'.1 = some q) : (w.task q).mm.isSome = true := by
  induction ps generalizing best with
  | nil =>
    obtain rfl := Option.some_inj.mp hs
    exact h q hq
  | cons p ps ih =>
    rw [scanThreads_cons] at hs
    split at hs
    · split at hs
      · cases hs
      · exact ih (takeThread_mapped h p) hs
    · exact ih h hs

theorem selected_mapped_of_root (huser : s.user = 0)
    (h : selectBadProcess s current totalpages memcg nodemask forceKill =
      .ok (.task p, points, r)) : (s.tasks.task p).mm.isSome = true := by
  unfold selectBadProcess at h
  rw [if_neg fun hne => hne huser] at h
  split at h
  · cases h
  · rename_i best hscan
    have hsel : Selected.ofOption best.1 = .task p := congrArg Prod.fst (Except.ok.inj h)
    exact scanThreads_mapped (fun q hq => by cases hq) hscan p (Selected.ofOption_eq_task.mp hsel)

theorem selectBadProcess_oops :
    selectBadProcess s current totalpages memcg nodemask forceKill = .error .oops ↔
      s.user ≠ 0 ∧ s.users.lookup (s.tasks.task current).ns s.user = none := by
  unfold selectBadProcess findUser
  by_cases huser : s.user = 0
  · rw [if_neg fun hne => hne huser]
    refine iff_of_false ?_ fun h => h.1 huser
    split
    · exact fun h => by cases h
    · exact fun h => by cases h
  · rw [if_pos huser]
    cases hl : s.users.lookup (s.tasks.task current).ns s.user with
    | none => exact iff_of_true rfl ⟨huser, rfl⟩
    | some u =>
      refine iff_of_false ?_ (by simp)
      dsimp only
      split
      · exact fun h => by cases h
      · exact fun h => by cases h

theorem selected_of_user (huser : s.user ≠ 0) :
    (∃ points r, selectBadProcess s current totalpages memcg nodemask forceKill =
      .ok (.task p, points, r)) ↔
    ∃ u, s.users.lookup (s.tasks.task current).ns s.user = some u ∧
      (s.users.obj u).memMax ≠ -1 ∧
      Leads (s.badness current memcg nodemask totalpages) (s.tasks.ofUser s.user) p ∧
      0 < s.badness current memcg nodemask totalpages p := by
  cases hl : s.users.lookup (s.tasks.task current).ns s.user with
  | none =>
    have hoops : selectBadProcess s current totalpages memcg nodemask forceKill = .error .oops :=
      selectBadProcess_oops.mpr ⟨huser, hl⟩
    simp [hoops]
  | some u =>
    by_cases hmax : (s.users.obj u).memMax = -1
    · have hnull : selectBadProcess s current totalpages memcg nodemask forceKill =
          .ok (.null, 0, { s with users := s.users.get u }) := by
        unfold selectBadProcess findUser
        simp only [if_pos huser, hl, Refs.get_memMax, hmax, ne_eq, not_true_eq_false, if_false]
      simp [hnull, hmax]
    · rw [selectBadProcess_limited huser hl hmax]
      constructor
      · intro h
        exact ⟨u, rfl, hmax, h⟩
      · rintro ⟨v, hv, -, h⟩
        exact h

/-- The selection has a user to look at, and the leader among the processes of a limited user has
an address space of its own. -/
def MappedChoice (s : Sys) (current : Tid) (totalpages : Long) (memcg : Option Memcg)
    (nodemask : Option Nodemask) : Prop :=
  s.user = 0 ∨ ∃ u, s.users.lookup (s.tasks.task current).ns s.user = some u ∧
    ((s.users.obj u).memMax ≠ -1 → ∀ p,
      Leads (s.badness current memcg nodemask totalpages) (s.tasks.ofUser s.user) p →
        0 < s.badness current memcg nodemask totalpages p → (s.tasks.task p).mm.isSome = true)

/-- A NULL pointer is followed in the selection, or a process without memory is selected, exactly
if the choice is not a mapped one. -/
theorem not_mappedChoice_iff (s : Sys) (current : Tid) (totalpages : Long) (memcg : Option Memcg)
    (nodemask : Option Nodemask) (forceKill : Bool) :
    ¬ MappedChoice s current totalpages memcg nodemask ↔
      selectBadProcess s current totalpages memcg nodemask forceKill = .error .oops ∨
      ∃ p points r, selectBadProcess s current totalpages memcg nodemask forceKill =
        .ok (.task p, points, r) ∧ (s.tasks.task p).mm.isNone = true := by
  constructor
  · intro h
    unfold MappedChoice at h
    push Not at h
    obtain ⟨huser, hchoice⟩ := h
    cases hl : s.users.lookup (s.tasks.task current).ns s.user with
    | none => exact Or.inl (selectBadProcess_oops.mpr ⟨huser, hl⟩)
    | some u =>
      obtain ⟨hmax, p, hp, hpos, hmm⟩ := hchoice u hl
      obtain ⟨points, r, hok⟩ := (selected_of_user huser).mpr ⟨u, hl, hmax, hp, hpos⟩
      exact Or.inr ⟨p, points, r, hok, by simpa using hmm⟩
  · intro h hchoice
    rcases h with hoops | ⟨p, points, r, hok, hmm⟩
    · obtain ⟨huser, hnone⟩ := selectBadProcess_oops.mp hoops
      obtain ⟨u, hu, -⟩ := hchoice.resolve_left huser
      rw [hnone] at hu
      cases hu
    · have hsome : (s.tasks.task p).mm.isSome = true := by
        rcases hchoice with hroot | ⟨u, hu, hmapped⟩
        · exact selected_mapped_of_root hroot hok
        · by_cases hroot : s.user = 0
          · exact selected_mapped_of_root hroot hok
          · obtain ⟨v, hv, hmax, hp, hpos⟩ := (selected_of_user hroot).mp ⟨points, r, hok⟩
            obtain rfl := Option.some_inj.mp (hu.symm.trans hv)
            exact hmapped hmax p hp hpos
      rw [Option.isNone_iff_eq_none.mp hmm] at hsome
      cases hsome

theorem debit_oops : debit s p = .error .oops ↔ (s.tasks.task p).mm.isNone = true := by
  unfold debit
  split
  · rename_i hmm
    exact iff_of_true rfl hmm
  · rename_i hmm
    exact iff_of_false (fun h => by cases h) hmm

theorem debitIf_oops {guard : Bool} :
    debitIf guard s p = .error .oops ↔ guard = true ∧ (s.tasks.task p).mm.isNone = true := by
  unfold debitIf
  cases guard with
  | false => simp
  | true => simp [debit_oops]

theorem selection_oops_iff {rest : Selected × Long × Sys → Except Halt Sys}
    (hnull : ∀ points r, rest (.null, points, r) ≠ .error .oops)
    (herr : ∀ points r, rest (.err, points, r) ≠ .error .oops)
    (htask : ∀ p points r, selectBadProcess s current totalpages memcg nodemask forceKill =
      .ok (.task p, points, r) →
        (rest (.task p, points, r) = .error .oops ↔ (s.tasks.task p).mm.isNone = true)) :
    (selectBadProcess s current totalpages memcg nodemask forceKill >>= rest) = .error .oops ↔
      ¬ MappedChoice s current totalpages memcg nodemask := by
  rw [bind_eq_error_iff, not_mappedChoice_iff s current totalpages memcg nodemask forceKill]
  refine or_congr Iff.rfl ⟨?_, ?_⟩
  · rintro ⟨⟨sel, points, r⟩, hsel, h⟩
    cases sel with
    | null => exact absurd h (hnull points r)
    | err => exact absurd h (herr points r)
    | task p => exact ⟨p, points, r, hsel, (htask p points r hsel).mp h⟩
  · rintro ⟨p, points, r, hsel, hmm⟩
    exact ⟨_, hsel, (htask p points r hsel).mpr hmm⟩

def Exits (s : Sys) (current : Tid) (env : OomEnv) : Prop :=
  0 < env.freed ∨ s.fatalSignalPending current = true ∨
    checkPanicOnOom env env.constraint = .error .panicOnOom ∨ killsCurrent s current env = true

theorem selected_uid (hok : selectBadProcess s current totalpages memcg nodemask forceKill =
      .ok (.task p, points, r)) (hmm : (s.tasks.task p).mm.isNone = true) :
    (s.tasks.task p).uid = s.user := by
  have huser : s.user ≠ 0 := by
    intro hroot
    have hsome := selected_mapped_of_root hroot hok
    rw [Option.isNone_iff_eq_none.mp hmm] at hsome
    cases hsome
  obtain ⟨-, -, -, hp, -⟩ := (selected_of_user huser).mp ⟨points, r, hok⟩
  exact (mem_ofUser.mp hp.mem).2

theorem debit_current_ne_oops (hk : killsCurrent s current env = true) (guard : Bool) :
    debitIf guard (oomKillProcess s current current none env.nodemask env.totalpages) current ≠
      .error .oops := by
  intro h
  have hsame : ((oomKillProcess s current current none env.nodemask
      env.totalpages).tasks.task current).mm = (s.tasks.task current).mm :=
    within_oomKillProcess.tasks.mm current
  have hnone := (debitIf_oops.mp h).2
  rw [hsame] at hnone
  have hsome : (s.tasks.task current).mm.isSome = true := by
    simp only [killsCurrent, Bool.and_eq_true] at hk
    exact hk.2
  rw [Option.isNone_iff_eq_none.mp hnone] at hsome
  cases hsome

theorem outOfMemory_of_exits (hx : Exits s current env) :
    outOfMemory s current env ≠ .error .oops := by
  intro h
  unfold outOfMemory at h
  split at h
  · cases h
  rename_i hf
  split at h
  · cases h
  rename_i hs
  rcases error_of_bind h with h | ⟨u, hc, h⟩
  · cases checkPanicOnOom_error h
  have hk : killsCurrent s current env = true := by
    rcases hx with h' | h' | h' | h'
    · exact absurd h' hf
    · exact absurd h' hs
    · rw [hc] at h'
      cases h'
    · exact h'
  rw [if_pos hk] at h
  exact debit_current_ne_oops hk _ h

theorem outOfMemory_of_selection (hno : ¬ Exits s current env) : outOfMemory s current env =
    selectBadProcess s current env.totalpages none (mpolMask env) env.forceKill >>= fun
      | (.null, _, _) => .error .noKillable
      | (.err, _, s') => .ok s'
      | (.task p, _, s') => debitIf ((s'.tasks.task p).uid = s'.user) s' p >>= fun s' =>
        .ok (oomKillProcess s' current p none env.nodemask env.totalpages) := by
  unfold Exits at hno
  push Not at hno
  obtain ⟨hf, hs, hc, hk⟩ := hno
  have hc' : checkPanicOnOom env env.constraint = .ok () := by
    cases hcheck : checkPanicOnOom env env.constraint with
    | error e =>
      rw [checkPanicOnOom_error hcheck] at hcheck
      exact absurd hcheck hc
    | ok u => rfl
  unfold outOfMemory
  rw [if_neg hf, if_neg hs, hc']
  exact if_neg hk

theorem outOfMemory_ne_oops_iff (s : Sys) (current : Tid) (env : OomEnv) :
    outOfMemory s current env ≠ .error .oops ↔
      Exits s current env ∨ MappedChoice s current env.totalpages none (mpolMask env) := by
  by_cases hx : Exits s current env
  · exact iff_of_true (outOfMemory_of_exits hx) (Or.inl hx)
  rw [outOfMemory_of_selection hx, Ne, selection_oops_iff, not_not, or_iff_right hx]
  · exact fun _ _ h => by cases h
  · exact fun _ _ h => by cases h
  · intro p points r hok
    have hguard : (s.tasks.task p).mm.isNone = true → (r.tasks.task p).uid = r.user := by
      intro hmm
      rw [selectBadProcess_tasks hok, (within_selectBadProcess hok).user]
      exact selected_uid hok hmm
    constructor
    · intro h
      rcases error_of_bind h with h | ⟨r', -, h⟩
      · have hmm := (debitIf_oops.mp h).2
        rw [selectBadProcess_tasks hok] at hmm
        exact hmm
      · cases h
    · intro hmm
      refine bind_eq_error_iff.mpr (Or.inl (debitIf_oops.mpr ⟨decide_eq_true (hguard hmm), ?_⟩))
      rw [selectBadProcess_tasks hok]
      exact hmm

theorem memCgroupOutOfMemory_ne_oops_iff (s : Sys) (current : Tid) (memcg : Memcg) (limit : Long)
    (env : OomEnv) :
    memCgroupOutOfMemory s current memcg limit env ≠ .error .oops ↔
      s.fatalSignalPending current = true ∨ checkPanicOnOom env .memcg = .error .panicOnOom ∨
        MappedChoice s current limit (some memcg) none := by
  unfold memCgroupOutOfMemory
  by_cases hs : s.fatalSignalPending current = true
  · rw [if_pos hs]
    exact iff_of_true (fun h => by cases h) (Or.inl hs)
  rw [if_neg hs, or_iff_right hs]
  cases hc : checkPanicOnOom env .memcg with
  | error e =>
    obtain rfl := checkPanicOnOom_error hc
    exact iff_of_true (fun h => by cases h) (Or.inl rfl)
  | ok u =>
    rw [or_iff_right (fun h => by cases h), ← not_iff_not, Ne, not_not]
    refine selection_oops_iff (fun _ _ h => by cases h) (fun _ _ h => by cases h) ?_
    intro p points r hok
    rw [← selectBadProcess_tasks hok, ← debit_oops]
    constructor
    · intro h
      rcases error_of_bind h with h | ⟨r', -, h⟩
      · exact h
      · cases h
    · intro h
      exact bind_eq_error_iff.mpr (Or.inl h)

/-- A call of `set_mlimit` follows no NULL pointer, and answers a uid without a user with an error
that leaves everything as it was. -/
def SetsSafely (s : Sys) (ns : Ns) (uid : Uid) (m : Long) : Prop :=
  setMlimit s ns uid m ≠ .error .oops ∧ (s.users.lookup ns uid = none →
    ∃ ret : Long, ret.toInt < 0 ∧ setMlimit s ns uid m = .ok (s, ret))

theorem setMlimit_of_unknown {ns : Ns} {uid : Uid} (h : s.users.lookup ns uid = none) (m : Long) :
    setMlimit s ns uid m = .error .oops := by
  unfold setMlimit findUser
  rw [h]

theorem setMlimit_error {ns : Ns} {uid : Uid} {m : Long} {e : Halt}
    (h : setMlimit s ns uid m = .error e) : e = .oops := by
  unfold setMlimit at h
  split at h
  · exact (Except.error.inj h).symm
  · split at h
    · exact (Except.error.inj h).symm
    · cases h

theorem setsSafely_iff (s : Sys) (ns : Ns) (uid : Uid) (m : Long) :
    SetsSafely s ns uid m ↔
      (s.users.lookup ns uid).isSome = true ∧ AllMapped s.tasks uid s.tasks.processes := by
  cases hl : s.users.lookup ns uid with
  | none =>
    refine iff_of_false (fun h => ?_) (by simp)
    exact h.1 (setMlimit_of_unknown hl m)
  | some u =>
    constructor
    · intro h
      refine ⟨rfl, ?_⟩
      cases hset : setMlimit s ns uid m with
      | error e =>
        obtain rfl := setMlimit_error hset
        exact absurd hset h.1
      | ok a => exact ((setMlimit_eq_ok_iff hl).mp hset).1
    · rintro ⟨-, hall⟩
      refine ⟨fun h => ?_, fun h => ?_⟩
      · rw [(setMlimit_eq_ok_iff hl).mpr ⟨hall, rfl, rfl⟩] at h
        cases h
      · rw [hl] at h
        cases h

/-- Exactly when the four places of the limit code follow no NULL pointer. -/
theorem null_pointers_iff (s : Sys) :
    (∀ ns uid m, SetsSafely s ns uid m ↔
      (s.users.lookup ns uid).isSome = true ∧ AllMapped s.tasks uid s.tasks.processes) ∧
    (∀ current totalpages memcg nodemask forceKill,
      selectBadProcess s current totalpages memcg nodemask forceKill ≠ .error .oops ↔
        s.user = 0 ∨ (s.users.lookup (s.tasks.task current).ns s.user).isSome = true) ∧
    (∀ current env, outOfMemory s current env ≠ .error .oops ↔
      Exits s current env ∨ MappedChoice s current env.totalpages none (mpolMask env)) ∧
    ∀ current memcg limit env, memCgroupOutOfMemory s current memcg limit env ≠ .error .oops ↔
      s.fatalSignalPending current = true ∨ checkPanicOnOom env .memcg = .error .panicOnOom ∨
        MappedChoice s current limit (some memcg) none := by
  refine ⟨setsSafely_iff s, fun current totalpages memcg nodemask forceKill => ?_,
    outOfMemory_ne_oops_iff s, memCgroupOutOfMemory_ne_oops_iff s⟩
  rw [Ne, selectBadProcess_oops, not_and_or, not_not, ← Ne, Option.ne_none_iff_isSome]

def leaderGone : Tasks :=
  { plainTasks [5] (fun p => if p = 5 then { plainTask 5 1000 1 with mm := none }
      else { plainTask p 1000 1 with tgid := 5 }) fun _ => 10 with
    siblings := fun p => if p = 5 then [6] else [5] }

theorem error_of_halted {α : Type} {x : Except Halt α} {e : Halt} (h : halted x = some e) :
    x = .error e := by
  cases x with
  | error e' => exact congrArg Except.error (Option.some_inj.mp h)
  | ok a => cases h

/-- `set_mlimit` for a uid without a user follows a NULL pointer, and `out_of_memory` does once the
process that it selects has only a thread with memory left. -/
theorem null_followed : ∃ r s, exec Refs.next created Refs.boot = some r ∧
    setMlimit (processesOf [5] r) 0 1001 40960 = .error .oops ∧
    exec perform [.setMlimit 0 1000 40960, .others leaderGone] (processesOf [5] r) = some s ∧
    outOfMemory s 6 plainOom = .error .oops := by
  obtain ⟨r, hr, hp⟩ := Option.bind_eq_some_iff.mp
    (show (exec Refs.next created Refs.boot).bind (fun r =>
      (exec perform [.setMlimit 0 1000 40960, .others leaderGone] (processesOf [5] r)).map fun s =>
        decide (halted (setMlimit (processesOf [5] r) 0 1001 40960) = some .oops ∧
          halted (outOfMemory s 6 plainOom) = some .oops)) = some true by decide)
  obtain ⟨s, hs, hfacts⟩ := Option.map_eq_some_iff.mp hp
  obtain ⟨hset, hoom⟩ := of_decide_eq_true hfacts
  exact ⟨r, s, hr, error_of_halted hset, hs, error_of_halted hoom⟩

end AndroidKernel.Mlimit
