import AndroidKernel.Lib.Words
import AndroidKernel.Mlimit.Effect

/-! What a request that passes the limit check costs. The check charges the user whose uid is in
`user` once for each of its processes, whoever makes the request. -/

namespace AndroidKernel.Mlimit
open Lts Outcome
variable {s s' : Sys} {e : AllocEnv} {u v : UserPtr}

def Event.isOver : Event → Bool
  | .over _ => true
  | .compare .. | .charge .. | .debit .. | .kill .. => false

def Sys.overs (s : Sys) : ℕ := s.log.countP Event.isOver

theorem Within.overs_le (h : Within s s') : s.overs ≤ s'.overs := h.log.countP_le

theorem overs_emit (s : Sys) (ev : Event) :
    (s.emit ev).overs = s.overs + if ev.isOver then 1 else 0 := List.countP_cons

theorem required_eq (order : ℕ) : required order = BitVec.ofNat 32 (2 ^ order * 4096) := by
  apply BitVec.eq_of_toNat_eq
  have hshift : ((1 : Long) <<< order).toNat = 2 ^ order % 2 ^ 32 := by
    rw [BitVec.toNat_shiftLeft, show (1 : Long).toNat = 1 from rfl, Nat.shiftLeft_eq, Nat.one_mul]
  unfold required PAGE_SIZE
  rw [BitVec.toNat_mul, hshift, show (4096 : Long).toNat = 4096 from rfl, BitVec.toNat_ofNat,
    Nat.mod_mul_mod]

def chargeable (s : Sys) (p : Tid) : Bool := (s.tasks.task p).uid = s.user

theorem limitLoop_passed {ps : List Tid} {refused : Bool}
    (h : limitLoop u e ps s = .ok (s', refused)) (hpass : s'.overs = s.overs) (v : UserPtr) :
    s'.cumulative v = s.cumulative v +
      BitVec.ofNat 32 ((if v = u then ps.countP (chargeable s) else 0) * (2 ^ e.order * 4096)) := by
  induction ps generalizing s with
  | nil =>
    obtain rfl := congrArg Prod.fst (Except.ok.inj h)
    simp
  | cons p ps ih =>
    simp only [limitLoop] at h
    split at h
    · rename_i hp
      split at h
      · -- one more comparison has failed, and nothing takes it back
        have hmore : s.overs < ((s.emit (.compare u (s.users.obj u).memMax)).emit
            (.over u)).overs := by
          simp [overs_emit, Event.isOver]
        split at h
        · obtain ⟨r, hr, h⟩ := ok_of_bind h
          have hle := ((within_outOfMemory hr).trans (within_limitLoop h)).overs_le
          omega
        · obtain rfl := congrArg Prod.fst (Except.ok.inj h)
          exact absurd hpass hmore.ne'
      · have hsame : (charge (s.emit (.compare u (s.users.obj u).memMax)) u
            (required e.order)).overs = s.overs := rfl
        rw [ih h (hpass.trans hsame.symm)]
        by_cases hv : v = u
        · subst hv
          have hc : chargeable s p = true := decide_eq_true hp
          rw [if_pos rfl, if_pos rfl, List.countP_cons_of_pos hc, Nat.add_mul, Nat.one_mul,
            Nat.add_comm, BitVec.ofNat_add, ← BitVec.add_assoc, ← required_eq]
          congr 1
          simp [Sys.cumulative, charge, Sys.emit, modify_obj_self]
        · rw [if_neg hv, if_neg hv]
          congr 1
          simp [Sys.cumulative, charge, Sys.emit, modify_obj_of_ne hv]
    · rename_i hp
      have hc : ¬ chargeable s p = true := by simpa [chargeable] using hp
      rw [ih h hpass, List.countP_cons_of_neg hc]

def checkedUser (s : Sys) (current : Tid) : Option UserPtr :=
  if s.start = true ∧ s.user ≠ 0 then s.users.lookup (s.tasks.task current).ns s.user else none

def timesCharged (s : Sys) (current : Tid) (v : UserPtr) : ℕ :=
  if checkedUser s current = some v then s.tasks.processes.countP (chargeable s) else 0

theorem limitCheck_passed {refused : Bool} (hlim : (s.users.obj v).memMax ≠ -1)
    (h : limitCheck s e = .ok (s', refused)) (hpass : s'.overs = s.overs) :
    s'.cumulative v = s.cumulative v +
      BitVec.ofNat 32 (timesCharged s e.current v * (2 ^ e.order * 4096)) := by
  unfold timesCharged checkedUser
  unfold limitCheck findUser at h
  split at h
  · rename_i hstart
    rw [if_pos hstart]
    cases hl : s.users.lookup (s.tasks.task e.current).ns s.user with
    | none =>
      simp only [hl] at h
      obtain rfl := congrArg Prod.fst (Except.ok.inj h)
      simp
    | some u =>
      have hget : Sys.cumulative { s with users := s.users.get u } v = s.cumulative v :=
        (idle_get s u).cumulative v
      simp only [hl] at h
      split at h
      · rw [limitLoop_passed h hpass v, hget]
        simp only [Option.some_inj, eq_comm (a := u)]
        rfl
      · rename_i hm
        obtain rfl := congrArg Prod.fst (Except.ok.inj h)
        have hv : u ≠ v := by
          rintro rfl
          rw [Refs.get_memMax] at hm
          exact hm hlim
        simp [hget, hv]
  · rename_i hstart
    rw [if_neg hstart]
    obtain rfl := congrArg Prod.fst (Except.ok.inj h)
    simp

/-- The request of `current` is charged to its user once, modulo the size of a word, and to no
other. -/
def ChargedOnce (s : Sys) (e : AllocEnv) (v : UserPtr) : Prop :=
  if (s.tasks.task e.current).user = v then
    timesCharged s e.current v * (2 ^ e.order * 4096) ≡ 2 ^ e.order * 4096 [MOD 2 ^ 32] ∧
      (s.cumulative v).toInt + 2 ^ e.order * 4096 < 2 ^ 31
  else timesCharged s e.current v * (2 ^ e.order * 4096) ≡ 0 [MOD 2 ^ 32]

/-- A request that passes the limit check raises the `cumulative_mem` of a limited user by its
size, if it is that user's request, and by nothing otherwise, exactly if the user has one process
to be charged for, respectively none. -/
theorem charged_once_iff (s s' : Sys) (e : AllocEnv) (v : UserPtr)
    (hlim : (s.users.obj v).memMax ≠ -1) (h : limitCheck s e = .ok (s', false))
    (hpass : s'.overs = s.overs) :
    ((s'.cumulative v).toInt = (s.cumulative v).toInt +
      if (s.tasks.task e.current).user = v then 2 ^ e.order * 4096 else 0) ↔
      ChargedOnce s e v := by
  rw [limitCheck_passed hlim h hpass]
  unfold ChargedOnce
  split
  · have hiff := Words.toInt_add_ofNat_eq_iff (s.cumulative v)
      (timesCharged s e.current v * (2 ^ e.order * 4096)) (2 ^ e.order * 4096)
    push_cast at hiff
    rw [hiff]
    refine and_congr_right fun _ => ?_
    constructor
    · intro hlt
      omega
    · intro hlt
      omega
  · have hiff := Words.toInt_add_ofNat_eq_iff (s.cumulative v)
      (timesCharged s e.current v * (2 ^ e.order * 4096)) 0
    have hlt := BitVec.two_mul_toInt_lt (x := s.cumulative v)
    rw [Nat.cast_zero] at hiff
    rw [hiff]
    exact ⟨fun hh => hh.1, fun hh => ⟨hh, by simpa using hlt⟩⟩

def request (current : Tid) (order : ℕ) : AllocEnv where
  current := current
  order := order
  zonesFree := fun _ => true
  oom := fun _ => plainOom
  slow := []
  page := true

def processesOf (ps : List Tid) (r : Refs.State Unit) : Sys :=
  ⟨r.users, r.user, r.start, plainTasks ps (fun p => plainTask p 1000 1) fun _ => 10, []⟩

instance (s : Sys) (e : AllocEnv) (v : UserPtr) : Decidable (ChargedOnce s e v) :=
  inferInstanceAs (Decidable (if (s.tasks.task e.current).user = v then
    (_ % 2 ^ 32 = _ % 2 ^ 32) ∧ _ else (_ % 2 ^ 32 = _ % 2 ^ 32)))

theorem charged_once_one : ∃ r s s', exec Refs.next created Refs.boot = some r ∧
    exec perform [.setMlimit 0 1000 1000000] (processesOf [5] r) = some s ∧
    limitCheck s (request 5 1) = .ok (s', false) ∧
    (s'.cumulative 1).toInt = (s.cumulative 1).toInt + 8192 := by
  obtain ⟨r, hr, hp⟩ := Option.bind_eq_some_iff.mp
    (show (exec Refs.next created Refs.boot).bind (fun r =>
      (exec perform [.setMlimit 0 1000 1000000] (processesOf [5] r)).bind fun s =>
        (limitCheck s (request 5 1)).toOption.map fun s' => decide (s'.2 = false ∧
          s'.1.overs = s.overs ∧ (s.users.obj 1).memMax ≠ -1 ∧ (s.tasks.task 5).user = 1 ∧
          ChargedOnce s (request 5 1) 1)) = some true by decide)
  obtain ⟨s, hs, hp⟩ := Option.bind_eq_some_iff.mp hp
  obtain ⟨⟨s', refused⟩, hc, hfacts⟩ := Option.map_eq_some_iff.mp hp
  obtain ⟨hrefused, hpass, hlim, huser, honce⟩ := of_decide_eq_true hfacts
  dsimp only at hrefused
  subst hrefused
  have hiff := charged_once_iff s s' (request 5 1) 1 hlim (ok_of_toOption hc) hpass
  refine ⟨r, s, s', hr, hs, ok_of_toOption hc, ?_⟩
  rw [hiff.mpr honce]
  simp [request, huser]

/-- A request for one page by one of two processes raises `cumulative_mem` by two pages. -/
theorem charged_twice : ∃ r s s', exec Refs.next created Refs.boot = some r ∧
    exec perform [.setMlimit 0 1000 1000000] (processesOf [5, 6] r) = some s ∧
    limitCheck s (request 5 0) = .ok (s', false) ∧ s'.overs = s.overs ∧
    (s.users.obj 1).memMax = 1000000 ∧ (s.tasks.task 5).user = 1 ∧
    (s'.cumulative 1).toInt = (s.cumulative 1).toInt + 2 * 4096 := by
  obtain ⟨r, hr, hp⟩ := Option.bind_eq_some_iff.mp
    (show (exec Refs.next created Refs.boot).bind (fun r =>
      (exec perform [.setMlimit 0 1000 1000000] (processesOf [5, 6] r)).bind fun s =>
        (limitCheck s (request 5 0)).toOption.map fun s' => decide (s'.2 = false ∧
          s'.1.overs = s.overs ∧ (s.users.obj 1).memMax = 1000000 ∧ (s.tasks.task 5).user = 1 ∧
          (s'.1.cumulative 1).toInt = (s.cumulative 1).toInt + 2 * 4096)) = some true by decide)
  obtain ⟨s, hs, hp⟩ := Option.bind_eq_some_iff.mp hp
  obtain ⟨⟨s', refused⟩, hc, hfacts⟩ := Option.map_eq_some_iff.mp hp
  obtain ⟨hrefused, hrest⟩ := of_decide_eq_true hfacts
  dsimp only at hrefused
  subst hrefused
  exact ⟨r, s, s', hr, hs, ok_of_toOption hc, hrest⟩

end AndroidKernel.Mlimit
