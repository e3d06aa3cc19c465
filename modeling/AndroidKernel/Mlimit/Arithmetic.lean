import AndroidKernel.Mlimit.Independence

/-! The arithmetic of `cumulative_mem`. `set_mlimit` adds the memory that it measures to what the
field already holds, and the limit check compares `long` fields as `unsigned long`, for which a
balance below zero is a large number. -/

namespace AndroidKernel.Mlimit
open Lts Outcome
variable {s s' : Sys} {ns : Ns} {uid : Uid} {u : UserPtr}

def bytesOf (w : Tasks) (uid : Uid) (ps : List Tid) : ℕ :=
  ((ps.filter fun p => (w.task p).uid = uid).map fun p => (w.memory p).rss.toNat * 4096).sum

def userBytes (w : Tasks) (uid : Uid) : ℕ := bytesOf w uid w.processes

def AllMapped (w : Tasks) (uid : Uid) (ps : List Tid) : Prop :=
  ∀ p ∈ ps, (w.task p).uid = uid → (w.task p).mm.isSome = true

theorem rssBytes_eq (w : Tasks) (p : Tid) :
    rssBytes w p = BitVec.ofNat 32 ((w.memory p).rss.toNat * 4096) := by
  apply BitVec.eq_of_toNat_eq
  unfold rssBytes PAGE_SIZE
  rw [BitVec.toNat_mul, BitVec.toNat_ofNat]
  rfl

theorem sumRss_of_allMapped {w : Tasks} {ps : List Tid} (h : AllMapped w uid ps) (sum : Long) :
    sumRss w uid ps sum = some (sum + BitVec.ofNat 32 (bytesOf w uid ps)) := by
  induction ps generalizing sum with
  | nil => simp [sumRss, bytesOf]
  | cons p ps ih =>
    have htail := ih fun q hq => h q (List.mem_cons_of_mem _ hq)
    unfold sumRss
    by_cases hp : (w.task p).uid = uid
    · have hmm : ¬ (w.task p).mm.isNone = true := by
        have := h p (List.mem_cons_self ..) hp
        simpa [Option.isSome_iff_ne_none] using this
      have hbytes : bytesOf w uid (p :: ps) = (w.memory p).rss.toNat * 4096 + bytesOf w uid ps := by
        simp [bytesOf, hp]
      rw [if_pos hp, if_neg hmm, htail, hbytes, rssBytes_eq, BitVec.ofNat_add, BitVec.add_assoc]
    · have hbytes : bytesOf w uid (p :: ps) = bytesOf w uid ps := by
        simp [bytesOf, hp]
      rw [if_neg hp, htail, hbytes]

theorem sumRss_eq_some_iff {w : Tasks} {ps : List Tid} {sum r : Long} :
    sumRss w uid ps sum = some r ↔
      AllMapped w uid ps ∧ r = sum + BitVec.ofNat 32 (bytesOf w uid ps) := by
  constructor
  · intro h
    have hall : AllMapped w uid ps := by
      induction ps generalizing sum with
      | nil => exact fun p hp => absurd hp List.not_mem_nil
      | cons p ps ih =>
        unfold sumRss at h
        refine List.forall_mem_cons.mpr ⟨fun hp => ?_, ?_⟩
        · by_contra hmm
          rw [if_pos hp, if_pos (by simpa using hmm)] at h
          cases h
        · split at h
          · split at h
            · cases h
            · exact ih h
          · exact ih h
    rw [sumRss_of_allMapped hall] at h
    exact ⟨hall, (Option.some_inj.mp h).symm⟩
  · rintro ⟨hall, rfl⟩
    exact sumRss_of_allMapped hall sum

theorem setMlimit_eq_ok_iff (hu : s.users.lookup ns uid = some u) {m ret : Long} :
    setMlimit s ns uid m = .ok (s', ret) ↔ AllMapped s.tasks uid s.tasks.processes ∧
      ret = s.cumulative u + BitVec.ofNat 32 (userBytes s.tasks uid) ∧
      s' = withLimit s u uid ret m := by
  constructor
  · intro h
    obtain ⟨v, hv, hsum, hs⟩ := setMlimit_ok h
    obtain rfl := Option.some_inj.mp (hu.symm.trans hv)
    obtain ⟨hall, hret⟩ := sumRss_eq_some_iff.mp hsum
    exact ⟨hall, hret, hs⟩
  · rintro ⟨hall, hret, rfl⟩
    exact setMlimit_of_found hu (sumRss_eq_some_iff.mpr ⟨hall, hret⟩)

/-- The call returns, and both the field and the return value are what the processes take. -/
def Measured (s : Sys) (ns : Ns) (uid : Uid) (m : Long) (u : UserPtr) : Prop :=
  ∃ s' ret, setMlimit s ns uid m = .ok (s', ret) ∧
    (s'.cumulative u).toInt = userBytes s.tasks uid ∧ ret.toInt = userBytes s.tasks uid

/-- The call returns, and a second one finds and returns the same. -/
def Repeatable (s : Sys) (ns : Ns) (uid : Uid) (m : Long) (u : UserPtr) : Prop :=
  ∃ s' s'' ret, setMlimit s ns uid m = .ok (s', ret) ∧ setMlimit s' ns uid m = .ok (s'', ret) ∧
    s''.cumulative u = s'.cumulative u

theorem measured_iff (hu : s.users.lookup ns uid = some u) (m : Long) :
    Measured s ns uid m u ↔ AllMapped s.tasks uid s.tasks.processes ∧ s.cumulative u = 0 ∧
      userBytes s.tasks uid < 2 ^ 31 := by
  have hword := Words.toInt_add_ofNat_eq (s.cumulative u) (userBytes s.tasks uid)
  constructor
  · rintro ⟨s', ret, hset, -, hret⟩
    obtain ⟨hall, rfl, -⟩ := (setMlimit_eq_ok_iff hu).mp hset
    obtain ⟨hzero, hlt⟩ := hword.mp hret
    exact ⟨hall, hzero, by omega⟩
  · rintro ⟨hall, hzero, hlt⟩
    have hret := hword.mpr ⟨hzero, by omega⟩
    refine ⟨_, _, (setMlimit_eq_ok_iff hu).mpr ⟨hall, rfl, rfl⟩, ?_, hret⟩
    rw [withLimit_cumulative_self]
    exact hret

theorem repeatable_iff (hu : s.users.lookup ns uid = some u) (m : Long) :
    Repeatable s ns uid m u ↔ AllMapped s.tasks uid s.tasks.processes ∧
      userBytes s.tasks uid % 2 ^ 32 = 0 := by
  have hu' : ∀ sum, (withLimit s u uid sum m).users.lookup ns uid = some u :=
    fun sum => (withLimit_lookup ..).trans hu
  have hword := Words.add_ofNat_eq_self
    (s.cumulative u + BitVec.ofNat 32 (userBytes s.tasks uid)) (userBytes s.tasks uid)
  constructor
  · rintro ⟨s', s'', ret, hset, hset', -⟩
    obtain ⟨hall, rfl, rfl⟩ := (setMlimit_eq_ok_iff hu).mp hset
    obtain ⟨-, hret, -⟩ := (setMlimit_eq_ok_iff (hu' _)).mp hset'
    rw [withLimit_cumulative_self] at hret
    exact ⟨hall, hword.mp hret.symm⟩
  · rintro ⟨hall, hmod⟩
    have hret := hword.mpr hmod
    refine ⟨_, _, _, (setMlimit_eq_ok_iff hu).mpr ⟨hall, rfl, rfl⟩,
      (setMlimit_eq_ok_iff (hu' _)).mpr ⟨hall, ?_, rfl⟩, ?_⟩
    · rw [withLimit_cumulative_self]
      exact hret.symm
    · rw [withLimit_cumulative_self, withLimit_cumulative_self]

/-- `set_mlimit` measures the memory of an existing user exactly if every process of the user has
an address space, the field was 0, and the sum fits a `long`. A second call gives the same exactly
if the processes take a multiple of the word size. -/
theorem set_mlimit_measures_iff (s : Sys) (ns : Ns) (uid : Uid) (m : Long) (u : UserPtr)
    (hu : s.users.lookup ns uid = some u) :
    (Measured s ns uid m u ↔ AllMapped s.tasks uid s.tasks.processes ∧ s.cumulative u = 0 ∧
      userBytes s.tasks uid < 2 ^ 31) ∧
    (Repeatable s ns uid m u ↔ AllMapped s.tasks uid s.tasks.processes ∧
      userBytes s.tasks uid % 2 ^ 32 = 0) :=
  ⟨measured_iff hu m, repeatable_iff hu m⟩

instance (w : Tasks) (uid : Uid) (ps : List Tid) : Decidable (AllMapped w uid ps) :=
  inferInstanceAs (Decidable (∀ p ∈ ps, _ → _))

theorem set_mlimit_measures_iff_first : ∃ r, exec Refs.next created Refs.boot = some r ∧
    Measured (processesOf [5] r) 0 1000 1000000 1 ∧
    ¬ Repeatable (processesOf [5] r) 0 1000 1000000 1 := by
  obtain ⟨r, hr, hfacts⟩ := Option.map_eq_some_iff.mp
    (show (exec Refs.next created Refs.boot).map (fun r => decide (
      r.users.lookup 0 1000 = some 1 ∧
      AllMapped (processesOf [5] r).tasks 1000 (processesOf [5] r).tasks.processes ∧
      (processesOf [5] r).cumulative 1 = 0 ∧
      userBytes (processesOf [5] r).tasks 1000 = 40960)) = some true by decide)
  obtain ⟨hu, hall, hzero, hbytes⟩ := of_decide_eq_true hfacts
  obtain ⟨hm, hrep⟩ := set_mlimit_measures_iff (processesOf [5] r) 0 1000 1000000 1 hu
  refine ⟨r, hr, hm.mpr ⟨hall, hzero, by rw [hbytes]; norm_num⟩, fun h => ?_⟩
  have hmod := (hrep.mp h).2
  rw [hbytes] at hmod
  exact absurd hmod (by decide)

/-- The second call for a process of ten pages stores and returns twenty. -/
theorem measured_twice : ∃ r s s', exec Refs.next created Refs.boot = some r ∧
    setMlimit (processesOf [5] r) 0 1000 1000000 = .ok (s, 40960) ∧
    setMlimit s 0 1000 1000000 = .ok (s', 81920) ∧ userBytes s.tasks 1000 = 40960 ∧
    s'.cumulative 1 = 81920 ∧ ¬ Measured s 0 1000 1000000 1 := by
  obtain ⟨r, hr, hp⟩ := Option.bind_eq_some_iff.mp
    (show (exec Refs.next created Refs.boot).bind (fun r =>
      (setMlimit (processesOf [5] r) 0 1000 1000000).toOption.bind fun s =>
        (setMlimit s.1 0 1000 1000000).toOption.map fun s' => decide (s.2 = 40960 ∧
          s'.2 = 81920 ∧ userBytes s.1.tasks 1000 = 40960 ∧ s'.1.cumulative 1 = 81920)) =
      some true by decide)
  obtain ⟨⟨s, ret⟩, hs, hp⟩ := Option.bind_eq_some_iff.mp hp
  obtain ⟨⟨s', ret'⟩, hs', hfacts⟩ := Option.map_eq_some_iff.mp hp
  obtain ⟨hret, hret', hbytes, hcum⟩ := of_decide_eq_true hfacts
  dsimp only at hret hret' hbytes hcum hs'
  subst hret hret'
  refine ⟨r, s, s', hr, ok_of_toOption hs, ok_of_toOption hs', hbytes, hcum, ?_⟩
  rintro ⟨t, ret, ht, -, hm⟩
  obtain ⟨-, rfl⟩ := Prod.mk.inj (Except.ok.inj (ht.symm.trans (ok_of_toOption hs')))
  rw [hbytes] at hm
  exact absurd hm (by decide)

/-- The default of `include/linux/mmzone.h`. -/
def MAX_ORDER : ℕ := 11

/-- The branch is taken as for integers, and what is charged otherwise is the sum of integers. -/
structure ComparedExactly (s : Sys) (u : UserPtr) (order : ℕ) : Prop where
  branch : overLimit (s.users.obj u) order = true ↔
    (s.users.obj u).memMax.toInt < (s.cumulative u).toInt + 2 ^ order * 4096
  charged : overLimit (s.users.obj u) order = false →
    ((charge s u (required order)).cumulative u).toInt = (s.cumulative u).toInt + 2 ^ order * 4096

theorem charge_cumulative_self (s : Sys) (u : UserPtr) (a : Long) :
    (charge s u a).cumulative u = s.cumulative u + a := by
  unfold Sys.cumulative charge Sys.emit
  rw [modify_obj_self]

/-- The limit comparison is right exactly if the balance with the request is not negative. -/
theorem compared_exactly_iff (s : Sys) (u : UserPtr) (order : ℕ) (horder : order < MAX_ORDER)
    (hmax : 0 ≤ (s.users.obj u).memMax.toInt) :
    ComparedExactly s u order ↔ 0 ≤ (s.cumulative u).toInt + 2 ^ order * 4096 := by
  have hpow : 2 ^ order ≤ 2 ^ 10 :=
    Nat.pow_le_pow_right (by norm_num) (Nat.le_of_lt_succ horder)
  have hiff := Words.lt_add_ofNat_iff (x := s.cumulative u) (a := 2 ^ order * 4096) hmax (by omega)
  have hover : overLimit (s.users.obj u) order = true ↔
      (s.users.obj u).memMax < s.cumulative u + BitVec.ofNat 32 (2 ^ order * 4096) := by
    unfold overLimit Sys.cumulative
    rw [required_eq, decide_eq_true_iff]
  push_cast at hiff
  constructor
  · intro h
    exact hiff.mp (hover.symm.trans h.branch)
  · intro hsum
    have hbranch := hover.trans (hiff.mpr hsum)
    refine ⟨hbranch, fun hfits => ?_⟩
    have hle : (s.cumulative u).toInt + 2 ^ order * 4096 ≤ (s.users.obj u).memMax.toInt := by
      by_contra hlt
      rw [hbranch.mpr (not_le.mp hlt)] at hfits
      cases hfits
    have hmem := BitVec.two_mul_toInt_lt (x := (s.users.obj u).memMax)
    have hexact := (Words.toInt_add_ofNat_eq_iff (s.cumulative u) (2 ^ order * 4096)
      (2 ^ order * 4096)).mpr ⟨rfl, by push_cast; omega⟩
    rw [charge_cumulative_self, required_eq, hexact]
    push_cast
    rfl

/-- Process 5 has grown by five pages since it was measured, and is then killed. -/
def overdrawn : List Call :=
  [.setMlimit 0 1000 40960, .others (plainTasks [5] (fun p => plainTask p 1000 1) fun _ => 15),
    .outOfMemory 5 plainOom]

/-- A request that brings the overdrawn balance up to 0 is compared as it should be. -/
theorem compared_exactly_iff_overdrawn : ∃ r s, exec Refs.next created Refs.boot = some r ∧
    exec perform overdrawn (processesOf [5] r) = some s ∧ (s.cumulative 1).toInt = -20480 ∧
    ComparedExactly s 1 3 ∧ ¬ ComparedExactly s 1 2 := by
  obtain ⟨r, hr, hp⟩ := Option.bind_eq_some_iff.mp
    (show (exec Refs.next created Refs.boot).bind (fun r =>
      (exec perform overdrawn (processesOf [5] r)).map fun s => decide (
        (s.cumulative 1).toInt = -20480 ∧ 0 ≤ (s.users.obj 1).memMax.toInt)) =
      some true by decide)
  obtain ⟨s, hs, hfacts⟩ := Option.map_eq_some_iff.mp hp
  obtain ⟨hcum, hmax⟩ := of_decide_eq_true hfacts
  refine ⟨r, s, hr, hs, hcum, ?_, ?_⟩
  · rw [compared_exactly_iff s 1 3 (by decide) hmax, hcum]
    norm_num
  · rw [compared_exactly_iff s 1 2 (by decide) hmax, hcum]
    norm_num

/-- With a balance of minus five pages and a limit of ten, one page is over the limit. -/
theorem overdrawn_refused : ∃ r s, exec Refs.next created Refs.boot = some r ∧
    exec perform overdrawn (processesOf [5] r) = some s ∧ (s.cumulative 1).toInt = -20480 ∧
    (s.users.obj 1).memMax.toInt = 40960 ∧ overLimit (s.users.obj 1) 0 = true ∧
    ¬ ComparedExactly s 1 0 := by
  obtain ⟨r, hr, hp⟩ := Option.bind_eq_some_iff.mp
    (show (exec Refs.next created Refs.boot).bind (fun r =>
      (exec perform overdrawn (processesOf [5] r)).map fun s => decide (
        (s.cumulative 1).toInt = -20480 ∧ (s.users.obj 1).memMax.toInt = 40960 ∧
        overLimit (s.users.obj 1) 0 = true)) = some true by decide)
  obtain ⟨s, hs, hfacts⟩ := Option.map_eq_some_iff.mp hp
  obtain ⟨hcum, hmax, hover⟩ := of_decide_eq_true hfacts
  refine ⟨r, s, hr, hs, hcum, hmax, hover, fun h => ?_⟩
  have hlt := h.branch.mp hover
  rw [hcum, hmax] at hlt
  exact absurd hlt (by norm_num)

end AndroidKernel.Mlimit
