import AndroidKernel.Mlimit.Largest
import AndroidKernel.Mlimit.SlowPath

/-! The allocation flags of `hw5/mm/page_alloc.c`. `__alloc_pages_slowpath` tests `__GFP_WAIT`
before anything that sleeps and does not give up a `__GFP_NOFAIL` request, but the limit check comes
before it and tests no flag. -/

namespace AndroidKernel.Mlimit
open Lts Outcome
variable {s s' : Sys} {u : UserPtr} {e : AllocEnv}

theorem slowPass_of_no_wait {q : Request} (h : q.gfp.wait = false) (x : Pass) (n : ℕ) :
    slowPass q x n = ([], .page) ∨ slowPass q x n = ([], .nopage) := by
  unfold slowPass
  split
  · exact Or.inl rfl
  · split
    · exact Or.inl rfl
    · rw [h]
      exact Or.inr rfl

theorem slowpath_of_no_wait {q : Request} (h : q.gfp.wait = false) (xs : List Pass) :
    (allocPagesSlowpath q xs).1 = [] := by
  unfold allocPagesSlowpath
  split
  · rfl
  · split
    · rfl
    · cases xs with
      | nil => rfl
      | cons x xs =>
        unfold slowPasses
        rcases slowPass_of_no_wait h x 0 with hx | hx
        · rw [hx]
        · rw [hx]

theorem allocRounds_of_no_wait {q : Request} (h : q.gfp.wait = false) (xs : List Round) :
    (allocRounds q xs).1 = [] := by
  have hround : ∀ x : Round, (allocRound q x).1 = [] := by
    intro x
    unfold allocRound
    split
    · rfl
    · split
      · rfl
      · exact slowpath_of_no_wait h x.passes
  induction xs with
  | nil => rfl
  | cons x xs ih =>
    have hx := hround x
    unfold allocRounds
    split
    · rename_i ops hops
      rw [hops] at hx
      dsimp only at hx
      subst hx
      split
      · rfl
      · exact ih
    · rename_i ops page _ hops
      rw [hops] at hx
      exact hx

theorem Surroundings.allocate_of_no_wait (x : Surroundings) {gfp : Gfp} (h : gfp.wait = false)
    (order : ℕ) : (x.allocate gfp order).1 = [] := by
  unfold Surroundings.allocate
  split
  · rfl
  · apply allocRounds_of_no_wait
    simp [Gfp.and, h]

/-- Nothing outside the request makes a pass of the slow path give up. -/
structure Pass.Undisturbed (q : Request) (x : Pass) : Prop where
  memalloc : x.memalloc = true → x.noWatermarks = true
  deferred : x.deferred = true → q.gfp.noKswapd = false
  oomDisabled : x.oomDisabled = false

theorem slowPass_of_nofail {q : Request} (hw : q.gfp.wait = true) (hn : q.gfp.nofail = true)
    (hr : q.gfp.noretry = false) {x : Pass} (hx : x.Undisturbed q) (n : ℕ) :
    (slowPass q x n).2 ≠ .nopage := by
  have hretry : ∀ m, retryPass q x m = .again := by
    intro m
    simp [retryPass, shouldAllocRetry, hr, hn]
  have hoom : (oomPass q x).2 ≠ .nopage := by
    unfold oomPass
    simp only [hx.oomDisabled, hn, Bool.not_true, Bool.and_false, Bool.false_and,
      Bool.false_eq_true, if_false]
    split
    · exact fun h => by cases h
    · exact fun h => by cases h
  have hmem : (x.noWatermarks && (x.highPriority || q.gfp.nofail)) = false →
      x.memalloc = false := by
    intro hno
    cases hm : x.memalloc with
    | false => rfl
    | true => simp [hx.memalloc hm, hn] at hno
  have hdef : (x.deferred && q.gfp.noKswapd) = false := by
    cases hd : x.deferred with
    | false => rfl
    | true => simp [hx.deferred hd]
  unfold slowPass
  split
  · exact fun h => by cases h
  split
  · exact fun h => by cases h
  rename_i hno
  rw [hw, hn, hmem (by simpa using hno), hdef]
  simp only [Bool.not_true, Bool.false_eq_true, if_false, Bool.and_false]
  split
  · exact fun h => by cases h
  split
  · exact fun h => by cases h
  split
  · exact hoom
  · rw [hretry]
    exact fun h => by cases h

/-- The slow path does not fail a `__GFP_NOFAIL | __GFP_WAIT` request of its own accord. -/
theorem slowpath_of_nofail {q : Request} (hw : q.gfp.wait = true) (hn : q.gfp.nofail = true)
    (hr : q.gfp.noretry = false) (ho : q.order < MAX_ORDER) {xs : List Pass}
    (hxs : ∀ x ∈ xs, x.Undisturbed q) : (allocPagesSlowpath q xs).2 ≠ some false := by
  have hpasses : ∀ n, (slowPasses q xs n).2 ≠ some false := by
    induction xs with
    | nil => exact fun n h => by cases h
    | cons x xs ih =>
      intro n
      have hpass := slowPass_of_nofail hw hn hr (hxs x (List.mem_cons_self ..)) n
      have htail := ih fun y hy => hxs y (List.mem_cons_of_mem _ hy)
      unfold slowPasses
      split
      · exact fun h => by cases h
      · rename_i heq
        rw [heq] at hpass
        exact absurd rfl hpass
      · exact htail _
  unfold allocPagesSlowpath
  rw [if_neg (Nat.not_le.mpr ho), hr, Bool.and_false, Bool.false_and, if_neg Bool.false_ne_true]
  exact hpasses 0

/-- A user who is charged for a request `n` times over stays within the limit all the time. -/
def StaysWithin (x : User) (order n : ℕ) : Prop :=
  ∀ k < n, overLimit { x with
    cumulativeMem := x.cumulativeMem + BitVec.ofNat 32 (k * (2 ^ order * 4096)) } order = false

theorem staysWithin_succ (x : User) (order n : ℕ) :
    StaysWithin x order (n + 1) ↔ overLimit x order = false ∧
      StaysWithin { x with cumulativeMem := x.cumulativeMem + required order } order n := by
  have hshift : ∀ k, x.cumulativeMem + BitVec.ofNat 32 ((k + 1) * (2 ^ order * 4096)) =
      x.cumulativeMem + required order + BitVec.ofNat 32 (k * (2 ^ order * 4096)) := by
    intro k
    rw [required_eq, Nat.succ_mul, Nat.add_comm, BitVec.ofNat_add, BitVec.add_assoc]
  constructor
  · intro h
    refine ⟨by simpa using h 0 (Nat.succ_pos n), fun k hk => ?_⟩
    have hk' := h (k + 1) (Nat.succ_lt_succ hk)
    rw [hshift] at hk'
    exact hk'
  · rintro ⟨hzero, hrest⟩ k hk
    cases k with
    | zero => simpa using hzero
    | succ k =>
      rw [hshift]
      exact hrest k (Nat.lt_of_succ_lt_succ hk)

theorem charge_obj_self (s : Sys) (u : UserPtr) (a : Long) : (charge s u a).users.obj u =
    { s.users.obj u with cumulativeMem := (s.users.obj u).cumulativeMem + a } := by
  unfold charge Sys.emit
  rw [modify_obj_self]

def Sys.counted (s : Sys) (ps : List Tid) : ℕ := ps.countP fun p => (s.tasks.task p).uid = s.user

theorem counted_own {p : Tid} (hp : (s.tasks.task p).uid = s.user) (ps : List Tid) :
    s.counted (p :: ps) = s.counted ps + 1 := by
  simp [Sys.counted, hp]

theorem counted_other {p : Tid} (hp : (s.tasks.task p).uid ≠ s.user) (ps : List Tid) :
    s.counted (p :: ps) = s.counted ps := by
  simp [Sys.counted, hp]

theorem limitRun_of_staysWithin {ps : List Tid}
    (h : StaysWithin (s.users.obj u) e.order (s.counted ps)) :
    ∃ r, limitRun u e ps s = ([], .ok (r, false)) := by
  induction ps generalizing s with
  | nil => exact ⟨s, rfl⟩
  | cons p ps ih =>
    unfold limitRun
    by_cases hp : (s.tasks.task p).uid = s.user
    · rw [counted_own hp, staysWithin_succ] at h
      rw [if_pos hp, if_neg (by simp [h.1])]
      apply ih
      rw [charge_obj_self]
      exact h.2
    · rw [counted_other hp] at h
      rw [if_neg hp]
      exact ih h

theorem limitRun_of_not_staysWithin {ps : List Tid}
    (h : ¬ StaysWithin (s.users.obj u) e.order (s.counted ps)) :
    (limitRun u e ps s).1 ≠ [] ∧
      ((∀ p, e.zonesFree p = false) → ∃ r, (limitRun u e ps s).2 = .ok (r, true)) := by
  induction ps generalizing s with
  | nil => exact absurd (fun k hk => absurd hk (Nat.not_lt_zero k)) h
  | cons p ps ih =>
    unfold limitRun
    by_cases hp : (s.tasks.task p).uid = s.user
    · rw [counted_own hp, staysWithin_succ] at h
      rw [if_pos hp]
      by_cases hover : overLimit (s.users.obj u) e.order = true
      · rw [if_pos hover]
        refine ⟨?_, fun hzones => ?_⟩
        · split
          · split
            · exact List.cons_ne_nil _ _
            · exact List.cons_ne_nil _ _
          · exact List.cons_ne_nil _ _
        · rw [hzones p, if_neg Bool.false_ne_true]
          exact ⟨_, rfl⟩
      · rw [if_neg hover]
        apply ih
        rw [charge_obj_self]
        exact fun hrest => h ⟨by simpa using hover, hrest⟩
    · rw [counted_other hp] at h
      rw [if_neg hp]
      exact ih h

/-- No comparison of the limit check fails: no limit is set that concerns the call, or the user
stays within it while the request is charged once for each process of the user. -/
def ChecksOut (s : Sys) (current : Tid) (order : ℕ) : Prop :=
  s.start = true → s.user ≠ 0 → ∀ u, s.users.lookup (s.tasks.task current).ns s.user = some u →
    (s.users.obj u).memMax ≠ -1 →
      StaysWithin (s.users.obj u) order (s.counted s.tasks.processes)

theorem staysWithin_get (us : Users) (u : UserPtr) (order n : ℕ) :
    StaysWithin ((us.get u).obj u) order n ↔ StaysWithin (us.obj u) order n := by
  unfold Users.get
  rw [modify_obj_self]
  exact Iff.rfl

theorem limitCheckRun_of_checksOut (h : ChecksOut s e.current e.order) :
    ∃ r, limitCheckRun s e = ([], .ok (r, false)) := by
  unfold limitCheckRun
  split
  · rename_i hon
    unfold findUser
    cases hl : s.users.lookup (s.tasks.task e.current).ns s.user with
    | none => exact ⟨s, rfl⟩
    | some u =>
      dsimp only
      split
      · rename_i hmax
        rw [Refs.get_memMax] at hmax
        apply limitRun_of_staysWithin
        exact (staysWithin_get ..).mpr (h hon.1 hon.2 u hl hmax)
      · exact ⟨_, rfl⟩
  · exact ⟨s, rfl⟩

theorem limitCheckRun_of_not_checksOut (h : ¬ ChecksOut s e.current e.order) :
    (limitCheckRun s e).1 ≠ [] ∧
      ((∀ p, e.zonesFree p = false) → ∃ r, (limitCheckRun s e).2 = .ok (r, true)) := by
  unfold ChecksOut at h
  push Not at h
  obtain ⟨hstart, huser, u, hl, hmax, hover⟩ := h
  unfold limitCheckRun findUser
  rw [if_pos ⟨hstart, huser⟩, hl]
  dsimp only
  rw [if_pos (by rw [Refs.get_memMax]; exact hmax)]
  apply limitRun_of_not_staysWithin
  exact fun h => hover ((staysWithin_get ..).mp h)

/-- Whatever a call with these flags finds on its way, it does not sleep without `__GFP_WAIT`, and
with `__GFP_NOFAIL | __GFP_WAIT` it is not refused by the limit check. -/
def Honoured (s : Sys) (current : Tid) (gfp : Gfp) (order : ℕ) : Prop :=
  ∀ x : Surroundings, (gfp.wait = false → x.sleeps s current gfp order = []) ∧
    (gfp.wait = true → gfp.nofail = true →
      ∀ r, limitCheck s (x.env current gfp order) ≠ .ok (r, true))

def lockedZones : Surroundings where
  zonesFree := fun _ => false
  oom := fun _ => plainOom
  allowed := ⟨true, true, true, true, true, true, true, true⟩
  shouldFail := false
  emptyZonelist := false
  lowmem := false
  numa := false
  rounds := []

/-- The flags are honoured exactly if they allow the caller to sleep and to be refused, or no
comparison of the limit check fails. -/
theorem flags_honoured_iff (s : Sys) (current : Tid) (gfp : Gfp) (order : ℕ) :
    Honoured s current gfp order ↔
      (gfp.wait = true ∧ gfp.nofail = false) ∨ ChecksOut s current order := by
  constructor
  · intro h
    by_contra hno
    push Not at hno
    obtain ⟨hflags, hout⟩ := hno
    obtain ⟨hatomic, hnofail⟩ := h lockedZones
    have hcheck : ¬ ChecksOut s (lockedZones.env current gfp order).current
        (lockedZones.env current gfp order).order := hout
    obtain ⟨hsleep, hrefused⟩ := limitCheckRun_of_not_checksOut hcheck
    cases hw : gfp.wait with
    | false =>
      have hnil := hatomic hw
      unfold Surroundings.sleeps at hnil
      split at hnil
      · rename_i ops r heq
        rw [heq] at hsleep
        exact hsleep (List.append_eq_nil_iff.mp hnil).1
      · rename_i ops res _ heq
        rw [heq] at hsleep
        exact hsleep hnil
    | true =>
      obtain ⟨r, hr⟩ := hrefused fun p => rfl
      rw [limitCheckRun_snd] at hr
      exact hnofail hw (by simpa using hflags hw) r hr
  · rintro (⟨hwait, hfail⟩ | hout) x
    · refine ⟨fun hno => ?_, fun _ hno => ?_⟩
      · rw [hwait] at hno
        cases hno
      · rw [hfail] at hno
        cases hno
    · have hcheck : ChecksOut s (x.env current gfp order).current
          (x.env current gfp order).order := hout
      obtain ⟨r, hrun⟩ := limitCheckRun_of_checksOut hcheck
      refine ⟨fun hatomic => ?_, fun _ _ r' hr' => ?_⟩
      · unfold Surroundings.sleeps
        rw [hrun]
        exact x.allocate_of_no_wait hatomic order
      · rw [← limitCheckRun_snd, hrun] at hr'
        cases hr'

def atomicGfp : Gfp := ⟨false, false, false, false, false, false, false, false⟩

def nofailGfp : Gfp := ⟨true, true, false, false, false, false, false, false⟩

/-- The user is at the limit and the zones are locked: a request that must not sleep does, and one
that must not fail is refused. -/
theorem flags_ignored : ∃ r s s', exec Refs.next created Refs.boot = some r ∧
    exec perform [.setMlimit 0 1000 40960] (processesOf [5] r) = some s ∧
    lockedZones.sleeps s 5 atomicGfp 0 = [.scheduleTimeout] ∧
    limitCheck s (lockedZones.env 5 nofailGfp 0) = .ok (s', true) ∧
    ¬ Honoured s 5 atomicGfp 0 ∧ ¬ Honoured s 5 nofailGfp 0 := by
  obtain ⟨r, hr, hp⟩ := Option.bind_eq_some_iff.mp
    (show (exec Refs.next created Refs.boot).bind (fun r =>
      (exec perform [.setMlimit 0 1000 40960] (processesOf [5] r)).bind fun s =>
        (limitCheck s (lockedZones.env 5 nofailGfp 0)).toOption.map fun s' => decide (
          lockedZones.sleeps s 5 atomicGfp 0 = [.scheduleTimeout] ∧ s'.2 = true)) =
      some true by decide)
  obtain ⟨s, hs, hp⟩ := Option.bind_eq_some_iff.mp hp
  obtain ⟨⟨s', refused⟩, hc, hfacts⟩ := Option.map_eq_some_iff.mp hp
  obtain ⟨hsleep, hrefused⟩ := of_decide_eq_true hfacts
  dsimp only at hrefused
  subst hrefused
  have hnull := ok_of_toOption hc
  refine ⟨r, s, s', hr, hs, hsleep, hnull, fun h => ?_, fun h => ?_⟩
  · have hnil := (h lockedZones).1 rfl
    rw [hsleep] at hnil
    cases hnil
  · exact (h lockedZones).2 rfl rfl s' hnull

end AndroidKernel.Mlimit
