import AndroidKernel.Mlimit.RefCounts

/-! The balance of the reference counts. The three functions of the memory limit that call
`find_user` never call `free_uid`, and the first of them to find a user is `set_mlimit`: the
counts are balanced until then and never again. -/

namespace AndroidKernel.Mlimit.Refs
open Lts
variable {τ : Type} {s s' : State τ} {p : UserPtr}

/-- The count of every structure is the number of its initial references and of those that
`alloc_uid` has returned and `free_uid` has not been given. -/
def Balanced (s : State τ) : Prop :=
  ∀ p ∈ s.users.live, (s.users.obj p).count = initial p + s.refs p

/-- The call is a `set_mlimit` for a user that exists. -/
def Finds (s : State τ) : Act τ → Prop
  | .setMlimit _ ns uid _ _ => (s.users.lookup ns uid).isSome = true
  | _ => False

theorem Counted.in_of_leaked (hc : Counted s) (hp : 0 < s.leaked p) : s.users.In p := by
  by_contra hout
  rw [(hc.outside p hout).2] at hp
  exact lt_irrefl 0 hp

theorem Counted.in_of_quiet (hc : Counted s) (hq : Quiet s) (hp : p ∈ s.users.live) :
    s.users.In p := by
  rcases hc.placed p hp with hin | ⟨t, ht⟩
  · exact hin
  · rcases hq t with hi | hi
    · rw [hi] at ht
      cases ht
    · rw [hi] at ht
      cases ht

theorem Counted.balanced_iff (hc : Counted s) (hq : Quiet s) :
    Balanced s ↔ ∀ p, s.leaked p = 0 := by
  constructor
  · intro hb p
    by_contra hp
    have hin := hc.in_of_leaked (Nat.pos_of_ne_zero hp)
    obtain ⟨ns, h, hm⟩ := id hin
    have hcount := hc.count p hin
    have hbal := hb p (hc.hashed.live ns h p hm)
    omega
  · intro hz p hp
    have hcount := hc.count p (hc.in_of_quiet hq hp)
    have hzp := hz p
    omega

variable [DecidableEq τ] {a : Act τ}

omit [DecidableEq τ] in
theorem leak_leaked_le (s : State τ) (p q : UserPtr) : s.leaked q ≤ (s.leak p).leaked q := by
  unfold State.leak
  by_cases hq : q = p
  · subst hq
    simp
  · simp [hq]

theorem freeUid_leaked (s : State τ) (t : τ) (q : UserPtr) : (freeUid s t q).leaked = s.leaked := by
  simp only [freeUid]
  split
  · rfl
  · rfl

theorem allocInsert_leaked (s : State τ) (t : τ) (ns : Ns) (uid : Uid) (q : UserPtr) :
    (allocInsert s t ns uid q).leaked = s.leaked := by
  unfold allocInsert
  split
  · rfl
  · rfl

theorem next_leaked_le (h : next s a = some s') : s.leaked p ≤ s'.leaked p := by
  cases step_of_next h with
  | limitFound t ns uid m sum q | pagesFound t ns q | badFound t ns q => exact leak_leaked_le s q p
  | free t q => rw [freeUid_leaked]
  | insertNew t new ns uid q => rw [allocInsert_leaked]
  | allocFound | allocMiss | findFound | findMiss | limitMiss | pages | badMiss | badIdle
  | zallocFails | zalloc | destroy | limit | pagesEnd => exact le_rfl

/-- A `set_mlimit` that finds its user takes a reference for good. -/
theorem leaked_of_finds (hf : Finds s a) (h : next s a = some s') : ∃ p, 0 < s'.leaked p := by
  cases a with
  | setMlimit t ns uid m sum =>
    obtain ⟨p, hp⟩ := Option.isSome_iff_exists.mp hf
    simp only [next] at h
    split at h
    · simp only [hp, Option.some_inj] at h
      subst h
      refine ⟨p, ?_⟩
      simp [State.leak, State.goto]
    · cases h
  | allocUid | findUser | freeUid | allocPages | selectBad | step => exact absurd hf id

structure Unused (s : State τ) : Prop where
  user : s.user = 0
  start : s.start = false
  leaked : ∀ p, s.leaked p = 0
  limit : ∀ t ns uid p m sum, s.pc t ≠ .limit ns uid p m sum

theorem Unused.goto {t : τ} {pc : Pc} (hu : Unused s) (hs : s'.user = s.user)
    (hst : s'.start = s.start) (hl : s'.leaked = s.leaked)
    (hpc : s'.pc = Function.update s.pc t pc) (hn : ∀ ns uid p m sum, pc ≠ .limit ns uid p m sum) :
    Unused s' := by
  refine ⟨hs.trans hu.user, hst.trans hu.start, fun p => by rw [hl, hu.leaked], ?_⟩
  intro u ns uid p m sum h
  rw [hpc] at h
  by_cases hut : u = t
  · subst hut
    rw [Function.update_self] at h
    exact hn _ _ _ _ _ h
  · rw [Function.update_of_ne hut] at h
    exact hu.limit u _ _ _ _ _ h

omit [DecidableEq τ] in
theorem Unused.same (hu : Unused s) (hs : s'.user = s.user) (hst : s'.start = s.start)
    (hl : s'.leaked = s.leaked) (hpc : s'.pc = s.pc) : Unused s' := by
  refine ⟨hs.trans hu.user, hst.trans hu.start, fun p => by rw [hl, hu.leaked], ?_⟩
  intro t
  rw [hpc]
  exact hu.limit t

theorem Unused.next (hu : Unused s) (hf : ¬ Finds s a) (h : next s a = some s') : Unused s' := by
  cases step_of_next h with
  | limitFound t ns uid m sum p ht hl =>
    exact absurd (show Finds s (.setMlimit t ns uid m sum) by simp [Finds, hl]) hf
  | pagesFound t ns p ht hs =>
    rw [hu.start] at hs
    cases hs
  | badFound t ns p ht hne | badMiss t ns ht hne => exact absurd hu.user hne
  | limit t new ns uid p m sum ht => exact absurd ht (hu.limit t ns uid p m sum)
  | findMiss | badIdle => exact hu
  | allocFound | findFound => exact hu.same rfl rfl rfl rfl
  | free t p ht hr =>
    simp only [freeUid]
    split
    · exact hu.goto rfl rfl rfl rfl (by simp)
    · exact hu.same rfl rfl rfl rfl
  | insertNew t new ns uid p ht =>
    unfold allocInsert
    split
    · exact hu.goto rfl rfl rfl rfl (by simp)
    · exact hu.goto rfl rfl rfl rfl (by simp)
  | allocMiss | limitMiss | pages | zallocFails | zalloc | destroy | pagesEnd =>
    exact hu.goto rfl rfl rfl rfl (by simp)

omit [DecidableEq τ] in
theorem unused_boot : Unused (boot : State τ) :=
  ⟨rfl, rfl, fun _ => rfl, fun _ _ _ _ _ _ h => by cases h⟩

/-- In every run of the calls, when none is in progress the counts are balanced exactly if no
`set_mlimit` has found its user. -/
theorem balanced_iff_not_finds (as : List (Act τ)) (s : State τ)
    (h : exec next as boot = some s) (hq : Quiet s) :
    Balanced s ↔ Meets next (fun s a => ¬ Finds s a) as boot := by
  have hc := counted_run h
  rw [hc.balanced_iff hq]
  constructor
  · intro hz
    by_contra hm
    have hleak : ∃ p, 0 < s.leaked p := by
      refine exec_of_not_meets (Q := fun s => ∃ p, 0 < s.leaked p) ?_ ?_ hm h
      · intro s a t hf hn
        exact leaked_of_finds (not_not.mp hf) hn
      · rintro s a t ⟨p, hp⟩ hn
        exact ⟨p, lt_of_lt_of_le hp (next_leaked_le hn)⟩
    obtain ⟨p, hp⟩ := hleak
    rw [hz p] at hp
    exact lt_irrefl 0 hp
  · intro hm
    exact (hm.invariant (P := Unused) (fun s a t hs hf hn => hs.next hf hn) unused_boot h).leaked

instance (s : State Unit) : Decidable (Quiet s) :=
  inferInstanceAs (Decidable (∀ t, s.pc t = .idle ∨ s.pc t = .oops))

instance (s : State τ) : Decidable (Balanced s) :=
  inferInstanceAs (Decidable (∀ p ∈ s.users.live, (s.users.obj p).count = initial p + s.refs p))

instance (s : State τ) (a : Act τ) : Decidable (¬ Finds s a) := match a with
  | .setMlimit _ ns uid _ _ => inferInstanceAs (Decidable (¬ (s.users.lookup ns uid).isSome = true))
  | .allocUid .. | .findUser .. | .freeUid .. | .allocPages .. | .selectBad .. | .step .. =>
    inferInstanceAs (Decidable (¬ False))

def login : List (Act Unit) :=
  [.allocUid () 0 1000, .step () (some 1), .step () none, .allocPages () 0, .step () none]

theorem balanced_login : ∃ s, exec next login boot = some s ∧ Quiet s ∧ Balanced s := by
  obtain ⟨s, hs, hq⟩ := Option.map_eq_some_iff.mp
    (show (exec next login boot).map (fun s => decide (Quiet s)) = some true by decide)
  have hquiet := of_decide_eq_true hq
  exact ⟨s, hs, hquiet, (balanced_iff_not_finds login s hs hquiet).mpr (by decide)⟩

/-- One `set_mlimit` and one allocation leave two references behind. -/
theorem unbalanced_set_mlimit : ∃ s, exec next
    (login ++ [.setMlimit () 0 1000 4096 0, .step () none, .allocPages () 0, .step () none]) boot =
      some s ∧ Quiet s ∧ s.refs 1 = 1 ∧ (s.users.obj 1).count = 3 ∧ ¬ Balanced s := by
  obtain ⟨s, hs, hq⟩ := Option.map_eq_some_iff.mp
    (show (exec next (login ++ [.setMlimit () 0 1000 4096 0, .step () none, .allocPages () 0,
      .step () none]) boot).map (fun s => decide (Quiet s ∧ s.refs 1 = 1 ∧
        (s.users.obj 1).count = 3 ∧ ¬ Balanced s)) = some true by decide)
  exact ⟨s, hs, of_decide_eq_true hq⟩

end AndroidKernel.Mlimit.Refs
