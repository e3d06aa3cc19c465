import AndroidKernel.Mlimit.RefCounts

/-! A limit stays where it was set. The reference that `set_mlimit` never gives back keeps the
entry in the hash, and no other entry can take its uid. -/

namespace AndroidKernel.Mlimit.Refs
open Lts
variable {τ : Type} {s s' : State τ} {p : UserPtr} {m : Long}

def Pc.setsLimit (ns : Ns) (uid : Uid) : Pc → Bool
  | .limit ns' uid' _ _ _ => ns' == ns && uid' == uid
  | _ => false

def SetsLimit (ns : Ns) (uid : Uid) (s : State τ) : Act τ → Prop
  | .step t _ => (s.pc t).setsLimit ns uid = true
  | _ => False

structure Kept (us us' : Users) (p : UserPtr) : Prop where
  table : ∀ ns h, p ∈ us.table ns h → p ∈ us'.table ns h
  uid : (us'.obj p).uid = (us.obj p).uid
  memMax : (us'.obj p).memMax = (us.obj p).memMax

theorem Kept.refl (us : Users) (p : UserPtr) : Kept us us p := ⟨fun _ _ h => h, rfl, rfl⟩

theorem kept_modify {us : Users} {q : UserPtr} {f : User → User}
    (hu : (f (us.obj q)).uid = (us.obj q).uid) (hm : q = p → (f (us.obj q)).memMax =
      (us.obj q).memMax) : Kept us (us.modify q f) p := by
  refine ⟨fun _ _ h => h, ?_, ?_⟩
  · by_cases hp : p = q
    · subst hp
      rw [modify_obj_self, hu]
    · rw [modify_obj_of_ne hp]
  · by_cases hp : p = q
    · subst hp
      rw [modify_obj_self, hm rfl]
    · rw [modify_obj_of_ne hp]

theorem kept_get (us : Users) (q : UserPtr) : Kept us (us.get q) p :=
  kept_modify rfl fun _ => rfl

/-- The entry of a limited user, with a reference that nobody will give back. -/
structure Limited (ns : Ns) (uid : Uid) (p : UserPtr) (m : Long) (s : State τ) : Prop where
  mem : p ∈ s.users.chain ns uid
  uid : (s.users.obj p).uid = uid
  memMax : (s.users.obj p).memMax = m
  pinned : 0 < s.leaked p

variable {ns : Ns} {uid : Uid}

theorem Limited.kept (hl : Limited ns uid p m s) (hk : Kept s.users s'.users p)
    (hle : s.leaked p ≤ s'.leaked p) : Limited ns uid p m s' where
  mem := hk.table _ _ hl.mem
  uid := hk.uid.trans hl.uid
  memMax := hk.memMax.trans hl.memMax
  pinned := lt_of_lt_of_le hl.pinned hle

theorem Limited.leak (hl : Limited ns uid p m s) (q : UserPtr) :
    Limited ns uid p m (s.leak q) := by
  apply hl.kept (kept_get s.users q)
  unfold State.leak
  by_cases hq : p = q
  · subst hq
    simp
  · simp [hq]

variable [DecidableEq τ] {t : τ} {a : Act τ}

theorem Limited.freeUid {q : UserPtr} (hc : Counted s) (hl : Limited ns uid p m s)
    (hr : 0 < s.refs q) : Limited ns uid p m (freeUid s t q) := by
  have hin := hc.in_of_refs hr
  have hcount := hc.count q hin
  have hk : Kept s.users (s.users.modify q fun u => { u with count := u.count - 1 }) p :=
    kept_modify rfl fun _ => rfl
  simp only [Refs.freeUid, modify_obj_self]
  split
  · rename_i hz
    have hne : p ≠ q := by
      rintro rfl
      have hpin := hl.pinned
      omega
    apply hl.kept
    · refine ⟨fun ns h hm => ?_, hk.uid, hk.memMax⟩
      exact (List.mem_erase_of_ne hne).mpr (hk.table ns h hm)
    · exact le_rfl
  · exact hl.kept hk le_rfl

theorem Limited.zalloc {ns' : Ns} {uid' : Uid} {q : UserPtr} (hc : Counted s)
    (hl : Limited ns uid p m s) (hq : q ∉ s.users.live) :
    Limited ns uid p m (zalloc s t ns' uid' q) := by
  have hne : p ≠ q := by
    rintro rfl
    exact hq (hc.hashed.live _ _ p hl.mem)
  apply hl.kept
  · refine ⟨fun _ _ hm => hm, ?_, ?_⟩
    · simp [Refs.zalloc, hne]
    · simp [Refs.zalloc, hne]
  · exact le_rfl

theorem Limited.allocInsert (hl : Limited ns uid p m s) (ns' : Ns) (uid' : Uid) (q : UserPtr) :
    Limited ns uid p m (allocInsert s t ns' uid' q) := by
  unfold Refs.allocInsert
  split
  · rename_i up _
    have hk := kept_get s.users up (p := p)
    exact hl.kept ⟨hk.table, hk.uid, hk.memMax⟩ le_rfl
  · exact hl.kept ⟨fun _ _ hm => mem_table_insert.mpr (Or.inl hm), rfl, rfl⟩ le_rfl

theorem Limited.setLimit {ns' : Ns} {uid' : Uid} {q : UserPtr} {m' sum : Long} (hc : Counted s)
    (hl : Limited ns uid p m s) (ht : s.pc t = .limit ns' uid' q m' sum)
    (hs : ¬ (s.pc t).setsLimit ns uid = true) :
    Limited ns uid p m (setLimit s t uid' q m' sum) := by
  have hne : q ≠ p := by
    rintro rfl
    have hlim := hc.limit t
    rw [ht] at hlim
    obtain ⟨rfl, -⟩ := hc.hashed.chain_eq hl.mem hlim.1
    obtain rfl : uid' = uid := hlim.2.1.symm.trans hl.uid
    rw [ht] at hs
    simp [Pc.setsLimit] at hs
  have hk : Kept s.users (Refs.setLimit s t uid' q m' sum).users p :=
    kept_modify (f := fun u => { u with
      cumulativeMem := u.cumulativeMem + sum, memMax := m' }) rfl fun h => absurd h hne
  exact hl.kept hk le_rfl

theorem Limited.next (hc : Counted s) (hl : Limited ns uid p m s) (hs : ¬ SetsLimit ns uid s a)
    (h : next s a = some s') : Limited ns uid p m s' := by
  cases step_of_next h with
  | free t q ht hr => exact hl.freeUid hc hr
  | zalloc t ns' uid' q ht hq => exact hl.zalloc hc hq
  | insertNew t new ns' uid' q ht => exact hl.allocInsert ns' uid' q
  | limit t new ns' uid' q m' sum ht => exact hl.setLimit hc ht hs
  | allocFound t ns' uid' q | findFound t ns' uid' q => exact hl.kept (kept_get s.users q) le_rfl
  | limitFound t ns' uid' m' sum q | pagesFound t ns' q =>
    exact (hl.leak q).kept (Kept.refl _ p) le_rfl
  | badFound t ns' q => exact hl.leak q
  | destroy => exact hl.kept ⟨fun _ _ hm => hm, rfl, rfl⟩ le_rfl
  | allocMiss | findMiss | limitMiss | pages | badMiss | badIdle | zallocFails | pagesEnd =>
    exact hl.kept (Kept.refl s.users p) le_rfl

theorem limited_setLimit {sum : Long} (hc : Counted s) (ht : s.pc t = .limit ns uid p m sum) :
    Limited ns uid p m (setLimit s t uid p m sum) := by
  have hlim := hc.limit t
  rw [ht] at hlim
  refine ⟨hlim.1, ?_, ?_, hlim.2.2⟩
  · simpa only [setLimit, modify_obj_self] using hlim.2.1
  · simp only [setLimit, modify_obj_self]

/-- After a `set_mlimit` has set the limit of a user, whatever other calls do and in whatever
order, `find_user` finds the same structure with that limit until another `set_mlimit` for the
user comes to its end. No chain ever holds two entries with one uid. -/
theorem limit_persists (as bs : List (Act τ)) (s s' : State τ) (t : τ) (ns : Ns) (uid : Uid)
    (p : UserPtr) (m sum : Long) (h : exec next as boot = some s)
    (ht : s.pc t = .limit ns uid p m sum)
    (h' : exec next bs (setLimit s t uid p m sum) = some s')
    (hb : Meets next (fun s a => ¬ SetsLimit ns uid s a) bs (setLimit s t uid p m sum)) :
    (findUser s'.users ns uid).1 = some p ∧ (s'.users.obj p).memMax = m ∧
      p ∈ s'.users.live ∧ p ∈ s'.users.chain ns uid ∧
      ∀ ns h, (s'.users.table ns h).Pairwise
        fun q r => (s'.users.obj q).uid ≠ (s'.users.obj r).uid := by
  have hc := counted_run h
  obtain ⟨hc', hl⟩ := hb.invariant (P := fun s => Counted s ∧ Limited ns uid p m s)
    (fun s a t hs hn ht => ⟨hs.1.next ht, hs.2.next hs.1 hn ht⟩)
    ⟨hc.setLimit ht, limited_setLimit hc ht⟩ h'
  refine ⟨?_, hl.memMax, hc'.hashed.live _ _ p hl.mem, hl.mem, ?_⟩
  · unfold findUser
    rw [hc'.hashed.lookup_eq_some hl.mem hl.uid]
  · intro ns h
    apply List.Pairwise.imp_of_mem _ (hc'.hashed.nodup ns h)
    intro q r hq hr hne huid
    exact hne (hc'.hashed.unique ns h q r hq hr huid)

instance (ns : Ns) (uid : Uid) (s : State τ) (a : Act τ) : Decidable (¬ SetsLimit ns uid s a) :=
  match a with
  | .step t _ => inferInstanceAs (Decidable (¬ (s.pc t).setsLimit ns uid = true))
  | .allocUid .. | .findUser .. | .freeUid .. | .setMlimit .. | .allocPages .. | .selectBad .. =>
    inferInstanceAs (Decidable (¬ False))

def race : List (Act ℕ) :=
  [.allocUid 0 0 1000, .allocUid 1 0 1000, .step 0 (some 1), .step 1 (some 2), .step 0 none,
    .setMlimit 0 0 1000 4096 0]

def afterRace : List (Act ℕ) := [.step 1 none, .freeUid 1 1, .freeUid 0 1]

theorem limit_persists_race : ∃ s s', exec next race boot = some s ∧
    exec next afterRace (setLimit s 0 1000 1 4096 0) = some s' ∧
    (findUser s'.users 0 1000).1 = some 1 ∧ (s'.users.obj 1).memMax = 4096 := by
  obtain ⟨s, hs, hp⟩ := Option.map_eq_some_iff.mp
    (show (exec next race boot).map (fun s => decide (s.pc 0 = .limit 0 1000 1 4096 0 ∧
      (exec next afterRace (setLimit s 0 1000 1 4096 0)).isSome = true ∧
      Meets next (fun s a => ¬ SetsLimit 0 1000 s a) afterRace (setLimit s 0 1000 1 4096 0))) =
      some true by decide)
  obtain ⟨ht, hsome, hb⟩ := of_decide_eq_true hp
  obtain ⟨s', hs'⟩ := Option.isSome_iff_exists.mp hsome
  have hres := limit_persists race afterRace s s' 0 0 1000 1 4096 0 hs ht hs' hb
  exact ⟨s, s', hs, hs', hres.1, hres.2.1⟩

end AndroidKernel.Mlimit.Refs
