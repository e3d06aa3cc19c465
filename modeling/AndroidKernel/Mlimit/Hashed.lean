import AndroidKernel.Mlimit.RefSteps

/-! The hash of users. An entry is live, in the chain of its uid, and alone with its uid in its
namespace; looking up, inserting and removing keep it so. -/

namespace AndroidKernel.Mlimit
variable {us : Users} {ns ns' : Ns} {uid uid' : Uid} {h : BitVec 32} {p q : UserPtr}

structure Hashed (us : Users) : Prop where
  live : ∀ ns h p, p ∈ us.table ns h → p ∈ us.live
  userNs : ∀ ns h p, p ∈ us.table ns h → (us.obj p).userNs = ns
  hash : ∀ ns h p, p ∈ us.table ns h → uidhashfn (us.obj p).uid = h
  nodup : ∀ ns h, (us.table ns h).Nodup
  unique : ∀ ns h p q, p ∈ us.table ns h → q ∈ us.table ns h →
    (us.obj p).uid = (us.obj q).uid → p = q

def Users.In (us : Users) (p : UserPtr) : Prop := ∃ ns h, p ∈ us.table ns h

theorem lookup_mem (hl : us.lookup ns uid = some p) : p ∈ us.chain ns uid :=
  List.mem_of_find?_eq_some hl

theorem lookup_in (hl : us.lookup ns uid = some p) : us.In p := ⟨ns, uidhashfn uid, lookup_mem hl⟩

theorem lookup_uid (hl : us.lookup ns uid = some p) : (us.obj p).uid = uid := by
  have hp := List.find?_some hl
  simpa using hp

theorem lookup_eq_none (hl : us.lookup ns uid = none) : ∀ p ∈ us.chain ns uid,
    (us.obj p).uid ≠ uid := by
  intro p hp
  have hn := List.find?_eq_none.mp hl p hp
  simpa using hn

theorem Hashed.lookup_eq_some (hh : Hashed us) (hp : p ∈ us.chain ns uid)
    (hu : (us.obj p).uid = uid) : us.lookup ns uid = some p := by
  cases hl : us.lookup ns uid with
  | none => exact absurd hu (lookup_eq_none hl p hp)
  | some q =>
    have hq : (us.obj q).uid = (us.obj p).uid := by rw [lookup_uid hl, hu]
    rw [hh.unique _ _ q p (lookup_mem hl) hp hq]

theorem Hashed.chain_eq (hh : Hashed us) {h' : BitVec 32} (hp : p ∈ us.table ns h)
    (hp' : p ∈ us.table ns' h') : ns' = ns ∧ h' = h :=
  ⟨(hh.userNs _ _ _ hp').symm.trans (hh.userNs _ _ _ hp),
    (hh.hash _ _ _ hp').symm.trans (hh.hash _ _ _ hp)⟩

theorem modify_obj_field {α : Type} {g : User → α} {f : User → User} (hf : ∀ u, g (f u) = g u)
    (q : UserPtr) : g ((us.modify p f).obj q) = g (us.obj q) := by
  unfold Users.modify
  by_cases hq : q = p
  · subst hq
    simp [hf]
  · simp [hq]

theorem modify_obj_uid {f : User → User} (hf : ∀ u, (f u).uid = u.uid) (q : UserPtr) :
    ((us.modify p f).obj q).uid = (us.obj q).uid := modify_obj_field hf q

theorem modify_obj_userNs {f : User → User} (hf : ∀ u, (f u).userNs = u.userNs) (q : UserPtr) :
    ((us.modify p f).obj q).userNs = (us.obj q).userNs := modify_obj_field hf q

theorem modify_obj_of_ne {f : User → User} (hq : q ≠ p) : (us.modify p f).obj q = us.obj q :=
  Function.update_of_ne hq ..

theorem modify_obj_self (f : User → User) : (us.modify p f).obj p = f (us.obj p) :=
  Function.update_self ..

theorem Hashed.modify {f : User → User} (hh : Hashed us) (hu : ∀ u, (f u).uid = u.uid)
    (hn : ∀ u, (f u).userNs = u.userNs) : Hashed (us.modify p f) where
  live := hh.live
  userNs := fun ns h q hq => by rw [modify_obj_userNs hn, hh.userNs ns h q hq]
  hash := fun ns h q hq => by rw [modify_obj_uid hu, hh.hash ns h q hq]
  nodup := hh.nodup
  unique := fun ns h q r hq hr hqr => by
    rw [modify_obj_uid hu, modify_obj_uid hu] at hqr
    exact hh.unique ns h q r hq hr hqr

theorem Hashed.release (hh : Hashed us) (hp : ¬ us.In p) : Hashed (us.release p) where
  live := fun ns h q hq => by
    have hne : q ≠ p := by
      rintro rfl
      exact hp ⟨ns, h, hq⟩
    exact Finset.mem_erase.mpr ⟨hne, hh.live ns h q hq⟩
  userNs := hh.userNs
  hash := hh.hash
  nodup := hh.nodup
  unique := hh.unique

theorem Hashed.drop (hh : Hashed us) : Hashed (uidHashRemove us p) where
  live := fun ns h q hq => hh.live ns h q (List.mem_of_mem_erase hq)
  userNs := fun ns h q hq => hh.userNs ns h q (List.mem_of_mem_erase hq)
  hash := fun ns h q hq => hh.hash ns h q (List.mem_of_mem_erase hq)
  nodup := fun ns h => (hh.nodup ns h).erase p
  unique := fun ns h q r hq hr =>
    hh.unique ns h q r (List.mem_of_mem_erase hq) (List.mem_of_mem_erase hr)

theorem Hashed.in_remove (hh : Hashed us) : (uidHashRemove us p).In q ↔ q ≠ p ∧ us.In q := by
  constructor
  · rintro ⟨ns, h, hq⟩
    have hq' := (hh.nodup ns h).mem_erase_iff.mp hq
    exact ⟨hq'.1, ns, h, hq'.2⟩
  · rintro ⟨hne, ns, h, hq⟩
    exact ⟨ns, h, (hh.nodup ns h).mem_erase_iff.mpr ⟨hne, hq⟩⟩

theorem mem_table_insert {h : BitVec 32} :
    q ∈ (uidHashInsert us ns uid p).table ns' h ↔
      q ∈ us.table ns' h ∨ (q = p ∧ ns' = ns ∧ h = uidhashfn uid) := by
  unfold uidHashInsert
  by_cases hn : ns' = ns
  · subst hn
    by_cases hh : h = uidhashfn uid
    · subst hh
      simp [Users.chain, or_comm]
    · simp [hh]
  · simp [hn]

theorem in_insert : (uidHashInsert us ns uid p).In q ↔ q = p ∨ us.In q := by
  unfold Users.In
  simp only [mem_table_insert]
  constructor
  · rintro ⟨ns', h, hq | ⟨hq, -⟩⟩
    · exact Or.inr ⟨ns', h, hq⟩
    · exact Or.inl hq
  · rintro (hq | ⟨ns', h, hq⟩)
    · exact ⟨ns, uidhashfn uid, Or.inr ⟨hq, rfl, rfl⟩⟩
    · exact ⟨ns', h, Or.inl hq⟩

theorem Hashed.add (hh : Hashed us) (hl : us.lookup ns uid = none) (hp : p ∈ us.live)
    (hin : ¬ us.In p) (hobj : us.obj p = newUser ns uid) :
    Hashed (uidHashInsert us ns uid p) where
  live := fun ns' h q hq => by
    rcases mem_table_insert.mp hq with hq | ⟨rfl, -⟩
    · exact hh.live ns' h q hq
    · exact hp
  userNs := fun ns' h q hq => by
    rcases mem_table_insert.mp hq with hq | ⟨rfl, rfl, -⟩
    · exact hh.userNs ns' h q hq
    · exact congrArg User.userNs hobj
  hash := fun ns' h q hq => by
    rcases mem_table_insert.mp hq with hq | ⟨rfl, -, rfl⟩
    · exact hh.hash ns' h q hq
    · have huid : (us.obj q).uid = uid := congrArg User.uid hobj
      rw [show (uidHashInsert us ns uid q).obj q = us.obj q from rfl, huid]
  nodup := fun ns' h => by
    unfold uidHashInsert
    by_cases hn : ns' = ns
    · subst hn
      by_cases hk : h = uidhashfn uid
      · subst hk
        simpa using ⟨fun hm => hin ⟨ns', _, hm⟩, hh.nodup ns' _⟩
      · simpa [hk] using hh.nodup ns' h
    · simpa [hn] using hh.nodup ns' h
  unique := fun ns' h q r hq hr hqr => by
    have huid : (us.obj p).uid = uid := congrArg User.uid hobj
    rcases mem_table_insert.mp hq with hq' | ⟨rfl, rfl, rfl⟩
    · rcases mem_table_insert.mp hr with hr' | ⟨rfl, rfl, rfl⟩
      · exact hh.unique ns' h q r hq' hr' hqr
      · exact absurd (hqr.trans huid) (lookup_eq_none hl q hq')
    · rcases mem_table_insert.mp hr with hr' | ⟨rfl, -, -⟩
      · exact absurd (hqr.symm.trans huid) (lookup_eq_none hl r hr')
      · rfl

theorem Hashed.allocate (hh : Hashed us) (hp : p ∉ us.live) (u : User) :
    Hashed { us with obj := Function.update us.obj p u, live := insert p us.live } := by
  have hne : ∀ ns h q, q ∈ us.table ns h → q ≠ p := by
    rintro ns h q hq rfl
    exact hp (hh.live ns h q hq)
  have hobj : ∀ ns h q, q ∈ us.table ns h → Function.update us.obj p u q = us.obj q :=
    fun ns h q hq => Function.update_of_ne (hne ns h q hq) ..
  constructor
  · intro ns h q hq
    exact Finset.mem_insert_of_mem (hh.live ns h q hq)
  · intro ns h q hq
    change (Function.update us.obj p u q).userNs = ns
    rw [hobj ns h q hq, hh.userNs ns h q hq]
  · intro ns h q hq
    change uidhashfn (Function.update us.obj p u q).uid = h
    rw [hobj ns h q hq, hh.hash ns h q hq]
  · exact hh.nodup
  · intro ns h q r hq hr hqr
    change (Function.update us.obj p u q).uid = (Function.update us.obj p u r).uid at hqr
    rw [hobj ns h q hq, hobj ns h r hr] at hqr
    exact hh.unique ns h q r hq hr hqr

end AndroidKernel.Mlimit
