import AndroidKernel.Mlimit.Hashed

/-! The count of an entry is the number of the references to it, and a structure outside the hash
belongs to the one task that is about to insert or to free it. A step concerns one structure. -/

namespace AndroidKernel.Mlimit
variable {us : Users} {ns ns' : Ns} {uid uid' : Uid} {h : BitVec 32} {p q : UserPtr}

namespace Refs
open Lts
variable {τ : Type} {s s' : State τ} {t : τ}

/-- A structure outside the hash that a task is about to insert or to free. -/
def Pc.owns : Pc → Option UserPtr
  | .allocInsert _ _ p | .dying p => some p
  | _ => none

def initial (p : UserPtr) : ℕ := if p = rootUser then 2 else 0

def LimitOk (s : State τ) : Pc → Prop
  | .limit ns uid p _ _ => p ∈ s.users.chain ns uid ∧ (s.users.obj p).uid = uid ∧ 0 < s.leaked p
  | _ => True

def BuiltOk (s : State τ) : Pc → Prop
  | .allocInsert ns uid new => s.users.obj new = newUser ns uid
  | _ => True

structure Counted (s : State τ) : Prop where
  hashed : Hashed s.users
  count : ∀ p, s.users.In p → (s.users.obj p).count = initial p + s.refs p + s.leaked p
  pos : ∀ p, s.users.In p → 0 < (s.users.obj p).count
  outside : ∀ p, ¬ s.users.In p → s.refs p = 0 ∧ s.leaked p = 0
  root : s.users.In rootUser
  owned : ∀ t p, (s.pc t).owns = some p → p ∈ s.users.live ∧ ¬ s.users.In p
  distinct : ∀ t u p, (s.pc t).owns = some p → (s.pc u).owns = some p → t = u
  placed : ∀ p ∈ s.users.live, s.users.In p ∨ ∃ t, (s.pc t).owns = some p
  built : ∀ t, BuiltOk s (s.pc t)
  limit : ∀ t, LimitOk s (s.pc t)

structure Frame (s s' : State τ) (t : τ) (x : UserPtr) : Prop where
  pc : ∀ u, u ≠ t → s'.pc u = s.pc u
  table : ∀ ns h q, q ≠ x → (q ∈ s'.users.table ns h ↔ q ∈ s.users.table ns h)
  live : ∀ q, q ≠ x → (q ∈ s'.users.live ↔ q ∈ s.users.live)
  obj : ∀ q, q ≠ x → s'.users.obj q = s.users.obj q
  refs : ∀ q, q ≠ x → s'.refs q = s.refs q
  leaked : ∀ q, q ≠ x → s'.leaked q = s.leaked q
  old : ∀ q, (s.pc t).owns = some q → q = x
  free : ∀ u, u ≠ t → (s.pc u).owns ≠ some x

theorem Frame.in_iff {x q : UserPtr} (hf : Frame s s' t x) (hq : q ≠ x) :
    s'.users.In q ↔ s.users.In q := by
  unfold Users.In
  simp only [hf.table _ _ q hq]

theorem Frame.owns_ne {x q : UserPtr} {u : τ} (hf : Frame s s' t x) (hu : u ≠ t)
    (hq : (s.pc u).owns = some q) : q ≠ x := by
  rintro rfl
  exact hf.free u hu hq

theorem Frame.builtOk {x : UserPtr} {u : τ} (hf : Frame s s' t x) (hu : u ≠ t)
    (hb : BuiltOk s (s.pc u)) : BuiltOk s' (s'.pc u) := by
  rw [hf.pc u hu]
  cases hpu : s.pc u with
  | allocInsert ns uid new =>
    have hne : new ≠ x := hf.owns_ne hu (by rw [hpu]; rfl)
    rw [hpu] at hb
    simp only [BuiltOk] at hb ⊢
    rw [hf.obj new hne, hb]
  | idle | allocNew | dying | limit | inAlloc | oops => trivial

theorem Frame.limitOk {x : UserPtr} {u : τ} (hf : Frame s s' t x) (hu : u ≠ t)
    (hkeep : ∀ ns uid, x ∈ s.users.chain ns uid → (s.users.obj x).uid = uid → 0 < s.leaked x →
      x ∈ s'.users.chain ns uid ∧ (s'.users.obj x).uid = uid ∧ 0 < s'.leaked x)
    (hl : LimitOk s (s.pc u)) : LimitOk s' (s'.pc u) := by
  rw [hf.pc u hu]
  cases hpu : s.pc u with
  | limit ns uid q m sum =>
    rw [hpu] at hl
    simp only [LimitOk] at hl ⊢
    by_cases hqx : q = x
    · subst hqx
      exact hkeep ns uid hl.1 hl.2.1 hl.2.2
    · refine ⟨(hf.table _ _ q hqx).mpr hl.1, ?_, ?_⟩
      · rw [hf.obj q hqx]
        exact hl.2.1
      · rw [hf.leaked q hqx]
        exact hl.2.2
  | idle | allocNew | allocInsert | dying | inAlloc | oops => trivial

/-- The rule by which every step is shown to keep the counts: what is left to say is what becomes
of the one structure and where the task is now. -/
theorem Counted.frame {x : UserPtr} (hc : Counted s) (hf : Frame s s' t x)
    (hh : Hashed s'.users)
    (hin : s'.users.In x → (s'.users.obj x).count = initial x + s'.refs x + s'.leaked x ∧
      0 < (s'.users.obj x).count)
    (hout : ¬ s'.users.In x → s'.refs x = 0 ∧ s'.leaked x = 0 ∧ x ≠ rootUser)
    (howned : ∀ q, (s'.pc t).owns = some q → q = x ∧ x ∈ s'.users.live ∧ ¬ s'.users.In x)
    (hplaced : x ∈ s'.users.live → s'.users.In x ∨ (s'.pc t).owns = some x)
    (hbuilt : BuiltOk s' (s'.pc t)) (hlimit : LimitOk s' (s'.pc t))
    (hkeep : ∀ ns uid, x ∈ s.users.chain ns uid → (s.users.obj x).uid = uid → 0 < s.leaked x →
      x ∈ s'.users.chain ns uid ∧ (s'.users.obj x).uid = uid ∧ 0 < s'.leaked x) :
    Counted s' where
  hashed := hh
  count := by
    intro q hq
    by_cases hqx : q = x
    · subst hqx
      exact (hin hq).1
    · rw [hf.obj q hqx, hf.refs q hqx, hf.leaked q hqx]
      exact hc.count q ((hf.in_iff hqx).mp hq)
  pos := by
    intro q hq
    by_cases hqx : q = x
    · subst hqx
      exact (hin hq).2
    · rw [hf.obj q hqx]
      exact hc.pos q ((hf.in_iff hqx).mp hq)
  outside := by
    intro q hq
    by_cases hqx : q = x
    · subst hqx
      exact ⟨(hout hq).1, (hout hq).2.1⟩
    · rw [hf.refs q hqx, hf.leaked q hqx]
      exact hc.outside q fun h => hq ((hf.in_iff hqx).mpr h)
  root := by
    by_cases hrx : rootUser = x
    · by_contra hr
      rw [hrx] at hr
      exact (hout hr).2.2 hrx.symm
    · exact (hf.in_iff hrx).mpr hc.root
  owned := by
    intro u q hq
    by_cases hut : u = t
    · subst hut
      obtain ⟨rfl, hl, hn⟩ := howned q hq
      exact ⟨hl, hn⟩
    · rw [hf.pc u hut] at hq
      have hqx := hf.owns_ne hut hq
      rw [hf.live q hqx, hf.in_iff hqx]
      exact hc.owned u q hq
  distinct := by
    intro u v q hu hv
    by_cases hut : u = t
    · by_cases hvt : v = t
      · rw [hut, hvt]
      · rw [hut] at hu
        rw [hf.pc v hvt] at hv
        exact absurd (howned q hu).1 (hf.owns_ne hvt hv)
    · rw [hf.pc u hut] at hu
      by_cases hvt : v = t
      · rw [hvt] at hv
        exact absurd (howned q hv).1 (hf.owns_ne hut hu)
      · rw [hf.pc v hvt] at hv
        exact hc.distinct u v q hu hv
  placed := by
    intro q hq
    by_cases hqx : q = x
    · subst hqx
      rcases hplaced hq with h | h
      · exact Or.inl h
      · exact Or.inr ⟨t, h⟩
    · rw [hf.in_iff hqx]
      rcases hc.placed q ((hf.live q hqx).mp hq) with h | ⟨u, hu⟩
      · exact Or.inl h
      · have hut : u ≠ t := by
          rintro rfl
          exact hqx (hf.old q hu)
        refine Or.inr ⟨u, ?_⟩
        rw [hf.pc u hut]
        exact hu
  built := by
    intro u
    by_cases hut : u = t
    · rw [hut]
      exact hbuilt
    · exact hf.builtOk hut (hc.built u)
  limit := by
    intro u
    by_cases hut : u = t
    · rw [hut]
      exact hlimit
    · exact hf.limitOk hut hkeep (hc.limit u)

theorem Counted.not_owned {x : UserPtr} (hc : Counted s) (hx : s.users.In x) (u : τ) :
    (s.pc u).owns ≠ some x := fun h => (hc.owned u x h).2 hx

theorem Counted.entry {x : UserPtr} {f : User → User} (hc : Counted s) (hx : s.users.In x)
    (hu : s'.users = s.users.modify x f) (huid : ∀ u, (f u).uid = u.uid)
    (hns : ∀ u, (f u).userNs = u.userNs) (hpc : ∀ u, u ≠ t → s'.pc u = s.pc u)
    (hrefs : ∀ q, q ≠ x → s'.refs q = s.refs q) (hleaked : ∀ q, q ≠ x → s'.leaked q = s.leaked q)
    (hcount : (f (s.users.obj x)).count = initial x + s'.refs x + s'.leaked x ∧
      0 < (f (s.users.obj x)).count)
    (hmono : s.leaked x ≤ s'.leaked x) (hold : (s.pc t).owns = none)
    (hnew : (s'.pc t).owns = none) (hlimit : LimitOk s' (s'.pc t)) : Counted s' := by
  have hin : s'.users.In x := by
    rw [hu]
    exact hx
  apply hc.frame (t := t) (x := x)
  · refine ⟨hpc, ?_, ?_, ?_, hrefs, hleaked, ?_, fun u _ => hc.not_owned hx u⟩
    · intro ns h q _
      rw [hu]
      exact Iff.rfl
    · intro q _
      rw [hu]
      exact Iff.rfl
    · intro q hq
      rw [hu]
      exact modify_obj_of_ne hq
    · intro q hq
      rw [hold] at hq
      cases hq
  · rw [hu]
    exact hc.hashed.modify huid hns
  · intro _
    rw [hu, modify_obj_self]
    exact hcount
  · intro h
    exact absurd hin h
  · intro q hq
    rw [hnew] at hq
    cases hq
  · intro _
    exact Or.inl hin
  · cases hp : s'.pc t with
    | allocInsert =>
      rw [hp] at hnew
      cases hnew
    | idle | allocNew | dying | limit | inAlloc | oops => trivial
  · exact hlimit
  · intro ns uid hm hxu hl
    rw [hu]
    refine ⟨hm, ?_, lt_of_lt_of_le hl hmono⟩
    rw [modify_obj_uid huid]
    exact hxu

end Refs
end AndroidKernel.Mlimit
