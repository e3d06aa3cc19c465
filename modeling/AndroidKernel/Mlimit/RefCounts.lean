import AndroidKernel.Mlimit.Counted

/-! Every step of every interleaving keeps the counts of the user database. -/

namespace AndroidKernel.Mlimit
variable {us : Users} {ns ns' : Ns} {uid uid' : Uid} {h : BitVec 32} {p q : UserPtr}

namespace Refs
open Lts
variable {τ : Type} {s s' : State τ} {t : τ} {p : UserPtr}

theorem Counted.hold (hc : Counted s) (hp : s.users.In p) (ht : s.pc t = .idle) :
    Counted (s.hold p) := by
  have hcount := hc.count p hp
  apply hc.entry (t := t) (f := fun u => { u with count := u.count + 1 }) hp rfl (fun _ => rfl)
    (fun _ => rfl)
  · exact fun _ _ => rfl
  · intro q hq
    exact Function.update_of_ne hq ..
  · exact fun _ _ => rfl
  · simp only [State.hold, Function.update_self, hcount]
    omega
  · exact le_rfl
  · rw [ht]
    rfl
  · rw [State.hold, ht]
    rfl
  · rw [State.hold, ht]
    trivial

theorem Counted.leak (hc : Counted s) (hp : s.users.In p)
    (ht : s.pc t = .idle ∨ s.pc t = .inAlloc) : Counted (s.leak p) := by
  have hcount := hc.count p hp
  have howns : (s.pc t).owns = none := by
    rcases ht with ht | ht <;> rw [ht] <;> rfl
  apply hc.entry (t := t) (f := fun u => { u with count := u.count + 1 }) hp rfl (fun _ => rfl)
    (fun _ => rfl)
  · exact fun _ _ => rfl
  · exact fun _ _ => rfl
  · intro q hq
    exact Function.update_of_ne hq ..
  · simp only [State.leak, Function.update_self, hcount]
    omega
  · simp [State.leak]
  · exact howns
  · exact howns
  · rcases ht with ht | ht <;> rw [State.leak, ht] <;> trivial

variable [DecidableEq τ]

@[simp]
theorem goto_pc_self (s : State τ) (t : τ) (pc : Pc) : (s.goto t pc).pc t = pc :=
  Function.update_self ..

theorem goto_pc_of_ne {u : τ} (h : u ≠ t) (pc : Pc) : (s.goto t pc).pc u = s.pc u :=
  Function.update_of_ne h ..

theorem Counted.goto {pc : Pc} (hc : Counted s) (hold : (s.pc t).owns = none)
    (hnew : pc.owns = none) (hl : LimitOk s pc) : Counted (s.goto t pc) := by
  have hid : (s.goto t pc).users = s.users.modify rootUser id := by
    simp [State.goto, Users.modify]
  apply hc.entry hc.root hid (fun _ => rfl) (fun _ => rfl) (t := t)
  · intro u hu
    exact goto_pc_of_ne hu pc
  · exact fun _ _ => rfl
  · exact fun _ _ => rfl
  · exact ⟨hc.count _ hc.root, hc.pos _ hc.root⟩
  · exact le_rfl
  · exact hold
  · rw [goto_pc_self]
    exact hnew
  · rw [goto_pc_self]
    exact hl

theorem Counted.setLimit {ns : Ns} {uid : Uid} {m sum : Long} (hc : Counted s)
    (ht : s.pc t = .limit ns uid p m sum) : Counted (setLimit s t uid p m sum) := by
  have hl := hc.limit t
  rw [ht] at hl
  have hp : s.users.In p := ⟨ns, uidhashfn uid, hl.1⟩
  apply hc.entry (t := t) (f := fun u =>
    { u with cumulativeMem := u.cumulativeMem + sum, memMax := m }) hp rfl (fun _ => rfl)
    (fun _ => rfl)
  · intro u hu
    exact goto_pc_of_ne hu .idle
  · exact fun _ _ => rfl
  · exact fun _ _ => rfl
  · exact ⟨hc.count p hp, hc.pos p hp⟩
  · exact le_rfl
  · rw [ht]
    rfl
  · simp [Refs.setLimit, Pc.owns]
  · simp [Refs.setLimit, LimitOk]

theorem Counted.release (hc : Counted s) (ht : (s.pc t).owns = some p) :
    Counted { s.goto t .idle with users := s.users.release p } := by
  have hout : ¬ s.users.In p := (hc.owned t p ht).2
  have hne : p ≠ rootUser := by
    rintro rfl
    exact hout hc.root
  apply hc.frame (t := t) (x := p)
  · refine ⟨?_, ?_, ?_, ?_, ?_, ?_, ?_, ?_⟩
    · intro u hu
      exact goto_pc_of_ne hu .idle
    · exact fun _ _ _ _ => Iff.rfl
    · intro q hq
      simp [Users.release, hq]
    · exact fun _ _ => rfl
    · exact fun _ _ => rfl
    · exact fun _ _ => rfl
    · intro q hq
      rw [ht] at hq
      exact (Option.some_inj.mp hq).symm
    · intro u hu hup
      exact hu (hc.distinct u t p hup ht)
  · exact hc.hashed.release hout
  · exact fun h => absurd h hout
  · exact fun _ => ⟨(hc.outside p hout).1, (hc.outside p hout).2, hne⟩
  · intro q hq
    rw [goto_pc_self] at hq
    cases hq
  · intro hl
    exact absurd rfl (Finset.mem_erase.mp hl).1
  · simp [BuiltOk]
  · simp [LimitOk]
  · intro ns uid hm
    exact absurd ⟨ns, _, hm⟩ hout

theorem Counted.allocate {ns : Ns} {uid : Uid} (hc : Counted s) (ht : s.pc t = .allocNew ns uid)
    (hp : p ∉ s.users.live) : Counted (zalloc s t ns uid p) := by
  have hout : ¬ s.users.In p := by
    rintro ⟨ns, h, hm⟩
    exact hp (hc.hashed.live ns h p hm)
  have hne : p ≠ rootUser := by
    rintro rfl
    exact hout hc.root
  unfold zalloc
  apply hc.frame (t := t) (x := p)
  · refine ⟨?_, ?_, ?_, ?_, ?_, ?_, ?_, ?_⟩
    · intro u hu
      exact goto_pc_of_ne hu _
    · exact fun _ _ _ _ => Iff.rfl
    · intro q hq
      simp [hq]
    · intro q hq
      exact Function.update_of_ne hq ..
    · exact fun _ _ => rfl
    · exact fun _ _ => rfl
    · intro q hq
      rw [ht] at hq
      cases hq
    · intro u _ hup
      exact hp (hc.owned u p hup).1
  · exact hc.hashed.allocate hp _
  · exact fun h => absurd h hout
  · exact fun _ => ⟨(hc.outside p hout).1, (hc.outside p hout).2, hne⟩
  · intro q hq
    rw [goto_pc_self] at hq
    exact ⟨(Option.some_inj.mp hq).symm, Finset.mem_insert_self .., hout⟩
  · intro _
    rw [goto_pc_self]
    exact Or.inr rfl
  · simp [BuiltOk]
  · simp [LimitOk]
  · intro ns uid hm
    exact absurd ⟨ns, _, hm⟩ hout

theorem Counted.allocInsert {ns : Ns} {uid : Uid} (hc : Counted s)
    (ht : s.pc t = .allocInsert ns uid p) : Counted (allocInsert s t ns uid p) := by
  have howns : (s.pc t).owns = some p := by
    rw [ht]
    rfl
  unfold Refs.allocInsert
  cases hl : s.users.lookup ns uid with
  | some up => exact (hc.release howns).hold (t := t) (lookup_in hl) (goto_pc_self ..)
  | none =>
    have hb := hc.built t
    rw [ht] at hb
    obtain ⟨hlive, hout⟩ := hc.owned t p howns
    have hne : p ≠ rootUser := by
      rintro rfl
      exact hout hc.root
    have hin : (uidHashInsert s.users ns uid p).In p := in_insert.mpr (Or.inl rfl)
    apply hc.frame (t := t) (x := p)
    · refine ⟨?_, ?_, ?_, ?_, ?_, ?_, ?_, ?_⟩
      · intro u hu
        exact goto_pc_of_ne hu .idle
      · intro ns' h q hq
        refine mem_table_insert.trans ?_
        simp [hq]
      · exact fun _ _ => Iff.rfl
      · exact fun _ _ => rfl
      · intro q hq
        exact Function.update_of_ne hq ..
      · exact fun _ _ => rfl
      · intro q hq
        rw [howns] at hq
        exact (Option.some_inj.mp hq).symm
      · intro u hu hup
        exact hu (hc.distinct u t p hup howns)
    · exact hc.hashed.add hl hlive hout hb
    · intro _
      have hcount : (s.users.obj p).count = 1 := congrArg User.count hb
      change (s.users.obj p).count = initial p + Function.update s.refs p 1 p + s.leaked p ∧
        0 < (s.users.obj p).count
      rw [hcount, Function.update_self, (hc.outside p hout).2, initial, if_neg hne]
      exact ⟨rfl, one_pos⟩
    · exact fun h => absurd hin h
    · intro q hq
      rw [goto_pc_self] at hq
      cases hq
    · exact fun _ => Or.inl hin
    · simp [BuiltOk]
    · simp [LimitOk]
    · intro ns uid hm
      exact absurd ⟨ns, _, hm⟩ hout

omit [DecidableEq τ] in
theorem Counted.in_of_refs (hc : Counted s) (hr : 0 < s.refs p) : s.users.In p := by
  by_contra hp
  rw [(hc.outside p hp).1] at hr
  exact lt_irrefl 0 hr

theorem Counted.freeUid (hc : Counted s) (ht : s.pc t = .idle) (hr : 0 < s.refs p) :
    Counted (freeUid s t p) := by
  have hin := hc.in_of_refs hr
  have hcount := hc.count p hin
  have hpos := hc.pos p hin
  have howns : (s.pc t).owns = none := by
    rw [ht]
    rfl
  simp only [Refs.freeUid, modify_obj_self]
  split
  · rename_i hz
    have hlast : s.refs p = 1 ∧ s.leaked p = 0 ∧ initial p = 0 := by omega
    have hne : p ≠ rootUser := by
      rintro rfl
      exact absurd hlast.2.2 (by decide)
    have hh : Hashed (s.users.modify p fun u => { u with count := u.count - 1 }) :=
      hc.hashed.modify (fun _ => rfl) fun _ => rfl
    have hout : ¬ (uidHashRemove (s.users.modify p fun u =>
        { u with count := u.count - 1 }) p).In p := fun h => (hh.in_remove.mp h).1 rfl
    apply hc.frame (t := t) (x := p)
    · refine ⟨?_, ?_, ?_, ?_, ?_, ?_, ?_, fun u _ => hc.not_owned hin u⟩
      · intro u hu
        exact goto_pc_of_ne hu _
      · intro ns h q hq
        exact List.mem_erase_of_ne hq
      · exact fun _ _ => Iff.rfl
      · intro q hq
        exact Function.update_of_ne hq ..
      · intro q hq
        exact Function.update_of_ne hq ..
      · exact fun _ _ => rfl
      · intro q hq
        rw [howns] at hq
        cases hq
    · exact hh.drop
    · exact fun h => absurd h hout
    · intro _
      refine ⟨?_, hlast.2.1, hne⟩
      change Function.update s.refs p (s.refs p - 1) p = 0
      rw [Function.update_self, hlast.1]
    · intro q hq
      rw [goto_pc_self] at hq
      obtain ⟨ns, h, hm⟩ := hin
      exact ⟨(Option.some_inj.mp hq).symm, hc.hashed.live ns h p hm, hout⟩
    · intro _
      rw [goto_pc_self]
      exact Or.inr rfl
    · simp [BuiltOk]
    · simp [LimitOk]
    · intro ns uid _ _ hl
      rw [hlast.2.1] at hl
      exact absurd hl (lt_irrefl 0)
  · rename_i hz
    apply hc.entry (t := t) (f := fun u => { u with count := u.count - 1 }) hin rfl
      (fun _ => rfl) (fun _ => rfl)
    · exact fun _ _ => rfl
    · intro q hq
      exact Function.update_of_ne hq ..
    · exact fun _ _ => rfl
    · simp only [Function.update_self]
      omega
    · exact le_rfl
    · exact howns
    · exact howns
    · rw [ht]
      trivial

omit [DecidableEq τ] in
theorem counted_boot : Counted (boot : State τ) := by
  have hmem : ∀ ns h p, p ∈ bootUsers.table ns h →
      p = rootUser ∧ ns = initUserNs ∧ h = uidhashfn 0 := by
    intro ns h p hp
    simp only [bootUsers] at hp
    split at hp
    · rename_i hnh
      exact ⟨List.mem_singleton.mp hp, hnh.1, hnh.2⟩
    · cases hp
  have hroot : bootUsers.In rootUser := ⟨initUserNs, uidhashfn 0, by simp [bootUsers]⟩
  have hin : ∀ p, bootUsers.In p → p = rootUser := by
    rintro p ⟨ns, h, hp⟩
    exact (hmem ns h p hp).1
  refine ⟨⟨?_, ?_, ?_, ?_, ?_⟩, ?_, ?_, ?_, hroot, ?_, ?_, ?_, ?_, ?_⟩
  · intro ns h p hp
    rw [(hmem ns h p hp).1]
    exact Finset.mem_singleton_self _
  · intro ns h p hp
    rw [(hmem ns h p hp).2.1]
    rfl
  · intro ns h p hp
    rw [(hmem ns h p hp).2.2]
    rfl
  · intro ns h
    change (if ns = initUserNs ∧ h = uidhashfn 0 then [rootUser] else []).Nodup
    split
    · exact List.nodup_singleton _
    · exact List.nodup_nil
  · intro ns h p q hp hq _
    rw [(hmem ns h p hp).1, (hmem ns h q hq).1]
  · intro p hp
    rw [hin p hp]
    rfl
  · intro p _
    exact Nat.zero_lt_two
  · exact fun _ _ => ⟨rfl, rfl⟩
  · intro t p h
    cases h
  · intro t u p h
    cases h
  · intro p hp
    rw [Finset.mem_singleton.mp hp]
    exact Or.inl hroot
  · exact fun _ => trivial
  · exact fun _ => trivial

theorem Counted.startLimit {ns : Ns} {uid : Uid} {m sum : Long} (hc : Counted s)
    (ht : s.pc t = .idle) (hl : s.users.lookup ns uid = some p) :
    Counted ((s.leak p).goto t (.limit ns uid p m sum)) := by
  have howns : ((s.leak p).pc t).owns = none := by
    rw [State.leak, ht]
    rfl
  have hmem : p ∈ s.users.chain ns uid := lookup_mem hl
  apply (hc.leak (lookup_in hl) (Or.inl ht)).goto howns rfl
  refine ⟨hmem, ?_, ?_⟩
  · rw [← lookup_uid hl]
    exact modify_obj_uid (f := fun u => { u with count := u.count + 1 }) (fun _ => rfl) p
  · simp [State.leak]

theorem Counted.next {a : Act τ} (hc : Counted s) (h : next s a = some s') : Counted s' := by
  cases step_of_next h with
  | allocFound t ns uid p ht hl | findFound t ns uid p ht hl => exact hc.hold (lookup_in hl) ht
  | findMiss | badIdle => exact hc
  | allocMiss t ns uid ht => exact hc.goto (by rw [ht]; rfl) rfl trivial
  | free t p ht hr => exact hc.freeUid ht hr
  | limitFound t ns uid m sum p ht hl => exact hc.startLimit ht hl
  | limitMiss t ns uid m sum ht hl => exact hc.goto (by rw [ht]; rfl) rfl trivial
  | pagesFound t ns p ht hs hu hl =>
    have howns : ((s.leak p).pc t).owns = none := by
      rw [State.leak, ht]
      rfl
    exact (hc.leak (lookup_in hl) (Or.inl ht)).goto howns rfl trivial
  | pages t ns ht => exact hc.goto (by rw [ht]; rfl) rfl trivial
  | badFound t ns p ht hu hl => exact hc.leak (lookup_in hl) ht
  | badMiss t ns ht hu =>
    have howns : (s.pc t).owns = none := by
      rcases ht with ht | ht <;> rw [ht] <;> rfl
    exact hc.goto howns rfl trivial
  | zallocFails t ns uid ht => exact hc.goto (by rw [ht]; rfl) rfl trivial
  | zalloc t ns uid p ht hp => exact hc.allocate ht hp
  | insertNew t new ns uid p ht => exact hc.allocInsert ht
  | destroy t new p ht => exact hc.release (by rw [ht]; rfl)
  | limit t new ns uid p m sum ht => exact hc.setLimit ht
  | pagesEnd t new ht => exact hc.goto (by rw [ht]; rfl) rfl trivial

theorem counted_run {as : List (Act τ)} (h : exec next as boot = some s) : Counted s :=
  exec_invariant (fun _ _ _ hs hn => hs.next hn) counted_boot h

end Refs
end AndroidKernel.Mlimit
