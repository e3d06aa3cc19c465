import AndroidKernel.Lib.Words
import AndroidKernel.Mlimit.Effect

/-! Debits against kills, over runs of the OOM killer. What is taken off a user is the memory of
the process that is selected, at the time it is selected; what is killed is the process itself or
a child of it, or nothing if it is exiting, and a process that has not exited yet can be selected
again. -/

namespace AndroidKernel.Mlimit
open Lts Outcome
variable {s s' : Sys} {current p c : Tid} {memcg : Option Memcg} {nodemask : Option Nodemask}
  {totalpages : Long}

def sacrificed (s : Sys) (current p : Tid) (memcg : Option Memcg) (nodemask : Option Nodemask)
    (totalpages : Long) (c : Tid) : Bool :=
  (s.tasks.task c).mm ≠ (s.tasks.task p).mm ∧
    oomBadness s.users s.tasks current c memcg nodemask totalpages ≠ 0

theorem takeChild_cases (best : Best) (c : Tid) :
    takeChild s current p memcg nodemask totalpages best c = best ∨
      sacrificed s current p memcg nodemask totalpages c = true ∧
        (takeChild s current p memcg nodemask totalpages best c).1 = some c := by
  unfold takeChild
  by_cases hm : (s.tasks.task c).mm = (s.tasks.task p).mm
  · rw [if_pos hm]
    exact Or.inl rfl
  · rw [if_neg hm]
    unfold better
    split
    · rename_i hlt
      have hne : oomBadness s.users s.tasks current c memcg nodemask totalpages ≠ 0 := by
        intro hz
        dsimp only at hlt
        rw [hz] at hlt
        exact absurd hlt (by bv_omega)
      exact Or.inr ⟨decide_eq_true ⟨hm, hne⟩, rfl⟩
    · exact Or.inl rfl

theorem foldl_takeChild_cases (cs : List Tid) (best : Best) :
    cs.foldl (takeChild s current p memcg nodemask totalpages) best = best ∨
      ∃ c ∈ cs, sacrificed s current p memcg nodemask totalpages c = true ∧
        (cs.foldl (takeChild s current p memcg nodemask totalpages) best).1 = some c := by
  induction cs generalizing best with
  | nil => exact Or.inl rfl
  | cons c cs ih =>
    rw [List.foldl_cons]
    rcases ih (takeChild s current p memcg nodemask totalpages best c) with h | ⟨d, hd, hs, hf⟩
    · rcases takeChild_cases (s := s) (p := p) best c with hb | ⟨hs, hb⟩
      · exact Or.inl (h.trans hb)
      · exact Or.inr ⟨c, List.mem_cons_self .., hs, by rw [h, hb]⟩
    · exact Or.inr ⟨d, List.mem_cons_of_mem _ hd, hs, hf⟩

theorem chooseVictim_cases : chooseVictim s current p memcg nodemask totalpages = p ∨
    ∃ c ∈ s.tasks.childrenOf p, sacrificed s current p memcg nodemask totalpages c = true ∧
      chooseVictim s current p memcg nodemask totalpages = c := by
  rw [chooseVictim_eq_foldl]
  rcases foldl_takeChild_cases (s := s) (p := p) (s.tasks.childrenOf p) (none, 0) with
    h | ⟨c, hc, hs, hf⟩
  · rw [h]
    exact Or.inl rfl
  · exact Or.inr ⟨c, hc, hs, by rw [hf]; rfl⟩

theorem findLockTaskMm_self {w : Tasks} (h : (w.task p).mm.isSome = true) :
    findLockTaskMm w p = some p := by
  unfold findLockTaskMm Tasks.ring
  exact List.find?_cons_of_pos h

def limited (s : Sys) (u : UserPtr) : Bool := (s.users.obj u).memMax ≠ -1

/-- The books stay exact if the OOM killer goes for `p`. A process of a limited user is debited,
is not exiting, dies itself, has not been killed before, and is not larger than what its user is
charged. A process of a user without a limit is not debited, and no process of a limited user
dies in its place. -/
def DebitsExactly (s : Sys) (current p : Tid) (memcg : Option Memcg) (nodemask : Option Nodemask)
    (totalpages : Long) (guard : Bool) : Prop :=
  if limited s (s.tasks.task p).user then
    guard = true ∧ (s.tasks.task p).exiting = false ∧ (s.tasks.task p).mm.isSome = true ∧
    (∀ c ∈ s.tasks.childrenOf p, sacrificed s current p memcg nodemask totalpages c = false) ∧
    p ∉ (s.victims (s.tasks.task p).user).map Prod.fst ∧
    (rssBytes s.tasks p).toNat ≤ (s.cumulative (s.tasks.task p).user).toInt
  else
    guard = false ∧ ((s.tasks.task p).exiting = true ∨
      (∀ t ∈ s.tasks.ring p, limited s (s.tasks.task t).user = false) ∧
      ∀ c ∈ s.tasks.childrenOf p, sacrificed s current p memcg nodemask totalpages c = true →
        ∀ t ∈ s.tasks.ring c, limited s (s.tasks.task t).user = false)

def Exact (s : Sys) : Call → Prop
  | .outOfMemory current env => ∀ p ∈ oomTarget s current env,
    DebitsExactly s current p none env.nodemask env.totalpages (guarded s p)
  | .memCgroupOutOfMemory current memcg limit _ => ∀ p ∈ memcgTarget s current memcg limit,
    DebitsExactly s current p (some memcg) none limit true
  | .others _ => True
  | .setMlimit .. | .alloc _ => False

theorem victim_self (hx : (s.tasks.task p).exiting = false) (hm : (s.tasks.task p).mm.isSome = true)
    (hc : ∀ c ∈ s.tasks.childrenOf p,
      sacrificed s current p memcg nodemask totalpages c = false) :
    victim s current p memcg nodemask totalpages = some p := by
  have hself : chooseVictim s current p memcg nodemask totalpages = p := by
    rcases chooseVictim_cases (s := s) (p := p) with h | ⟨c, hmem, hs, -⟩
    · exact h
    · rw [hc c hmem] at hs
      cases hs
  rw [victim, hx, if_neg Bool.false_ne_true, hself, findLockTaskMm_self hm]

theorem victim_cases {v : Tid} (h : victim s current p memcg nodemask totalpages = some v) :
    (s.tasks.task p).exiting = false ∧ (v ∈ s.tasks.ring p ∨ ∃ c ∈ s.tasks.childrenOf p,
      sacrificed s current p memcg nodemask totalpages c = true ∧ v ∈ s.tasks.ring c) := by
  unfold victim at h
  split at h
  · cases h
  · rename_i hx
    rw [Bool.not_eq_true] at hx
    have hring : v ∈ s.tasks.ring (chooseVictim s current p memcg nodemask totalpages) :=
      List.mem_of_find?_eq_some h
    refine ⟨hx, ?_⟩
    rcases chooseVictim_cases (s := s) (p := p) with hc | ⟨c, hmem, hs, hc⟩
    · rw [hc] at hring
      exact Or.inl hring
    · rw [hc] at hring
      exact Or.inr ⟨c, hmem, hs, hring⟩

def Sys.lost (s : Sys) (u : UserPtr) : ℕ := ((s.victims u).map fun v => v.2.toNat).sum

structure Books (s₀ s : Sys) (u : UserPtr) : Prop where
  limit : (s.users.obj u).memMax = (s₀.users.obj u).memMax
  debits : limited s₀ u = true → s.debits u = (s.victims u).map Prod.snd
  balance : limited s₀ u = true → (s.cumulative u).toInt + s.lost u = (s₀.cumulative u).toInt
  once : limited s₀ u = true → ((s.victims u).map Prod.fst).Nodup
  unlimited : limited s₀ u = false → s.debits u = [] ∧ s.cumulative u = s₀.cumulative u
  nonneg : 0 ≤ (s₀.cumulative u).toInt → 0 ≤ (s.cumulative u).toInt

variable {s₀ : Sys} {u : UserPtr}

theorem Books.same (h : Books s₀ s u) (hl : (s'.users.obj u).memMax = (s.users.obj u).memMax)
    (hc : s'.cumulative u = s.cumulative u) (hd : s'.debits u = s.debits u)
    (hv : limited s₀ u = true → s'.victims u = s.victims u) : Books s₀ s' u where
  limit := hl.trans h.limit
  debits := fun hlim => by rw [hd, hv hlim, h.debits hlim]
  balance := fun hlim => by
    unfold Sys.lost
    rw [hc, hv hlim]
    exact h.balance hlim
  once := fun hlim => by
    rw [hv hlim]
    exact h.once hlim
  unlimited := fun hlim => by
    rw [hd, hc]
    exact h.unlimited hlim
  nonneg := fun h0 => by
    rw [hc]
    exact h.nonneg h0

theorem Books.kill (h : Books s₀ s u) (hl : (s'.users.obj u).memMax = (s.users.obj u).memMax)
    (hlim : limited s₀ u = true) {a : Long} (hc : s'.cumulative u = s.cumulative u - a)
    (hd : s'.debits u = a :: s.debits u) (hv : s'.victims u = (p, a) :: s.victims u)
    (hnew : p ∉ (s.victims u).map Prod.fst) (hle : (a.toNat : ℤ) ≤ (s.cumulative u).toInt) :
    Books s₀ s' u := by
  have hsub : (s'.cumulative u).toInt = (s.cumulative u).toInt - a.toNat := by
    rw [hc]
    exact Words.toInt_sub_of_toNat_le hle
  refine ⟨hl.trans h.limit, fun _ => ?_, fun _ => ?_, fun _ => ?_, fun hno => ?_, fun _ => ?_⟩
  · rw [hd, hv, h.debits hlim, List.map_cons]
  · have hb := h.balance hlim
    have hlost : s'.lost u = a.toNat + s.lost u := by
      simp [Sys.lost, hv]
    rw [hsub, hlost]
    push_cast
    omega
  · rw [hv, List.map_cons]
    exact List.nodup_cons.mpr ⟨hnew, h.once hlim⟩
  · rw [hlim] at hno
    cases hno
  · rw [hsub]
    omega

theorem limited_congr (h : (s'.users.obj u).memMax = (s.users.obj u).memMax) :
    limited s' u = limited s u := by
  unfold limited
  rw [h]

theorem Books.target {guard : Bool} (h : Books s₀ s u) (hw : Within s s')
    (he : Effect s s' (if guard then [p] else [])
      (victim s current p memcg nodemask totalpages).toList)
    (hx : DebitsExactly s current p memcg nodemask totalpages guard) : Books s₀ s' u := by
  have hl := hw.users.memMax u
  have hlim := limited_congr h.limit
  have hc := he.cumulative u
  have hd := he.debits u
  have hv := he.victims u
  unfold DebitsExactly at hx
  split at hx
  · rename_i hp
    obtain ⟨rfl, hexit, hmm, hchild, hnew, hle⟩ := hx
    rw [if_pos rfl, takenFrom_singleton] at hc hd
    rw [victim_self hexit hmm hchild, Option.toList_some, lostBy_singleton] at hv
    by_cases hu : (s.tasks.task p).user = u
    · subst hu
      rw [if_pos rfl] at hc hd hv
      rw [List.sum_singleton] at hc
      exact h.kill hl (hlim.symm.trans hp) hc hd hv hnew hle
    · rw [if_neg hu] at hc hd hv
      rw [List.sum_nil] at hc
      exact h.same hl (hc.trans (BitVec.sub_zero _)) hd fun _ => hv
  · obtain ⟨rfl, hvictim⟩ := hx
    rw [if_neg Bool.false_ne_true, takenFrom_nil] at hc hd
    rw [List.sum_nil] at hc
    refine h.same hl (hc.trans (BitVec.sub_zero _)) hd fun hlim' => ?_
    cases hvic : victim s current p memcg nodemask totalpages with
    | none =>
      rw [hvic] at hv
      exact hv
    | some v =>
      -- nobody who may die here belongs to a limited user
      have hno : limited s (s.tasks.task v).user = false := by
        obtain ⟨hexit, hmem⟩ := victim_cases hvic
        rcases hvictim with hexit' | ⟨hown, hchild⟩
        · rw [hexit] at hexit'
          cases hexit'
        · rcases hmem with hmem | ⟨c, hc, hs, hmem⟩
          · exact hown v hmem
          · exact hchild c hc hs v hmem
      have hne : (s.tasks.task v).user ≠ u := by
        intro heq
        rw [heq, hlim, hlim'] at hno
        cases hno
      rw [hvic, Option.toList_some, lostBy_singleton, if_neg hne] at hv
      exact hv

theorem Books.idle (h : Books s₀ s u) (hw : Within s s') (he : Effect s s' [] []) :
    Books s₀ s' u := by
  have hc := he.cumulative u
  rw [takenFrom_nil, List.sum_nil] at hc
  exact h.same (hw.users.memMax u) (hc.trans (BitVec.sub_zero _)) (he.debits u)
    fun _ => he.victims u

theorem Books.perform {c : Call} (h : Books s₀ s u) (hx : Exact s c)
    (hs : perform s c = some s') : Books s₀ s' u := by
  cases c with
  | setMlimit | alloc => cases hx
  | others w =>
    obtain rfl := Option.some_inj.mp hs
    exact h.same rfl rfl rfl fun _ => rfl
  | outOfMemory current env =>
    have hok := ok_of_toOption hs
    have hw := within_outOfMemory hok
    have he := outOfMemory_effect hok
    cases ht : oomTarget s current env with
    | none =>
      rw [ht] at he
      exact h.idle hw he
    | some p =>
      rw [ht] at he
      simp only [Option.toList_some, List.filter_cons, List.filter_nil, List.flatMap_cons,
        List.flatMap_nil, List.append_nil] at he
      exact h.target hw he (hx p ht)
  | memCgroupOutOfMemory current memcg limit env =>
    have hok := ok_of_toOption hs
    have hw := within_memCgroupOutOfMemory hok
    have he := memCgroupOutOfMemory_effect hok
    cases ht : memcgTarget s current memcg limit with
    | none =>
      rw [ht] at he
      exact h.idle hw he
    | some p =>
      rw [ht] at he
      simp only [Option.toList_some, List.flatMap_cons, List.flatMap_nil, List.append_nil] at he
      have he' : Effect s s' (if true then [p] else [])
          (victim s current p (some memcg) none limit).toList := he
      exact h.target hw he' (hx p ht)

instance (s : Sys) (current p : Tid) (memcg : Option Memcg) (nodemask : Option Nodemask)
    (totalpages : Long) (guard : Bool) :
    Decidable (DebitsExactly s current p memcg nodemask totalpages guard) :=
  inferInstanceAs (Decidable (if limited s (s.tasks.task p).user then _ ∧ _ ∧ _ ∧ _ ∧ _ ∧ _
    else _ ∧ (_ ∨ _ ∧ _)))

instance (s : Sys) : ∀ c, Decidable (Exact s c)
  | .outOfMemory current env => inferInstanceAs (Decidable (∀ p ∈ oomTarget s current env, _))
  | .memCgroupOutOfMemory current memcg limit _ =>
    inferInstanceAs (Decidable (∀ p ∈ memcgTarget s current memcg limit, _))
  | .others _ => inferInstanceAs (Decidable True)
  | .setMlimit .. | .alloc _ => inferInstanceAs (Decidable False)

end AndroidKernel.Mlimit
