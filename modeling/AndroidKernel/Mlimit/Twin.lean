import AndroidKernel.Mlimit.Agree

/-! Two runs of `set_mlimit` calls side by side, one of them without the calls for other uids. -/

namespace AndroidKernel.Mlimit
open Lts Outcome
variable {s₀ s s' t : Sys} {u uid : Uid} {U v : UserPtr} {ns : Ns} {m sum : Long} {c : Call}
  {cs : List Call} {e : AllocEnv}

def Configures : Call → Prop
  | .setMlimit .. | .others _ => True
  | .alloc _ | .outOfMemory .. | .memCgroupOutOfMemory .. => False

/-- The calls of `set_mlimit` for other uids are left out. -/
def concerns (u : Uid) : Call → Bool
  | .setMlimit _ uid _ => uid = u
  | .alloc _ | .outOfMemory .. | .memCgroupOutOfMemory .. | .others _ => true

def limitFor (us : Users) (U : UserPtr) : Call → Option Long
  | .setMlimit ns uid m => if us.lookup ns uid = some U then some m else none
  | .alloc _ | .outOfMemory .. | .memCgroupOutOfMemory .. | .others _ => none

def lastLimit (us : Users) (U : UserPtr) (cs : List Call) : Option Long :=
  (cs.filterMap (limitFor us U)).getLast?

theorem withLimit_of_ne (h : v ≠ U) (s : Sys) (uid : Uid) (sum m : Long) :
    ((withLimit s U uid sum m).users.obj v) = s.users.obj v := by
  unfold withLimit Users.get
  rw [modify_obj_of_ne h, modify_obj_of_ne h]

theorem withLimit_cumulative_self (s : Sys) (U : UserPtr) (uid : Uid) (sum m : Long) :
    (withLimit s U uid sum m).cumulative U = sum := by
  unfold Sys.cumulative withLimit
  rw [modify_obj_self]

theorem withLimit_cumulative_of_ne (h : v ≠ U) (s : Sys) (uid : Uid) (sum m : Long) :
    (withLimit s U uid sum m).cumulative v = s.cumulative v := by
  unfold Sys.cumulative
  rw [withLimit_of_ne h]

theorem perform_configures (hc : Configures c) (h : perform s c = some s') :
    (∃ w, c = .others w ∧ s' = { s with tasks := w }) ∨
    ∃ ns uid m v sum, c = .setMlimit ns uid m ∧ s.users.lookup ns uid = some v ∧
      sumRss s.tasks uid s.tasks.processes (s.cumulative v) = some sum ∧
      s' = withLimit s v uid sum m := by
  cases c with
  | others w => exact Or.inl ⟨w, rfl, (Option.some_inj.mp h).symm⟩
  | setMlimit ns uid m =>
    obtain ⟨⟨r, ret⟩, hr, rfl⟩ := ok_of_map_toOption h
    obtain ⟨v, hv, hs, rfl⟩ := setMlimit_ok hr
    exact Or.inr ⟨ns, uid, m, v, ret, rfl, hv, hs, rfl⟩
  | alloc | outOfMemory | memCgroupOutOfMemory => cases hc

theorem memMax_run {us : Users} (hl : ∀ ns uid, s.users.lookup ns uid = us.lookup ns uid)
    (hcs : ∀ c ∈ cs, Configures c) (h : exec perform cs s = some s') (U : UserPtr) :
    (s'.users.obj U).memMax = (lastLimit us U cs).getD (s.users.obj U).memMax := by
  induction cs generalizing s with
  | nil =>
    obtain rfl := Option.some_inj.mp h
    rfl
  | cons c cs ih =>
    obtain ⟨r, hr, h⟩ := exec_cons_eq_some.mp h
    have htail := fun b hb => hcs b (List.mem_cons_of_mem c hb)
    obtain ⟨w, rfl, rfl⟩ | ⟨ns, uid, m, v, sum, rfl, hv, -, rfl⟩ :=
      perform_configures (hcs c (List.mem_cons_self ..)) hr
    · exact ih (s := { s with tasks := w }) hl htail h
    · have hl' : ∀ ns' uid', (withLimit s v uid sum m).users.lookup ns' uid' =
          us.lookup ns' uid' := fun ns' uid' => (withLimit_lookup ..).trans (hl ns' uid')
      rw [ih hl' htail h]
      rw [hl] at hv
      unfold lastLimit
      by_cases hU : v = U
      · subst hU
        rw [List.filterMap_cons_some (b := m) (by simp [limitFor, hv]), List.getLast?_cons,
          withLimit_memMax_self]
        rfl
      · rw [List.filterMap_cons_none (by simp [limitFor, hv, hU]),
          withLimit_of_ne (fun h => hU h.symm)]

structure Twin (u : Uid) (s₀ s t : Sys) : Prop where
  tasks : t.tasks = s.tasks
  log : s.log = s₀.log
  left : ∀ ns uid, s.users.lookup ns uid = s₀.users.lookup ns uid
  right : ∀ ns uid, t.users.lookup ns uid = s₀.users.lookup ns uid
  memMax : ∀ v, (s₀.users.obj v).uid = u → (t.users.obj v).memMax = (s.users.obj v).memMax
  cumulative : ∀ v, (s₀.users.obj v).uid = u → t.cumulative v = s.cumulative v
  rest : ∀ v, (s₀.users.obj v).uid ≠ u → (t.users.obj v).memMax = (s₀.users.obj v).memMax
  user : s.user = u → u ≠ 0 → t.user = u ∧ s.start = true ∧ t.start = true
  only : t.user = 0 ∨ t.user = u

theorem Twin.others (h : Twin u s₀ s t) (w : Tasks) :
    Twin u s₀ { s with tasks := w } { t with tasks := w } :=
  ⟨rfl, h.log, h.left, h.right, h.memMax, h.cumulative, h.rest, h.user, h.only⟩

theorem Twin.both (h : Twin u s₀ s t) (hv : (s₀.users.obj v).uid = u) (sum m : Long) :
    Twin u s₀ (withLimit s v u sum m) (withLimit t v u sum m) where
  tasks := h.tasks
  log := h.log
  left := fun ns uid => (withLimit_lookup ..).trans (h.left ns uid)
  right := fun ns uid => (withLimit_lookup ..).trans (h.right ns uid)
  memMax := fun w hw => by
    by_cases hwv : w = v
    · subst hwv
      rw [withLimit_memMax_self, withLimit_memMax_self]
    · rw [withLimit_of_ne hwv, withLimit_of_ne hwv, h.memMax w hw]
  cumulative := fun w hw => by
    by_cases hwv : w = v
    · subst hwv
      rw [withLimit_cumulative_self, withLimit_cumulative_self]
    · rw [withLimit_cumulative_of_ne hwv, withLimit_cumulative_of_ne hwv, h.cumulative w hw]
  rest := fun w hw => by
    have hwv : w ≠ v := by
      rintro rfl
      exact hw hv
    rw [withLimit_of_ne hwv, h.rest w hw]
  user := fun _ _ => ⟨rfl, rfl, rfl⟩
  only := Or.inr rfl

theorem Twin.skip (h : Twin u s₀ s t) (hv : (s₀.users.obj v).uid = uid) (hne : uid ≠ u)
    (sum m : Long) : Twin u s₀ (withLimit s v uid sum m) t := by
  have hother : ∀ w, (s₀.users.obj w).uid = u → w ≠ v := by
    rintro w hw rfl
    exact hne (hv.symm.trans hw)
  refine ⟨h.tasks, h.log, fun ns uid => (withLimit_lookup ..).trans (h.left ns uid), h.right,
    fun w hw => ?_, fun w hw => ?_, h.rest, fun hu => absurd hu hne, h.only⟩
  · rw [withLimit_of_ne (hother w hw), h.memMax w hw]
  · rw [withLimit_cumulative_of_ne (hother w hw), h.cumulative w hw]

theorem Twin.run (h : Twin u s₀ s t) (hcs : ∀ c ∈ cs, Configures c)
    (hs : exec perform cs s = some s') :
    ∃ t', exec perform (cs.filter (concerns u)) t = some t' ∧ Twin u s₀ s' t' := by
  refine exec_filter (R := Twin u s₀) (A := Configures) ?_ ?_ hcs h hs
  · intro s t c s' h hc hsel hstep
    obtain ⟨w, rfl, rfl⟩ | ⟨ns, uid, m, v, sum, rfl, hv, hsum, rfl⟩ := perform_configures hc hstep
    · exact ⟨_, rfl, h.others w⟩
    · obtain rfl : uid = u := of_decide_eq_true hsel
      rw [h.left] at hv
      have huid := lookup_uid hv
      have hsum' : sumRss t.tasks uid t.tasks.processes (t.cumulative v) = some sum := by
        rw [h.tasks, h.cumulative v huid]
        exact hsum
      refine ⟨_, ?_, h.both huid sum m⟩
      unfold perform
      dsimp only
      rw [setMlimit_of_found ((h.right ..).trans hv) hsum']
      rfl
  · intro s t c s' h hc hsel hstep
    obtain ⟨w, rfl, rfl⟩ | ⟨ns, uid, m, v, sum, rfl, hv, hsum, rfl⟩ := perform_configures hc hstep
    · cases hsel
    · have hne : uid ≠ u := of_decide_eq_false hsel
      rw [h.left] at hv
      exact h.skip (lookup_uid hv) hne sum m

end AndroidKernel.Mlimit
