import AndroidKernel.Lib.Runs
import AndroidKernel.Sched.Groups

/-! Quotas over the tree of task groups, `tg_set_cfs_bandwidth` with `__cfs_schedulable` of
`hw4/kernel/sched/core.c`. -/

namespace AndroidKernel.Groups
open Lts RoseWalk

/-- `period` and `quota` of a `cfs_bandwidth`, in ns; `RUNTIME_INF` is no quota. -/
structure Cfs where
  period : ℕ
  quota : Option ℕ
deriving DecidableEq, Repr

/-- `hierarchal_quota` is a ratio in units of `2^-20`. -/
structure Quotas (τ : Type*) where
  cfs : τ → Cfs
  hierarchalQuota : τ → Option ℕ

structure SchedulableData (τ : Type*) where
  tg : τ
  period : ℕ
  quota : Option ℕ

/-- An `unsigned long` has 32 bits. -/
def toRatio (period runtime : ℕ) : ℕ := runtime * 2 ^ 20 % 2 ^ 64 / period % 2 ^ 32

/-- `tg_get_cfs_period` and `tg_get_cfs_quota`, in µs. Both were written through a `long` and fit
one. -/
def tgGetCfsPeriod (c : Cfs) : ℕ := c.period / 1000

def tgGetCfsQuota (c : Cfs) : Option ℕ := c.quota.map (· / 1000)

variable {τ : Type*} [DecidableEq τ]

def normalizeCfsQuota (d : SchedulableData τ) (cfs : τ → Cfs) (tg : τ) : Option ℕ :=
  if tg = d.tg then d.quota.map (toRatio d.period)
  else (tgGetCfsQuota (cfs tg)).map (toRatio (tgGetCfsPeriod (cfs tg)))

def Quotas.setHierarchal (s : Quotas τ) (tg : τ) (quota : Option ℕ) : Quotas τ :=
  { s with hierarchalQuota := Function.update s.hierarchalQuota tg quota }

@[simp] theorem Quotas.setHierarchal_self (s : Quotas τ) (tg : τ) (quota : Option ℕ) :
    (s.setHierarchal tg quota).hierarchalQuota tg = quota :=
  Function.update_self ..

theorem Quotas.setHierarchal_of_ne {s : Quotas τ} {tg x : τ} {quota : Option ℕ} (hx : x ≠ tg) :
    (s.setHierarchal tg quota).hierarchalQuota x = s.hierarchalQuota x :=
  Function.update_of_ne hx ..

def eInval : ℤ := 22

def tgCfsSchedulableDown (h : Hierarchy τ) (d : SchedulableData τ) (tg : τ) (s : Quotas τ) :
    ℤ × Quotas τ :=
  match h.parent tg with
  | none => (0, s.setHierarchal tg none)
  | some parent =>
    match normalizeCfsQuota d s.cfs tg, s.hierarchalQuota parent with
    | none, parentQuota => (0, s.setHierarchal tg parentQuota)
    | some quota, none => (0, s.setHierarchal tg (some quota))
    | some quota, some parentQuota =>
      if parentQuota < quota then (-eInval, s) else (0, s.setHierarchal tg (some quota))

omit [DecidableEq τ] in
def tgNop (_ : τ) (s : Quotas τ) : ℤ × Quotas τ := (0, s)

/-- `__cfs_schedulable`; `walk_tg_tree` comes to what the recursion does, by `walkTgTreeFrom_spec`. -/
def cfsSchedulable (h : Hierarchy τ) (t : Rose τ) (s : Quotas τ) (tg : τ) (period : ℕ)
    (quota : Option ℕ) : ℤ × Quotas τ :=
  t.walk (tgCfsSchedulableDown h
    ⟨tg, if quota = none then period else period / 1000, quota.map (· / 1000)⟩) tgNop s

def minCfsQuotaPeriod : ℕ := 1000000

def maxCfsQuotaPeriod : ℕ := 1000000000

def tgSetCfsBandwidth (h : Hierarchy τ) (t : Rose τ) (s : Quotas τ) (tg : τ) (period : ℕ)
    (quota : Option ℕ) : ℤ × Quotas τ :=
  if tg = t.root then (-eInval, s)
  else if (∃ q ∈ quota, q < minCfsQuotaPeriod) ∨ period < minCfsQuotaPeriod then (-eInval, s)
  else if maxCfsQuotaPeriod < period then (-eInval, s)
  else
    let (ret, s) := cfsSchedulable h t s tg period quota
    if ret ≠ 0 then (ret, s)
    else (0, { s with cfs := Function.update s.cfs tg ⟨period, quota⟩ })

def tgSetCfsQuota (h : Hierarchy τ) (t : Rose τ) (s : Quotas τ) (tg : τ) (us : ℤ) : ℤ × Quotas τ :=
  tgSetCfsBandwidth h t s tg (s.cfs tg).period (if us < 0 then none else some (us.toNat * 1000))

def tgSetCfsPeriod (h : Hierarchy τ) (t : Rose τ) (s : Quotas τ) (tg : τ) (us : ℤ) : ℤ × Quotas τ :=
  tgSetCfsBandwidth h t s tg (us * 1000 % 2 ^ 64).toNat (s.cfs tg).quota

inductive Write (τ : Type*)
  | quota (tg : τ) (us : ℤ)
  | period (tg : τ) (us : ℤ)

def IsLong (us : ℤ) : Prop := -2 ^ 31 ≤ us ∧ us < 2 ^ 31

instance (us : ℤ) : Decidable (IsLong us) := inferInstanceAs (Decidable (_ ∧ _))

def next (h : Hierarchy τ) (t : Rose τ) (s : Quotas τ) : Write τ → Option (Quotas τ)
  | .quota tg us => if IsLong us then some (tgSetCfsQuota h t s tg us).2 else none
  | .period tg us => if IsLong us then some (tgSetCfsPeriod h t s tg us).2 else none

def ratio (cfs : τ → Cfs) (tg : τ) : Option ℕ :=
  (tgGetCfsQuota (cfs tg)).map (toRatio (tgGetCfsPeriod (cfs tg)))

omit [DecidableEq τ] in
inductive Below : Rose τ → τ → τ → Prop
  | here {a g : τ} {ts : List (Rose τ)} (hg : g ∈ forest ts) : Below (.node a ts) a g
  | there {a g x : τ} {t : Rose τ} {ts : List (Rose τ)} (ht : t ∈ ts) (hb : Below t a g) :
      Below (.node x ts) a g

/-- No group has a larger share than one above it. -/
def Schedulable (t : Rose τ) (r : τ → Option ℕ) : Prop :=
  ∀ a g, Below t a g → ∀ b ∈ r a, ∀ c ∈ r g, c ≤ b

variable {h : Hierarchy τ} {d : SchedulableData τ} {cfs : τ → Cfs} {s : Quotas τ} {t : Rose τ}
  {ts : List (Rose τ)} {r q q' : τ → Option ℕ} {p g : τ}

theorem eInval_ne : -eInval ≠ 0 := by decide

theorem visit_ok (hp : h.parent g = some p)
    (hb : ∀ b ∈ s.hierarchalQuota p, ∀ c ∈ normalizeCfsQuota d s.cfs g, c ≤ b) :
    tgCfsSchedulableDown h d g s =
      (0, s.setHierarchal g ((normalizeCfsQuota d s.cfs g).or (s.hierarchalQuota p))) := by
  simp only [tgCfsSchedulableDown, hp]
  cases hc : normalizeCfsQuota d s.cfs g with
  | none => rfl
  | some c =>
    cases hq : s.hierarchalQuota p with
    | none => rfl
    | some b =>
      have hle : c ≤ b := hb b hq c hc
      exact if_neg (not_lt.mpr hle)

theorem visit_fail (hp : h.parent g = some p) {b c : ℕ} (hb : s.hierarchalQuota p = some b)
    (hc : normalizeCfsQuota d s.cfs g = some c) (hlt : b < c) :
    tgCfsSchedulableDown h d g s = (-eInval, s) := by
  simp only [tgCfsSchedulableDown, hp, hb, hc, if_pos hlt]

omit [DecidableEq τ] in
/-- Below `p` each group has its own ratio, which is no larger than what it would inherit, or
inherits. -/
inductive Settled (r q : τ → Option ℕ) : τ → Rose τ → Prop
  | node {p g : τ} {ts : List (Rose τ)} (hg : q g = (r g).or (q p))
      (hb : ∀ b ∈ q p, ∀ c ∈ r g, c ≤ b) (hts : ∀ t ∈ ts, Settled r q g t) :
      Settled r q p (.node g ts)

omit [DecidableEq τ] in
theorem Settled.congr (hs : Settled r q p t) (ht : ∀ x ∈ t.nodes, q' x = q x) (hp : q' p = q p) :
    Settled r q' p t := by
  induction hs with
  | @node p g ts hg hb _ ih =>
    have hq : q' g = q g := ht g (List.mem_cons_self ..)
    refine .node (by rw [hq, hg, hp]) (hp ▸ hb) fun t htt => ?_
    exact ih t htt (fun x hx => ht x (List.mem_cons_of_mem _ (mem_forest.mpr ⟨t, htt, hx⟩))) hq

omit [DecidableEq τ] in
theorem Settled.le (hs : Settled r q p t) {b c : ℕ} (hp : q p = some b) (hg : g ∈ t.nodes)
    (hc : r g = some c) : c ≤ b := by
  induction hs generalizing b with
  | @node p x ts hx hb _ ih =>
    rcases List.mem_cons.mp hg with rfl | hg
    · exact hb b hp c hc
    · obtain ⟨t, ht, hgt⟩ := mem_forest.mp hg
      cases hr : r x with
      | none => exact ih t ht (by rw [hx, hr, hp]; rfl) hgt
      | some e =>
        have he : c ≤ e := ih t ht (by rw [hx, hr]; rfl) hgt
        exact he.trans (hb b hp e hr)

omit [DecidableEq τ] in
theorem Settled.schedulable (hs : Settled r q p t) : Schedulable t r := by
  intro a g hbelow b hb c hc
  induction hbelow generalizing p with
  | here hg =>
    cases hs with
    | node hx _ hts =>
      obtain ⟨t, ht, hgt⟩ := mem_forest.mp hg
      exact (hts t ht).le (by rw [hx, hb]; rfl) hgt hc
  | there ht _ ih =>
    cases hs with
    | node _ _ hts => exact ih (hts _ ht) hb hc

def Violated (r : τ → Option ℕ) (inherited : Option ℕ) (t : Rose τ) : Prop :=
  ∃ g ∈ t.nodes, ∃ b c, r g = some c ∧ b < c ∧
    (inherited = some b ∨ ∃ a, Below t a g ∧ r a = some b)

omit [DecidableEq τ] in
theorem violated_of_child (ht : t ∈ ts) {inherited : Option ℕ}
    (hv : Violated r ((r g).or inherited) t) : Violated r inherited (.node g ts) := by
  obtain ⟨x, hx, b, c, hc, hlt, hsrc⟩ := hv
  have hxf : x ∈ forest ts := mem_forest.mpr ⟨t, ht, hx⟩
  refine ⟨x, List.mem_cons_of_mem _ hxf, b, c, hc, hlt, ?_⟩
  rcases hsrc with hin | ⟨a, hbelow, ha⟩
  · cases hr : r g with
    | none =>
      rw [hr] at hin
      exact Or.inl hin
    | some e =>
      rw [hr] at hin
      exact Or.inr ⟨g, .here hxf, hr.trans hin⟩
  · exact Or.inr ⟨a, .there ht hbelow, ha⟩

structure Outcome (cfs : τ → Cfs) (s : Quotas τ) (nodes : List τ)
    (settled : (τ → Option ℕ) → Prop) (violated : Prop) (res : ℤ × Quotas τ) : Prop where
  cfs : res.2.cfs = cfs
  frame : ∀ x, x ∉ nodes → res.2.hierarchalQuota x = s.hierarchalQuota x
  good : res.1 = 0 → settled res.2.hierarchalQuota
  bad : res.1 ≠ 0 → violated

def TreeOutcome (h : Hierarchy τ) (d : SchedulableData τ) (p : τ) (t : Rose τ) : Prop :=
  ∀ s : Quotas τ, Outcome s.cfs s t.nodes (fun q => Settled (normalizeCfsQuota d s.cfs) q p t)
    (Violated (normalizeCfsQuota d s.cfs) (s.hierarchalQuota p) t)
    (t.walk (tgCfsSchedulableDown h d) tgNop s)

theorem forest_outcome (hts : ∀ t ∈ ts, TreeOutcome h d g t) (hg : g ∉ forest ts)
    (hnodup : (forest ts).Nodup) (s : Quotas τ) : Outcome s.cfs s (forest ts)
      (fun q => ∀ t ∈ ts, Settled (normalizeCfsQuota d s.cfs) q g t)
      (∃ t ∈ ts, Violated (normalizeCfsQuota d s.cfs) (s.hierarchalQuota g) t)
      (walkAll (tgCfsSchedulableDown h d) tgNop ts s) := by
  induction ts generalizing s with
  | nil =>
    exact ⟨rfl, fun _ _ => rfl, fun _ t ht => absurd ht List.not_mem_nil, fun hne => absurd rfl hne⟩
  | cons t ts ih =>
    obtain ⟨ht, hrest⟩ := List.forall_mem_cons.mp hts
    obtain ⟨-, hnts, hdisj⟩ := List.nodup_append.mp hnodup
    obtain ⟨hgt, hgts⟩ := not_or.mp (mt List.mem_append.mpr hg)
    have hwalk := ht s
    rw [walkAll]
    by_cases hr : (t.walk (tgCfsSchedulableDown h d) tgNop s).1 ≠ 0
    · rw [if_pos hr]
      refine ⟨hwalk.cfs, fun x hx => hwalk.frame x fun hm => hx (List.mem_append_left _ hm),
        fun hz => absurd hz hr, fun _ => ⟨t, List.mem_cons_self .., hwalk.bad hr⟩⟩
    · rw [if_neg hr]
      have hall := ih hrest hgts hnts (t.walk (tgCfsSchedulableDown h d) tgNop s).2
      rw [hwalk.cfs, hwalk.frame g hgt] at hall
      refine ⟨hall.cfs, fun x hx => ?_, fun hz => ?_, fun hne => ?_⟩
      · obtain ⟨hxt, hxts⟩ := not_or.mp (mt List.mem_append.mpr hx)
        rw [hall.frame x hxts, hwalk.frame x hxt]
      · refine List.forall_mem_cons.mpr ⟨?_, hall.good hz⟩
        refine (hwalk.good (not_not.mp hr)).congr (fun x hx => hall.frame x fun hm => ?_)
          (hall.frame g hgts)
        exact hdisj x hx x hm rfl
      · obtain ⟨t', ht', hv⟩ := hall.bad hne
        exact ⟨t', List.mem_cons_of_mem _ ht', hv⟩

theorem Fits.outcome (hf : Fits h t) (hp : h.parent t.root = some p) (hpt : p ∉ t.nodes)
    (hnodup : t.nodes.Nodup) : TreeOutcome h d p t := by
  induction hf generalizing p with
  | node g ts _ _ hparent _ ih =>
    intro s
    change h.parent g = some p at hp
    obtain ⟨hg, hnts⟩ := List.nodup_cons.mp hnodup
    have hchildren : ∀ t ∈ ts, TreeOutcome h d g t := by
      intro t ht
      have hsub : t.nodes.Sublist (forest ts) := nodes_sublist ht
      exact ih t ht (hparent t ht) (fun hm => hg (hsub.subset hm)) (hnts.sublist hsub)
    rw [Rose.walk]
    by_cases hb : ∀ b ∈ s.hierarchalQuota p, ∀ c ∈ normalizeCfsQuota d s.cfs g, c ≤ b
    · rw [visit_ok hp hb]
      have hall := forest_outcome hchildren hg hnts (s.setHierarchal g
        ((normalizeCfsQuota d s.cfs g).or (s.hierarchalQuota p)))
      rw [Quotas.setHierarchal_self] at hall
      have hframe : ∀ x, x ∉ (Rose.node g ts).nodes → (walkAll (tgCfsSchedulableDown h d) tgNop ts
          (s.setHierarchal g ((normalizeCfsQuota d s.cfs g).or
            (s.hierarchalQuota p)))).2.hierarchalQuota x = s.hierarchalQuota x := by
        intro x hx
        obtain ⟨hxg, hxts⟩ := not_or.mp (mt List.mem_cons.mpr hx)
        rw [hall.frame x hxts, Quotas.setHierarchal_of_ne hxg]
      dsimp only
      rw [if_neg (not_not.mpr rfl)]
      split_ifs with hr
      · refine ⟨hall.cfs, hframe, fun hz => absurd hz hr, fun _ => ?_⟩
        obtain ⟨t, ht, hv⟩ := hall.bad hr
        exact violated_of_child ht hv
      · refine ⟨hall.cfs, hframe, fun _ => ?_, fun hne => absurd rfl hne⟩
        have hgood := hall.good (not_not.mp hr)
        refine .node ?_ ?_ hgood
        · rw [tgNop, hall.frame g hg, Quotas.setHierarchal_self, hframe p hpt]
        · exact fun b hb' => hb b ((hframe p hpt) ▸ hb')
    · push Not at hb
      obtain ⟨b, hb, c, hc, hlt⟩ := hb
      rw [visit_fail hp hb hc hlt, if_pos eInval_ne]
      refine ⟨rfl, fun _ _ => rfl, fun hz => absurd hz eInval_ne, fun _ => ?_⟩
      exact ⟨g, List.mem_cons_self .., b, c, hc, hlt, Or.inl hb⟩

/-- The whole tree: `__cfs_schedulable` succeeds exactly on the quotas that are schedulable. -/
theorem Fits.walk_eq_zero_iff (hf : Fits h t) (hroot : h.parent t.root = none)
    (hnodup : t.nodes.Nodup) (hnone : normalizeCfsQuota d s.cfs t.root = none) :
    ((t.walk (tgCfsSchedulableDown h d) tgNop s).1 = 0 ↔
      Schedulable t (normalizeCfsQuota d s.cfs)) ∧
      (t.walk (tgCfsSchedulableDown h d) tgNop s).2.cfs = s.cfs := by
  cases hf with
  | node g ts hc hn hparent hts =>
    change h.parent g = none at hroot
    change normalizeCfsQuota d s.cfs g = none at hnone
    obtain ⟨hg, hnts⟩ := List.nodup_cons.mp hnodup
    have hchildren : ∀ t ∈ ts, TreeOutcome h d g t := by
      intro t ht
      have hsub : t.nodes.Sublist (forest ts) := nodes_sublist ht
      exact (hts t ht).outcome (hparent t ht) (fun hm => hg (hsub.subset hm)) (hnts.sublist hsub)
    have hdown : tgCfsSchedulableDown h d g s = (0, s.setHierarchal g none) := by
      simp only [tgCfsSchedulableDown, hroot]
    have hall := forest_outcome hchildren hg hnts (s.setHierarchal g none)
    rw [Quotas.setHierarchal_self] at hall
    rw [Rose.walk, hdown]
    dsimp only
    rw [if_neg (not_not.mpr rfl)]
    split_ifs with hr
    · refine ⟨iff_of_false hr fun hsched => ?_, hall.cfs⟩
      obtain ⟨t, ht, x, hx, b, c, hc, hlt, hsrc⟩ := hall.bad hr
      rcases hsrc with hin | ⟨a, hbelow, ha⟩
      · cases hin
      · exact absurd (hsched a x (.there ht hbelow) b ha c hc) (not_le.mpr hlt)
    · refine ⟨iff_of_true rfl fun a x hbelow b hb c hc => ?_, hall.cfs⟩
      have hgood := hall.good (not_not.mp hr)
      cases hbelow with
      | here =>
        rw [Option.mem_def, hnone] at hb
        cases hb
      | there ht hbelow => exact (hgood _ ht).schedulable a x hbelow b hb c hc

theorem normalize_eq_ratio (cfs : τ → Cfs) (tg : τ) (period : ℕ) (quota : Option ℕ) :
    normalizeCfsQuota ⟨tg, if quota = none then period else period / 1000, quota.map (· / 1000)⟩ cfs =
      ratio (Function.update cfs tg ⟨period, quota⟩) := by
  funext g
  unfold normalizeCfsQuota ratio
  rcases eq_or_ne g tg with rfl | hne
  · rw [if_pos rfl, Function.update_self]
    cases quota with
    -- the two periods differ here, but no ratio is taken
    | none => simp only [tgGetCfsQuota, Option.map_none]
    | some q =>
      rw [if_neg (Option.some_ne_none q)]
      rfl
  · rw [if_neg hne, Function.update_of_ne hne]

theorem tgSetCfsBandwidth_spec (hf : Fits h t) (hroot : h.parent t.root = none)
    (hnodup : t.nodes.Nodup) (hnone : (s.cfs t.root).quota = none) {tg : τ} (htg : tg ≠ t.root)
    (period : ℕ) (quota : Option ℕ) :
    ((tgSetCfsBandwidth h t s tg period quota).1 = 0 ↔
      (∀ q ∈ quota, minCfsQuotaPeriod ≤ q) ∧ minCfsQuotaPeriod ≤ period ∧
        period ≤ maxCfsQuotaPeriod ∧
        Schedulable t (ratio (Function.update s.cfs tg ⟨period, quota⟩))) ∧
      ((tgSetCfsBandwidth h t s tg period quota).1 = 0 →
        (tgSetCfsBandwidth h t s tg period quota).2.cfs =
          Function.update s.cfs tg ⟨period, quota⟩) ∧
      ((tgSetCfsBandwidth h t s tg period quota).1 ≠ 0 →
        (tgSetCfsBandwidth h t s tg period quota).2.cfs = s.cfs) := by
  have hwalk : ∀ hrnone : ratio (Function.update s.cfs tg ⟨period, quota⟩) t.root = none,
      ((cfsSchedulable h t s tg period quota).1 = 0 ↔
        Schedulable t (ratio (Function.update s.cfs tg ⟨period, quota⟩))) ∧
      (cfsSchedulable h t s tg period quota).2.cfs = s.cfs := by
    intro hrnone
    rw [← normalize_eq_ratio] at hrnone ⊢
    exact hf.walk_eq_zero_iff hroot hnodup hrnone
  obtain ⟨hiff, hcfs⟩ := hwalk (by
    rw [ratio, Function.update_of_ne (Ne.symm htg), tgGetCfsQuota, hnone]
    rfl)
  unfold tgSetCfsBandwidth
  dsimp only
  rw [if_neg htg]
  split_ifs with hmin hmax hr
  · refine ⟨iff_of_false eInval_ne ?_, fun hz => absurd hz eInval_ne, fun _ => rfl⟩
    rintro ⟨hq, hp, -⟩
    rcases hmin with ⟨q, hqq, hlt⟩ | hlt
    · exact absurd (hq q hqq) (not_le.mpr hlt)
    · exact absurd hp (not_le.mpr hlt)
  · refine ⟨iff_of_false eInval_ne ?_, fun hz => absurd hz eInval_ne, fun _ => rfl⟩
    rintro ⟨-, -, hp, -⟩
    exact absurd hp (not_le.mpr hmax)
  · exact ⟨iff_of_false hr fun hok => hr (hiff.mpr hok.2.2.2), fun hz => absurd hz hr,
      fun _ => hcfs⟩
  · obtain ⟨hqs, hps⟩ := not_or.mp hmin
    have hq : ∀ q ∈ quota, minCfsQuotaPeriod ≤ q :=
      fun q hqq => not_lt.mp fun hlt => hqs ⟨q, hqq, hlt⟩
    refine ⟨iff_of_true rfl ⟨hq, not_lt.mp hps, not_lt.mp hmax, hiff.mp (not_not.mp hr)⟩,
      fun _ => ?_, fun hne => absurd rfl hne⟩
    rw [hcfs]

structure Admitted (t : Rose τ) (s : Quotas τ) : Prop where
  root : (s.cfs t.root).quota = none
  schedulable : Schedulable t (ratio s.cfs)

theorem Admitted.set (ha : Admitted t s) (hf : Fits h t) (hroot : h.parent t.root = none)
    (hnodup : t.nodes.Nodup) (tg : τ) (period : ℕ) (quota : Option ℕ) :
    Admitted t (tgSetCfsBandwidth h t s tg period quota).2 := by
  by_cases htg : tg = t.root
  · have hs : tgSetCfsBandwidth h t s tg period quota = (-eInval, s) := if_pos htg
    rw [hs]
    exact ha
  · obtain ⟨hiff, hok, hfail⟩ := tgSetCfsBandwidth_spec hf hroot hnodup ha.root htg period quota
    by_cases hz : (tgSetCfsBandwidth h t s tg period quota).1 = 0
    · refine ⟨?_, ?_⟩
      · rw [hok hz, Function.update_of_ne (Ne.symm htg)]
        exact ha.root
      · rw [hok hz]
        exact (hiff.mp hz).2.2.2
    · have hcfs := hfail hz
      exact ⟨hcfs ▸ ha.root, hcfs ▸ ha.schedulable⟩

theorem Admitted.step {s' : Quotas τ} (ha : Admitted t s) (hf : Fits h t)
    (hroot : h.parent t.root = none) (hnodup : t.nodes.Nodup) {a : Write τ}
    (hn : next h t s a = some s') : Admitted t s' := by
  cases a with
  | quota tg us =>
    obtain ⟨-, hs⟩ := Option.ite_none_right_eq_some.mp hn
    cases hs
    exact ha.set hf hroot hnodup ..
  | period tg us =>
    obtain ⟨-, hs⟩ := Option.ite_none_right_eq_some.mp hn
    cases hs
    exact ha.set hf hroot hnodup ..

end AndroidKernel.Groups
