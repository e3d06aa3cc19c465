import Mathlib.Tactic

/-! Runs of labelled step functions. A partial step answers `none` where its label is not
enabled, and a condition on steps is carried along a run by `Meets`. A total step also emits
an output. The rules below turn a fact about one step into a fact about every run. -/

namespace Lts
variable {σ σ' α β ω : Type*}

def exec (next : σ → α → Option σ) : List α → σ → Option σ
  | [], s => some s
  | a :: as, s => (next s a).bind (exec next as)

def Meets (next : σ → α → Option σ) (C : σ → α → Prop) : List α → σ → Prop
  | [], _ => True
  | a :: as, s => C s a ∧ ∀ t, next s a = some t → Meets next C as t

def Reaches (next : σ → α → Option σ) (s t : σ) : Prop := ∃ as, exec next as s = some t

variable {next : σ → α → Option σ} {next' : σ' → β → Option σ'} {C : σ → α → Prop}

theorem exec_cons_eq_some {a : α} {as : List α} {s t : σ} :
    exec next (a :: as) s = some t ↔ ∃ u, next s a = some u ∧ exec next as u = some t := by
  simp only [exec, Option.bind_eq_some_iff]

theorem exec_append (as bs : List α) (s : σ) :
    exec next (as ++ bs) s = (exec next as s).bind (exec next bs) := by
  induction as generalizing s with
  | nil => rfl
  | cons a as ih =>
    simp only [List.cons_append, exec, Option.bind_assoc]
    exact congrArg _ (funext ih)

theorem exec_append_eq_some {as bs : List α} {s t : σ} :
    exec next (as ++ bs) s = some t ↔
      ∃ u, exec next as s = some u ∧ exec next bs u = some t := by
  rw [exec_append, Option.bind_eq_some_iff]

theorem exec_snoc {as : List α} {a : α} {s t u : σ} (hs : exec next as s = some t)
    (ha : next t a = some u) : exec next (as ++ [a]) s = some u :=
  exec_append_eq_some.mpr ⟨t, hs, exec_cons_eq_some.mpr ⟨u, ha, rfl⟩⟩

theorem exec_next_of_append {as pre post : List α} {a : α} {s t u : σ}
    (h : exec next as s = some t) (has : as = pre ++ a :: post)
    (hu : exec next pre s = some u) : ∃ v, next u a = some v := by
  rw [has] at h
  obtain ⟨u', hu', hpost⟩ := exec_append_eq_some.mp h
  obtain rfl := Option.some_inj.mp (hu'.symm.trans hu)
  obtain ⟨v, hv, -⟩ := exec_cons_eq_some.mp hpost
  exact ⟨v, hv⟩

theorem meets_append (as bs : List α) (s : σ) :
    Meets next C (as ++ bs) s ↔
      Meets next C as s ∧ ∀ t, exec next as s = some t → Meets next C bs t := by
  induction as generalizing s with
  | nil => simp [Meets, exec]
  | cons a as ih =>
    simp only [List.cons_append, Meets, ih, exec_cons_eq_some]
    constructor
    · rintro ⟨ha, h⟩
      refine ⟨⟨ha, fun u hu => (h u hu).1⟩, ?_⟩
      rintro t ⟨u, hu, ht⟩
      exact (h u hu).2 t ht
    · rintro ⟨⟨ha, h⟩, hb⟩
      exact ⟨ha, fun u hu => ⟨h u hu, fun t ht => hb t ⟨u, hu, ht⟩⟩⟩

theorem meets_of_forall (h : ∀ s a, C s a) (as : List α) (s : σ) : Meets next C as s := by
  induction as generalizing s with
  | nil => trivial
  | cons a as ih => exact ⟨h s a, fun t _ => ih t⟩

theorem Meets.and_forall {A : α → Prop} {as : List α} {s : σ} (h : Meets next C as s)
    (ha : ∀ a ∈ as, A a) : Meets next (fun s a => C s a ∧ A a) as s := by
  induction as generalizing s with
  | nil => trivial
  | cons a as ih =>
    exact ⟨⟨h.1, ha a (List.mem_cons_self ..)⟩,
      fun t ht => ih (h.2 t ht) fun b hb => ha b (List.mem_cons_of_mem _ hb)⟩

theorem Meets.and {D : σ → α → Prop} {as : List α} {s : σ} (hc : Meets next C as s)
    (hd : Meets next D as s) : Meets next (fun s a => C s a ∧ D s a) as s := by
  induction as generalizing s with
  | nil => trivial
  | cons a as ih => exact ⟨⟨hc.1, hd.1⟩, fun t ht => ih (hc.2 t ht) (hd.2 t ht)⟩

theorem meets_of_steps {as : List α} {s t : σ} (h : exec next as s = some t)
    (hp : ∀ pre a post u v, as = pre ++ a :: post → exec next pre s = some u →
      next u a = some v → C u a) : Meets next C as s := by
  induction as generalizing s with
  | nil => trivial
  | cons a as ih =>
    obtain ⟨u, hu, hv⟩ := exec_cons_eq_some.mp h
    refine ⟨hp [] a as s u rfl rfl hu, fun v hv' => ?_⟩
    obtain rfl := Option.some_inj.mp (hv'.symm.trans hu)
    refine ih hv fun pre b post w x has hw hx => hp (a :: pre) b post w x (by rw [has]; rfl) ?_ hx
    exact exec_cons_eq_some.mpr ⟨v, hu, hw⟩

/-- A condition that can be read off the state after each step holds along the run if every state
of the run has that property. -/
theorem meets_of_prefixes {Q : σ → Prop} (hQ : ∀ s a t, next s a = some t → Q t → C s a)
    {as : List α} {s t : σ} (h : exec next as s = some t)
    (hp : ∀ pre post u, as = pre ++ post → exec next pre s = some u → Q u) :
    Meets next C as s := by
  refine meets_of_steps h fun pre a post u v has hu hv => hQ u a v hv ?_
  exact hp (pre ++ [a]) post v (by rw [has, List.append_assoc]; rfl) (exec_snoc hu hv)

instance Meets.decidable [∀ s a, Decidable (C s a)] :
    ∀ (as : List α) (s : σ), Decidable (Meets next C as s)
  | [], _ => .isTrue trivial
  | a :: as, s =>
    haveI := fun t => Meets.decidable as t
    inferInstanceAs (Decidable (C s a ∧ ∀ t ∈ next s a, Meets next C as t))

/-- The invariant rule under a condition that every step of the run meets. -/
theorem Meets.invariant {P : σ → Prop}
    (hstep : ∀ s a t, P s → C s a → next s a = some t → P t) {as : List α} {s t : σ}
    (hm : Meets next C as s) (hs : P s) (h : exec next as s = some t) : P t := by
  induction as generalizing s with
  | nil => cases h; exact hs
  | cons a as ih =>
    obtain ⟨u, hu, hv⟩ := exec_cons_eq_some.mp h
    exact ih (hm.2 u hu) (hstep s a u hs hm.1 hu) hv

theorem Meets.everywhere {P : σ → Prop}
    (hstep : ∀ s a t, P s → C s a → next s a = some t → P t) {as pre post : List α} {s u : σ}
    (hm : Meets next C as s) (hs : P s) (has : as = pre ++ post)
    (h : exec next pre s = some u) : P u := by
  rw [has, meets_append] at hm
  exact hm.1.invariant hstep hs h

theorem Meets.at_step {as pre post : List α} {a : α} {s u : σ} (hm : Meets next C as s)
    (has : as = pre ++ a :: post) (h : exec next pre s = some u) : C u a := by
  rw [has, meets_append] at hm
  exact (hm.2 u h).1

/-- In a run that keeps a discipline, and with it an invariant, a property holds everywhere exactly
if every step meets the condition under which a step keeps it. -/
theorem prefixes_iff_meets {I Q : σ → Prop} {D : σ → α → Prop}
    (hI : ∀ s a t, I s → D s a → next s a = some t → I t)
    (hQ : ∀ s a t, I s → I t → D s a → Q s → next s a = some t → (Q t ↔ C s a)) {as : List α}
    {s t : σ} (hs : I s) (hq : Q s) (hd : Meets next D as s) (h : exec next as s = some t) :
    (∀ pre post u, as = pre ++ post → exec next pre s = some u → Q u) ↔ Meets next C as s := by
  constructor
  · intro hp
    refine meets_of_steps h fun pre a post u v has hu hv => ?_
    have hda : D u a := hd.at_step has hu
    have hiu : I u := hd.everywhere hI hs has hu
    have hqu : Q u := hp pre (a :: post) u has hu
    have hqv : Q v := hp (pre ++ [a]) post v (by rw [has, List.append_assoc]; rfl) (exec_snoc hu hv)
    exact (hQ u a v hiu (hI u a v hiu hda hv) hda hqu hv).mp hqv
  · intro hm pre post u has hu
    have hstep : ∀ s a t, I s ∧ Q s → D s a ∧ C s a → next s a = some t → I t ∧ Q t := by
      rintro s a t ⟨his, hqs⟩ ⟨hda, hca⟩ hn
      have hit := hI s a t his hda hn
      exact ⟨hit, (hQ s a t his hit hda hqs hn).mpr hca⟩
    exact ((hd.and hm).everywhere hstep ⟨hs, hq⟩ has hu).2

/-- The same where the condition itself is what keeps the invariant, the invariant gives the
property, and the property after a step gives the condition on that step. -/
theorem prefixes_iff_meets_of_invariant {I Q : σ → Prop} {D : σ → α → Prop}
    (hIQ : ∀ s, I s → Q s) (hI : ∀ s a t, I s → D s a → C s a → next s a = some t → I t)
    (hQ : ∀ s a t, I s → D s a → next s a = some t → Q t → C s a) {as : List α} {s t : σ}
    (hs : I s) (hd : Meets next D as s) (h : exec next as s = some t) :
    (∀ pre post u, as = pre ++ post → exec next pre s = some u → Q u) ↔ Meets next C as s := by
  constructor
  · intro hp
    induction as generalizing s with
    | nil => trivial
    | cons a as ih =>
      obtain ⟨u, hu, hv⟩ := exec_cons_eq_some.mp h
      have hqu : Q u := hp [a] as u rfl (exec_cons_eq_some.mpr ⟨u, hu, rfl⟩)
      have hc : C s a := hQ s a u hs hd.1 hu hqu
      refine ⟨hc, fun v hv' => ?_⟩
      obtain rfl := Option.some_inj.mp (hv'.symm.trans hu)
      refine ih (hI s a v hs hd.1 hc hu) (hd.2 v hu) hv fun pre post w has hw => ?_
      exact hp (a :: pre) post w (by rw [has]; rfl) (exec_cons_eq_some.mpr ⟨v, hu, hw⟩)
  · intro hm pre post u has hu
    exact hIQ u ((hd.and hm).everywhere (fun s a t his hda => hI s a t his hda.1 hda.2) hs has hu)

/-- A run whose steps meet the condition is carried through, if a step that meets it always is. -/
theorem Meets.total {P : σ → Prop}
    (hstep : ∀ s a, P s → C s a → ∃ t, next s a = some t ∧ P t) {as : List α} {s : σ}
    (hm : Meets next C as s) (hs : P s) : ∃ t, exec next as s = some t ∧ P t := by
  induction as generalizing s with
  | nil => exact ⟨s, rfl, hs⟩
  | cons a as ih =>
    obtain ⟨u, hu, hp⟩ := hstep s a hs hm.1
    obtain ⟨t, ht, hpt⟩ := ih (hm.2 u hu) hp
    exact ⟨t, exec_cons_eq_some.mpr ⟨u, hu, ht⟩, hpt⟩

theorem exists_exec_of_measure {P D : σ → Prop} (μ : σ → ℕ)
    (hstep : ∀ s, P s → ¬ D s → ∃ a t, next s a = some t ∧ P t ∧ μ t < μ s) {s : σ}
    (hs : P s) : ∃ as t, exec next as s = some t ∧ D t := by
  induction hn : μ s using Nat.strong_induction_on generalizing s with
  | _ n ih =>
    by_cases hd : D s
    · exact ⟨[], s, rfl, hd⟩
    · obtain ⟨a, u, hu, hpu, hlt⟩ := hstep s hs hd
      obtain ⟨as, t, ht, hdt⟩ := ih (μ u) (hn ▸ hlt) hpu rfl
      exact ⟨a :: as, t, exec_cons_eq_some.mpr ⟨u, hu, ht⟩, hdt⟩

/-- A run in which some step misses the condition ends where such a step leads, if no later step
leads away from there. -/
theorem exec_of_not_meets {Q : σ → Prop} (hbad : ∀ s a t, ¬ C s a → next s a = some t → Q t)
    (hkeep : ∀ s a t, Q s → next s a = some t → Q t) {as : List α} {s t : σ}
    (hm : ¬ Meets next C as s) (h : exec next as s = some t) : Q t := by
  induction as generalizing s with
  | nil => exact absurd trivial hm
  | cons a as ih =>
    obtain ⟨u, hu, hv⟩ := exec_cons_eq_some.mp h
    by_cases hc : C s a
    · have hu' : ¬ Meets next C as u := by
        intro hmu
        apply hm
        refine ⟨hc, fun v hv' => ?_⟩
        obtain rfl := Option.some_inj.mp (hv'.symm.trans hu)
        exact hmu
      exact ih hu' hv
    · exact (meets_of_forall (C := fun _ _ => True) (fun _ _ => trivial) as u).invariant
        (fun s a t hs _ => hkeep s a t hs) (hbad s a u hc hu) hv

theorem exec_invariant {P : σ → Prop} (hstep : ∀ s a t, P s → next s a = some t → P t)
    {as : List α} {s t : σ} (hs : P s) (h : exec next as s = some t) : P t :=
  (meets_of_forall (C := fun _ _ => True) (fun _ _ => trivial) as s).invariant
    (fun s a t hs _ => hstep s a t hs) hs h

theorem Reaches.invariant {P : σ → Prop} (hstep : ∀ s a t, P s → next s a = some t → P t)
    {s t : σ} (h : Reaches next s t) (hs : P s) : P t := by
  obtain ⟨as, ha⟩ := h
  exact exec_invariant hstep hs ha

/-- Two runs whose labels are related pairwise keep a relation that one pair of steps keeps. -/
theorem exec_forall₂ {R : σ → σ' → Prop} {L : α → β → Prop}
    (hstep : ∀ s s' a b t t', R s s' → L a b → next s a = some t → next' s' b = some t' → R t t')
    {as : List α} {bs : List β} (hl : List.Forall₂ L as bs) {s t : σ} {s' t' : σ'}
    (hs : R s s') (h : exec next as s = some t) (h' : exec next' bs s' = some t') : R t t' := by
  induction hl generalizing s s' with
  | nil => cases h; cases h'; exact hs
  | cons hab _ ih =>
    obtain ⟨u, hu, hv⟩ := exec_cons_eq_some.mp h
    obtain ⟨u', hu', hv'⟩ := exec_cons_eq_some.mp h'
    exact ih (hstep _ _ _ _ _ _ hs hab hu hu') hv hv'

/-- The selected labels of a run can be run alone, if the other system follows a selected step
and a step that is not selected keeps the relation. -/
theorem exec_filter {next' : σ' → α → Option σ'} {R : σ → σ' → Prop} {A : α → Prop} {sel : α → Bool}
    (hsel : ∀ s t a s', R s t → A a → sel a = true → next s a = some s' →
      ∃ t', next' t a = some t' ∧ R s' t')
    (hskip : ∀ s t a s', R s t → A a → sel a = false → next s a = some s' → R s' t)
    {as : List α} (ha : ∀ a ∈ as, A a) {s s' : σ} {t : σ'} (hs : R s t)
    (h : exec next as s = some s') :
    ∃ t', exec next' (as.filter sel) t = some t' ∧ R s' t' := by
  induction as generalizing s t with
  | nil =>
    obtain rfl := Option.some_inj.mp h
    exact ⟨t, rfl, hs⟩
  | cons a as ih =>
    obtain ⟨u, hu, hv⟩ := exec_cons_eq_some.mp h
    have hhead := ha a (List.mem_cons_self ..)
    have htail := fun b hb => ha b (List.mem_cons_of_mem a hb)
    by_cases hc : sel a = true
    · obtain ⟨t₁, ht₁, hr⟩ := hsel s t a u hs hhead hc hu
      obtain ⟨t', ht', hr'⟩ := ih htail hr hv
      rw [List.filter_cons_of_pos hc]
      exact ⟨t', exec_cons_eq_some.mpr ⟨t₁, ht₁, ht'⟩, hr'⟩
    · rw [List.filter_cons_of_neg hc]
      exact ih htail (hskip s t a u hs hhead (Bool.not_eq_true _ ▸ hc) hu) hv

def trace (step : σ → α → σ × ω) : List α → σ → List (α × ω)
  | [], _ => []
  | a :: as, s => (a, (step s a).2) :: trace step as (step s a).1

def final (step : σ → α → σ × ω) : List α → σ → σ
  | [], s => s
  | a :: as, s => final step as (step s a).1

variable {step : σ → α → σ × ω} {step' : σ' → α → σ' × ω} {R : σ → σ' → Prop} {s : σ} {s' : σ'}

/-- The selected labels of a run see what a run of those labels alone sees, if a selected step
agrees on both sides and a step that is not selected keeps the relation. -/
theorem trace_filter {sel : α → Bool}
    (hsel : ∀ s s' a, R s s' → C s a → sel a = true →
      (step s a).2 = (step' s' a).2 ∧ R (step s a).1 (step' s' a).1)
    (hskip : ∀ s s' a, R s s' → C s a → sel a = false → R (step s a).1 s') {as : List α}
    (hm : Meets (fun s a => some (step s a).1) C as s) (hs : R s s') :
    (trace step as s).filter (fun p => sel p.1) = trace step' (as.filter sel) s' ∧
      R (final step as s) (final step' (as.filter sel) s') := by
  induction as generalizing s s' with
  | nil => exact ⟨rfl, hs⟩
  | cons a as ih =>
    have ht := hm.2 _ rfl
    by_cases ha : sel a = true
    · obtain ⟨ho, hr⟩ := hsel s s' a hs hm.1 ha
      obtain ⟨ih₁, ih₂⟩ := ih ht hr
      simp only [trace, final, List.filter_cons, ha, if_true]
      exact ⟨congrArg₂ List.cons (Prod.ext rfl ho) ih₁, ih₂⟩
    · have ha' : sel a = false := by simpa using ha
      simp only [trace, final, List.filter_cons, ha', Bool.false_eq_true, if_false]
      exact ih ht (hskip s s' a hs hm.1 ha')

theorem trace_eq {A : α → Prop}
    (hstep : ∀ s s' a, R s s' → A a →
      (step s a).2 = (step' s' a).2 ∧ R (step s a).1 (step' s' a).1) {as : List α}
    (ha : ∀ a ∈ as, A a) (hs : R s s') :
    trace step as s = trace step' as s' ∧ R (final step as s) (final step' as s') := by
  induction as generalizing s s' with
  | nil => exact ⟨rfl, hs⟩
  | cons a as ih =>
    obtain ⟨ho, hr⟩ := hstep s s' a hs (ha a (List.mem_cons_self ..))
    obtain ⟨ih₁, ih₂⟩ := ih (fun b hb => ha b (List.mem_cons_of_mem _ hb)) hr
    exact ⟨congrArg₂ List.cons (Prod.ext rfl ho) ih₁, ih₂⟩

end Lts
