import Mathlib.Tactic

/-! The first element of a list with the highest score, and the loop with a strict comparison that
finds it. -/

namespace Leader
variable {α β : Type*} [LinearOrder β] {score : α → β} {xs : List α} {r r' x : α} {b : β}

def Leads (score : α → β) (xs : List α) (r : α) : Prop :=
  ∃ pre post, xs = pre ++ r :: post ∧ (∀ q ∈ pre, score q < score r) ∧
    ∀ q ∈ post, score q ≤ score r

def pick (score : α → β) (best : Option α × β) (x : α) : Option α × β :=
  if best.2 < score x then (some x, score x) else best

omit [LinearOrder β] in
theorem append_cons_cases {pre post pre' post' : List α}
    (h : pre ++ r :: post = pre' ++ r' :: post') :
    r = r' ∨ (r ∈ pre' ∧ r' ∈ post) ∨ (r' ∈ pre ∧ r ∈ post') := by
  rcases List.append_eq_append_iff.mp h with ⟨mid, hpre, hmid⟩ | ⟨mid, hpre, hmid⟩
  · cases mid with
    | nil => exact Or.inl (List.cons.inj hmid).1
    | cons y mid =>
      obtain ⟨rfl, rfl⟩ := List.cons.inj hmid
      refine Or.inr (Or.inl ⟨?_, ?_⟩)
      · rw [hpre]
        simp
      · simp
  · cases mid with
    | nil => exact Or.inl (List.cons.inj hmid).1.symm
    | cons y mid =>
      obtain ⟨rfl, rfl⟩ := List.cons.inj hmid
      refine Or.inr (Or.inr ⟨?_, ?_⟩)
      · rw [hpre]
        simp
      · simp

theorem Leads.mem (h : Leads score xs r) : r ∈ xs := by
  obtain ⟨pre, post, rfl, -, -⟩ := h
  simp

theorem Leads.le (h : Leads score xs r) (hx : x ∈ xs) : score x ≤ score r := by
  obtain ⟨pre, post, rfl, hpre, hpost⟩ := h
  rcases List.mem_append.mp hx with hx | hx
  · exact (hpre x hx).le
  · rcases List.mem_cons.mp hx with rfl | hx
    · exact le_rfl
    · exact hpost x hx

theorem Leads.unique (h : Leads score xs r) (h' : Leads score xs r') : r = r' := by
  obtain ⟨pre, post, hxs, hpre, hpost⟩ := h
  obtain ⟨pre', post', hxs', hpre', hpost'⟩ := h'
  rcases append_cons_cases (hxs.symm.trans hxs') with heq | ⟨hr, hr'⟩ | ⟨hr', hr⟩
  · exact heq
  · exact absurd (hpre' r hr) (hpost r' hr').not_gt
  · exact absurd (hpre r' hr') (hpost' r hr).not_gt

theorem Leads.concat (h : Leads score xs r) (hx : score x ≤ score r) :
    Leads score (xs ++ [x]) r := by
  obtain ⟨pre, post, rfl, hpre, hpost⟩ := h
  refine ⟨pre, post ++ [x], by simp, hpre, fun q hq => ?_⟩
  rcases List.mem_append.mp hq with hq | hq
  · exact hpost q hq
  · rw [List.mem_singleton.mp hq]
    exact hx

def Picked (score : α → β) (b : β) (xs : List α) (best : Option α × β) : Prop :=
  (best = (none, b) ∧ ∀ q ∈ xs, score q ≤ b) ∨
    ∃ r, best = (some r, score r) ∧ b < score r ∧ Leads score xs r

theorem Picked.concat {best : Option α × β} (h : Picked score b xs best) (x : α) :
    Picked score b (xs ++ [x]) (pick score best x) := by
  unfold pick
  obtain ⟨rfl, hle⟩ | ⟨r, rfl, hb, hr⟩ := h
  · split
    · rename_i hx
      exact Or.inr ⟨x, rfl, hx, xs, [], rfl, fun q hq => (hle q hq).trans_lt hx,
        fun q hq => absurd hq List.not_mem_nil⟩
    · rename_i hx
      refine Or.inl ⟨rfl, fun q hq => ?_⟩
      rcases List.mem_append.mp hq with hq | hq
      · exact hle q hq
      · rw [List.mem_singleton.mp hq]
        exact not_lt.mp hx
  · split
    · rename_i hx
      exact Or.inr ⟨x, rfl, hb.trans hx, xs, [], rfl, fun q hq => (hr.le hq).trans_lt hx,
        fun q hq => absurd hq List.not_mem_nil⟩
    · rename_i hx
      exact Or.inr ⟨r, rfl, hb, hr.concat (not_lt.mp hx)⟩

theorem picked_foldl (score : α → β) (b : β) (xs : List α) :
    Picked score b xs (xs.foldl (pick score) (none, b)) := by
  induction xs using List.reverseRecOn with
  | nil => exact Or.inl ⟨rfl, fun q hq => absurd hq List.not_mem_nil⟩
  | append_singleton xs x ih =>
    rw [List.foldl_append]
    exact ih.concat x

theorem exists_leads (hx : x ∈ xs) (hb : b < score x) : ∃ r, Leads score xs r ∧ b < score r := by
  rcases picked_foldl score b xs with ⟨-, hle⟩ | ⟨r, -, hr, hl⟩
  · exact absurd (hle x hx) hb.not_ge
  · exact ⟨r, hl, hr⟩

theorem foldl_pick_eq_some :
    (xs.foldl (pick score) (none, b)).1 = some r ↔ Leads score xs r ∧ b < score r := by
  rcases picked_foldl score b xs with ⟨hnone, hle⟩ | ⟨r', hsome, hb, hr'⟩
  · rw [hnone]
    refine iff_of_false (by simp) ?_
    rintro ⟨hr, hlt⟩
    exact absurd (hle r hr.mem) hlt.not_ge
  · rw [hsome]
    constructor
    · intro h
      obtain rfl := Option.some_inj.mp h
      exact ⟨hr', hb⟩
    · rintro ⟨hr, -⟩
      exact congrArg some (hr'.unique hr)

/-- The candidates are the elements that score above a bound. A largest of them scores more than
the smaller candidates before it, and no less than those behind it. -/
def LargestAhead {γ : Type*} [LinearOrder γ] (score : α → β) (size : α → γ) (b : β)
    (xs : List α) : Prop :=
  ∃ pre r post, xs = pre ++ r :: post ∧ b < score r ∧
    (∀ q ∈ xs, b < score q → size q ≤ size r) ∧
    (∀ q ∈ pre, b < score q → size q < size r → score q < score r) ∧
    ∀ q ∈ post, b < score q → size q < size r → score q ≤ score r

/-- The leader is a largest candidate exactly if some largest candidate is ahead of the smaller
ones. -/
theorem Leads.largest_iff {γ : Type*} [LinearOrder γ] {size : α → γ} (h : Leads score xs r)
    (hb : b < score r) :
    (∀ q ∈ xs, b < score q → size q ≤ size r) ↔ LargestAhead score size b xs := by
  obtain ⟨pre, post, hxs, hpre, hpost⟩ := h
  constructor
  · intro hmax
    exact ⟨pre, r, post, hxs, hb, hmax, fun q hq _ _ => hpre q hq, fun q hq _ _ => hpost q hq⟩
  · rintro ⟨pre', r', post', hxs', hb', hmax, hpre', hpost'⟩ q hq hbq
    refine (hmax q hq hbq).trans ?_
    by_contra hsize
    have hsize := not_le.mp hsize
    rcases append_cons_cases (hxs.symm.trans hxs') with heq | ⟨hr, hr'⟩ | ⟨hr', hr⟩
    · exact absurd (heq ▸ hsize) (lt_irrefl _)
    · exact absurd (hpre' r hr hb hsize) (hpost r' hr').not_gt
    · exact absurd (hpre r' hr') (hpost' r hr hb hsize).not_gt

end Leader
