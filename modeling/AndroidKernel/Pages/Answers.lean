import AndroidKernel.Pages.Regrouped

/-! What `__rmqueue` answers: a block from one of the lists that may serve the request, cut from one
that is large enough, or nothing where these lists have no such block. -/

namespace AndroidKernel.Pages
open DyadicBlocks
variable {c : Config} {z z' z'' : Zone} {p q o low high order : ℕ} {mt t startMt : Migratetype}
  {b B : Block}

/-- The answer of an allocation that may use the lists of `ts`, for the orders in `O`: a block cut
from one on these lists, or none because they are empty. -/
def Answers (c : Config) (z : Zone) (mt : Migratetype) (order : ℕ) (ts : List Migratetype)
    (O : ℕ → Prop) : Option (ℕ × Zone) → Prop
  | some (p, z') => ∃ high, O high ∧ order ≤ high ∧ ∃ t ∈ ts, Taken c z mt ⟨p, order⟩ z' ⟨p, high⟩ t
  | none => ∀ o, O o → order ≤ o → ∀ t ∈ ts, (z.freeArea o).freeList t = []

variable {ts : List Migratetype} {O : ℕ → Prop}

theorem rmqueueSmallestFrom_answers (startMt mt : Migratetype) (h : Tidy c z) (fuel currentOrder : ℕ)
    (hf : fuel = c.maxOrder - currentOrder) (hle : order ≤ currentOrder) :
    Answers c z startMt order [mt] (currentOrder ≤ ·)
      (rmqueueSmallestFrom c z order mt fuel currentOrder) := by
  induction fuel generalizing currentOrder with
  | zero =>
    intro o ho _ t ht
    refine List.eq_nil_iff_forall_not_mem.mpr fun p hp => ?_
    have hlt := h.order_lt hp
    have hco : currentOrder ≤ o := ho
    omega
  | succ fuel ih =>
    rw [rmqueueSmallestFrom]
    cases hl : (z.freeArea currentOrder).freeList mt with
    | nil =>
      have hrec := ih (currentOrder + 1) (by omega) (by omega)
      dsimp only
      generalize rmqueueSmallestFrom c z order mt fuel (currentOrder + 1) = r at hrec
      match r, hrec with
      | some (p, z'), ⟨high, hhigh, hrest⟩ => exact ⟨high, Nat.le_of_succ_le hhigh, hrest⟩
      | none, hrec =>
        intro o ho hoo t ht
        rcases Nat.lt_or_eq_of_le ho with hlt | rfl
        · exact hrec o hlt hoo t ht
        · rw [List.mem_singleton.mp ht]
          exact hl
    | cons page rest =>
      have hp : page ∈ (z.freeArea currentOrder).freeList mt := hl ▸ List.mem_cons_self ..
      exact ⟨currentOrder, le_rfl, hle, mt, List.mem_singleton_self mt,
        expand_taken h hp hle (Or.inr rfl)⟩

theorem rmqueueSmallest_answers (startMt mt : Migratetype) (order : ℕ) (h : Tidy c z) :
    Answers c z startMt order [mt] (fun _ => True) (rmqueueSmallest c z order mt) := by
  have hrec := rmqueueSmallestFrom_answers startMt mt h (c.maxOrder - order) order
    rfl le_rfl
  unfold rmqueueSmallest
  generalize rmqueueSmallestFrom c z order mt (c.maxOrder - order) order = r at hrec
  match r, hrec with
  | some (p, z'), ⟨high, _, hrest⟩ => exact ⟨high, trivial, hrest⟩
  | none, hrec => exact fun o _ ho => hrec o ho ho

theorem rmqueueFallbackRow_answers (startMt : Migratetype) (h : Tidy c z) (hle : order ≤ high) (mts : List Migratetype) :
    Answers c z startMt order (mts.takeWhile (· ≠ .reserve)) (· = high)
      (rmqueueFallbackRow c z order startMt high mts) := by
  induction mts with
  | nil => exact fun o _ _ t ht => absurd ht List.not_mem_nil
  | cons t mts ih =>
    rw [rmqueueFallbackRow]
    by_cases ht : t = .reserve
    · rw [if_pos ht, List.takeWhile_cons, if_neg (by simpa using ht)]
      exact fun o _ _ t ht => absurd ht List.not_mem_nil
    · rw [if_neg ht, List.takeWhile_cons, if_pos (by simpa using ht)]
      cases hl : (z.freeArea high).freeList t with
      | nil =>
        dsimp only
        generalize rmqueueFallbackRow c z order startMt high mts = r at ih
        match r, ih with
        | some (p, z'), ⟨_, rfl, hord, t', ht', hrest⟩ =>
          exact ⟨_, rfl, hord, t', List.mem_cons_of_mem _ ht', hrest⟩
        | none, ih =>
          rintro o rfl hoo t' ht'
          rcases List.mem_cons.mp ht' with rfl | ht'
          · exact hl
          · exact ih o rfl hoo t' ht'
      | cons page rest =>
        have hp : page ∈ (z.freeArea high).freeList t := hl ▸ List.mem_cons_self ..
        exact ⟨high, rfl, hle, t, List.mem_cons_self .., stealBlock_spec h hp hle⟩

theorem rmqueueFallbackFrom_answers (startMt : Migratetype) (order : ℕ) (h : Tidy c z) (n : ℕ) :
    Answers c z startMt order ((fallbacks c startMt).takeWhile (· ≠ .reserve)) (· < n)
      (rmqueueFallbackFrom c z order startMt n) := by
  induction n with
  | zero => exact fun o ho => absurd ho (Nat.not_lt_zero o)
  | succ n ih =>
    rw [rmqueueFallbackFrom]
    split_ifs with hle
    · have hrow := rmqueueFallbackRow_answers startMt h hle (fallbacks c startMt)
      generalize rmqueueFallbackRow c z order startMt n (fallbacks c startMt) = r at hrow
      match r, hrow with
      | some (p, z'), ⟨_, rfl, hrest⟩ => exact ⟨_, Nat.lt_succ_self _, hrest⟩
      | none, hrow =>
        dsimp only
        generalize rmqueueFallbackFrom c z order startMt n = r' at ih
        match r', ih with
        | some (p, z'), ⟨high, hlt, hrest⟩ => exact ⟨high, Nat.lt_succ_of_lt hlt, hrest⟩
        | none, ih =>
          intro o ho hoo t ht
          rcases Nat.lt_or_eq_of_le (Nat.le_of_lt_succ ho) with hlt | rfl
          · exact ih o hlt hoo t ht
          · exact hrow o rfl hoo t ht
    · intro o ho hoo
      have hlt : o < n + 1 := ho
      omega

def usable (c : Config) (mt : Migratetype) : List Migratetype :=
  mt :: (fallbacks c mt).takeWhile (· ≠ .reserve) ++ [.reserve]

theorem rmqueue_answers (mt : Migratetype) (order : ℕ) (h : Tidy c z) :
    Answers c z mt order (usable c mt) (fun _ => True) (rmqueue c z order mt) := by
  have hfirst := rmqueueSmallest_answers mt mt order h
  have hlast := rmqueueSmallest_answers mt .reserve order h
  have hback := rmqueueFallbackFrom_answers mt order h c.maxOrder
  unfold rmqueue
  generalize rmqueueSmallest c z order mt = r₁ at hfirst
  match r₁, hfirst with
  | some (p, z'), ⟨high, _, hord, t, ht, hrest⟩ =>
    rw [List.mem_singleton.mp ht] at hrest
    exact ⟨high, trivial, hord, mt, by simp [usable], hrest⟩
  | none, hfirst =>
    dsimp only
    by_cases hmt : mt ≠ .reserve
    · rw [if_pos hmt]
      unfold rmqueueFallback
      generalize rmqueueFallbackFrom c z order mt c.maxOrder = r₂ at hback
      match r₂, hback with
      | some (p, z'), ⟨high, _, hord, t, ht, hrest⟩ =>
        refine ⟨high, trivial, hord, t, ?_, hrest⟩
        simp only [usable, List.cons_append, List.mem_cons, List.mem_append]
        exact Or.inr (Or.inl ht)
      | none, hback =>
        dsimp only
        generalize rmqueueSmallest c z order .reserve = r₃ at hlast
        match r₃, hlast with
        | some (p, z'), ⟨high, _, hord, t, ht, hrest⟩ =>
          rw [List.mem_singleton.mp ht] at hrest
          exact ⟨high, trivial, hord, .reserve, by simp [usable], hrest⟩
        | none, hlast =>
          intro o _ ho t ht
          simp only [usable, List.cons_append, List.mem_cons, List.mem_append, List.not_mem_nil,
            or_false] at ht
          rcases ht with rfl | ht | rfl
          · exact hfirst o trivial ho t (List.mem_singleton_self t)
          · refine List.eq_nil_iff_forall_not_mem.mpr fun p hp => ?_
            have hnil := hback o (h.order_lt hp) ho t ht
            rw [hnil] at hp
            exact absurd hp List.not_mem_nil
          · exact hlast o trivial ho _ (List.mem_singleton_self _)
    · rw [if_neg hmt]
      rw [not_not] at hmt
      subst hmt
      intro o _ ho t ht
      simp only [usable, fallbacks, List.cons_append, List.mem_cons, List.mem_append,
        List.takeWhile, List.not_mem_nil, or_false] at ht
      have ht' : t = .reserve := by simpa using ht
      exact hfirst o trivial ho t (ht' ▸ List.mem_singleton_self _)

theorem rmqueueCma_answers (h : Tidy c z) (cmaAlloc : Bool) :
    Answers c z mt order (if c.cma ∧ mt = .movable ∧ !cmaAlloc then .cma :: usable c mt
      else usable c mt) (fun _ => True) (rmqueueCma c cmaAlloc z order mt) := by
  have hfirst := rmqueueSmallest_answers mt .cma order h
  have hrest := rmqueue_answers mt order h
  unfold rmqueueCma
  split_ifs
  · generalize rmqueueSmallest c z order .cma = r₁ at hfirst
    match r₁, hfirst with
    | some (p, z'), ⟨high, _, hord, t, ht, htaken⟩ =>
      rw [List.mem_singleton.mp ht] at htaken
      exact ⟨high, trivial, hord, .cma, List.mem_cons_self .., htaken⟩
    | none, hfirst =>
      dsimp only
      generalize rmqueue c z order mt = r₂ at hrest
      match r₂, hrest with
      | some (p, z'), ⟨high, _, hord, t, ht, htaken⟩ =>
        exact ⟨high, trivial, hord, t, List.mem_cons_of_mem _ ht, htaken⟩
      | none, hrest =>
        intro o _ ho t ht
        rcases List.mem_cons.mp ht with rfl | ht
        · exact hfirst o trivial ho _ (List.mem_singleton_self _)
        · exact hrest o trivial ho t ht
  · exact hrest

end AndroidKernel.Pages
