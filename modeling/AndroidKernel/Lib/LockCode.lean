import Mathlib.Tactic

/-! Threads that run code with spin locks and fallible calls in any interleaving. Code is a tree of
what a thread does next; a choice that depends on data can go either way. A predicate on the locks
held and the code ahead that holds all along every path of the code holds in every state. -/

namespace LockCode
variable {L C ε τ : Type*}

/-- What a thread has still to do. `done` is the return to the caller, `stop` the end of the
thread. -/
inductive Code (L C : Type*)
  | done
  | stop
  | take (l : L) (k : Code L C)
  | drop (l : L) (k : Code L C)
  | block (k : Code L C)
  | call (c : C) (ok fail : Code L C)
  | branch (k₁ k₂ : Code L C)
deriving DecidableEq, Repr

structure State (L C τ : Type*) where
  word : L → Bool
  held : τ → List L
  code : τ → Code L C

/-- A thread enters the code `e`, or takes its next step; `ok` decides how a call or a branch
turns out. -/
inductive Act (τ ε : Type*)
  | enter (t : τ) (e : ε)
  | step (t : τ) (ok : Bool)

def start (L C τ : Type*) : State L C τ where
  word := fun _ => false
  held := fun _ => []
  code := fun _ => .done

variable [DecidableEq L] [DecidableEq τ]

def State.goto (s : State L C τ) (t : τ) (k : Code L C) : State L C τ :=
  { s with code := Function.update s.code t k }

/-- A thread that finds the word of a lock set spins on it. -/
def step (s : State L C τ) (t : τ) (ok : Bool) : Code L C → Option (State L C τ)
  | .done | .stop => none
  | .take l k =>
    some (if s.word l then s else { s.goto t k with
      word := Function.update s.word l true
      held := Function.update s.held t (l :: s.held t) })
  | .drop l k => some { s.goto t k with
      word := Function.update s.word l false
      held := Function.update s.held t ((s.held t).erase l) }
  | .block k => some (s.goto t k)
  | .call _ k fail => some (s.goto t (if ok then k else fail))
  | .branch k₁ k₂ => some (s.goto t (if ok then k₁ else k₂))

def next (prog : τ → ε → Option (Code L C)) (s : State L C τ) : Act τ ε → Option (State L C τ)
  | .enter t e => match s.code t with
    | .done => (prog t e).map (s.goto t)
    | _ => none
  | .step t ok => step s t ok (s.code t)

/-- `P` holds of the locks held and the code ahead, here and at every later point, where only the
calls in `fails` are taken to fail. -/
def Every (fails : C → Prop) (P : List L → Code L C → Prop) (H : List L) : Code L C → Prop
  | .done => P H .done
  | .stop => P H .stop
  | .take l k => P H (.take l k) ∧ Every fails P (l :: H) k
  | .drop l k => P H (.drop l k) ∧ Every fails P (H.erase l) k
  | .block k => P H (.block k) ∧ Every fails P H k
  | .call c k fail =>
    P H (.call c k fail) ∧ Every fails P H k ∧ (fails c → Every fails P H fail)
  | .branch k₁ k₂ => P H (.branch k₁ k₂) ∧ Every fails P H k₁ ∧ Every fails P H k₂

variable {fails : C → Prop}

def FailsOnly (fails : C → Prop) (s : State L C τ) : Act τ ε → Prop
  | .step t false => match s.code t with
    | .call c _ _ => fails c
    | _ => True
  | _ => True

instance FailsOnly.decidable [DecidablePred fails] (s : State L C τ) :
    ∀ a : Act τ ε, Decidable (FailsOnly fails s a)
  | .enter _ _ => .isTrue trivial
  | .step _ true => .isTrue trivial
  | .step t false =>
    match h : s.code t with
    | .call c _ _ => decidable_of_iff (fails c) (by simp [FailsOnly, h])
    | .done | .stop | .take _ _ | .drop _ _ | .block _ | .branch _ _ =>
      .isTrue (by simp [FailsOnly, h])

variable {prog : τ → ε → Option (Code L C)} {P : List L → Code L C → Prop}
  {s s' : State L C τ} {a : Act τ ε} {H : List L} {k : Code L C}

theorem Every.here (h : Every fails P H k) : P H k := by
  cases k with
  | done | stop => exact h
  | take | drop | block | call | branch => exact h.1

def Throughout (fails : C → Prop) (P : List L → Code L C → Prop) (s : State L C τ) : Prop :=
  ∀ t, Every fails P (s.held t) (s.code t)

theorem Throughout.goto (h : Throughout fails P s) {t : τ}
    (hc : s'.code = Function.update s.code t k) (hh : ∀ u, u ≠ t → s'.held u = s.held u)
    (hk : Every fails P (s'.held t) k) : Throughout fails P s' := by
  intro u
  by_cases hut : u = t
  · rw [hc, hut, Function.update_self]
    exact hk
  · rw [hc, Function.update_of_ne hut, hh u hut]
    exact h u

theorem Throughout.next (hprog : ∀ t e k, prog t e = some k → Every fails P [] k)
    (hdone : ∀ H, P H .done → H = []) (h : Throughout fails P s) (hf : FailsOnly fails s a)
    (hn : next prog s a = some s') : Throughout fails P s' := by
  cases a with
  | enter t e =>
    simp only [LockCode.next] at hn
    split at hn
    · rename_i hdone'
      obtain ⟨k, hk, rfl⟩ := Option.map_eq_some_iff.mp hn
      have hheld : s.held t = [] := hdone _ (hdone' ▸ (h t).here)
      refine h.goto (t := t) rfl (fun _ _ => rfl) ?_
      show Every fails P (s.held t) k
      rw [hheld]
      exact hprog t e k hk
    · cases hn
  | step t ok =>
    have ht := h t
    simp only [LockCode.next] at hn
    cases hk : s.code t with
    | done | stop =>
      rw [hk] at hn
      cases hn
    | take l k =>
      simp only [hk, step, Option.some.injEq] at hn
      subst hn
      rw [hk] at ht
      split_ifs with hw
      · exact h
      · refine h.goto (t := t) rfl (fun u hu => Function.update_of_ne hu _ _) ?_
        simp only [Function.update_self]
        exact ht.2
    | drop l k =>
      simp only [hk, step, Option.some.injEq] at hn
      subst hn
      rw [hk] at ht
      refine h.goto (t := t) rfl (fun u hu => Function.update_of_ne hu _ _) ?_
      simp only [Function.update_self]
      exact ht.2
    | block k =>
      simp only [hk, step, Option.some.injEq] at hn
      subst hn
      rw [hk] at ht
      exact h.goto (t := t) rfl (fun _ _ => rfl) ht.2
    | call c k fail =>
      simp only [hk, step, Option.some.injEq] at hn
      subst hn
      rw [hk] at ht
      refine h.goto (t := t) rfl (fun _ _ => rfl) ?_
      cases ok with
      | true => exact ht.2.1
      | false =>
        simp only [FailsOnly, hk] at hf
        exact ht.2.2 hf
    | branch k₁ k₂ =>
      simp only [hk, step, Option.some.injEq] at hn
      subst hn
      rw [hk] at ht
      refine h.goto (t := t) rfl (fun _ _ => rfl) ?_
      cases ok with
      | true => exact ht.2.1
      | false => exact ht.2.2

end LockCode
