import Mathlib.Tactic

/-! Depth-first walks over a tree with any number of children. A visitor is called on the way down
and on the way up; the first call that answers something other than zero ends the walk. -/

namespace RoseWalk

inductive Rose (τ : Type*)
  | node (g : τ) (ts : List (Rose τ))

variable {τ σ : Type*}

def Rose.root : Rose τ → τ
  | .node g _ => g

mutual

def Rose.nodes : Rose τ → List τ
  | .node g ts => g :: forest ts

def forest : List (Rose τ) → List τ
  | [] => []
  | t :: ts => t.nodes ++ forest ts

end

variable (down up : τ → σ → ℤ × σ)

mutual

def Rose.walk : Rose τ → σ → ℤ × σ
  | .node g ts, s =>
    if (down g s).1 ≠ 0 then down g s
    else if (walkAll ts (down g s).2).1 ≠ 0 then walkAll ts (down g s).2
    else up g (walkAll ts (down g s).2).2

def walkAll : List (Rose τ) → σ → ℤ × σ
  | [], s => (0, s)
  | t :: ts, s => if (t.walk s).1 ≠ 0 then t.walk s else walkAll ts (t.walk s).2

end

variable {down up} {t : Rose τ} {ts : List (Rose τ)} {x : τ}

theorem mem_forest : x ∈ forest ts ↔ ∃ t ∈ ts, x ∈ t.nodes := by
  induction ts with
  | nil => simp [forest]
  | cons t ts ih => simp [forest, ih]

theorem nodes_sublist (ht : t ∈ ts) : t.nodes.Sublist (forest ts) := by
  induction ts with
  | nil => cases ht
  | cons t' ts ih =>
    rcases List.mem_cons.mp ht with rfl | ht
    · exact List.sublist_append_left ..
    · exact (ih ht).trans (List.sublist_append_right ..)

end RoseWalk
