import Mathlib.Tactic

/-! Logs of events, and ledgers: logs in which an event may give one unit to somebody and take
one from somebody. If nobody gives back more than they hold, the number of holders is bounded by
the difference of the totals. -/

namespace Ledger
variable {ε τ : Type*}

/-- Every event of the log satisfies `P`, which may look at the events before it. -/
def Each (P : List ε → ε → Prop) (log : List ε) : Prop :=
  ∀ pre e post, log = pre ++ e :: post → P pre e

theorem each_nil (P : List ε → ε → Prop) : Each P [] := by
  intro pre e post h
  simp at h

theorem each_concat {P : List ε → ε → Prop} {log : List ε} {e : ε} :
    Each P (log ++ [e]) ↔ Each P log ∧ P log e := by
  constructor
  · intro h
    refine ⟨fun pre d post hd => h pre d (post ++ [e]) (by simp [hd]), h log e [] rfl⟩
  · rintro ⟨h, he⟩ pre d post hd
    rcases List.eq_nil_or_concat post with rfl | ⟨post', x, rfl⟩
    · obtain ⟨rfl, hx⟩ := List.append_inj' hd rfl
      obtain rfl : e = d := by simpa using hx
      exact he
    · rw [List.concat_eq_append, ← List.cons_append, ← List.append_assoc] at hd
      exact h pre d post' (List.append_inj' hd rfl).1

variable [DecidableEq τ] (gain loss : ε → Option τ)

def total (f : ε → Option τ) (log : List ε) : ℕ := log.countP fun e => (f e).isSome

def held (log : List ε) (t : τ) : ℤ :=
  (log.countP fun e => gain e = some t : ℕ) - (log.countP fun e => loss e = some t : ℕ)

def Covered (log : List ε) : Prop := Each (fun pre e => ∀ t ∈ loss e, 0 < held gain loss pre t) log

omit [DecidableEq τ] in
theorem total_concat (f : ε → Option τ) (log : List ε) (e : ε) :
    total f (log ++ [e]) = total f log + if (f e).isSome then 1 else 0 := by
  rw [total, List.countP_append, List.countP_singleton]
  rfl

theorem held_concat (log : List ε) (e : ε) (t : τ) : held gain loss (log ++ [e]) t =
    held gain loss log t + (if gain e = some t then 1 else 0) -
      (if loss e = some t then 1 else 0) := by
  simp only [held, List.countP_append, List.countP_singleton, decide_eq_true_eq]
  split_ifs <;> push_cast <;> ring

theorem sum_ite_eq_some (S : Finset τ) (o : Option τ) :
    (∑ t ∈ S, if o = some t then (1 : ℤ) else 0) = if ∃ t ∈ S, o = some t then 1 else 0 := by
  cases o with
  | none => simp
  | some u => simp [Finset.sum_ite_eq]

variable {gain loss}

/-- The units that a set of parties holds never exceed the units given and not taken back. -/
theorem Covered.sum_held_le {log : List ε} (h : Covered gain loss log) (S : Finset τ) :
    ∑ t ∈ S, held gain loss log t ≤ total gain log - total loss log := by
  induction log using List.reverseRecOn generalizing S with
  | nil => simp [held, total]
  | append_singleton log e ih =>
    obtain ⟨hl, he⟩ := each_concat.mp h
    have hgain : (if ∃ t ∈ S, gain e = some t then (1 : ℤ) else 0) ≤
        if (gain e).isSome then 1 else 0 := by
      cases gain e with
      | none => simp
      | some u => simp only [Option.isSome_some]; split_ifs <;> simp
    simp only [held_concat, Finset.sum_sub_distrib, Finset.sum_add_distrib, sum_ite_eq_some,
      total_concat]
    push_cast
    cases hu : loss e with
    | none =>
      have := ih hl S
      simp only [reduceCtorEq, and_false, exists_false, if_false, Option.isSome_none,
        Bool.false_eq_true]
      omega
    | some u =>
      have hpos := he u hu
      by_cases hmem : u ∈ S
      · have := ih hl S
        have hex : ∃ t ∈ S, some u = some t := ⟨u, hmem, rfl⟩
        rw [if_pos hex, Option.isSome_some, if_pos rfl]
        omega
      -- the unit comes from outside `S`, so the bound is needed for `S` and its holder together
      · have := ih hl (insert u S)
        rw [Finset.sum_insert hmem] at this
        have hex : ¬ ∃ t ∈ S, some u = some t := by
          rintro ⟨t, ht, he⟩
          exact hmem (Option.some.inj he ▸ ht)
        rw [if_neg hex, Option.isSome_some, if_pos rfl]
        omega

theorem Covered.card_holders_le {log : List ε} (h : Covered gain loss log) {S : Finset τ}
    (hS : ∀ t ∈ S, 0 < held gain loss log t) : (S.card : ℤ) ≤ total gain log - total loss log := by
  have hcard : (S.card : ℤ) ≤ ∑ t ∈ S, held gain loss log t := by
    simpa using Finset.card_nsmul_le_sum S _ 1 fun t ht => Int.add_one_le_iff.mpr (hS t ht)
  exact hcard.trans (h.sum_held_le S)

end Ledger
