import AndroidKernel.Lib.Runs

/-! Flows through a system that logs what it does. A value grows along a run by no more than the
weights of the events that the run adds to the log. -/

namespace Flow
variable {σ α ε : Type*}

def total (weight : ε → ℤ) (w : List ε) : ℤ := (w.map weight).sum

theorem total_append (weight : ε → ℤ) (w w' : List ε) :
    total weight (w ++ w') = total weight w + total weight w' := by
  rw [total, List.map_append, List.sum_append]
  rfl

theorem total_singleton (weight : ε → ℤ) (e : ε) : total weight [e] = weight e := List.sum_singleton

theorem total_congr {weight weight' : ε → ℤ} {w : List ε} (h : ∀ e ∈ w, weight e = weight' e) :
    total weight w = total weight' w := congrArg List.sum (List.map_congr_left h)

theorem total_add (weight weight' : ε → ℤ) (w : List ε) :
    total (fun e => weight e + weight' e) w = total weight w + total weight' w :=
  List.sum_map_add

theorem total_mul (c : ℤ) (weight : ε → ℤ) (w : List ε) :
    total (fun e => c * weight e) w = c * total weight w := List.sum_map_mul_left w weight c

variable {log : σ → List ε} {P : ε → Prop} {value : σ → ℤ} {weight : ε → ℤ} {s t u : σ}

/-- From one state to the next the log grows by events that all satisfy `P`, and the value by no
more than their weights. -/
def Bounded (log : σ → List ε) (P : ε → Prop) (value : σ → ℤ) (weight : ε → ℤ) (s t : σ) : Prop :=
  ∃ w, log t = log s ++ w ∧ (∀ e ∈ w, P e) ∧ value t ≤ value s + total weight w

theorem Bounded.silent (hlog : log t = log s) (h : value t ≤ value s) :
    Bounded log P value weight s t := by
  refine ⟨[], by rw [hlog, List.append_nil], fun e he => absurd he List.not_mem_nil, ?_⟩
  change value t ≤ value s + 0
  rwa [add_zero]

theorem Bounded.refl (s : σ) : Bounded log P value weight s s := .silent rfl le_rfl

theorem Bounded.emits {e : ε} (hlog : log t = log s ++ [e]) (he : P e)
    (h : value t ≤ value s + weight e) : Bounded log P value weight s t := by
  refine ⟨[e], hlog, fun d hd => ?_, ?_⟩
  · rwa [List.mem_singleton.mp hd]
  · rwa [total_singleton]

theorem Bounded.trans (hst : Bounded log P value weight s t)
    (htu : Bounded log P value weight t u) : Bounded log P value weight s u := by
  obtain ⟨w, hw, hP, hv⟩ := hst
  obtain ⟨w', hw', hP', hv'⟩ := htu
  refine ⟨w ++ w', by rw [hw', hw, List.append_assoc], fun e he => ?_, ?_⟩
  · exact (List.mem_append.mp he).elim (hP e) (hP' e)
  · rw [total_append]
    linarith

theorem Bounded.exec {next : σ → α → Option σ} {I : σ → Prop} {A : α → Prop}
    (hstep : ∀ s a t, I s → A a → next s a = some t → I t ∧ Bounded log P value weight s t)
    {as : List α} (ha : ∀ a ∈ as, A a) (hs : I s) (h : Lts.exec next as s = some t) :
    Bounded log P value weight s t := by
  induction as generalizing s with
  | nil =>
    obtain rfl := Option.some_inj.mp h
    exact .refl s
  | cons a as ih =>
    obtain ⟨u, hu, hv⟩ := Lts.exec_cons_eq_some.mp h
    obtain ⟨hiu, hb⟩ := hstep s a u hs (ha a (List.mem_cons_self ..)) hu
    exact hb.trans (ih (fun b hb => ha b (List.mem_cons_of_mem a hb)) hiu hv)

end Flow
