import AndroidKernel.Lib.RoseWalk

/-! The walk over the tree of task groups, `walk_tg_tree_from` of `hw4/kernel/sched/core.c`. -/

namespace AndroidKernel.Groups
open RoseWalk

variable {τ σ : Type*} [DecidableEq τ]

structure Hierarchy (τ : Type*) where
  children : τ → List τ
  parent : τ → Option τ

/-- The labels of `walk_tg_tree_from` with its variables; `loop` is the test of the loop over the
children. -/
inductive Pc (τ : Type*)
  | down (parent : τ)
  | loop (parent : τ) (child : Option τ)
  | out (ret : ℤ)

def nextSibling (child : τ) : List τ → Option τ
  | [] => none
  | c :: l => if c = child then l.head? else nextSibling child l

def walkStep (h : Hierarchy τ) (start : τ) (down up : τ → σ → ℤ × σ) : Pc τ × σ → Pc τ × σ
  | (.down parent, s) =>
    let (ret, s) := down parent s
    if ret ≠ 0 then (.out ret, s) else (.loop parent (h.children parent).head?, s)
  | (.loop _ (some child), s) => (.down child, s)
  | (.loop parent none, s) =>
    let (ret, s) := up parent s
    if ret ≠ 0 ∨ parent = start then (.out ret, s)
    else match h.parent parent with
      | none => (.out ret, s)
      | some grandparent => (.loop grandparent (nextSibling parent (h.children grandparent)), s)
  | (.out ret, s) => (.out ret, s)

inductive Fits (h : Hierarchy τ) : Rose τ → Prop
  | node (g : τ) (ts : List (Rose τ)) (hchildren : h.children g = ts.map Rose.root)
      (hnodup : (h.children g).Nodup) (hparent : ∀ t ∈ ts, h.parent t.root = some g)
      (hts : ∀ t ∈ ts, Fits h t) : Fits h (.node g ts)

variable {h : Hierarchy τ} {start : τ} {down up : τ → σ → ℤ × σ} {x y z : Pc τ × σ}

def Leads (h : Hierarchy τ) (start : τ) (down up : τ → σ → ℤ × σ) (x y : Pc τ × σ) : Prop :=
  ∃ n, (walkStep h start down up)^[n] x = y

theorem leads_refl (x : Pc τ × σ) : Leads h start down up x x := ⟨0, rfl⟩

theorem Leads.trans (hxy : Leads h start down up x y) (hyz : Leads h start down up y z) :
    Leads h start down up x z := by
  obtain ⟨n, rfl⟩ := hxy
  obtain ⟨m, rfl⟩ := hyz
  exact ⟨m + n, Function.iterate_add_apply ..⟩

theorem leads_step (hxy : walkStep h start down up x = y) : Leads h start down up x y := ⟨1, hxy⟩

theorem nextSibling_append {pre post : List τ} {c : τ} (hc : c ∉ pre) :
    nextSibling c (pre ++ c :: post) = post.head? := by
  induction pre with
  | nil => exact if_pos rfl
  | cons b pre ih =>
    obtain ⟨hb, hpre⟩ := not_or.mp (mt List.mem_cons.mpr hc)
    rw [List.cons_append, nextSibling, if_neg (Ne.symm hb), ih hpre]

def after (r : ℤ × σ) (cont : Pc τ) : Pc τ × σ :=
  if r.1 ≠ 0 then (.out r.1, r.2) else (cont, r.2)

omit [DecidableEq τ] in
theorem after_ne {r : ℤ × σ} {cont : Pc τ} (hr : r.1 ≠ 0) : after r cont = (.out r.1, r.2) :=
  if_pos hr

omit [DecidableEq τ] in
theorem after_zero {r : ℤ × σ} {cont : Pc τ} (hr : ¬ r.1 ≠ 0) : after r cont = (cont, r.2) :=
  if_neg hr

theorem leads_loop {g : τ} {ts : List (Rose τ)} (pre : List τ)
    (hchildren : h.children g = pre ++ ts.map Rose.root) (hnodup : (h.children g).Nodup)
    (hts : ∀ t ∈ ts, ∀ s, Leads h start down up (.down t.root, s)
      (after (t.walk down up s) (.loop g (nextSibling t.root (h.children g))))) (s : σ) :
    Leads h start down up (.loop g (ts.map Rose.root).head?, s)
      (after (walkAll down up ts s) (.loop g none)) := by
  induction ts generalizing pre s with
  | nil => exact leads_refl _
  | cons t ts ih =>
    obtain ⟨ht, hrest⟩ := List.forall_mem_cons.mp hts
    have hfirst : Leads h start down up (.loop g (some t.root), s) (.down t.root, s) :=
      leads_step rfl
    have hwalk := hfirst.trans (ht s)
    rw [walkAll]
    by_cases hr : (t.walk down up s).1 ≠ 0
    · rw [if_pos hr, after_ne hr]
      rwa [after_ne hr] at hwalk
    · have hpre : t.root ∉ pre := by
        intro hm
        rw [hchildren] at hnodup
        exact (List.disjoint_of_nodup_append hnodup) hm (List.mem_cons_self ..)
      have hnext : nextSibling t.root (h.children g) = (ts.map Rose.root).head? := by
        rw [hchildren, List.map_cons, nextSibling_append hpre]
      have hsplit : h.children g = (pre ++ [t.root]) ++ ts.map Rose.root := by
        rw [hchildren, List.map_cons, List.append_assoc]
        rfl
      rw [after_zero hr, hnext] at hwalk
      rw [if_neg hr]
      exact hwalk.trans (ih (pre ++ [t.root]) hsplit hrest _)

theorem leads_node {g : τ} {ts : List (Rose τ)} (hchildren : h.children g = ts.map Rose.root)
    (hnodup : (h.children g).Nodup)
    (hts : ∀ t ∈ ts, ∀ s, Leads h start down up (.down t.root, s)
      (after (t.walk down up s) (.loop g (nextSibling t.root (h.children g)))))
    {s : σ} (hr : ¬ (down g s).1 ≠ 0) :
    Leads h start down up (.down g, s) (after (walkAll down up ts (down g s).2) (.loop g none)) := by
  have hdown : Leads h start down up (.down g, s)
      (.loop g (ts.map Rose.root).head?, (down g s).2) := by
    refine leads_step ?_
    simp only [walkStep, if_neg hr, hchildren]
  exact hdown.trans (leads_loop [] hchildren hnodup hts (down g s).2)

theorem Fits.leads {t : Rose τ} (hf : Fits h t) {q : τ} (hstart : start ∉ t.nodes)
    (hq : h.parent t.root = some q) (s : σ) : Leads h start down up (.down t.root, s)
      (after (t.walk down up s) (.loop q (nextSibling t.root (h.children q)))) := by
  induction hf generalizing q s with
  | node g ts hchildren hnodup hparent _ ih =>
    obtain ⟨hg, hstart⟩ := not_or.mp (mt List.mem_cons.mpr hstart)
    rw [Rose.walk]
    by_cases hr : (down g s).1 ≠ 0
    · rw [if_pos hr, after_ne hr]
      exact leads_step (if_pos hr)
    · rw [if_neg hr]
      have hloop := leads_node hchildren hnodup (fun t ht s =>
        ih t ht (fun hm => hstart (mem_forest.mpr ⟨t, ht, hm⟩)) (hparent t ht) s) hr
      by_cases hr' : (walkAll down up ts (down g s).2).1 ≠ 0
      · rw [if_pos hr', after_ne hr']
        rwa [after_ne hr'] at hloop
      · rw [after_zero hr'] at hloop
        rw [if_neg hr']
        refine hloop.trans (leads_step ?_)
        have hq' : h.parent g = some q := hq
        simp only [walkStep, after, Ne.symm hg, or_false, hq', Rose.root]

/-- `walk_tg_tree_from` ends, with the answer of the recursive walk: every group is entered before
its children and left after them, in their order, up to the first visit that fails. -/
theorem walkTgTreeFrom_spec {t : Rose τ} (hf : Fits h t) (hnodup : t.nodes.Nodup) (s : σ) :
    Leads h t.root down up (.down t.root, s)
      (.out (t.walk down up s).1, (t.walk down up s).2) := by
  cases hf with
  | node g ts hchildren hnodup' hparent hts =>
    have hg : g ∉ forest ts := (List.nodup_cons.mp hnodup).1
    rw [Rose.walk]
    by_cases hr : (down g s).1 ≠ 0
    · rw [if_pos hr]
      exact leads_step (if_pos hr)
    · rw [if_neg hr]
      have hloop : Leads h g down up (.down g, s)
          (after (walkAll down up ts (down g s).2) (.loop g none)) :=
        leads_node hchildren hnodup' (fun t ht s =>
          (hts t ht).leads (fun hm => hg (mem_forest.mpr ⟨t, ht, hm⟩)) (hparent t ht) s) hr
      by_cases hr' : (walkAll down up ts (down g s).2).1 ≠ 0
      · rw [if_pos hr']
        rwa [after_ne hr'] at hloop
      · rw [after_zero hr'] at hloop
        rw [if_neg hr']
        refine hloop.trans (leads_step ?_)
        simp only [walkStep, or_true, if_true]

def fourGroups : Hierarchy ℕ where
  children g := if g = 0 then [1, 2] else if g = 1 then [3] else []
  parent g := if g = 0 then none else if g = 3 then some 1 else some 0

def fourGroupsTree : Rose ℕ := .node 0 [.node 1 [.node 3 []], .node 2 []]

omit [DecidableEq τ] in
theorem fits_leaf {g : τ} (hg : h.children g = []) : Fits h (.node g []) :=
  .node g [] hg (hg ▸ List.nodup_nil) (fun _ ht => absurd ht List.not_mem_nil)
    fun _ ht => absurd ht List.not_mem_nil

theorem fourGroups_fits : Fits fourGroups fourGroupsTree := by
  have hone : Fits fourGroups (.node 1 [.node 3 []]) := by
    refine .node 1 _ rfl (by decide) ?_ ?_
    · simp [Rose.root, fourGroups]
    · exact List.forall_mem_singleton.mpr (fits_leaf rfl)
  refine .node 0 _ rfl (by decide) ?_ ?_
  · simp [Rose.root, fourGroups]
  · exact List.forall_mem_cons.mpr ⟨hone, List.forall_mem_singleton.mpr (fits_leaf rfl)⟩

theorem walkTgTreeFrom_spec_fourGroups : Leads fourGroups 0 (fun g s => (0, s ++ [g]))
    (fun g s => (0, s ++ [g])) (.down 0, []) (.out 0, [0, 1, 3, 3, 1, 2, 2, 0]) :=
  walkTgTreeFrom_spec fourGroups_fits (by decide) []

end AndroidKernel.Groups
