import Mathlib.Tactic

/-! Singly linked chains in a heap of nodes. `Chain heap p xs q` follows `next` from `p` through
exactly the nodes listed in `xs`, address and data, and ends at the pointer `q`. -/

namespace LinkedList
variable {κ ν : Type*}

structure Node (κ ν : Type*) where
  data : ν
  next : Option κ
deriving DecidableEq, Repr

abbrev Heap (κ ν : Type*) := κ → Option (Node κ ν)

def Chain (heap : Heap κ ν) : Option κ → List (κ × ν) → Option κ → Prop
  | p, [], q => p = q
  | p, x :: xs, q => p = some x.1 ∧ ∃ n, heap x.1 = some ⟨x.2, n⟩ ∧ Chain heap n xs q

def walk (heap : Heap κ ν) : ℕ → Option κ → List ν
  | n + 1, some a =>
    match heap a with
    | some node => node.data :: walk heap n node.next
    | none => []
  | _, _ => []

/-- The nodes from a pointer to `NULL`, if the end is reached within this many nodes. -/
def follow (heap : Heap κ ν) : ℕ → Option κ → Option (List κ)
  | _, none => some []
  | 0, some _ => none
  | n + 1, some a => (heap a).bind fun node => (follow heap n node.next).map (a :: ·)

variable {heap heap' : Heap κ ν} {p q : Option κ} {xs ys : List (κ × ν)}

theorem Chain.follow_eq (h : Chain heap p xs none) {n : ℕ} (hn : xs.length ≤ n) :
    follow heap n p = some (xs.map Prod.fst) := by
  induction xs generalizing p n with
  | nil =>
    obtain rfl : p = none := h
    cases n <;> rfl
  | cons x xs ih =>
    obtain ⟨rfl, m, hm, ht⟩ := h
    obtain ⟨n, rfl⟩ : ∃ k, n = k + 1 := ⟨n - 1, by rw [List.length_cons] at hn; omega⟩
    simp only [follow, hm, Option.bind_some, ih ht (Nat.le_of_succ_le_succ hn), Option.map_some,
      List.map_cons]

theorem Chain.walk_eq (h : Chain heap p xs q) : walk heap xs.length p = xs.map Prod.snd := by
  induction xs generalizing p with
  | nil => cases p <;> rfl
  | cons x xs ih =>
    obtain ⟨rfl, n, hn, ht⟩ := h
    simp only [List.length_cons, walk, hn, List.map_cons, ih ht]

theorem Chain.allocated (h : Chain heap p xs q) {x : κ × ν} (hx : x ∈ xs) :
    ∃ n, heap x.1 = some ⟨x.2, n⟩ := by
  induction xs generalizing p with
  | nil => cases hx
  | cons y ys ih =>
    obtain ⟨_, n, hn, ht⟩ := h
    rcases List.mem_cons.mp hx with rfl | hx
    · exact ⟨n, hn⟩
    · exact ih ht hx

theorem Chain.fresh_notMem (h : Chain heap p xs q) {a : κ} (ha : heap a = none) :
    a ∉ xs.map Prod.fst := by
  intro hm
  obtain ⟨x, hx, rfl⟩ := List.mem_map.mp hm
  obtain ⟨n, hn⟩ := h.allocated hx
  exact absurd (hn.symm.trans ha) (by simp)

/-- The frame rule: a chain reads only its own nodes. -/
theorem Chain.frame (h : Chain heap p xs q) (he : ∀ a ∈ xs.map Prod.fst, heap' a = heap a) :
    Chain heap' p xs q := by
  induction xs generalizing p with
  | nil => exact h
  | cons x xs ih =>
    obtain ⟨hp, n, hn, ht⟩ := h
    refine ⟨hp, n, ?_, ih ht fun a ha => he a (List.mem_cons_of_mem _ ha)⟩
    rw [he x.1 (List.mem_cons_self ..), hn]

theorem chain_append :
    Chain heap p (xs ++ ys) q ↔ ∃ r, Chain heap p xs r ∧ Chain heap r ys q := by
  induction xs generalizing p with
  | nil => simp [Chain]
  | cons x xs ih =>
    simp only [List.cons_append, Chain, ih]
    constructor
    · rintro ⟨hp, n, hn, r, hr, hy⟩
      exact ⟨r, ⟨hp, n, hn, hr⟩, hy⟩
    · rintro ⟨r, ⟨hp, n, hn, hr⟩, hy⟩
      exact ⟨hp, n, hn, r, hr, hy⟩

variable [DecidableEq κ]

theorem Chain.snoc {l : κ × ν} (h : Chain heap p (xs ++ [l]) none)
    (hd : ((xs ++ [l]).map Prod.fst).Nodup) {a : κ} (ha : heap a = none) (d : ν) :
    Chain (Function.update (Function.update heap l.1 (some ⟨l.2, some a⟩)) a (some ⟨d, none⟩))
      p (xs ++ [l] ++ [(a, d)]) none := by
  have hfresh := h.fresh_notMem ha
  rw [List.map_append, List.nodup_append] at hd
  obtain ⟨_, _, hdisj⟩ := hd
  simp only [List.map_append, List.mem_append, List.map_cons, List.map_nil,
    List.mem_singleton, not_or] at hfresh
  obtain ⟨r, hx, hr, n, hn, hnone⟩ := chain_append.mp h
  rw [List.append_assoc, chain_append]
  refine ⟨r, hx.frame ?_, hr, some a, ?_, rfl, none, ?_, rfl⟩
  · intro b hb
    have hb1 : b ≠ a := fun e => hfresh.1 (e ▸ hb)
    have hb2 : b ≠ l.1 := hdisj b hb l.1 (by simp)
    rw [Function.update_of_ne hb1, Function.update_of_ne hb2]
  · rw [Function.update_of_ne (Ne.symm hfresh.2), Function.update_self]
  · rw [Function.update_self]

theorem Chain.push (h : Chain heap p xs q) {a : κ} (ha : a ∉ xs.map Prod.fst) (d : ν) :
    Chain (Function.update heap a (some ⟨d, p⟩)) (some a) ((a, d) :: xs) q := by
  refine ⟨rfl, p, Function.update_self .., h.frame fun b hb => Function.update_of_ne ?_ _ _⟩
  rintro rfl
  exact ha hb

theorem Chain.unlink {l y : κ × ν} {n : Option κ} (h : Chain heap p (xs ++ l :: y :: ys) q)
    (hd : ((xs ++ l :: y :: ys).map Prod.fst).Nodup) (hn : heap y.1 = some ⟨y.2, n⟩) :
    Chain (Function.update heap l.1 (some ⟨l.2, n⟩)) p (xs ++ l :: ys) q := by
  obtain ⟨r, hx, hr, m, hm, hy, n', hn', ht⟩ := chain_append.mp h
  obtain rfl : n' = n := by simpa using hn'.symm.trans hn
  rw [List.map_append, List.map_cons, List.map_cons, List.nodup_append] at hd
  obtain ⟨-, htail, hdisj⟩ := hd
  refine chain_append.mpr ⟨r, hx.frame fun b hb => ?_, hr, n', Function.update_self .., ?_⟩
  · exact Function.update_of_ne (hdisj b hb l.1 (List.mem_cons_self ..)) _ _
  · refine ht.frame fun b hb => Function.update_of_ne ?_ _ _
    rintro rfl
    exact (List.nodup_cons.mp htail).1 (List.mem_cons_of_mem _ hb)

theorem Chain.tail_free {x : κ × ν} {n : Option κ} (h : Chain heap p (x :: xs) q)
    (hd : ((x :: xs).map Prod.fst).Nodup) (hn : heap x.1 = some ⟨x.2, n⟩) :
    Chain (Function.update heap x.1 none) n xs q := by
  obtain ⟨_, m, hm, ht⟩ := h
  have hmn : m = n := by simpa using hm.symm.trans hn
  subst hmn
  refine ht.frame fun a ha => Function.update_of_ne ?_ _ _
  rintro rfl
  rw [List.map_cons, List.nodup_cons] at hd
  exact hd.1 ha

end LinkedList
