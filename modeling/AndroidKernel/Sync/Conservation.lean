import AndroidKernel.Sync.System

/-! Units and order in `hw3/sync.c`. Each critical section keeps the account of units and the
order of the waiters, so both hold after every interleaving of the threads. -/

namespace AndroidKernel.Sync
open Lts Ledger
variable {τ : Type}

def enqueued (log : List (Event τ)) : List τ :=
  log.filterMap fun e => if e.op = .down ∧ e.grant = none then some e.thread else none

def handed (log : List (Event τ)) : List τ :=
  log.filterMap fun e => if e.op = .up then e.grant else none

def Event.direct (e : Event τ) : Prop := e.op ≠ .up ∧ e.grant.isSome

/-- When a direct grant is made, every thread that had queued before has been granted. -/
def NoBarging (log : List (Event τ)) : Prop :=
  Each (fun pre e => e.direct → enqueued pre = handed pre) log

structure Account (count : ℤ) (f : Fifo τ) (log : List (Event τ)) : Prop where
  nonneg : 0 ≤ f.count
  balance : f.count + granted log = count + ups log
  free : 0 < f.count → f.queue = []
  order : enqueued log = handed log ++ f.queue
  noBarging : NoBarging log

theorem account_init {count : ℤ} (h : 0 ≤ count) : Account (τ := τ) count ⟨count, []⟩ [] :=
  ⟨h, rfl, fun _ => rfl, rfl, each_nil _⟩

variable {count : ℤ} {f f' : Fifo τ} {log : List (Event τ)}

theorem granted_concat (log : List (Event τ)) (e : Event τ) :
    granted (log ++ [e]) = granted log + if e.grant.isSome then 1 else 0 := total_concat ..

theorem ups_concat (log : List (Event τ)) (e : Event τ) :
    ups (log ++ [e]) = ups log + if e.op = .up then 1 else 0 := by
  rw [ups, total_concat]
  congr 1
  by_cases h : e.op = .up <;> simp [Event.loss, h]

theorem enqueued_concat (log : List (Event τ)) (e : Event τ) : enqueued (log ++ [e]) =
    enqueued log ++ if e.op = .down ∧ e.grant = none then [e.thread] else [] := by
  rw [enqueued, List.filterMap_append]
  congr 1
  split_ifs with h
  · simp only [List.filterMap_cons, List.filterMap_nil, h, and_self, if_pos]
  · simp only [List.filterMap_cons, List.filterMap_nil, h, if_false]

theorem handed_concat (log : List (Event τ)) (e : Event τ) : handed (log ++ [e]) =
    handed log ++ if e.op = .up then e.grant.toList else [] := by
  rw [handed, List.filterMap_append]
  congr 1
  split_ifs with h
  · cases hg : e.grant <;> simp [h, hg]
  · simp [h]

theorem Account.take (h : Account count f log) (hc : 0 < f.count) {e : Event τ}
    (hop : e.op ≠ .up) (hg : e.grant.isSome) :
    Account count { f with count := f.count - 1 } (log ++ [e]) := by
  have hq := h.free hc
  have hn : ¬ (e.op = .down ∧ e.grant = none) := fun hd => absurd hg (by simp [hd.2])
  refine ⟨Int.le_sub_one_of_lt hc, ?_, fun _ => hq, ?_,
    each_concat.mpr ⟨h.noBarging, fun _ => ?_⟩⟩
  · have := h.balance
    rw [granted_concat, ups_concat, if_pos hg, if_neg hop]
    push_cast
    omega
  · rw [enqueued_concat, handed_concat, if_neg hn, if_neg hop, List.append_nil, List.append_nil,
      h.order]
  · rw [h.order, hq, List.append_nil]

theorem Account.wait (h : Account count f log) (hc : ¬ 0 < f.count) {e : Event τ}
    (hop : e.op = .down) (hg : e.grant = none) :
    Account count { f with queue := f.queue ++ [e.thread] } (log ++ [e]) := by
  refine ⟨h.nonneg, ?_, fun hp => absurd hp hc, ?_, each_concat.mpr ⟨h.noBarging, fun hd => ?_⟩⟩
  · simpa [granted_concat, ups_concat, hop, hg] using h.balance
  · simp [enqueued_concat, handed_concat, hop, hg, h.order]
  · exact absurd hd.2 (by simp [hg])

theorem Account.refuse (h : Account count f log) {e : Event τ} (hop : e.op = .tryDown)
    (hg : e.grant = none) : Account count f (log ++ [e]) := by
  refine ⟨h.nonneg, ?_, h.free, ?_, each_concat.mpr ⟨h.noBarging, fun hd => ?_⟩⟩
  · simpa [granted_concat, ups_concat, hop, hg] using h.balance
  · simp [enqueued_concat, handed_concat, hop, h.order]
  · exact absurd hd.2 (by simp [hg])

theorem Account.put {n : ℤ} (h : Account count ⟨n, []⟩ log) {e : Event τ} (hop : e.op = .up)
    (hg : e.grant = none) : Account count ⟨n + 1, []⟩ (log ++ [e]) := by
  have hn := h.nonneg
  have hb := h.balance
  refine ⟨?_, ?_, fun _ => rfl, ?_, each_concat.mpr ⟨h.noBarging, fun hd => absurd hop hd.1⟩⟩
  · simp only at hn ⊢
    omega
  · simp only [granted_concat, ups_concat, hop, hg, Option.isSome_none, Bool.false_eq_true,
      if_false, if_true] at hb ⊢
    push_cast
    omega
  · simpa [enqueued_concat, handed_concat, hop, hg] using h.order

theorem Account.handOver {n : ℤ} {w : τ} {q : List τ} (h : Account count ⟨n, w :: q⟩ log)
    {e : Event τ} (hop : e.op = .up) (hg : e.grant = some w) :
    Account count ⟨n, q⟩ (log ++ [e]) := by
  have hb := h.balance
  refine ⟨h.nonneg, ?_, fun hc => absurd (h.free hc) (by simp), ?_,
    each_concat.mpr ⟨h.noBarging, fun hd => absurd hop hd.1⟩⟩
  · simp only [granted_concat, ups_concat, hop, hg, Option.isSome_some, if_true] at hb ⊢
    push_cast
    omega
  · simpa [enqueued_concat, handed_concat, hop, hg] using h.order

theorem account_handOff (h : Account count f log) (op : Op) (t : τ) :
    Account count (f.handOff op t).1
      (log ++ [record op t f.count (f.handOff op t).2]) := by
  cases op with
  | down =>
    by_cases hc : 0 < f.count
    · simp only [Fifo.handOff, if_pos hc]
      exact h.take hc (by simp [record]) (by simp [record, grantee])
    · simp only [Fifo.handOff, if_neg hc]
      exact h.wait (e := record .down t f.count ⟨-1, .suspend⟩) hc rfl rfl
  | tryDown =>
    by_cases hc : 0 < f.count
    · simp only [Fifo.handOff, if_pos hc]
      exact h.take hc (by simp [record]) (by simp [record, grantee])
    · simp only [Fifo.handOff, if_neg hc]
      exact h.refuse rfl (by simp [record, grantee])
  | up =>
    obtain ⟨n, _ | ⟨w, q⟩⟩ := f
    · exact h.put rfl rfl
    · exact h.handOver rfl rfl

variable [DecidableEq τ] {s : State τ} {c : Cell τ}

theorem reaches_account (hn : 0 ≤ count) (h : Reaches (next crit) (start count c) s) :
    Models (Account count) s :=
  crit_implements.models (account_init hn) (fun _ _ op t hf => account_handOff hf op t) h

/-- No unit is lost or invented by any interleaving, and owners that give back only their own
units are never more than the initial count. -/
theorem units_conserved (count : ℕ) (c : Cell τ) (s : State τ)
    (h : Reaches (next crit) (start count c) s) :
    0 ≤ s.cell.sem.count ∧ s.cell.sem.count + granted s.log = count + ups s.log ∧
      (OwnersUp s.log → ∀ S : Finset τ, (∀ t ∈ S, 0 < owned s.log t) → S.card ≤ count) := by
  obtain ⟨xs, f, hr, hf⟩ := reaches_account (Int.natCast_nonneg count) h
  refine ⟨hr.count ▸ hf.nonneg, hr.count ▸ hf.balance, fun ho S hS => ?_⟩
  have hcard : (S.card : ℤ) ≤ granted s.log - ups s.log := Covered.card_holders_le ho hS
  have hb := hf.balance
  have hn := hf.nonneg
  omega

def callSteps (t : τ) (op : Op) (a : Addr) (n : ℕ) : List (Act τ) :=
  .call t op :: List.replicate n (.step t a)

def contended : List (Act ℕ) :=
  callSteps 0 .down 0 5 ++ callSteps 1 .down 0 4 ++ callSteps 0 .up 1 5 ++ [.step 1 0]

theorem units_conserved_contended : ∃ s, exec (next crit) contended
      (start 1 ⟨⟨0, 0, none, none⟩, fun _ => none⟩) = some s ∧
    granted s.log = 2 ∧ ups s.log = 1 ∧ s.cell.sem.count + granted s.log = 1 + ups s.log := by
  obtain ⟨s, hs, hv⟩ := Option.map_eq_some_iff.mp (show (exec (next crit) contended
    (start 1 ⟨⟨0, 0, none, none⟩, fun _ => none⟩)).map
      (fun s => (granted s.log, ups s.log)) = some (2, 1) by decide)
  refine ⟨s, hs, congrArg Prod.fst hv, congrArg Prod.snd hv, ?_⟩
  exact (units_conserved 1 _ s ⟨contended, hs⟩).2.1

/-- Waiters are served in the order in which they queued, and nobody passes them. -/
theorem fifo_service (count : ℕ) (c : Cell τ) (s : State τ)
    (h : Reaches (next crit) (start count c) s) :
    (0 < s.cell.sem.count → s.cell.waiting = []) ∧
      enqueued s.log = handed s.log ++ s.cell.waiting ∧ NoBarging s.log := by
  obtain ⟨xs, f, hr, hf⟩ := reaches_account (Int.natCast_nonneg count) h
  rw [hr.waiting_eq, hr.count]
  exact ⟨hf.free, hf.order, hf.noBarging⟩

theorem fifo_service_contended : ∃ s, exec (next crit) contended
      (start 1 ⟨⟨0, 0, none, none⟩, fun _ => none⟩) = some s ∧
    enqueued s.log = [1] ∧ enqueued s.log = handed s.log ++ s.cell.waiting := by
  obtain ⟨s, hs, hv⟩ := Option.map_eq_some_iff.mp (show (exec (next crit) contended
    (start 1 ⟨⟨0, 0, none, none⟩, fun _ => none⟩)).map (fun s => enqueued s.log) = some [1]
      by decide)
  exact ⟨s, hs, hv, (fifo_service 1 _ s ⟨contended, hs⟩).2.1⟩

end AndroidKernel.Sync
