import AndroidKernel.Fail.Countdown

/-! Failure injection with several tasks. The threshold and the armed flag are global, so the
calls of one task can be failed by, end or move the injection of another. A history variable
records which task armed the pending injection; the tasks do not disturb each other as long as
the others make only ordinary calls that their own counters let pass. -/

namespace AndroidKernel.Fail
open Lts

structure Watched (τ : Type) where
  kernel : Kernel τ
  armer : Option τ

def arms : Call → Outcome → Bool
  | .sysFail N, .ran _ => 0 < N
  | _, _ => false

variable {τ : Type} [DecidableEq τ]

def watch (w : Watched τ) (x : τ × Call) : Watched τ × Outcome :=
  let r := enter w.kernel x
  (⟨r.1, if arms x.2 r.2 then some x.1 else w.armer⟩, r.2)

/-- The call does not meet the pending injection of another task: it is not a `sys_fail`, and
the caller's own counter stays below the threshold of that injection. -/
def Undisturbed (w : Watched τ) (x : τ × Call) : Prop :=
  w.kernel.sysFailRan = 1 → w.armer ≠ some x.1 →
    (∃ ret, x.2 = .other ret) ∧ w.kernel.hw2Count x.1 + 1 < w.kernel.n

/-- What the automaton of task `t` should be in, given who armed the pending injection. -/
def Sees (t : τ) (w : Watched τ) : Injection → Prop
  | .disarmed => w.kernel.sysFailRan = 0 ∨ w.kernel.sysFailRan = 1 ∧ w.armer ≠ some t
  | .armed r => Pending t w.kernel (.armed r) ∧ w.armer = some t

variable {t : τ} {w : Watched τ} {i : Injection} {x : τ × Call}

theorem watch_passes (hr : w.kernel.sysFailRan = 1) {u : τ} {ret : ℤ}
    (hp : w.kernel.hw2Count u + 1 < w.kernel.n) :
    watch w (u, .other ret) = (⟨w.kernel.counted u, w.armer⟩, .ran ret) := by
  simp only [watch, enter, vectorSwi_armed hr, if_pos hp, dispatch, arms, Bool.false_eq_true,
    if_false]

theorem watch_armer (ho : (watch w x).2 = (countdown i x.2).2)
    (hi : ∀ r, i = .armed r → w.armer = some x.1) {r : ℕ}
    (h : (countdown i x.2).1 = .armed r) : (watch w x).1.armer = some x.1 := by
  change (if arms x.2 (watch w x).2 then some x.1 else w.armer) = some x.1
  rw [ho]
  obtain ⟨u, N | ret⟩ := x
  · by_cases hN : 0 < N
    · cases i with
      | disarmed => simp [countdown, arms, hN]
      | armed k =>
        by_cases hz : k - 1 = 0
        · simp [countdown, hz] at h
        · simp [countdown, arms, hz, hN]
    · cases i with
      | disarmed => simp [countdown, hN] at h
      | armed k => by_cases hz : k - 1 = 0 <;> simp [countdown, hz, hN] at h
  · cases i with
    | disarmed => simp [countdown] at h
    | armed k =>
      by_cases hz : k - 1 = 0
      · simp [countdown, hz] at h
      · simpa [countdown, arms, hz] using hi k rfl

omit [DecidableEq τ] in
theorem Pending.sees (h : Pending t w.kernel i) (ha : ∀ r, i = .armed r → w.armer = some t) :
    Sees t w i := by
  cases i with
  | disarmed => exact Or.inl h
  | armed r => exact ⟨h, ha r rfl⟩

theorem Sees.own (h : Sees t w i) {c : Call} (hc : ∀ N, c = .sysFail N → 0 ≤ N)
    (hu : Undisturbed w (t, c)) : (watch w (t, c)).2 = (countdown i c).2 ∧
      Sees t (watch w (t, c)).1 (countdown i c).1 := by
  have hpend (hp : Pending t w.kernel i) (ha : ∀ r, i = .armed r → w.armer = some t) :
      (watch w (t, c)).2 = (countdown i c).2 ∧
        Sees t (watch w (t, c)).1 (countdown i c).1 := by
    obtain ⟨ho, hp'⟩ := hp.step hc
    exact ⟨ho, Pending.sees hp' fun r hr => watch_armer (x := (t, c)) ho ha hr⟩
  cases i with
  | armed r => exact hpend h.1 fun _ _ => h.2
  | disarmed =>
    rcases h with h | ⟨hr, ha⟩
    · exact hpend h (by simp)
    · obtain ⟨⟨ret, rfl⟩, hp⟩ := hu hr ha
      simp only [watch_passes hr hp, countdown]
      exact ⟨trivial, Or.inr ⟨hr, ha⟩⟩

theorem armed_flag {s : Kernel τ} (h : s.sysFailRan = 1) {c : Call}
    (hc : ∀ N, c = .sysFail N → 0 ≤ N) :
    (vectorSwi t false s c).1.sysFailRan = 0 ∨ (vectorSwi t false s c).1.sysFailRan = 1 := by
  have h' : (s.counted t).sysFailRan = 1 := h
  rw [vectorSwi_armed h]
  split_ifs
  · cases c with
    | other ret => exact Or.inr h
    | sysFail N =>
      by_cases hN : 0 < N
      · simp [dispatch, sysFail_pos hN (Or.inr h')]
      · obtain rfl := nonpos_eq_zero (hc N rfl) hN
        simp [dispatch, sysFail_zero_armed h']
  · exact Or.inl rfl

theorem Sees.other (h : Sees t w i) {u : τ} (hut : u ≠ t) {c : Call}
    (hc : ∀ N, c = .sysFail N → 0 ≤ N) (hu : Undisturbed w (u, c)) :
    Sees t (watch w (u, c)).1 i := by
  have hne : some u ≠ some t := fun he => hut (Option.some.inj he)
  cases i with
  | armed r =>
    obtain ⟨⟨hr, h0, hlt, hreq⟩, ha⟩ := h
    obtain ⟨⟨ret, rfl⟩, hp⟩ := hu hr (by rw [ha]; exact hne.symm)
    have hcount : (w.kernel.counted u).hw2Count t = w.kernel.hw2Count t :=
      Function.update_of_ne hut.symm _ _
    rw [watch_passes hr hp]
    exact ⟨⟨hr, hcount ▸ h0, hcount ▸ hlt, hcount ▸ hreq⟩, ha⟩
  | disarmed =>
    rcases h with h | ⟨hr, ha⟩
    · obtain ⟨ho, hp⟩ := Pending.disarmed_step (t := u) h hc
      cases hcd : (countdown .disarmed c).1 with
      | disarmed =>
        rw [hcd] at hp
        exact Or.inl hp
      | armed r =>
        rw [hcd] at hp
        refine Or.inr ⟨hp.1, ?_⟩
        rw [watch_armer (x := (u, c)) ho (by simp) hcd]
        exact hne
    · refine (armed_flag hr hc).imp id fun hr' => ⟨hr', ?_⟩
      change (if arms c (watch w (u, c)).2 then some u else w.armer) ≠ some t
      split_ifs
      · exact hne
      · exact ha

theorem trace_watch (xs : List (τ × Call)) (s : Kernel τ) (a : Option τ) :
    trace watch xs ⟨s, a⟩ = trace enter xs s ∧
      (final watch xs ⟨s, a⟩).kernel = final enter xs s := by
  refine trace_eq (R := fun (w : Watched τ) s => w.kernel = s) (A := fun _ => True) ?_
    (fun _ _ => trivial) rfl
  rintro w s x rfl -
  exact ⟨rfl, rfl⟩

theorem Pending.enters {s : Kernel τ} (h : Pending t s i) (xs : List (τ × Call))
    (hxs : ∀ x ∈ xs, x.1 = t ∧ ∀ N, x.2 = .sysFail N → 0 ≤ N) :
    trace enter xs s = trace (fun i x => countdown i x.2) xs i ∧
      Pending t (final enter xs s) (final (fun i x => countdown i x.2) xs i) := by
  refine trace_eq (A := fun x => x.1 = t ∧ ∀ N, x.2 = .sysFail N → 0 ≤ N) ?_ hxs h
  rintro s i ⟨u, c⟩ hp ⟨rfl, hc⟩
  exact hp.step hc

omit [DecidableEq τ] in
theorem trace_no_sysFail {xs : List (τ × Call)} (h : ∀ x ∈ xs, ∀ N, x.2 ≠ .sysFail N) :
    ∀ p ∈ trace (fun i (x : τ × Call) => countdown i x.2) xs .disarmed, ∃ ret, p.2 = .ran ret := by
  induction xs with
  | nil => simp [trace]
  | cons x xs ih =>
    obtain ⟨u, N | ret⟩ := x
    · exact absurd rfl (h _ (List.mem_cons_self ..) N)
    · intro p hp
      rcases List.mem_cons.mp hp with rfl | hp
      · exact ⟨ret, rfl⟩
      · exact ih (fun y hy => h y (List.mem_cons_of_mem _ hy)) p hp

/-- In a run whose calls all stay clear of the pending injection of another task, each task
observes what its own calls alone would show it: a task that never calls `sys_fail` is never
failed, and what a task has pending is neither ended nor moved by the others. -/
theorem injection_per_task (s : Kernel τ) (hs : s.sysFailRan = 0) (xs : List (τ × Call))
    (hxs : ∀ x ∈ xs, ∀ N, x.2 = .sysFail N → 0 ≤ N)
    (hm : Meets (fun w x => some (watch w x).1) Undisturbed xs ⟨s, none⟩) (t : τ) :
    (trace enter xs s).filter (fun p => p.1.1 = t) = trace enter (xs.filter (·.1 = t)) s ∧
      ((∀ N, (t, .sysFail N) ∉ xs) → ∀ p ∈ trace enter xs s, p.1.1 = t → ∃ ret, p.2 = .ran ret) ∧
      (let s' := final enter xs s
       let alone := final enter (xs.filter (·.1 = t)) s
       alone.sysFailRan = 1 → s'.sysFailRan = 1 ∧
        s'.n.toInt - (s'.hw2Count t).toInt = alone.n.toInt - (alone.hw2Count t).toInt) := by
  have hown : ∀ w i (x : τ × Call), Sees t w i →
      (Undisturbed w x ∧ ∀ N, x.2 = .sysFail N → 0 ≤ N) → decide (x.1 = t) = true →
      (watch w x).2 = (countdown i x.2).2 ∧ Sees t (watch w x).1 (countdown i x.2).1 := by
    rintro w i ⟨u, c⟩ hw ⟨hu, hc⟩ ht
    obtain rfl : u = t := by simpa using ht
    exact hw.own hc hu
  have hother : ∀ w i (x : τ × Call), Sees t w i →
      (Undisturbed w x ∧ ∀ N, x.2 = .sysFail N → 0 ≤ N) → decide (x.1 = t) = false →
      Sees t (watch w x).1 i := by
    rintro w i ⟨u, c⟩ hw ⟨hu, hc⟩ ht
    exact hw.other (by simpa using ht) hc hu
  obtain ⟨htrace, hsees⟩ := trace_filter hown hother (hm.and_forall hxs)
    (show Sees t ⟨s, none⟩ .disarmed from Or.inl hs)
  obtain ⟨halone, hpend⟩ := Pending.enters (t := t) (i := .disarmed) hs
    (xs.filter (·.1 = t)) (by
      intro x hx
      obtain ⟨hx, ht⟩ := List.mem_filter.mp hx
      exact ⟨by simpa using ht, hxs x hx⟩)
  rw [(trace_watch xs s none).1] at htrace
  refine ⟨htrace.trans halone.symm, fun hno p hp hpt => ?_, fun hr => ?_⟩
  · have hmem : p ∈ (trace enter xs s).filter (fun p => p.1.1 = t) := by simp [hp, hpt]
    rw [htrace] at hmem
    refine trace_no_sysFail (fun x hx N hN => ?_) p hmem
    obtain ⟨hx, ht⟩ := List.mem_filter.mp hx
    exact hno N (by rwa [← hN, ← (show x.1 = t by simpa using ht)])
  · rw [← (trace_watch xs s none).2]
    cases hi : final (fun i (x : τ × Call) => countdown i x.2)
        (xs.filter (·.1 = t)) .disarmed with
    | disarmed =>
      rw [hi] at hpend
      exact absurd (hpend.symm.trans hr) (by decide)
    | armed r =>
      rw [hi] at hpend hsees
      exact ⟨hsees.1.1, hsees.1.2.2.2.symm.trans hpend.2.2.2⟩

/-- Task 1 calls while task 0 has an injection pending, and its own counter lets it pass. -/
theorem injection_per_task_passing :
    (trace enter [(0, .sysFail 2), (1, .other 7), (0, .other 5), (0, .other 5)]
      ⟨0, 0, fun _ => 0⟩).filter (fun p => p.1.1 = 0) =
    trace enter [(0, .sysFail 2), (0, .other 5), (0, .other 5)] ⟨0, 0, fun _ => 0⟩ := by
  have hm : Meets (fun w x => some (watch w x).1) Undisturbed
      [(0, .sysFail 2), (1, .other 7), (0, .other 5), (0, .other 5)] ⟨⟨0, 0, fun _ => 0⟩, none⟩ := by
    simp only [Meets, Option.some.injEq, forall_eq', and_true]
    refine ⟨fun h => absurd h (by decide), fun _ _ => ⟨⟨7, rfl⟩, by decide⟩,
      fun _ h => absurd rfl h, fun _ h => absurd rfl h⟩
  exact (injection_per_task (τ := ℕ) _ rfl _ (by simp) hm 0).1

/-- Task 1 never calls `sys_fail`, yet its first call is failed by the injection of task 0. -/
theorem injection_crosses_tasks :
    (trace enter [(0, .sysFail 1), (1, .other 7)] ⟨0, 0, fun _ : ℕ => 0⟩).filter
        (fun p => p.1.1 = 1) = [((1, .other 7), .failed (-EINVAL))] ∧
      trace enter ([(0, .sysFail 1), (1, .other 7)].filter (·.1 = 1)) ⟨0, 0, fun _ : ℕ => 0⟩ =
        [((1, .other 7), .ran 7)] := by decide

end AndroidKernel.Fail
