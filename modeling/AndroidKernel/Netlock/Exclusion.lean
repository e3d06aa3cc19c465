import AndroidKernel.Netlock.Holders

/-! Mutual exclusion of the network lock. `netlock_acquire` grants an exclusive request without a
look at `reader_count`, so exclusion holds in the runs where such a request finds no reader. -/

namespace AndroidKernel.Netlock
open Lts
variable {τ : Type} {s s' : State τ} {a : Act τ}

def Alone (s : State τ) : Prop := ∀ t ∈ s.exclusive, ∀ u ∈ s.regular ++ s.exclusive, u = t

def OrderlyAt (s : State τ) : Pc → Prop
  | .sleeping .. => False
  | .acquire type _ => s.writeLockAvailable = 1 →
    (type = NET_LOCK_R → s.readerCount < Int32.maxValue) ∧
      (type = NET_LOCK_E → s.readLockAvailable = 1 → s.readerCount = 0)
  | _ => True

/-- No waiting task is resumed, an exclusive request is only granted while no reader is counted,
and a regular one below the maximum of the counter. -/
def Orderly (s : State τ) : Act τ → Prop
  | .step t _ _ _ => OrderlyAt s (s.pc t)
  | _ => True

theorem Balanced.tracked (hb : Balanced s) (he : s.exclusive ≠ [] → s.regular = [])
    (h : Orderly s a) : Tracked s a := by
  cases a with
  | acquire | release => trivial
  | step t head l f =>
    simp only [Orderly] at h
    simp only [Tracked]
    cases hp : s.pc t with
    | sleeping => simp only [hp, OrderlyAt] at h
    | acquire type wait =>
      simp only [hp, OrderlyAt] at h
      exact fun hR hw => (h hw).1 hR
    | release k wait =>
      have hmem : t ∈ s.holders k := hb.releasing t k (by rw [hp]; rfl)
      cases k with
      | regular =>
        intro _
        by_contra hw
        have hex : s.exclusive ≠ [] := fun h' => by
          obtain ⟨hw', -⟩ | ⟨-, u, hu⟩ := hb.writer
          · exact hw hw'
          · rw [h'] at hu
            cases hu
        have hnil := he hex
        simp [State.holders, hnil] at hmem
      | exclusive =>
        have hnil := he (List.ne_nil_of_mem hmem)
        exact Int32.toInt_inj.mp (by rw [hb.readers, hnil]; rfl)
    | idle | acquireSpin | releaseSpin | scan | ret => trivial

variable [DecidableEq τ]

theorem separate_step (hb : Balanced s) (he : s.exclusive ≠ [] → s.regular = [])
    (ho : Orderly s a) (h : Step s a s') : s'.exclusive ≠ [] → s'.regular = [] := by
  have hdrop : ∀ t k, (s.dropHolder t k).exclusive ≠ [] → (s.dropHolder t k).regular = [] := by
    intro t k hk
    cases k with
    | regular => simpa [State.dropHolder] using congrArg (List.erase · t) (he hk)
    | exclusive => exact he fun h' => hk (by simp [State.dropHolder, h'])
  cases h with
  | acquire | release | spin | takeAcquire | takeRelease | wait | refuse | ret => exact he
  | grantRegular t wait head l f hp hw => exact fun h' => absurd (hb.exclusive_eq_nil hw) h'
  | grantExclusive t wait head l f hp hw hr =>
    intro _
    simp only [Orderly, hp, OrderlyAt, forall_const] at ho
    have hc := hb.readers
    rw [(ho hw).2 hr] at hc
    have hnil : s.regular = [] := List.length_eq_zero_iff.mp (Int.natCast_eq_zero.mp hc.symm)
    exact hnil
  | resume t k wait h' head l f hp => simp only [Orderly, hp, OrderlyAt] at ho
  | freeAll t k wait head l f hp hr =>
    cases k with
    | regular => exact hdrop t .regular
    | exclusive => exact hdrop t .exclusive
  | countDown t k wait head l f hp hr =>
    cases k with
    | regular => exact hdrop t .regular
    | exclusive => exact hdrop t .exclusive

/-- In every run whose steps are orderly the exclusive lock excludes every other holder. -/
theorem exclusive_alone (list : Lists) (flag : Addr → Int32) (as : List (Act τ)) (s : State τ)
    (hd : Meets next Disciplined as (start list flag))
    (ho : Meets next Orderly as (start list flag))
    (h : exec next as (start list flag) = some s) : Alone s := by
  obtain ⟨-, hb, he⟩ := step_invariant
    (P := fun s => Balanced s ∧ (s.exclusive ≠ [] → s.regular = []))
    (fun s a s' hs hc hstep => ⟨hs.1.step hc.1 (hs.1.tracked hs.2 hc.2) hstep,
      separate_step hs.1 hs.2 hc.2 hstep⟩)
    ⟨start_balanced list flag, fun h' => absurd rfl h'⟩ (hd.and ho) h
  intro t ht u hu
  rw [he (List.ne_nil_of_mem ht), List.nil_append] at hu
  obtain ⟨-, hnil⟩ | ⟨-, v, hv⟩ := hb.writer
  · simp [hnil] at ht
  · rw [hv] at ht hu
    exact (List.mem_singleton.mp hu).trans (List.mem_singleton.mp ht).symm

instance (s : State τ) (p : Pc) : Decidable (OrderlyAt s p) := match p with
  | .sleeping .. => inferInstanceAs (Decidable False)
  | .acquire type _ => inferInstanceAs (Decidable (s.writeLockAvailable = 1 →
    (type = NET_LOCK_R → s.readerCount < Int32.maxValue) ∧
      (type = NET_LOCK_E → s.readLockAvailable = 1 → s.readerCount = 0)))
  | .idle | .acquireSpin .. | .releaseSpin .. | .release .. | .scan .. | .ret _ =>
    inferInstanceAs (Decidable True)

instance (s : State τ) (a : Act τ) : Decidable (Orderly s a) := match a with
  | .step t _ _ _ => inferInstanceAs (Decidable (OrderlyAt s (s.pc t)))
  | .acquire .. | .release .. => inferInstanceAs (Decidable True)

def waiting : List (Act ℕ) :=
  .acquire 0 NET_LOCK_E 1 :: steps 0 3 ++ .acquire 1 NET_LOCK_E 2 :: steps 1 2

theorem exclusive_alone_waiting : ∃ s, exec next waiting (start (fun _ => ⟨0, 0⟩) fun _ => 0) =
    some s ∧ s.exclusive = [0] ∧ Alone s := by
  obtain ⟨s, hs, hv⟩ := Option.map_eq_some_iff.mp (show
    (exec next waiting (start (fun _ => ⟨0, 0⟩) fun _ => 0)).map (fun s => s.exclusive) = some [0]
    by decide)
  exact ⟨s, hs, hv, exclusive_alone _ _ _ s (by decide) (by decide) hs⟩

/-- Task 1 gets the exclusive lock while task 0 holds the regular one. -/
theorem reader_and_writer : ∃ as : List (Act ℕ), ∃ s,
    exec next as (start (fun _ => ⟨0, 0⟩) fun _ => 0) = some s ∧
      Meets next Disciplined as (start (fun _ => ⟨0, 0⟩) fun _ => 0) ∧ ¬ Alone s := by
  refine ⟨.acquire 0 NET_LOCK_R 1 :: steps 0 3 ++ .acquire 1 NET_LOCK_E 2 :: steps 1 3, ?_⟩
  obtain ⟨s, hs, hv⟩ := Option.map_eq_some_iff.mp (show (exec next
      (.acquire 0 NET_LOCK_R 1 :: steps 0 3 ++ .acquire 1 NET_LOCK_E 2 :: steps 1 3)
      (start (fun _ => ⟨0, 0⟩) fun _ => 0)).map (fun s => (s.regular, s.exclusive)) =
    some ([0], [1]) by decide)
  obtain ⟨hreg, hexc⟩ := Prod.mk.inj hv
  refine ⟨s, hs, by decide, fun h => ?_⟩
  rw [Alone, hreg, hexc] at h
  exact absurd h (by decide)

end AndroidKernel.Netlock
