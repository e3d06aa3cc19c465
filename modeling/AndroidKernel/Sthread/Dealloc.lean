import AndroidKernel.Lib.Runs
import AndroidKernel.Sthread.ManagerHands

/-! Every struct is deallocated at most once, and no message outlives a struct that it refers to,
unless a thread that has announced its exit is collected before its message is read. -/

namespace AndroidKernel.Sthread.Lifecycle
open Lts
variable {κ : Type}

variable {s s' : Life κ} {unsent live : List Thr}

theorem ManagerPc.of_early {stage : Stage} (he : early stage = true) (c t : Thr) :
    (ManagerPc.create stage c t).unborn = some t ∧
      (ManagerPc.create stage c t).adding = none := by
  cases stage with
  | mmap | pipe | malloc | add => exact ⟨rfl, rfl⟩
  | clone | listdel | wake => cases he

theorem Alive.step (h : Alive s unsent live) (hs : Step s s') :
    ∃ unsent live, Alive s' unsent live := by
  cases hs with
  | stay => exact ⟨_, _, h⟩
  | move p t pc pc' hp hpc hpc' hx hself => exact ⟨_, _, h.move hp hpc hpc' hx hself⟩
  | malloc p t self a old hp ha => exact ⟨_, _, h.malloc hp ha (by simp) (by simp)⟩
  | send p t self n hp => exact ⟨_, _, h.send hp⟩
  | free p t self n hp hr => exact ⟨_, _, h.free hp hr⟩
  | exitSend p t hp => exact ⟨_, _, h.exitSend hp⟩
  | exited p t hp => exact ⟨_, _, h.exited hp⟩
  -- a zombie has sent its message, and the manager has none in hand
  | reaped p z t hm hp hz =>
    have hmem := (h.leavers z).mpr ⟨p, by rw [hp]; rfl, by rw [hp]; rfl⟩
    rw [hm] at hmem
    exact absurd (mem_leaving_iff.mp (by simpa [ManagerPc.ending] using hmem)) hz
  | reapedAll hm =>
    exact ⟨_, _, h.remanage (m := .read) (by rw [hm]; rfl) (by rw [hm]; rfl) (by rw [hm]; rfl)
      (by rw [hm]; rfl) rfl⟩
  | receiveCreate c t stale letters hm hl => exact ⟨_, _, h.receiveCreate hm hl⟩
  | receiveExit t stale letters hm hl => exact ⟨_, _, h.receiveExit hm hl⟩
  | hand stage stage' c t hm he he' =>
    obtain ⟨hu, ha⟩ := ManagerPc.of_early he c t
    obtain ⟨hu', ha'⟩ := ManagerPc.of_early he' c t
    exact ⟨_, _, h.remanage (m := .create stage' c t) (by rw [hm, hu, hu']) (by rw [hm, ha, ha'])
      (by rw [hm]; rfl) (by rw [hm]; rfl) rfl⟩
  | refuse stage c t hm he =>
    have hlist := h.list
    rw [hm, (ManagerPc.of_early he c t).2] at hlist
    exact ⟨_, _, h.refuse hm (by rintro rfl; cases he) hlist⟩
  | add c t hm hp => exact ⟨_, _, h.add hm hp⟩
  | clone c t p hm h0 hp hf => exact ⟨_, _, h.clone hm h0 hp hf⟩
  | cloneFail c t hm => exact ⟨_, _, h.cloneFail hm⟩
  | listdel c t list hm hl => exact ⟨_, _, h.listdel hm hl⟩
  | reply c t hm =>
    exact ⟨_, _, h.remanage (m := .reap) (by rw [hm]; rfl) (by rw [hm]; rfl) (by rw [hm]; rfl)
      (by rw [hm]; rfl) rfl⟩
  | wakeExit t hm =>
    exact ⟨_, _, h.remanage (m := .wait t) (by rw [hm]; rfl) (by rw [hm]; rfl) (by rw [hm]; rfl)
      (by rw [hm]; rfl) rfl⟩
  | waited t z hm hz => exact ⟨_, _, h.waited hm⟩
  -- the thread whose message was read is still there
  | waitFails t hm hz =>
    have hp := (h.ending (t := t) (by rw [hm]; rfl)).2.1
    rw [hz] at hp
    cases hp
  | dealloc t list hm hl => exact ⟨_, _, h.dealloc hm hl⟩

theorem start_alive (count : κ → ℤ) {mainPid managerPid : ℤ} (h0 : 0 < mainPid)
    (hne : mainPid ≠ managerPid) : Alive (start count mainPid managerPid).toLife [] [] := by
  have htask : ∀ p, (start count mainPid managerPid).task p =
      if p = mainPid then .running .main .idle else .none := fun _ => rfl
  have hrun : ∀ p t pc, (start count mainPid managerPid).task p = .running t pc →
      p = mainPid ∧ t = .main ∧ pc = .idle := by
    intro p t pc hp
    rw [htask] at hp
    split_ifs at hp with hpm
    cases hp
    exact ⟨hpm, rfl, rfl⟩
  have hthread : ∀ p t, ((start count mainPid managerPid).task p).thread = some t →
      p = mainPid ∧ t = .main := by
    intro p t hp
    rw [htask] at hp
    split_ifs at hp with hpm
    · exact ⟨hpm, (Option.some.inj hp).symm⟩
    · cases hp
  have hidle : ∀ p, ((start count mainPid managerPid).task p).returned = false ∧
      ((start count mainPid managerPid).task p).leaving = false := by
    intro p
    rw [htask]
    split_ifs
    · exact ⟨rfl, rfl⟩
    · exact ⟨rfl, rfl⟩
  have hmain : ((start count mainPid managerPid).task mainPid).thread = some .main := by
    rw [htask, if_pos rfl]
    rfl
  have hman : ((start count mainPid managerPid).task managerPid).thread = none := by
    rw [htask, if_neg (Ne.symm hne)]
    rfl
  refine ⟨⟨rfl, List.nodup_nil, by simp [owned, start, pending, ManagerPc.unborn], by simp [start],
    fun _ => Nat.zero_le 1, fun _ _ _ => rfl⟩, ⟨?_, ?_, ?_, by simp, (fun t ht => by cases ht),
    ⟨rfl, hman⟩, (fun t ht => by cases ht), ?_, hmain, ?_⟩, ⟨List.nodup_nil, ?_,
    List.Pairwise.nil, (fun x hx => by cases hx), ⟨(fun x hx => by cases hx), rfl⟩⟩⟩
  · intro p u self n hp
    cases (hrun p _ _ hp).2.2
  · intro p q u v self self' n hp
    cases (hrun p _ _ hp).2.2
  · intro p t hp
    obtain ⟨rfl, rfl⟩ := hthread p t hp
    exact ⟨Or.inr rfl, rfl, h0⟩
  · intro p t pc hp u hu
    rw [(hrun p _ _ hp).2.2] at hu
    cases hu
  · intro p hp
    rw [(hidle p).1] at hp
    cases hp
  · intro t
    refine ⟨(fun ht => by cases ht), ?_⟩
    rintro ⟨p, -, hp⟩
    rw [(hidle p).2] at hp
    cases hp

variable [DecidableEq κ]

/-- In a run that keeps clear of the three situations `thread_dealloc` is called at most once for
each struct, and no message is handled that refers to a struct freed before. -/
theorem deallocated_once (count : κ → ℤ) (mainPid managerPid : ℤ) (h0 : 0 < mainPid)
    (hne : mainPid ≠ managerPid) (as : List (Act κ)) (s : State κ)
    (hm : Meets next Orderly as (start count mainPid managerPid))
    (h : exec next as (start count mainPid managerPid) = some s) :
    (∀ t, s.deallocs t ≤ 1) ∧ s.staleHandled = false := by
  have halive : ∃ unsent live, Alive s.toLife unsent live := by
    refine hm.invariant (P := fun s : State κ => ∃ unsent live, Alive s.toLife unsent live)
      (fun s a s' hs ho hn => ?_) ⟨_, _, start_alive count h0 hne⟩ h
    obtain ⟨unsent, live, hs⟩ := hs
    exact hs.step (step_of_next ho hn)
  obtain ⟨unsent, live, hs⟩ := halive
  exact ⟨hs.called, hs.fresh.2⟩

def creation : List (Act Unit) :=
  [.create 1, .malloc 1 (some (0, 0)), .step 1 0, .manage false 0, .manage true 0] ++
    List.replicate 4 (.manage true 0) ++ [.manage true 3, .manage true 0, .step 1 0, .step 1 0]

def exit : List (Act Unit) :=
  [.manage false 0, .finish 3 0, .step 3 0, .manage true 0, .manage true 0, .step 3 0,
    .manage true 0, .manage true 0]

theorem deallocated_once_exit : ∃ s,
    exec next (creation ++ exit) (start (fun _ : Unit => 0) 1 2) = some s ∧
      s.deallocs (.worker 0) = 1 ∧ (∀ t, s.deallocs t ≤ 1) ∧ s.staleHandled = false := by
  obtain ⟨s, hs, hv⟩ := Option.map_eq_some_iff.mp (show (exec next (creation ++ exit)
    (start (fun _ : Unit => 0) 1 2)).map (fun s => s.deallocs (.worker 0)) = some 1 by decide)
  exact ⟨s, hs, hv, deallocated_once (fun _ => 0) 1 2 (by decide) (by decide) (creation ++ exit) s
    (by decide) hs⟩

/-- The main thread wakes the new one, which is not suspended and returns. It finds the token after
it has sent its message, `reap_children` collects it, and then the manager reads the message. -/
def stray : List (Act Unit) :=
  [.wake 1 (.worker 0), .finish 3 0, .step 3 0, .step 3 0, .manage true 3, .manage true 0,
    .manage false 0, .manage true 0]

theorem stale_exit_handled : ∃ s,
    exec next (creation ++ stray) (start (fun _ : Unit => 0) 1 2) = some s ∧
      s.staleHandled = true ∧ s.manager = .wakeExit (.worker 0) ∧ .worker 0 ∉ s.allocated := by
  obtain ⟨s, hs, hv⟩ := Option.map_eq_some_iff.mp (show (exec next (creation ++ stray)
    (start (fun _ : Unit => 0) 1 2)).map
      (fun s => (s.staleHandled, s.manager, decide (.worker 0 ∈ s.allocated))) =
    some (true, .wakeExit (.worker 0), false) by decide)
  simp only [Prod.mk.injEq, decide_eq_false_iff_not] at hv
  exact ⟨s, hs, hv⟩

end AndroidKernel.Sthread.Lifecycle
