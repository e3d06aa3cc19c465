import AndroidKernel.Netlock.Model

/-! What one step of the network lock can do. A release finds its own `wait_queue` just as
`DEFINE_WAIT` left it, because no other call writes the `next` field of that head, so the scan of
`netlock_release` is never entered. -/

namespace AndroidKernel.Netlock
open Lts
variable {τ : Type}

def Pc.local : Pc → Option Addr
  | .idle | .ret _ => none
  | .acquireSpin _ w | .acquire _ w | .sleeping _ w _ | .releaseSpin _ w | .release _ w
  | .scan _ w _ _ => some w

/-- The lock that a task has asked to give back and that is still accounted to it. -/
def Pc.releasing : Pc → Option Kind
  | .releaseSpin k _ | .release k _ | .scan k _ _ _ => some k
  | _ => none

def Pc.isScan : Pc → Bool
  | .scan .. => true
  | _ => false

structure Locals (s : State τ) : Prop where
  live : ∀ t w, (s.pc t).local = some w → w ∈ s.live
  distinct : ∀ t u w, (s.pc t).local = some w → (s.pc u).local = some w → t = u
  empty : ∀ t k w, (s.pc t).releasing = some k → (s.pc t).local = some w → (s.list w).next = w
  noScan : ∀ t, (s.pc t).isScan = false

def Blocks (s : State τ) (type : ℤ) : Kind → Prop
  | .regular => type = NET_LOCK_R ∧ s.writeLockAvailable ≠ 1
  | .exclusive => type = NET_LOCK_E ∧ ¬ (s.writeLockAvailable = 1 ∧ s.readLockAvailable = 1)

variable [DecidableEq τ]

inductive Step (s : State τ) : Act τ → State τ → Prop
  | acquire (t : τ) (type : ℤ) (wait : Addr) (h : s.pc t = .idle) (hw : wait ∉ s.live) :
      Step s (.acquire t type wait) ((s.defineWait wait).goto t (.acquireSpin type wait))
  | release (t : τ) (k : Kind) (wait : Addr) (h : s.pc t = .idle) (hw : wait ∉ s.live) :
      Step s (.release t k wait) ((s.defineWait wait).goto t (.releaseSpin k wait))
  | spin (a : Act τ) : Step s a s
  | takeAcquire (t : τ) (type : ℤ) (wait head : Addr) (l : ListHead) (f : Int32)
      (h : s.pc t = .acquireSpin type wait) :
      Step s (.step t head l f) { s.goto t (.acquire type wait) with lock := true }
  | takeRelease (t : τ) (k : Kind) (wait head : Addr) (l : ListHead) (f : Int32)
      (h : s.pc t = .releaseSpin k wait) :
      Step s (.step t head l f) { s.goto t (.release k wait) with lock := true }
  | grantRegular (t : τ) (wait head : Addr) (l : ListHead) (f : Int32)
      (h : s.pc t = .acquire NET_LOCK_R wait) (hw : s.writeLockAvailable = 1) :
      Step s (.step t head l f) (({ s with
        readerCount := s.readerCount + 1, lock := false }.addHolder t .regular).leave t wait 0)
  | grantExclusive (t : τ) (wait head : Addr) (l : ListHead) (f : Int32)
      (h : s.pc t = .acquire NET_LOCK_E wait) (hw : s.writeLockAvailable = 1)
      (hr : s.readLockAvailable = 1) :
      Step s (.step t head l f) (({ s with
        writeLockAvailable := 0, lock := false }.addHolder t .exclusive).leave t wait 0)
  | wait (t : τ) (type : ℤ) (k : Kind) (wait head : Addr) (l : ListHead) (f : Int32)
      (h : s.pc t = .acquire type wait) (hb : Blocks s type k) (hh : head ∉ s.live) :
      Step s (.step t head l f) (s.enqueue t k wait head l)
  | refuse (t : τ) (type : ℤ) (wait head : Addr) (l : ListHead) (f : Int32) (b : Bool) (r : ℤ)
      (h : s.pc t = .acquire type wait) (hb : ∀ k, ¬ Blocks s type k) :
      Step s (.step t head l f) ({ s with lock := b }.leave t wait r)
  | resume (t : τ) (k : Kind) (wait h' head : Addr) (l : ListHead) (f : Int32)
      (h : s.pc t = .sleeping k wait h') : Step s (.step t head l f) (s.resume t k wait)
  | freeAll (t : τ) (k : Kind) (wait head : Addr) (l : ListHead) (f : Int32)
      (h : s.pc t = .release k wait) (hr : s.readerCount ≤ 1) :
      Step s (.step t head l f) (({ s with
        readerCount := 0, readLockAvailable := 1, writeLockAvailable := 1,
        lock := false }.dropHolder t k).leave t wait 0)
  | countDown (t : τ) (k : Kind) (wait head : Addr) (l : ListHead) (f : Int32)
      (h : s.pc t = .release k wait) (hr : ¬ s.readerCount ≤ 1) :
      Step s (.step t head l f) (({ s with
        readerCount := s.readerCount - 1, lock := false }.dropHolder t k).leave t wait 0)
  | ret (t : τ) (r : ℤ) (head : Addr) (l : ListHead) (f : Int32) (h : s.pc t = .ret r) :
      Step s (.step t head l f) (s.goto t .idle)

variable {s s' : State τ} {a : Act τ}

theorem acquire_step {t : τ} {type : ℤ} {wait head : Addr} {l : ListHead} {f : Int32}
    (hp : s.pc t = .acquire type wait) (h : netlockAcquire s t type wait head l = some s') :
    Step s (.step t head l f) s' := by
  simp only [netlockAcquire, State.wait] at h
  split_ifs at h with hR hw hh hE hg hh hN
  · cases h
    subst hR
    exact .grantRegular t wait head l f hp hw
  · cases h
    exact .wait t type .regular wait head l f hp ⟨hR, hw⟩ hh
  · cases h
    subst hE
    exact .grantExclusive t wait head l f hp hg.1 hg.2
  · cases h
    exact .wait t type .exclusive wait head l f hp ⟨hE, hg⟩ hh
  · cases h
    exact .refuse t type wait head l f false (-1) hp fun k hk => by cases k <;> simp_all [Blocks]
  · cases h
    exact .refuse t type wait head l f s.lock 0 hp fun k hk => by cases k <;> simp_all [Blocks]

theorem release_step {t : τ} {k : Kind} {wait head : Addr} {l : ListHead} {f : Int32}
    (hp : s.pc t = .release k wait) (he : (s.list wait).next = wait)
    (h : netlockRelease s t k wait head f = some s') : Step s (.step t head l f) s' := by
  simp only [netlockRelease, listEmpty, he, decide_true, if_true, Option.some.injEq] at h
  subst h
  by_cases hr : s.readerCount ≤ 1
  · simp only [hr, if_true]
    exact .freeAll t k wait head l f hp hr
  · simp only [hr, if_false]
    exact .countDown t k wait head l f hp hr

theorem Locals.step_of_next (hl : Locals s) (h : next s a = some s') : Step s a s' := by
  cases a with
  | acquire t type wait =>
    simp only [next] at h
    split_ifs at h with hg
    cases h
    exact .acquire t type wait hg.1 hg.2
  | release t k wait =>
    simp only [next] at h
    split_ifs at h with hg
    cases h
    exact .release t k wait hg.1 hg.2
  | step t head l f =>
    simp only [next] at h
    split at h
    · cases h
    · rename_i type wait hp
      cases h
      split_ifs with hf
      · exact .spin _
      · exact .takeAcquire t type wait head l f hp
    · rename_i type wait hp
      exact acquire_step hp h
    · rename_i k wait h' hp
      cases h
      exact .resume t k wait h' head l f hp
    · rename_i k wait hp
      cases h
      split_ifs with hf
      · exact .spin _
      · exact .takeRelease t k wait head l f hp
    · rename_i k wait hp
      exact release_step hp (hl.empty t k wait (by simp [hp, Pc.releasing])
        (by simp [hp, Pc.local])) h
    · rename_i k wait head' temp hp
      have := hl.noScan t
      simp [hp, Pc.isScan] at this
    · rename_i r hp
      cases h
      exact .ret t r head l f hp

theorem setPrev_next (l : Lists) (a b w : Addr) : (setPrev l a b w).next = (l w).next := by
  by_cases h : w = a
  · subst h
    simp [setPrev]
  · simp [setPrev, h]

theorem setNext_next (l : Lists) (a b : Addr) {w : Addr} (h : w ≠ a) :
    (setNext l a b w).next = (l w).next := by
  simp [setNext, h]

theorem listAdd_next (l : Lists) {new head w : Addr} (hn : w ≠ new) (hh : w ≠ head) :
    (listAdd l new head w).next = (l w).next := by
  simp only [listAdd]
  rw [setNext_next _ _ _ hh, setPrev_next, setNext_next _ _ _ hn, setPrev_next]

theorem Locals.update (hl : Locals s) {t : τ} {p : Pc} (hp : s'.pc = Function.update s.pc t p)
    (hscan : p.isScan = false)
    (hown : ∀ w, p.local = some w → w ∈ s'.live ∧ ∀ u, u ≠ t → (s.pc u).local ≠ some w)
    (hempty : ∀ k w, p.releasing = some k → p.local = some w → (s'.list w).next = w)
    (hother : ∀ u w, u ≠ t → (s.pc u).local = some w →
      w ∈ s'.live ∧ (s'.list w).next = (s.list w).next) : Locals s' := by
  have hself : s'.pc t = p := by rw [hp, Function.update_self]
  have hne : ∀ u, u ≠ t → s'.pc u = s.pc u := fun u hu => by rw [hp, Function.update_of_ne hu]
  refine ⟨fun u w hu => ?_, fun u v w hu hv => ?_, fun u k w hk hu => ?_, fun u => ?_⟩
  · by_cases hut : u = t
    · subst hut
      exact (hown w (hself ▸ hu)).1
    · exact (hother u w hut (hne u hut ▸ hu)).1
  · by_cases hut : u = t <;> by_cases hvt : v = t
    · rw [hut, hvt]
    · subst hut
      exact absurd (hne v hvt ▸ hv) ((hown w (hself ▸ hu)).2 v hvt)
    · subst hvt
      exact absurd (hne u hut ▸ hu) ((hown w (hself ▸ hv)).2 u hut)
    · exact hl.distinct u v w (hne u hut ▸ hu) (hne v hvt ▸ hv)
  · by_cases hut : u = t
    · subst hut
      exact hempty k w (hself ▸ hk) (hself ▸ hu)
    · rw [hne u hut] at hk hu
      rw [(hother u w hut hu).2]
      exact hl.empty u k w hk hu
  · by_cases hut : u = t
    · rw [hut, hself, hscan]
    · rw [hne u hut]
      exact hl.noScan u

theorem Locals.leave (hl : Locals s) {t : τ} {wait : Addr} (hw : (s.pc t).local = some wait)
    {r : ℤ} (hp : s'.pc = Function.update s.pc t (.ret r)) (hlist : s'.list = s.list)
    (hlive : s'.live = s.live.erase wait) : Locals s' := by
  refine hl.update hp rfl (fun w h => by cases h) (fun k w h => by cases h) fun u w hu hw' => ?_
  rw [hlive, hlist]
  refine ⟨Finset.mem_erase.mpr ⟨?_, hl.live u w hw'⟩, rfl⟩
  rintro rfl
  exact hu (hl.distinct u t w hw' hw)

theorem Locals.take (hl : Locals s) {t : τ} {p : Pc} (hp : s'.pc = Function.update s.pc t p)
    (hscan : p.isScan = false) (hlocal : p.local = (s.pc t).local)
    (hrel : p.releasing = (s.pc t).releasing) (hlist : s'.list = s.list)
    (hlive : s'.live = s.live) : Locals s' := by
  refine hl.update hp hscan (fun w hw => ?_) (fun k w hk hw => ?_) fun u w _ hw => ?_
  · rw [hlocal] at hw
    exact ⟨hlive ▸ hl.live t w hw, fun u hu hu' => hu (hl.distinct u t w hu' hw)⟩
  · rw [hlist]
    exact hl.empty t k w (hrel ▸ hk) (hlocal ▸ hw)
  · exact ⟨hlive ▸ hl.live u w hw, by rw [hlist]⟩

theorem Locals.define (hl : Locals s) {t : τ} {p : Pc} {wait : Addr} (hw : wait ∉ s.live)
    (hscan : p.isScan = false) (hlocal : p.local = some wait) :
    Locals ((s.defineWait wait).goto t p) := by
  refine hl.update rfl hscan (fun w h => ?_) (fun k w _ h => ?_) fun u w _ h => ?_
  · obtain rfl : wait = w := by simpa [hlocal] using h
    exact ⟨Finset.mem_insert_self .., fun u _ hu => hw (hl.live u wait hu)⟩
  · obtain rfl : wait = w := by simpa [hlocal] using h
    simp [State.goto, State.defineWait]
  · have hne : w ≠ wait := fun h' => hw (h' ▸ hl.live u w h)
    exact ⟨Finset.mem_insert_of_mem (hl.live u w h), by simp [State.goto, State.defineWait, hne]⟩

theorem Locals.enqueue (hl : Locals s) {t : τ} {k : Kind} {wait head : Addr} {l : ListHead}
    (hw : (s.pc t).local = some wait) (hh : head ∉ s.live) :
    Locals (s.enqueue t k wait head l) := by
  refine hl.update rfl rfl (fun w h => ?_) (fun k w h => by cases h) fun u w hu h => ?_
  · obtain rfl : wait = w := by simpa [Pc.local] using h
    exact ⟨Finset.mem_insert_of_mem (hl.live t wait hw),
      fun u hu hu' => hu (hl.distinct u t wait hu' hw)⟩
  · have hn : w ≠ wait := fun h' => hu (hl.distinct u t w h (h' ▸ hw))
    have hd : w ≠ head := fun h' => hh (h' ▸ hl.live u w h)
    refine ⟨Finset.mem_insert_of_mem (hl.live u w h), ?_⟩
    simp only [State.enqueue]
    rw [listAdd_next _ hn hd, Function.update_of_ne hd]

theorem Locals.step (hl : Locals s) (h : Step s a s') : Locals s' := by
  cases h with
  | acquire t type wait hp hw => exact hl.define hw rfl rfl
  | release t k wait hp hw => exact hl.define hw rfl rfl
  | spin => exact hl
  | takeAcquire t type wait head l f hp =>
    exact hl.take rfl rfl (by rw [hp]; rfl) (by rw [hp]; rfl) rfl rfl
  | takeRelease t k wait head l f hp =>
    exact hl.take rfl rfl (by rw [hp]; rfl) (by rw [hp]; rfl) rfl rfl
  | grantRegular t wait head l f hp => exact hl.leave (by rw [hp]; rfl) rfl rfl rfl
  | grantExclusive t wait head l f hp => exact hl.leave (by rw [hp]; rfl) rfl rfl rfl
  | wait t type k wait head l f hp hb hh => exact hl.enqueue (by rw [hp]; rfl) hh
  | refuse t type wait head l f b r hp => exact hl.leave (by rw [hp]; rfl) rfl rfl rfl
  | resume t k wait h' head l f hp =>
    cases k <;> exact hl.leave (by rw [hp]; rfl) rfl rfl rfl
  | freeAll t k wait head l f hp =>
    cases k <;> exact hl.leave (by rw [hp]; rfl) rfl rfl rfl
  | countDown t k wait head l f hp =>
    cases k <;> exact hl.leave (by rw [hp]; rfl) rfl rfl rfl
  | ret t r head l f hp => exact hl.take rfl rfl (by rw [hp]; rfl) (by rw [hp]; rfl) rfl rfl

omit [DecidableEq τ] in
theorem start_locals (list : Lists) (flag : Addr → Int32) : Locals (start list flag : State τ) :=
  ⟨fun _ _ h => (by cases h), fun _ _ _ h => (by cases h), fun _ _ _ h => (by cases h),
    fun _ => rfl⟩

theorem step_invariant {P : State τ → Prop} {C : State τ → Act τ → Prop}
    (hstep : ∀ s a s', P s → C s a → Step s a s' → P s') {list : Lists} {flag : Addr → Int32}
    (h0 : P (start list flag)) {as : List (Act τ)} (hm : Meets next C as (start list flag))
    (h : exec next as (start list flag) = some s) : Locals s ∧ P s := by
  refine hm.invariant (P := fun s => Locals s ∧ P s) (fun s a s' hs hc ha => ?_)
    ⟨start_locals list flag, h0⟩ h
  have hstep' := hs.1.step_of_next ha
  exact ⟨hs.1.step hstep', hstep s a s' hs.2 hc hstep'⟩

end AndroidKernel.Netlock
