import AndroidKernel.Lib.Ledger
import AndroidKernel.Lib.Runs
import AndroidKernel.Lib.SpinLock
import AndroidKernel.Sync.Semaphore

/-! Any number of threads calling one semaphore. A call spins on `flag`, reads the semaphore,
writes it back, clears `flag`, and only then suspends itself or wakes another thread, so that
other threads run in every gap. The log is a history of the critical sections. -/

namespace AndroidKernel.Sync
open Lts SpinLock

/-- One executed critical section: the count it found, and who was granted a unit by it. -/
structure Event (τ : Type) where
  thread : τ
  op : Op
  before : ℤ
  grant : Option τ
deriving DecidableEq, Repr

inductive Pc (τ : Type)
  | idle
  | spin (op : Op)
  | enter (op : Op)
  | body (op : Op) (c : Cell τ)
  | unlock (op : Op) (e : Exit τ)
  | after (op : Op) (e : Exit τ)

structure State (τ : Type) where
  flag : Bool
  cell : Cell τ
  pc : τ → Pc τ
  tokens : τ → ℕ
  log : List (Event τ)

/-- A thread starts a call, or takes its next step; `a` is the address of a `malloc` in it. -/
inductive Act (τ : Type)
  | call (t : τ) (op : Op)
  | step (t : τ) (a : Addr)

variable {τ : Type}

def grantee : Op → τ → Exit τ → Option τ
  | .down, t, e => match e.after with
    | .ret => some t
    | _ => none
  | .tryDown, t, e => if e.ret = 0 then some t else none
  | .up, _, e => match e.after with
    | .wake w => some w
    | _ => none

def record (op : Op) (t : τ) (before : ℤ) (e : Exit τ) : Event τ := ⟨t, op, before, grantee op t e⟩

def Event.loss (e : Event τ) : Option τ := if e.op = .up then some e.thread else none

def granted (log : List (Event τ)) : ℕ := Ledger.total Event.grant log

def ups (log : List (Event τ)) : ℕ := Ledger.total Event.loss log

def Inside : Pc τ → Prop
  | .enter _ | .body _ _ | .unlock _ _ => True
  | _ => False

variable [DecidableEq τ]

def owned (log : List (Event τ)) (t : τ) : ℤ := Ledger.held Event.grant Event.loss log t

/-- Every `up` was executed by a thread that owned a unit at that time. -/
def OwnersUp (log : List (Event τ)) : Prop := Ledger.Covered Event.grant Event.loss log

def State.goto (s : State τ) (t : τ) (pc : Pc τ) : State τ :=
  { s with pc := Function.update s.pc t pc }

variable (body : Op → τ → Addr → Cell τ → Option (Cell τ × Exit τ))

def next (s : State τ) : Act τ → Option (State τ)
  | .call t op => match s.pc t with
    | .idle => some (s.goto t (.spin op))
    | _ => none
  | .step t a => match s.pc t with
    | .idle => none
    | .spin op => some (if s.flag then s else { s.goto t (.enter op) with flag := true })
    | .enter op => some (s.goto t (.body op s.cell))
    | .body op c =>
      -- `malloc` only answers an address that is not in use
      if (c.heap a).isSome then none
      else (body op t a c).map fun r =>
        { s.goto t (.unlock op r.2) with
          cell := r.1, log := s.log ++ [record op t c.sem.count r.2] }
    | .unlock op e => some { s.goto t (.after op e) with flag := false }
    | .after _ e => match e.after with
      | .ret => some (s.goto t .idle)
      | .suspend =>
        if s.tokens t = 0 then none
        else some { s.goto t .idle with tokens := Function.update s.tokens t (s.tokens t - 1) }
      | .wake w =>
        some { s.goto t .idle with tokens := Function.update s.tokens w (s.tokens w + 1) }

/-- The state right after `sthread_sem_init(sem, count)`, whatever memory held before. -/
def start (count : ℤ) (c : Cell τ) : State τ where
  flag := false
  cell := (sthreadSemInit count c).1
  pc := fun _ => .idle
  tokens := fun _ => 0
  log := []

/-- `flag` admits one thread, and what that thread has read is still the semaphore. -/
structure Locked (s : State τ) : Prop where
  guarded : Guarded s.flag fun t => Inside (s.pc t)
  current : ∀ t op c, s.pc t = .body op c → c = s.cell

inductive Step : State τ → State τ → Prop
  | spin (s : State τ) : Step s s
  | call (s : State τ) (t : τ) (op : Op) (h : s.pc t = .idle) : Step s (s.goto t (.spin op))
  | take (s : State τ) (t : τ) (op : Op) (h : s.pc t = .spin op) (hf : s.flag = false) :
      Step s { s.goto t (.enter op) with flag := true }
  | load (s : State τ) (t : τ) (op : Op) (h : s.pc t = .enter op) :
      Step s (s.goto t (.body op s.cell))
  | store (s : State τ) (t : τ) (op : Op) (c c' : Cell τ) (a : Addr) (e : Exit τ)
      (h : s.pc t = .body op c) (ha : c.heap a = none) (hb : body op t a c = some (c', e)) :
      Step s { s.goto t (.unlock op e) with
        cell := c', log := s.log ++ [record op t c.sem.count e] }
  | unlock (s : State τ) (t : τ) (op : Op) (e : Exit τ) (h : s.pc t = .unlock op e) :
      Step s { s.goto t (.after op e) with flag := false }
  | leave (s : State τ) (t : τ) (op : Op) (e : Exit τ) (tokens : τ → ℕ)
      (h : s.pc t = .after op e) : Step s { s.goto t .idle with tokens := tokens }

variable {body} {s s' : State τ}

inductive Does (body : Op → τ → Addr → Cell τ → Option (Cell τ × Exit τ)) (s : State τ) :
    Act τ → State τ → Prop
  | call (t : τ) (op : Op) (h : s.pc t = .idle) : Does body s (.call t op) (s.goto t (.spin op))
  | spin (t : τ) (a : Addr) (op : Op) (h : s.pc t = .spin op) : Does body s (.step t a) s
  | take (t : τ) (a : Addr) (op : Op) (h : s.pc t = .spin op) (hf : s.flag = false) :
      Does body s (.step t a) { s.goto t (.enter op) with flag := true }
  | load (t : τ) (a : Addr) (op : Op) (h : s.pc t = .enter op) :
      Does body s (.step t a) (s.goto t (.body op s.cell))
  | store (t : τ) (a : Addr) (op : Op) (c c' : Cell τ) (e : Exit τ)
      (h : s.pc t = .body op c) (ha : c.heap a = none) (hb : body op t a c = some (c', e)) :
      Does body s (.step t a) { s.goto t (.unlock op e) with
        cell := c', log := s.log ++ [record op t c.sem.count e] }
  | unlock (t : τ) (a : Addr) (op : Op) (e : Exit τ) (h : s.pc t = .unlock op e) :
      Does body s (.step t a) { s.goto t (.after op e) with flag := false }
  | ret (t : τ) (a : Addr) (op : Op) (e : Exit τ) (h : s.pc t = .after op e)
      (he : e.after = .ret) : Does body s (.step t a) (s.goto t .idle)
  | resume (t : τ) (a : Addr) (op : Op) (e : Exit τ) (h : s.pc t = .after op e)
      (he : e.after = .suspend) (ht : s.tokens t ≠ 0) :
      Does body s (.step t a) { s.goto t .idle with
        tokens := Function.update s.tokens t (s.tokens t - 1) }
  | wake (t : τ) (a : Addr) (op : Op) (e : Exit τ) (w : τ) (h : s.pc t = .after op e)
      (he : e.after = .wake w) :
      Does body s (.step t a) { s.goto t .idle with
        tokens := Function.update s.tokens w (s.tokens w + 1) }

theorem does_of_next {a : Act τ} (h : next body s a = some s') : Does body s a s' := by
  cases a with
  | call t op =>
    simp only [next] at h
    split at h
    · rename_i hp
      cases h
      exact .call t op hp
    · cases h
  | step t a =>
    simp only [next] at h
    split at h
    · cases h
    · rename_i op hp
      split_ifs at h with hf
      · cases h
        exact .spin t a op hp
      · cases h
        exact .take t a op hp (by simpa using hf)
    · rename_i op hp
      cases h
      exact .load t a op hp
    · rename_i op c hp
      split_ifs at h with ha
      obtain ⟨⟨c', e⟩, hb, rfl⟩ := Option.map_eq_some_iff.mp h
      exact .store t a op c c' e hp (by simpa using ha) hb
    · rename_i op e hp
      cases h
      exact .unlock t a op e hp
    · rename_i op e hp
      split at h
      · rename_i he
        cases h
        exact .ret t a op e hp he
      · rename_i he
        split_ifs at h with ht
        cases h
        exact .resume t a op e hp he ht
      · rename_i w he
        cases h
        exact .wake t a op e w hp he

theorem step_of_next {a : Act τ} (h : next body s a = some s') : Step body s s' := by
  cases does_of_next h with
  | call t op hp => exact .call s t op hp
  | spin t a op hp => exact .spin s
  | take t a op hp hf => exact .take s t op hp hf
  | load t a op hp => exact .load s t op hp
  | store t a op c c' e hp ha hb => exact .store s t op c c' a e hp ha hb
  | unlock t a op e hp => exact .unlock s t op e hp
  | ret t a op e hp he => exact .leave s t op e s.tokens hp
  | resume t a op e hp he ht => exact .leave s t op e _ hp
  | wake t a op e w hp he => exact .leave s t op e _ hp

theorem goto_pc_ne (s : State τ) {t u : τ} (pc : Pc τ) (h : u ≠ t) :
    (s.goto t pc).pc u = s.pc u := Function.update_of_ne h _ _

theorem goto_pc_self (s : State τ) (t : τ) (pc : Pc τ) : (s.goto t pc).pc t = pc :=
  Function.update_self ..

omit [DecidableEq τ] in
theorem start_locked (count : ℤ) (c : Cell τ) : Locked (start count c) :=
  ⟨⟨fun _ _ h => h.elim, fun _ h => h.elim⟩, fun _ _ _ h => by cases h⟩

theorem Locked.current_goto (h : Locked s) {t : τ} {pc : Pc τ}
    (hc : ∀ op c, pc = .body op c → c = s.cell) {u : τ} {op : Op} {c : Cell τ}
    (hu : (s.goto t pc).pc u = .body op c) : c = s.cell := by
  by_cases hut : u = t
  · rw [hut, goto_pc_self] at hu
    exact hc op c hu
  · rw [goto_pc_ne s pc hut] at hu
    exact h.current u op c hu

theorem Locked.goto (h : Locked s) {t : τ} {pc : Pc τ} (hi : Inside pc ↔ Inside (s.pc t))
    (hc : ∀ op c, pc = .body op c → c = s.cell) : Locked (s.goto t pc) := by
  refine ⟨h.guarded.congr fun u => ?_, fun u op c hu => h.current_goto hc hu⟩
  by_cases hut : u = t
  · rw [hut, goto_pc_self, hi]
  · rw [goto_pc_ne s pc hut]

theorem Locked.step (h : Locked s) (hs : Step body s s') : Locked s' := by
  cases hs with
  | spin => exact h
  | call t op hp => exact h.goto (by simp [Inside, hp]) (by simp)
  | take t op hp hf =>
    refine ⟨h.guarded.take hf (t := t) fun u hu => ?_, fun u op' c hu => ?_⟩
    · exact iff_of_eq (congrArg Inside (goto_pc_ne s _ hu))
    · exact h.current_goto (by simp) hu
  | load t op hp => exact h.goto (by simp [Inside, hp]) (by simp)
  | store t op c c' a e hp ha hb =>
    refine ⟨h.guarded.congr fun u => ?_, fun u op' d hu => ?_⟩
    · by_cases hut : u = t
      · subst hut
        simp [goto_pc_self, Inside, hp]
      · exact iff_of_eq (congrArg Inside (goto_pc_ne s _ hut))
    -- nobody else can have read the semaphore that this step replaces
    · by_cases hut : u = t
      · rw [hut] at hu
        cases (goto_pc_self s t _).symm.trans hu
      · have hu' : s.pc u = .body op' d := (goto_pc_ne s _ hut).symm.trans hu
        exact absurd (h.guarded.unique u t (by simp [hu', Inside]) (by simp [hp, Inside])) hut
  | unlock t op e hp =>
    refine ⟨h.guarded.clear (t := t) (by simp [hp, Inside]) ?_ fun u hu => ?_, fun u op' c hu => ?_⟩
    · simp [goto_pc_self, Inside]
    · exact iff_of_eq (congrArg Inside (goto_pc_ne s _ hu))
    · exact h.current_goto (by simp) hu
  | leave t op e tokens hp =>
    have hl : Locked (s.goto t .idle) := h.goto (by simp [Inside, hp]) (by simp)
    exact ⟨hl.guarded, hl.current⟩

theorem Locked.of_reaches {count : ℤ} {c : Cell τ} (h : Reaches (next body) (start count c) s) :
    Locked s :=
  h.invariant (fun _ _ _ hs ha => hs.step (step_of_next ha)) (start_locked count c)

section Implementation
variable {spec : Op → τ → Fifo τ → Fifo τ × Exit τ} {I : Fifo τ → List (Event τ) → Prop}
  {count : ℤ} {c : Cell τ}

def Models (I : Fifo τ → List (Event τ) → Prop) (s : State τ) : Prop :=
  ∃ xs f, Refines s.cell xs f ∧ I f s.log

theorem Implements.models_step (himp : Implements body spec)
    (hI : ∀ f log op t, I f log → I (spec op t f).1 (log ++ [record op t f.count (spec op t f).2]))
    (hl : Locked s) (hm : Models I s) (hs : Step body s s') : Models I s' := by
  obtain ⟨xs, f, hr, hf⟩ := hm
  cases hs with
  | spin | call | take | load | unlock | leave => exact ⟨xs, f, hr, hf⟩
  | store t op d d' a e hp hfree hb =>
    obtain rfl := hl.current t op d hp
    obtain ⟨c', xs', hb', hr', -⟩ := himp _ xs f op t a hr hfree
    obtain ⟨rfl, rfl⟩ : c' = d' ∧ (spec op t f).2 = e := by simpa using hb'.symm.trans hb
    refine ⟨xs', _, hr', ?_⟩
    have := hI f s.log op t hf
    rwa [← hr.count] at this

theorem Implements.models_run (himp : Implements body spec)
    (hI : ∀ f log op t, I f log → I (spec op t f).1 (log ++ [record op t f.count (spec op t f).2]))
    (hl : Locked s) (hm : Models I s) (h : Reaches (next body) s s') :
    Locked s' ∧ Models I s' := by
  refine h.invariant (P := fun s => Locked s ∧ Models I s) (fun s a s' hs ha => ?_) ⟨hl, hm⟩
  exact ⟨hs.1.step (step_of_next ha), himp.models_step hI hs.1 hs.2 (step_of_next ha)⟩

/-- An invariant of the specification holds after every run of the threads. -/
theorem Implements.models (himp : Implements body spec) (h0 : I ⟨count, []⟩ [])
    (hI : ∀ f log op t, I f log → I (spec op t f).1 (log ++ [record op t f.count (spec op t f).2]))
    (h : Reaches (next body) (start count c) s) : Models I s :=
  (himp.models_run hI (start_locked count c) ⟨[], _, (sthreadSemInit_refines count c).2, h0⟩ h).2

/-- No critical section faults: a thread that holds `flag` can always finish it. -/
theorem Implements.enabled (himp : Implements body spec)
    (h : Reaches (next body) (start count c) s) {t : τ} {op : Op} {d : Cell τ}
    (hp : s.pc t = .body op d) {a : Addr} (ha : s.cell.heap a = none) :
    ∃ s', next body s (.step t a) = some s' := by
  obtain ⟨xs, f, hr, -⟩ := himp.models (I := fun _ _ => True) trivial (fun _ _ _ _ _ => trivial) h
  obtain rfl := (Locked.of_reaches h).current t op d hp
  obtain ⟨c', xs', hb, -, -⟩ := himp _ xs f op t a hr ha
  exact ⟨_, by simp only [next, hp, ha, hb]; rfl⟩

end Implementation

end AndroidKernel.Sync
