import AndroidKernel.Sync.Conservation
import AndroidKernel.Sync.Waiters

/-! The return values of `hw3/sync.c` against what the calls obtained. `sthread_sem_down` fixes its
value before it suspends itself, and the unit arrives later through the `up` of another thread, so
runs are watched from outside: for every call, the count that its critical section found and
whether it was granted a unit before it returned. -/

namespace AndroidKernel.Sync
open Lts
variable {τ : Type}

structure Return (τ : Type) where
  thread : τ
  op : Op
  before : ℤ
  ret : ℤ
  granted : Bool
deriving DecidableEq, Repr

/-- A run with the returns so far; `before` and `granted` are about the call under way. -/
structure Watched (τ : Type) where
  state : State τ
  before : τ → ℤ
  granted : τ → Bool
  returns : List (Return τ)

/-- Who obtained a unit when the critical section of `t` turned `c` into `c'`: the caller if it
took one off the count, the oldest waiter if it was taken off the queue. -/
def receiver (t : τ) (c c' : Cell τ) : Option τ :=
  if c'.sem.count < c.sem.count then some t
  else if c'.sem.sthreadCount < c.sem.sthreadCount then c.waiting.head?
  else none

variable [DecidableEq τ]

def grant (granted : τ → Bool) : Option τ → τ → Bool
  | some t => Function.update granted t true
  | none => granted

def watch (w : Watched τ) (a : Act τ) : Option (Watched τ) :=
  (next crit w.state a).map fun s => match a with
    | .call t _ => { w with state := s, granted := Function.update w.granted t false }
    | .step t _ => match w.state.pc t with
      | .body _ c => { w with
          state := s
          before := Function.update w.before t c.sem.count
          granted := grant w.granted (receiver t c s.cell) }
      | .after op e => { w with
          state := s
          returns := w.returns ++ [⟨t, op, w.before t, e.ret, w.granted t⟩] }
      | _ => { w with state := s }

def watchFrom (count : ℤ) (c : Cell τ) : Watched τ where
  state := start count c
  before := fun _ => 0
  granted := fun _ => false
  returns := []

def Return.Truthful (r : Return τ) : Prop :=
  (r.ret = 0 ↔ r.granted = true) ∧ (r.ret ≠ 0 ↔ r.granted = false)

def Pc.Asking : Pc τ → Prop
  | .spin _ | .enter _ | .body _ _ => True
  | _ => False

def Pc.exit : Pc τ → Option (Op × Exit τ)
  | .unlock op e | .after op e => some (op, e)
  | _ => none

def Decided (before : ℤ) (granted : Bool) : Op × Exit τ → Prop
  | (.down, e) =>
    if 0 < before then e = ⟨0, .ret⟩ ∧ granted = true else e = ⟨-1, .suspend⟩
  | (.tryDown, e) =>
    if 0 < before then e = ⟨0, .ret⟩ ∧ granted = true else e = ⟨-1, .ret⟩ ∧ granted = false
  | (.up, _) => True

structure Told (w : Watched τ) (place : τ → Place τ) : Prop where
  asking : ∀ t, (w.state.pc t).Asking → w.granted t = false
  decided : ∀ t, ∀ x ∈ (w.state.pc t).exit, Decided (w.before t) (w.granted t) x
  handed : ∀ t, place t ≠ .nowhere → place t ≠ .queued → w.granted t = true
  returned : ∀ r ∈ w.returns, r.op ≠ .up → (r.Truthful ↔ (r.op = .down → 0 < r.before))

section Decisions
omit [DecidableEq τ]

theorem Pc.Asking.pending {pc : Pc τ} (h : pc.Asking) : pc.pending = .ret := by
  cases pc with
  | spin | enter | body => rfl
  | idle | unlock | after => exact h.elim

theorem Pc.exit_after {pc : Pc τ} {x : Op × Exit τ} (h : x ∈ pc.exit) :
    x.2.after = pc.pending := by
  cases pc with
  | unlock op e | after op e =>
    obtain rfl : (op, e) = x := Option.some.inj h
    rfl
  | idle | spin | enter | body => cases h

def Fifo.receiver (f : Fifo τ) (op : Op) (t : τ) : Option τ :=
  if op = .up then f.queue.head? else if 0 < f.count then some t else none

theorem receiver_eq {c c' : Cell τ} {xs xs' : List (Addr × τ)} {f : Fifo τ} {op : Op} {t : τ}
    (h : Loose c xs f) (h' : Loose c' xs' (f.handOff op t).1) :
    receiver t c c' = f.receiver op t := by
  simp only [receiver, h.count, h'.count, h.sthreadCount_eq, h'.sthreadCount_eq, h.waiting_eq]
  cases op with
  | down => by_cases hc : 0 < f.count <;> simp [Fifo.handOff, Fifo.receiver, hc]
  | tryDown => by_cases hc : 0 < f.count <;> simp [Fifo.handOff, Fifo.receiver, hc]
  | up =>
    obtain ⟨n, _ | ⟨w, q⟩⟩ := f
    · simp [Fifo.handOff, Fifo.receiver]
    · simp [Fifo.handOff, Fifo.receiver]

variable {before : ℤ} {granted granted' : Bool} {op : Op} {e : Exit τ}

theorem Decided.of_suspend (h : Decided before granted (op, e)) (he : e.after = .suspend) :
    Decided before granted' (op, e) := by
  cases op with
  | down =>
    by_cases hb : 0 < before
    · simp only [Decided, if_pos hb] at h
      rw [h.1] at he
      cases he
    · simpa only [Decided, if_neg hb] using h
  | tryDown =>
    by_cases hb : 0 < before
    · simp only [Decided, if_pos hb] at h
      rw [h.1] at he
      cases he
    · simp only [Decided, if_neg hb] at h
      rw [h.1] at he
      cases he
  | up => trivial

theorem Decided.truthful (h : Decided before granted (op, e)) (hop : op ≠ .up)
    (hs : e.after = .suspend → granted = true) (t : τ) :
    Return.Truthful ⟨t, op, before, e.ret, granted⟩ ↔ (op = .down → 0 < before) := by
  cases op with
  | down =>
    by_cases hb : 0 < before
    · simp only [Decided, if_pos hb] at h
      obtain ⟨rfl, rfl⟩ := h
      simp [Return.Truthful, hb]
    · simp only [Decided, if_neg hb] at h
      subst h
      simp [Return.Truthful, hb, hs rfl]
  | tryDown =>
    by_cases hb : 0 < before
    · simp only [Decided, if_pos hb] at h
      obtain ⟨rfl, rfl⟩ := h
      simp [Return.Truthful]
    · simp only [Decided, if_neg hb] at h
      obtain ⟨rfl, rfl⟩ := h
      simp [Return.Truthful]
  | up => exact absurd rfl hop

theorem decided_handOff (f : Fifo τ) (op : Op) (t : τ) (g : Bool)
    (hg : op ≠ .up → 0 < f.count → g = true) (hg' : op = .tryDown → ¬ 0 < f.count → g = false) :
    Decided f.count g (op, (f.handOff op t).2) := by
  cases op with
  | down =>
    by_cases hc : 0 < f.count
    · simp [Decided, Fifo.handOff, hc, hg]
    · simp [Decided, Fifo.handOff, hc]
  | tryDown =>
    by_cases hc : 0 < f.count
    · simp [Decided, Fifo.handOff, hc, hg]
    · simp [Decided, Fifo.handOff, hc, hg']
  | up => trivial

end Decisions

variable {w w' : Watched τ} {place place' : τ → Place τ} {f : Fifo τ} {t : τ}

theorem Told.goto (h : Told w place) {pc : Pc τ}
    (hpc : w'.state.pc = Function.update w.state.pc t pc)
    (ha : pc.Asking → (w.state.pc t).Asking) (he : ∀ x ∈ pc.exit, x ∈ (w.state.pc t).exit)
    (hb : w'.before = w.before) (hg : w'.granted = w.granted) (hr : w'.returns = w.returns) :
    Told w' place := by
  refine ⟨fun u hu => ?_, fun u x hx => ?_, ?_, ?_⟩
  · rw [hg]
    apply h.asking u
    by_cases hut : u = t
    · rw [hpc, hut, Function.update_self] at hu
      exact hut ▸ ha hu
    · rwa [hpc, Function.update_of_ne hut] at hu
  · rw [hb, hg]
    apply h.decided u x
    by_cases hut : u = t
    · rw [hpc, hut, Function.update_self] at hx
      exact hut ▸ he x hx
    · rwa [hpc, Function.update_of_ne hut] at hx
  · rw [hg]
    exact h.handed
  · rw [hr]
    exact h.returned

theorem Told.decide (h : Told w place) {pc : Pc τ}
    (hpc : w'.state.pc = Function.update w.state.pc t pc)
    (hb : ∀ u, u ≠ t → w'.before u = w.before u)
    (hg : ∀ u, u ≠ t → (w.state.pc u).pending ≠ .suspend → w'.granted u = w.granted u)
    (ha : pc.Asking → w'.granted t = false)
    (hd : ∀ x ∈ pc.exit, Decided (w'.before t) (w'.granted t) x)
    (hh : ∀ u, place' u ≠ .nowhere → place' u ≠ .queued → w'.granted u = true)
    (hr : w'.returns = w.returns) : Told w' place' := by
  refine ⟨fun u hu => ?_, fun u x hx => ?_, hh, ?_⟩
  · by_cases hut : u = t
    · rw [hpc, hut, Function.update_self] at hu
      exact hut ▸ ha hu
    · rw [hpc, Function.update_of_ne hut] at hu
      rw [hg u hut]
      · exact h.asking u hu
      · simp [hu.pending]
  · by_cases hut : u = t
    · rw [hpc, hut, Function.update_self] at hx
      exact hut ▸ hd x hx
    · rw [hpc, Function.update_of_ne hut] at hx
      have hdec := h.decided u x hx
      rw [hb u hut]
      by_cases hs : (w.state.pc u).pending = .suspend
      · exact Decided.of_suspend hdec ((Pc.exit_after hx).trans hs)
      · rwa [hg u hut hs]
  · rw [hr]
    exact h.returned

theorem Told.settle (h : Told w place) {op : Op}
    (hpc : w'.state.pc = Function.update w.state.pc t (.unlock op (f.handOff op t).2))
    (hb : w'.before = Function.update w.before t f.count) (hr : w'.returns = w.returns)
    (hg : op ≠ .up → 0 < f.count → w'.granted t = true)
    (hg' : op = .tryDown → ¬ 0 < f.count → w'.granted t = false)
    (hothers : ∀ u, u ≠ t → (w.state.pc u).pending ≠ .suspend → w'.granted u = w.granted u)
    (hh : ∀ u, place' u ≠ .nowhere → place' u ≠ .queued → w'.granted u = true) :
    Told w' place' := by
  have hbu : ∀ u, u ≠ t → w'.before u = w.before u := by
    intro u hu
    rw [hb, Function.update_of_ne hu]
  refine h.decide hpc hbu hothers (fun ha => ha.elim) (fun x hx => ?_) hh hr
  obtain rfl := Option.some.inj hx
  rw [hb, Function.update_self]
  exact decided_handOff f op t _ hg hg'

theorem Told.settle_up (h : Told w place) (ht : Tracked w.state f place)
    (hpc : w'.state.pc = Function.update w.state.pc t (.unlock .up (f.handOff .up t).2))
    (hb : w'.before = Function.update w.before t f.count) (hr : w'.returns = w.returns)
    (hgrant : w'.granted = grant w.granted (f.receiver .up t)) :
    Told w' (entered t place (f.handOff .up t).2.after) := by
  obtain ⟨n, _ | ⟨v, q⟩⟩ := f
  · have hg : w'.granted = w.granted := hgrant
    refine h.settle hpc hb hr (by simp) (by simp) (fun u _ _ => by rw [hg]) fun u => ?_
    rw [hg]
    exact h.handed u
  · have hg : w'.granted = Function.update w.granted v true := hgrant
    have hv : place v = .queued := by
      by_contra hn
      have := (ht.waits v).queued
      simp [hn] at this
    have hvs := (ht.waits v).suspended.mpr (by simp [hv])
    refine h.settle hpc hb hr (by simp) (by simp) (fun u _ hu => ?_) fun u hu hu' => ?_
    · have huv : u ≠ v := by
        rintro rfl
        exact hu hvs
      rw [hg, Function.update_of_ne huv]
    · rw [hg]
      by_cases huv : u = v
      · rw [huv, Function.update_self]
      · simp only [Fifo.handOff, entered, Function.update_of_ne huv] at hu hu' ⊢
        exact h.handed u hu hu'

theorem Told.settle_take (h : Told w place) {op : Op} (hnone : place t = .nowhere)
    (hpc : w'.state.pc = Function.update w.state.pc t (.unlock op (f.handOff op t).2))
    (hb : w'.before = Function.update w.before t f.count) (hr : w'.returns = w.returns)
    (hgrant : w'.granted = grant w.granted (f.receiver op t)) (hop : op ≠ .up)
    (hc : 0 < f.count) : Told w' (entered t place (f.handOff op t).2.after) := by
  have hg : w'.granted = Function.update w.granted t true := by
    simp only [hgrant, Fifo.receiver, if_neg hop, if_pos hc, grant]
  have he : (f.handOff op t).2.after = .ret := by
    cases op with
    | down | tryDown => simp [Fifo.handOff, hc]
    | up => exact absurd rfl hop
  rw [he]
  refine h.settle hpc hb hr (fun _ _ => by rw [hg, Function.update_self]) (fun _ hn => absurd hc hn)
    (fun u hu _ => by rw [hg, Function.update_of_ne hu]) fun u hu hu' => ?_
  have hut : u ≠ t := by
    rintro rfl
    exact hu hnone
  rw [hg, Function.update_of_ne hut]
  exact h.handed u hu hu'

theorem Told.settle_refused (h : Told w place) {op : Op} (hask : w.granted t = false)
    (hpc : w'.state.pc = Function.update w.state.pc t (.unlock op (f.handOff op t).2))
    (hb : w'.before = Function.update w.before t f.count) (hr : w'.returns = w.returns)
    (hgrant : w'.granted = grant w.granted (f.receiver op t)) (hop : op ≠ .up)
    (hc : ¬ 0 < f.count) : Told w' (entered t place (f.handOff op t).2.after) := by
  have hg : w'.granted = w.granted := by
    simp only [hgrant, Fifo.receiver, if_neg hop, if_neg hc, grant]
  refine h.settle hpc hb hr (fun _ hc' => absurd hc' hc) (fun _ _ => by rw [hg, hask])
    (fun u _ _ => by rw [hg]) fun u hu hu' => ?_
  rw [hg]
  cases op with
  | up => exact absurd rfl hop
  | tryDown =>
    simp only [Fifo.handOff, if_neg hc, entered] at hu hu'
    exact h.handed u hu hu'
  | down =>
    simp only [Fifo.handOff, if_neg hc, entered] at hu hu'
    have hut : u ≠ t := by
      rintro rfl
      exact hu' (Function.update_self ..)
    rw [Function.update_of_ne hut] at hu hu'
    exact h.handed u hu hu'

theorem Told.store (h : Told w place) (ht : Tracked w.state f place) {op : Op} {c c' : Cell τ}
    {b : Addr} {e : Exit τ} (hp : w.state.pc t = .body op c) (hb : c.heap b = none)
    (hc : crit op t b c = some (c', e))
    (hpc : w'.state.pc = Function.update w.state.pc t (.unlock op e))
    (hbefore : w'.before = Function.update w.before t c.sem.count)
    (hgrant : w'.granted = grant w.granted (receiver t c c')) (hr : w'.returns = w.returns) :
    Told w' (entered t place e.after) := by
  obtain ⟨rfl, rfl, xs', hm'⟩ := ht.exit_eq hp hb hc
  obtain ⟨xs, hm⟩ := ht.memory
  have hask : w.granted t = false := h.asking t (by rw [hp]; trivial)
  have hnone : place t = .nowhere := ht.waits.nowhere (by rw [hp]; rfl)
  rw [receiver_eq hm hm'] at hgrant
  rw [hm.count] at hbefore
  by_cases hop : op = .up
  · subst hop
    exact h.settle_up ht hpc hbefore hr hgrant
  · by_cases hc0 : 0 < f.count
    · exact h.settle_take hnone hpc hbefore hr hgrant hop hc0
    · exact h.settle_refused hask hpc hbefore hr hgrant hop hc0

theorem Told.leave (h : Told w place) {op : Op} {e : Exit τ} (hp : w.state.pc t = .after op e)
    (hpc : w'.state.pc = Function.update w.state.pc t .idle)
    (hs : e.after = .suspend → w.granted t = true)
    (hw : ∀ v, e.after = .wake v → w.granted v = true)
    (hb : w'.before = w.before) (hg : w'.granted = w.granted)
    (hr : w'.returns = w.returns ++ [⟨t, op, w.before t, e.ret, w.granted t⟩]) :
    Told w' (left t place e.after) := by
  have hdec : Decided (w.before t) (w.granted t) (op, e) := h.decided t (op, e) (by rw [hp]; rfl)
  have hk : Told { w' with returns := w.returns } place :=
    h.goto hpc (fun ha => ha.elim) (fun x hx => by cases hx) hb hg rfl
  refine ⟨hk.asking, hk.decided, fun u hu hu' => ?_, fun r hmem hop => ?_⟩
  · rw [hg]
    cases he : e.after with
    | ret =>
      rw [he] at hu hu'
      exact h.handed u hu hu'
    | suspend =>
      simp only [he, left] at hu hu'
      have hut : u ≠ t := by
        rintro rfl
        exact hu (Function.update_self ..)
      rw [Function.update_of_ne hut] at hu hu'
      exact h.handed u hu hu'
    | wake v =>
      simp only [he, left] at hu hu'
      by_cases huv : u = v
      · rw [huv]
        exact hw v he
      · rw [Function.update_of_ne huv] at hu hu'
        exact h.handed u hu hu'
  · rw [hr] at hmem
    rcases List.mem_append.mp hmem with hmem | hmem
    · exact h.returned r hmem hop
    · obtain rfl := List.mem_singleton.mp hmem
      exact hdec.truthful hop hs t

theorem Told.step (h : Told w place) (ht : Tracked w.state f place) {a : Act τ}
    (hn : watch w a = some w') : Tracked w'.state (fifoAfter w.state f a)
      (placeAfter w.state f place a) ∧ Told w' (placeAfter w.state f place a) := by
  obtain ⟨s', hs, hw⟩ := Option.map_eq_some_iff.mp hn
  have hstate : w'.state = s' := by
    subst hw
    split
    · rfl
    · split <;> rfl
  rw [hstate]
  refine ⟨ht.step hs, ?_⟩
  cases does_of_next hs with
  | call t op hp =>
    subst hw
    have hnone : place t = .nowhere := ht.waits.nowhere (by rw [hp]; rfl)
    refine h.decide (t := t) rfl (fun _ _ => rfl) (fun u hu _ => Function.update_of_ne hu _ _)
      (fun _ => Function.update_self ..) (fun x hx => by cases hx) (fun u hu hu' => ?_) rfl
    have hut : u ≠ t := by
      rintro rfl
      exact hu hnone
    exact (Function.update_of_ne hut _ _).trans (h.handed u hu hu')
  | spin t b op hp =>
    simp only [hp] at hw
    simp only [placeAfter, hp]
    exact hw ▸ h
  | take t b op hp hf =>
    simp only [hp] at hw
    simp only [placeAfter, hp]
    exact hw ▸ h.goto (t := t) rfl (fun _ => by rw [hp]; trivial) (fun x hx => by cases hx) rfl rfl
      rfl
  | load t b op hp =>
    simp only [hp] at hw
    simp only [placeAfter, hp]
    exact hw ▸ h.goto (t := t) rfl (fun _ => by rw [hp]; trivial) (fun x hx => by cases hx) rfl rfl
      rfl
  | store t b op c c' e hp hb hc =>
    simp only [hp] at hw
    have he := (ht.exit_eq hp hb hc).2.1
    simp only [placeAfter, hp, ← he]
    exact hw ▸ h.store ht hp hb hc rfl rfl rfl rfl
  | unlock t b op e hp =>
    simp only [hp] at hw
    simp only [placeAfter, hp]
    exact hw ▸ h.goto (t := t) rfl (fun ha => ha.elim) (fun x hx => by rw [hp]; exact hx) rfl rfl
      rfl
  | ret t b op e hp he =>
    simp only [hp] at hw
    simp only [placeAfter, hp]
    exact hw ▸ h.leave hp rfl (by simp [he]) (by simp [he]) rfl rfl rfl
  | resume t b op e hp he htok =>
    simp only [hp] at hw
    simp only [placeAfter, hp]
    have hplace := ht.waits.token htok
    have hg : w.granted t = true := h.handed t (by simp [hplace]) (by simp [hplace])
    exact hw ▸ h.leave hp rfl (fun _ => hg) (by simp [he]) rfl rfl rfl
  | wake t b op e v hp he =>
    simp only [hp] at hw
    simp only [placeAfter, hp]
    have hplace : place v = .waking t := ((ht.waits v).waking t).mp (by rw [hp]; exact he)
    have hg : w.granted v = true := h.handed v (by simp [hplace]) (by simp [hplace])
    refine hw ▸ h.leave hp rfl (by simp [he]) (fun u hu => ?_) rfl rfl rfl
    obtain rfl : v = u := by simpa [he] using hu
    exact hg

/-- In every run a call of `sthread_sem_try_down` returns the truth, and a call of
`sthread_sem_down` exactly if its critical section finds a positive count: one that has to wait
returns -1 although it was handed a unit. -/
theorem return_truthful_iff (count : ℤ) (c : Cell τ) (w : Watched τ)
    (h : Reaches watch (watchFrom count c) w) :
    ∀ r ∈ w.returns, r.op ≠ .up → (r.Truthful ↔ (r.op = .down → 0 < r.before)) := by
  have hinv : ∃ f place, Tracked w.state f place ∧ Told w place := by
    refine h.invariant (P := fun w => ∃ f place, Tracked w.state f place ∧ Told w place)
      (fun w a w' hw ha => ?_) ⟨_, _, start_tracked count c, ?_⟩
    · obtain ⟨f, place, ht, htold⟩ := hw
      exact ⟨_, _, htold.step ht ha⟩
    · exact ⟨fun _ hu => hu.elim, fun _ _ hx => (by cases hx), fun _ hn => absurd rfl hn,
        fun _ hr => (by cases hr)⟩
  obtain ⟨f, place, -, htold⟩ := hinv
  exact htold.returned

/-- A `down` that finds the unit and a `try_down` that does not. -/
theorem return_truthful_immediate : ∃ w, exec watch
      (callSteps 0 .down 0 5 ++ callSteps 1 .tryDown 0 5)
      (watchFrom 1 ⟨⟨0, 0, none, none⟩, fun _ => none⟩) = some w ∧
    w.returns = [⟨0, .down, 1, 0, true⟩, ⟨1, .tryDown, 0, -1, false⟩] ∧
    ∀ r ∈ w.returns, r.Truthful := by
  obtain ⟨w, hw, hv⟩ := Option.map_eq_some_iff.mp (show (exec watch
      (callSteps 0 .down 0 5 ++ callSteps 1 .tryDown 0 5)
      (watchFrom 1 ⟨⟨0, 0, none, none⟩, fun _ => none⟩)).map (fun w => w.returns) =
    some [⟨0, .down, 1, 0, true⟩, ⟨1, .tryDown, 0, -1, false⟩] by decide)
  refine ⟨w, hw, hv, fun r hr => ?_⟩
  have hiff := return_truthful_iff 1 _ w ⟨_, hw⟩ r hr
  rw [hv] at hr
  have hcase : r = ⟨0, .down, 1, 0, true⟩ ∨ r = ⟨1, .tryDown, 0, -1, false⟩ := by simpa using hr
  rcases hcase with rfl | rfl
  · exact (hiff (by decide)).mpr (by decide)
  · exact (hiff (by decide)).mpr (by decide)

/-- Thread 1 queues, the `up` of thread 0 hands it the unit, and its `down` returns -1. -/
theorem down_granted_returns_error : ∃ w, exec watch contended
      (watchFrom 1 ⟨⟨0, 0, none, none⟩, fun _ => none⟩) = some w ∧
    ∃ r ∈ w.returns, r.thread = 1 ∧ r.op = .down ∧ r.granted = true ∧ r.ret = -1 ∧
      ¬ r.Truthful := by
  obtain ⟨w, hw, hv⟩ := Option.map_eq_some_iff.mp (show (exec watch contended
      (watchFrom 1 ⟨⟨0, 0, none, none⟩, fun _ => none⟩)).map (fun w => w.returns) =
    some [⟨0, .down, 1, 0, true⟩, ⟨0, .up, 0, 0, false⟩, ⟨1, .down, 0, -1, true⟩] by decide)
  refine ⟨w, hw, ⟨1, .down, 0, -1, true⟩, ?_, rfl, rfl, rfl, rfl, ?_⟩
  · rw [hv]
    simp
  · simp [Return.Truthful]

end AndroidKernel.Sync
