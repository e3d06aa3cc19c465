import AndroidKernel.Sync.System

/-! Where the wakeup of a thread that waits for the semaphore of `hw3/sync.c` is: the thread is on
the queue, or an `up` that took it off is about to wake it, or the token is in its pipe. A queue
whose `head` was cleared by `sthread_sem_destroy` counts as well, since only `insertNode` reads
`head`. -/

namespace AndroidKernel.Sync
open Lts
variable {τ : Type}

inductive Place (τ : Type)
  | nowhere
  | queued
  | waking (waker : τ)
  | token
deriving DecidableEq, Repr

def Pc.pending : Pc τ → After τ
  | .unlock _ e | .after _ e => e.after
  | _ => .ret

/-- The memory stands for `f`, except that `head` may be `NULL`. -/
def Loose (c : Cell τ) (xs : List (Addr × τ)) (f : Fifo τ) : Prop :=
  ∃ h, Refines ⟨{ c.sem with head := h }, c.heap⟩ xs f ∧ (c.sem.head = h ∨ c.sem.head = none)

section Loose
variable {c c' : Cell τ} {xs : List (Addr × τ)} {f : Fifo τ} {a : Addr} {e : Exit τ}

theorem Refines.loose (h : Refines c xs f) : Loose c xs f := ⟨c.sem.head, h, Or.inl rfl⟩

theorem Loose.count (h : Loose c xs f) : c.sem.count = f.count := by
  obtain ⟨h, hr, -⟩ := h
  exact hr.count

theorem Loose.waiting_eq (h : Loose c xs f) : c.waiting = f.queue := by
  obtain ⟨h, hr, -⟩ := h
  exact hr.waiting_eq

theorem Loose.sthreadCount_eq (h : Loose c xs f) : c.sem.sthreadCount = f.queue.length := by
  obtain ⟨h, hr, -⟩ := h
  have := hr.queued.length
  rw [← hr.queue, List.length_map]
  exact this

theorem Loose.withCount (h : Loose c xs f) (n : ℤ) :
    Loose { c with sem := { c.sem with count := n } } xs { f with count := n } := by
  obtain ⟨h, hr, hh⟩ := h
  exact ⟨h, hr.withCount n, hh⟩

theorem Loose.refines_of_insertNode (h : Loose c xs f) {t : τ} (hi : insertNode a t c = some c') :
    ∃ ys, Refines c ys f := by
  obtain ⟨h, hr, hh⟩ := h
  rcases hh with rfl | hh
  · exact ⟨xs, hr⟩
  · have h0 : c.sem.sthreadCount = 0 := by
      by_contra h0
      simp [insertNode, h0, hh] at hi
    obtain rfl : xs = [] := by
      have := hr.queued.length
      exact List.length_eq_zero_iff.mp (by simp only [h0] at this; omega)
    exact ⟨[], ⟨hr.queued.nodup, hr.queued.chain, hr.queued.length, by simp⟩, hr.count, hr.queue⟩

theorem sthreadSemDown_loose (h : Loose c xs f) (ha : c.heap a = none) {t : τ}
    (hd : sthreadSemDown t a c = some (c', e)) :
    e = (f.handOff .down t).2 ∧ ∃ xs', Loose c' xs' (f.handOff .down t).1 := by
  by_cases hc : 0 < f.count
  · simp only [sthreadSemDown, h.count, gt_iff_lt, if_pos hc, Option.some.injEq,
      Prod.mk.injEq] at hd
    obtain ⟨rfl, rfl⟩ := hd
    simp only [Fifo.handOff, if_pos hc]
    exact ⟨trivial, xs, h.withCount _⟩
  · have hi : ∃ d, insertNode a t c = some d := by
      simp only [sthreadSemDown, h.count, gt_iff_lt, if_neg hc, Option.bind_eq_bind,
        Option.bind_eq_some_iff] at hd
      exact hd.imp fun d hd => hd.1
    obtain ⟨d, hi⟩ := hi
    obtain ⟨ys, hr⟩ := h.refines_of_insertNode hi
    obtain ⟨d', xs', hd', hr', -⟩ := sthreadSemDown_refines hr ha t
    obtain ⟨rfl, rfl⟩ : d' = c' ∧ _ = e := by simpa using hd'.symm.trans hd
    exact ⟨rfl, xs', hr'.loose⟩

theorem sthreadSemUp_head (c : Cell τ) (h : Option Addr) :
    sthreadSemUp ⟨{ c.sem with head := h }, c.heap⟩ =
      (sthreadSemUp c).map fun r => (⟨{ r.1.sem with head := h }, r.1.heap⟩, r.2) := by
  by_cases hc : c.sem.sthreadCount ≤ 0
  · simp only [sthreadSemUp, if_pos hc, Option.map_some]
  · simp only [sthreadSemUp, if_neg hc, removeNode]
    cases hs : c.sem.start with
    | none => simp
    | some b =>
      cases hb : c.heap b with
      | none => simp [hb]
      | some node => simp [hb, free]

theorem sthreadSemUp_keeps_head (h : sthreadSemUp c = some (c', e)) :
    c'.sem.head = c.sem.head := by
  have hh := sthreadSemUp_head c c.sem.head
  rw [h, Option.map_some] at hh
  obtain ⟨hh, -⟩ := Prod.mk.inj (Option.some.inj hh)
  exact congrArg (fun d => d.sem.head) hh

theorem sthreadSemUp_loose (h : Loose c xs f) {t : τ}
    (hu : sthreadSemUp c = some (c', e)) :
    e = (f.handOff .up t).2 ∧ ∃ xs', Loose c' xs' (f.handOff .up t).1 := by
  have hkeep := sthreadSemUp_keeps_head hu
  obtain ⟨h, hr, hh⟩ := h
  obtain ⟨d, xs', hd, hr', -⟩ := sthreadSemUp_refines (a := 0) hr t
  rw [sthreadSemUp_head, hu, Option.map_some] at hd
  obtain ⟨rfl, rfl⟩ : _ = d ∧ e = _ := by simpa using hd
  exact ⟨rfl, xs', h, hr', by rwa [hkeep]⟩

theorem crit_loose (h : Loose c xs f) (ha : c.heap a = none) {op : Op} {t : τ}
    (hb : crit op t a c = some (c', e)) :
    e = (f.handOff op t).2 ∧ ∃ xs', Loose c' xs' (f.handOff op t).1 := by
  cases op with
  | down => exact sthreadSemDown_loose h ha hb
  | tryDown =>
    obtain ⟨rfl, rfl⟩ : (sthreadSemTryDown c).1 = c' ∧ (sthreadSemTryDown c).2 = e := by
      simpa [crit, Prod.ext_iff] using hb
    by_cases hc : 0 < f.count
    · simp only [sthreadSemTryDown, Fifo.handOff, h.count, gt_iff_lt, if_pos hc]
      exact ⟨trivial, xs, h.withCount _⟩
    · simp only [sthreadSemTryDown, Fifo.handOff, h.count, gt_iff_lt, if_neg hc]
      exact ⟨trivial, xs, h⟩
  | up => exact sthreadSemUp_loose h hb

end Loose

variable [DecidableEq τ]

structure At (queue : List τ) (s : State τ) (t : τ) (p : Place τ) : Prop where
  queued : queue.count t = if p = .queued then 1 else 0
  waking : ∀ u, (s.pc u).pending = .wake t ↔ p = .waking u
  tokens : s.tokens t = if p = .token then 1 else 0
  suspended : (s.pc t).pending = .suspend ↔ p ≠ .nowhere

def Waits (queue : List τ) (s : State τ) (place : τ → Place τ) : Prop :=
  ∀ t, At queue s t (place t)

def entered (t : τ) (place : τ → Place τ) : After τ → τ → Place τ
  | .ret => place
  | .suspend => Function.update place t .queued
  | .wake w => Function.update place w (.waking t)

def left (t : τ) (place : τ → Place τ) : After τ → τ → Place τ
  | .ret => place
  | .suspend => Function.update place t .nowhere
  | .wake w => Function.update place w .token

variable {s s' : State τ} {queue queue' : List τ} {place : τ → Place τ} {t w : τ} {p : Place τ}

theorem Waits.move (h : Waits queue s place)
    (hothers : ∀ u, u ≠ w → At queue s u (place u) → At queue' s' u (place u))
    (hw : At queue' s' w p) : Waits queue' s' (Function.update place w p) := by
  intro u
  by_cases huw : u = w
  · rw [huw, Function.update_self]
    exact hw
  · rw [Function.update_of_ne huw]
    exact hothers u huw (h u)

theorem pending_goto {pc : Pc τ} (hpc : s'.pc = Function.update s.pc t pc) (u : τ) :
    (s'.pc u).pending = if u = t then pc.pending else (s.pc u).pending := by
  by_cases hut : u = t
  · rw [hpc, hut, Function.update_self, if_pos rfl]
  · rw [hpc, Function.update_of_ne hut, if_neg hut]

theorem Waits.keep (h : Waits queue s place) {pc : Pc τ}
    (hpc : s'.pc = Function.update s.pc t pc) (hp : pc.pending = (s.pc t).pending)
    (ht : s'.tokens = s.tokens) : Waits queue s' place := by
  have hpend : ∀ u, (s'.pc u).pending = (s.pc u).pending := by
    intro u
    rw [pending_goto hpc u]
    split_ifs with hut
    · rw [hp, hut]
    · rfl
  intro u
  refine ⟨(h u).queued, fun v => ?_, ?_, ?_⟩
  · rw [hpend v]
    exact (h u).waking v
  · rw [ht]
    exact (h u).tokens
  · rw [hpend u]
    exact (h u).suspended

theorem Waits.nowhere (h : Waits queue s place) (hp : (s.pc t).pending = .ret) :
    place t = .nowhere := by
  by_contra hn
  have := (h t).suspended.mpr hn
  simp [hp] at this

theorem Waits.enqueue (h : Waits queue s place) {pc : Pc τ}
    (hpc : s'.pc = Function.update s.pc t pc) (hp : (s.pc t).pending = .ret)
    (hs : pc.pending = .suspend) (ht : s'.tokens = s.tokens) :
    Waits (queue ++ [t]) s' (Function.update place t .queued) := by
  have hnone := h.nowhere hp
  have hwake : ∀ u v, (s'.pc v).pending = .wake u ↔ (s.pc v).pending = .wake u := by
    intro u v
    rw [pending_goto hpc v]
    split_ifs with hvt
    · simp [hs, hvt, hp]
    · rfl
  refine h.move (fun u hut hu => ⟨?_, fun v => ?_, ?_, ?_⟩) ⟨?_, fun v => ?_, ?_, ?_⟩
  · simpa [List.count_append, List.count_singleton, Ne.symm hut] using hu.queued
  · rw [hwake]
    exact hu.waking v
  · rw [ht]
    exact hu.tokens
  · rw [pending_goto hpc u, if_neg hut]
    exact hu.suspended
  · have := (h t).queued
    simp [List.count_append, this, hnone]
  · rw [hwake, (h t).waking v, hnone]
    simp
  · rw [ht, (h t).tokens, hnone]
    simp
  · simp [pending_goto hpc t, hs]

theorem Waits.handOver (h : Waits (w :: queue) s place) {pc : Pc τ}
    (hpc : s'.pc = Function.update s.pc t pc) (hp : (s.pc t).pending = .ret)
    (hs : pc.pending = .wake w) (ht : s'.tokens = s.tokens) :
    Waits queue s' (Function.update place w (.waking t)) := by
  have hw : place w = .queued := by
    have := (h w).queued
    by_contra hn
    simp [hn] at this
  have hwt : w ≠ t := by
    rintro rfl
    rw [h.nowhere hp] at hw
    cases hw
  have hsusp := (h w).suspended.mpr (by simp [hw])
  refine h.move (fun u huw hu => ⟨?_, fun v => ?_, ?_, ?_⟩) ⟨?_, fun v => ?_, ?_, ?_⟩
  · simpa [List.count_cons, Ne.symm huw] using hu.queued
  · rw [← hu.waking v, pending_goto hpc v]
    split_ifs with hvt
    · simp [hs, hvt, hp, Ne.symm huw]
    · rfl
  · rw [ht]
    exact hu.tokens
  · rw [← hu.suspended, pending_goto hpc u]
    split_ifs with hut
    · simp [hs, hut, hp]
    · rfl
  · have := (h w).queued
    simpa [hw] using this
  · rw [pending_goto hpc v]
    split_ifs with hvt
    · simp [hs, hvt]
    · rw [(h w).waking v, hw]
      simp [Ne.symm hvt]
  · rw [ht, (h w).tokens, hw]
    simp
  · simp [pending_goto hpc w, hwt, hsusp]

theorem Waits.deliver (h : Waits queue s place) {pc : Pc τ}
    (hpc : s'.pc = Function.update s.pc t pc) (hp : (s.pc t).pending = .wake w)
    (hs : pc.pending = .ret) (ht : s'.tokens = Function.update s.tokens w (s.tokens w + 1)) :
    Waits queue s' (Function.update place w .token) := by
  have hw : place w = .waking t := (h w).waking t |>.mp hp
  have hwt : w ≠ t := by
    rintro rfl
    have := (h w).suspended.mpr (by simp [hw])
    rw [hp] at this
    cases this
  have hsusp := (h w).suspended.mpr (by simp [hw])
  refine h.move (fun u huw hu => ⟨hu.queued, fun v => ?_, ?_, ?_⟩) ⟨?_, fun v => ?_, ?_, ?_⟩
  · rw [← hu.waking v, pending_goto hpc v]
    split_ifs with hvt
    · simp [hs, hvt, hp, Ne.symm huw]
    · rfl
  · rw [ht, Function.update_of_ne huw]
    exact hu.tokens
  · rw [← hu.suspended, pending_goto hpc u]
    split_ifs with hut
    · simp [hs, hut, hp]
    · rfl
  · have := (h w).queued
    simpa [hw] using this
  · rw [pending_goto hpc v]
    split_ifs with hvt
    · simp [hs]
    · rw [(h w).waking v, hw]
      simp [Ne.symm hvt]
  · rw [ht, Function.update_self, (h w).tokens, hw]
    simp
  · simp [pending_goto hpc w, hwt, hsusp]

theorem Waits.token (h : Waits queue s place) (hn : s.tokens t ≠ 0) : place t = .token := by
  by_contra hp
  exact hn ((h t).tokens.trans (if_neg hp))

theorem Waits.resume (h : Waits queue s place) {pc : Pc τ}
    (hpc : s'.pc = Function.update s.pc t pc) (hp : (s.pc t).pending = .suspend)
    (hs : pc.pending = .ret) (hn : s.tokens t ≠ 0)
    (ht : s'.tokens = Function.update s.tokens t (s.tokens t - 1)) :
    Waits queue s' (Function.update place t .nowhere) := by
  have htok := h.token hn
  have hwake : ∀ u v, (s'.pc v).pending = .wake u ↔ (s.pc v).pending = .wake u := by
    intro u v
    rw [pending_goto hpc v]
    split_ifs with hvt
    · simp [hs, hvt, hp]
    · rfl
  refine h.move (fun u hut hu => ⟨hu.queued, fun v => ?_, ?_, ?_⟩) ⟨?_, fun v => ?_, ?_, ?_⟩
  · rw [hwake]
    exact hu.waking v
  · rw [ht, Function.update_of_ne hut]
    exact hu.tokens
  · rw [pending_goto hpc u, if_neg hut]
    exact hu.suspended
  · have := (h t).queued
    simpa [htok] using this
  · rw [hwake, (h t).waking v, htok]
    simp
  · rw [ht, Function.update_self, (h t).tokens, htok]
    simp
  · simp [pending_goto hpc t, hs]

theorem Waits.enter {f : Fifo τ} (h : Waits f.queue s place) {op : Op} {pc : Pc τ}
    (hpc : s'.pc = Function.update s.pc t pc) (hp : (s.pc t).pending = .ret)
    (hs : pc.pending = (f.handOff op t).2.after) (ht : s'.tokens = s.tokens) :
    Waits (f.handOff op t).1.queue s' (entered t place (f.handOff op t).2.after) := by
  have hkeep : pc.pending = .ret → Waits f.queue s' place := fun hr =>
    h.keep hpc (hr.trans hp.symm) ht
  cases op with
  | down =>
    by_cases hc : 0 < f.count
    · simp only [Fifo.handOff, if_pos hc] at hs ⊢
      exact hkeep hs
    · simp only [Fifo.handOff, if_neg hc] at hs ⊢
      exact h.enqueue hpc hp hs ht
  | tryDown =>
    by_cases hc : 0 < f.count
    · simp only [Fifo.handOff, if_pos hc] at hs ⊢
      exact hkeep hs
    · simp only [Fifo.handOff, if_neg hc] at hs ⊢
      exact hkeep hs
  | up =>
    obtain ⟨n, _ | ⟨w, q⟩⟩ := f
    · exact hkeep hs
    · exact h.handOver hpc hp hs ht

theorem start_waits (count : ℤ) (c : Cell τ) : Waits [] (start count c) fun _ => .nowhere :=
  fun t => ⟨by simp, fun u => by simp [start, Pc.pending], rfl, by simp [start, Pc.pending]⟩

structure Tracked (s : State τ) (f : Fifo τ) (place : τ → Place τ) : Prop where
  locked : Locked s
  memory : ∃ xs, Loose s.cell xs f
  waits : Waits f.queue s place

def fifoAfter (s : State τ) (f : Fifo τ) : Act τ → Fifo τ
  | .call _ _ => f
  | .step t _ => match s.pc t with
    | .body op _ => (f.handOff op t).1
    | _ => f

def placeAfter (s : State τ) (f : Fifo τ) (place : τ → Place τ) : Act τ → τ → Place τ
  | .call _ _ => place
  | .step t _ => match s.pc t with
    | .body op _ => entered t place (f.handOff op t).2.after
    | .after _ e => left t place e.after
    | _ => place

variable {f : Fifo τ} {a : Act τ}

theorem Tracked.exit_eq (h : Tracked s f place) {op : Op} {c c' : Cell τ} {b : Addr} {e : Exit τ}
    (hp : s.pc t = .body op c) (hb : c.heap b = none) (hc : crit op t b c = some (c', e)) :
    c = s.cell ∧ e = (f.handOff op t).2 ∧ ∃ xs, Loose c' xs (f.handOff op t).1 := by
  obtain rfl := h.locked.current t op c hp
  obtain ⟨xs, hm⟩ := h.memory
  exact ⟨rfl, crit_loose hm hb hc⟩

theorem Tracked.step (h : Tracked s f place) (hn : next crit s a = some s') :
    Tracked s' (fifoAfter s f a) (placeAfter s f place a) := by
  have hl := h.locked.step (step_of_next hn)
  have hw := h.waits
  cases does_of_next hn with
  | call t op hp =>
    exact ⟨hl, h.memory, hw.keep (t := t) rfl (by simp [hp, Pc.pending]) rfl⟩
  | spin t b op hp =>
    simp only [fifoAfter, placeAfter, hp]
    exact h
  | take t b op hp hf =>
    simp only [fifoAfter, placeAfter, hp]
    exact ⟨hl, h.memory, hw.keep (t := t) rfl (by simp [hp, Pc.pending]) rfl⟩
  | load t b op hp =>
    simp only [fifoAfter, placeAfter, hp]
    exact ⟨hl, h.memory, hw.keep (t := t) rfl (by simp [hp, Pc.pending]) rfl⟩
  | store t b op c c' e hp hb hc =>
    obtain ⟨rfl, rfl, hm⟩ := h.exit_eq hp hb hc
    simp only [fifoAfter, placeAfter, hp]
    exact ⟨hl, hm, hw.enter (t := t) rfl (by simp [hp, Pc.pending]) rfl rfl⟩
  | unlock t b op e hp =>
    simp only [fifoAfter, placeAfter, hp]
    exact ⟨hl, h.memory, hw.keep (t := t) rfl (by simp [hp, Pc.pending]) rfl⟩
  | ret t b op e hp he =>
    simp only [fifoAfter, placeAfter, hp, he, left]
    exact ⟨hl, h.memory, hw.keep (t := t) rfl (by simp [hp, he, Pc.pending]) rfl⟩
  | resume t b op e hp he ht =>
    simp only [fifoAfter, placeAfter, hp, he, left]
    exact ⟨hl, h.memory, hw.resume rfl (by simp [hp, he, Pc.pending]) rfl ht rfl⟩
  | wake t b op e w hp he =>
    simp only [fifoAfter, placeAfter, hp, he, left]
    exact ⟨hl, h.memory, hw.deliver (t := t) rfl (by simp [hp, he, Pc.pending]) rfl rfl⟩

theorem start_tracked (count : ℤ) (c : Cell τ) :
    Tracked (start count c) ⟨count, []⟩ fun _ => .nowhere :=
  ⟨start_locked count c, ⟨[], (sthreadSemInit_refines count c).2.loose⟩, start_waits count c⟩

end AndroidKernel.Sync
