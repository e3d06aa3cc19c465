import AndroidKernel.Sthread.Places

/-! No wakeup is lost, duplicated or sent to the wrong thread. The queues of all semaphores, the
wakes in flight, the pipes and the requests are tied together over every interleaving of the
clients with the manager, as long as `threadlist_add` publishes no field `pid` that another
thread would take for its own. -/

namespace AndroidKernel.Sthread
open Lts Sync
variable {κ : Type}

def Memory (s : State κ) (queue : κ → List Thr) : Prop :=
  ∃ xs : κ → List (Addr × Thr),
    (∀ k, Refines (s.cell k) (xs k) ⟨(s.sem k).count, queue k⟩) ∧
      ∀ j k, j ≠ k → ((xs j).map Prod.fst).Disjoint ((xs k).map Prod.fst)

variable [DecidableEq κ] {s s' : State κ} {queue : κ → List Thr} {place : Thr → Place κ}

omit [DecidableEq κ] in
theorem Memory.congr (h : Memory s queue) (hs : s'.sem = s.sem) (hh : s'.heap = s.heap) :
    Memory s' queue := by
  simpa only [Memory, State.cell, hs, hh] using h

/-- A critical section on `k` acts on the queue of `k` as on a FIFO and leaves the others. -/
theorem Memory.crit (h : Memory s queue) {op : Op} {k : κ} {self : Thr} {a : Addr} {c : Cell Thr}
    {e : Exit Thr} (ha : s.heap a = none) (hc : crit op self a (s.cell k) = some (c, e))
    (hsem : s'.sem = Function.update s.sem k c.sem) (hheap : s'.heap = c.heap) :
    e = (Fifo.handOff op self ⟨(s.sem k).count, queue k⟩).2 ∧
      Memory s' (Function.update queue k
        (Fifo.handOff op self ⟨(s.sem k).count, queue k⟩).1.queue) := by
  obtain ⟨xs, hxs, hdisj⟩ := h
  obtain ⟨c', ys, hc', hr, hframe⟩ := crit_implements _ _ _ op self a (hxs k) ha
  obtain ⟨rfl, rfl⟩ : c' = c ∧ _ = e := by simpa using hc'.symm.trans hc
  refine ⟨rfl, Function.update xs k ys, fun j => ?_, ?_⟩
  · by_cases hj : j = k
    · subst hj
      have hcell : s'.cell j = c' := by simp [State.cell, hsem, hheap]
      rw [hcell, hsem, Function.update_self, Function.update_self, Function.update_self, hr.count]
      exact hr
    -- the nodes of another queue are neither among those of `k` nor the new one
    · have hq : Queued { s.cell j with heap := c'.heap } (xs j) := (hxs j).queued.frame
        fun b hb => hframe.heap b (fun hb' => hdisj j k hj hb hb')
          fun hba => (hxs j).queued.fresh ha (hba ▸ hb)
      have hcell : s'.cell j = { s.cell j with heap := c'.heap } := by
        simp [State.cell, hsem, hheap, hj]
      rw [hcell, hsem, Function.update_of_ne hj, Function.update_of_ne hj,
        Function.update_of_ne hj]
      exact ⟨hq, (hxs j).count, (hxs j).queue⟩
  · have hnew : ∀ j, j ≠ k → ∀ b ∈ (xs j).map Prod.fst, b ∉ ys.map Prod.fst := by
      intro j hj b hb hb'
      rcases hframe.nodes b hb' with hk | rfl
      · exact hdisj j k hj hb hk
      · exact (hxs j).queued.fresh ha hb
    intro i j hij b hi hj
    by_cases hik : i = k
    · have hjk : j ≠ k := fun e => hij (hik.trans e.symm)
      subst hik
      rw [Function.update_self] at hi
      rw [Function.update_of_ne hjk] at hj
      exact hnew j hjk b hj hi
    · rw [Function.update_of_ne hik] at hi
      by_cases hjk : j = k
      · subst hjk
        rw [Function.update_self] at hj
        exact hnew i hik b hi hj
      · rw [Function.update_of_ne hjk] at hj
        exact hdisj i j hij hi hj

theorem handOff_cases (op : Op) (t : Thr) (n : ℤ) (q : List Thr) :
    ((Fifo.handOff op t ⟨n, q⟩).1.queue = q ∧ (Fifo.handOff op t ⟨n, q⟩).2.after = .ret) ∨
    ((Fifo.handOff op t ⟨n, q⟩).1.queue = q ++ [t] ∧
      (Fifo.handOff op t ⟨n, q⟩).2.after = .suspend) ∨
    ∃ w rest, q = w :: rest ∧ (Fifo.handOff op t ⟨n, q⟩).1.queue = rest ∧
      (Fifo.handOff op t ⟨n, q⟩).2.after = .wake w := by
  cases op with
  | down =>
    by_cases hn : 0 < n
    · simp [Fifo.handOff, hn]
    · simp [Fifo.handOff, hn]
  | tryDown =>
    by_cases hn : 0 < n
    · simp [Fifo.handOff, hn]
    · simp [Fifo.handOff, hn]
  | up =>
    cases q with
    | nil => simp [Fifo.handOff]
    | cons w rest => simp [Fifo.handOff]

structure Inv (s : State κ) (queue : κ → List Thr) (place : Thr → Place κ) : Prop where
  memory : Memory s queue
  listed : Listed s
  requests : Requests s
  placed : Placed queue s place

theorem Inv.ofPlaced (h : Inv s queue place) {t : Thr} {pc : Pc κ} {pipe : Thr → List (Token κ)}
    {place' : Thr → Place κ} (hc : (s.running t).isSome ∧ t ≠ .manager)
    (hself : ∀ self, pc.self = some self → self = t) (hnew : pc.newthr = none)
    (hout : ∀ n, s.pc t ≠ .awaitReply t n)
    (hplaced : Placed queue { s.goto t pc with pipe := pipe } place') :
    Inv { s.goto t pc with pipe := pipe } queue place' :=
  ⟨h.memory, h.listed.congr rfl rfl rfl rfl rfl h.listed.failed,
    h.requests.move rfl rfl rfl rfl rfl rfl hc hself hnew hout, hplaced⟩

theorem Inv.goto (h : Inv s queue place) {t : Thr} {pc : Pc κ}
    (hc : (s.running t).isSome ∧ t ≠ .manager) (ht : place t = .nowhere)
    (hw : (s.pc t).waking = none) (hw' : pc.waking = none) (hf : Fits t pc .nowhere)
    (hself : ∀ self, pc.self = some self → self = t) (hnew : pc.newthr = none)
    (hout : ∀ n, s.pc t ≠ .awaitReply t n) : Inv (s.goto t pc) queue place :=
  h.ofPlaced hc hself hnew hout
    (h.placed.goto rfl (hw'.trans hw.symm) rfl rfl rfl (ht ▸ hf))

theorem Inv.toIdle (h : Inv s queue place) {t : Thr} {pc : Pc κ} (hp : s.pc t = pc)
    (hne : pc ≠ .idle) (hw : pc.waking = none) (hout : ∀ n, pc ≠ .awaitReply t n)
    (hf : Fits t pc (place t) → place t = .nowhere) : Inv (s.goto t .idle) queue place := by
  subst hp
  exact h.goto (h.requests.client hne) (h.placed.nowhere rfl hf) hw rfl rfl
    (fun _ h => by cases h) rfl hout

theorem Inv.withFlag (h : Inv s queue place) (b : Bool) : Inv { s with flag := b } queue place :=
  ⟨h.memory, h.listed.congr rfl rfl rfl rfl rfl h.listed.failed,
    h.requests.manage rfl rfl rfl (fun _ _ h => h)
      (fun _ _ _ hm => ⟨h.requests.handled _ _ _ hm, h.requests.status _ _ _ hm⟩) fun _ h => h,
    h.placed.manage rfl rfl rfl rfl⟩

theorem Inv.body (h : Inv s queue place) {t : Thr} {op : Op} {k : κ} {a : Addr} {c : Cell Thr}
    {e : Exit Thr} (hp : s.pc t = .body op k) (ha : s.heap a = none)
    (hc : crit op t a (s.cell k) = some (c, e))
    (hs : s' = { s.goto t (.unlock k e.after) with
      sem := Function.update s.sem k c.sem, heap := c.heap }) :
    ∃ queue' place', Inv s' queue' place' := by
  have ht : place t = .nowhere := h.placed.nowhere hp id
  have hw : (s.pc t).waking = none := by rw [hp]; rfl
  have hpc : s'.pc = Function.update s.pc t (.unlock k e.after) := by rw [hs]; rfl
  have hpipe : s'.pipe = s.pipe := by rw [hs]; rfl
  have hmsgs : s'.msgs = s.msgs := by rw [hs]; rfl
  have hmanager : s'.manager = s.manager := by rw [hs]; rfl
  have hlisted : Listed s' := by
    rw [hs]
    exact h.listed.congr rfl rfl rfl rfl rfl h.listed.failed
  have hreq : Requests s' := by
    rw [hs]
    exact h.requests.move rfl rfl rfl rfl rfl rfl (h.requests.client (by simp [hp]))
      (fun _ h => by cases h) rfl (by simp [hp])
  obtain ⟨he, hmem⟩ := h.memory.crit ha hc (show s'.sem = _ by rw [hs]) (by rw [hs])
  obtain ⟨hq, hafter⟩ | ⟨hq, hafter⟩ | ⟨w, rest, hqueue, hq, hafter⟩ :=
    handOff_cases op t (s.sem k).count (queue k)
  · rw [← he] at hafter
    rw [hafter] at hpc
    rw [hq, Function.update_eq_self] at hmem
    exact ⟨queue, place, hmem, hlisted, hreq,
      h.placed.goto hpc hw.symm hpipe hmsgs hmanager ht⟩
  · rw [← he] at hafter
    rw [hafter] at hpc
    rw [hq] at hmem
    exact ⟨_, _, hmem, hlisted, hreq,
      h.placed.enqueue hpc ht hw rfl rfl hpipe hmsgs hmanager⟩
  · rw [← he] at hafter
    rw [hafter] at hpc
    rw [hq] at hmem
    exact ⟨_, _, hmem, hlisted, hreq,
      h.placed.dequeue hpc hqueue ht hw rfl rfl hpipe hmsgs hmanager⟩

theorem Inv.client (h : Inv s queue place) {t : Thr} (hs : ClientStep s t s') :
    ∃ queue' place', Inv s' queue' place' := by
  have hclient := h.requests.client (t := t)
  have hself : ∀ self, (s.running t).isSome ∧ t ≠ .manager → s.sthreadSelf t = some self →
      self = t := fun self hc hself =>
    Option.some_inj.mp (hself.symm.trans (h.listed.sthreadSelf hc.1 hc.2))
  cases hs with
  | call op k hr hm hp =>
    exact ⟨queue, place, h.goto ⟨hr, hm⟩ (h.placed.nowhere hp id) (by rw [hp]; rfl) rfl rfl
      (fun _ h => by cases h) rfl (by simp [hp])⟩
  | create self hr hm hp hlookup =>
    obtain rfl := hself self ⟨hr, hm⟩ hlookup
    exact ⟨queue, place, h.goto ⟨hr, hm⟩ (h.placed.nowhere hp id) (by rw [hp]; rfl) rfl rfl
      (fun _ h => (Option.some_inj.mp h).symm) rfl (by simp [hp])⟩
  | mallocFail self hp =>
    exact ⟨queue, place, h.toIdle hp (by simp) rfl (by simp) id⟩
  | malloc self a p hp ha =>
    -- everything on the list is allocated, so the new block is not on it
    have hnew : Thr.worker a ∉ s.list := by
      intro hmem
      rcases h.listed.pid _ hmem with hr | ⟨hadd, -⟩
      · obtain ⟨q, hq⟩ := Option.isSome_iff_exists.mp hr
        exact ha (h.requests.allocated _ q hq)
      · exact ha (h.requests.adding_allocated hadd)
    exact ⟨queue, place, h.memory.congr rfl rfl, h.listed.setPid hnew rfl rfl rfl rfl rfl,
      h.requests.malloc hp ha, h.placed.goto rfl (by rw [hp]; rfl) rfl rfl rfl
        (h.placed.nowhere hp id)⟩
  | spin => exact ⟨queue, place, h⟩
  | take op k hp =>
    have hgoto : Inv (s.goto t (.body op k)) queue place :=
      h.goto (hclient (by simp [hp])) (h.placed.nowhere hp id) (by rw [hp]; rfl) rfl rfl
        (fun _ h => by cases h) rfl (by simp [hp])
    exact ⟨queue, place, hgoto.withFlag true⟩
  | body op k a self c e hp ha hlookup hc =>
    obtain rfl := hself self (hclient (by simp [hp])) hlookup
    exact h.body hp ha hc rfl
  | unlock k after hp =>
    have hfits := (h.placed t).2
    rw [hp] at hfits
    have hgoto : Inv (s.goto t (.after k after)) queue place :=
      h.ofPlaced (hclient (by simp [hp])) (fun _ h => by cases h) rfl (by simp [hp])
        (h.placed.goto rfl (by rw [hp]; cases after <;> rfl) rfl rfl rfl
          (by cases after <;> exact hfits))
    exact ⟨queue, place, hgoto.withFlag false⟩
  | ret k hp =>
    rcases hp with hp | hp
    · exact ⟨queue, place, h.toIdle hp (by simp) rfl (by simp) id⟩
    · exact ⟨queue, place, h.toIdle hp (by simp) rfl (by simp) id⟩
  | suspend k self hp hlookup =>
    obtain rfl := hself self (hclient (by simp [hp])) hlookup
    have hfits := (h.placed self).2
    rw [hp] at hfits
    exact ⟨queue, place, h.ofPlaced (hclient (by simp [hp]))
      (fun _ h => (Option.some_inj.mp h).symm) rfl (by simp [hp])
      (h.placed.goto rfl (by rw [hp]; rfl) rfl rfl rfl ⟨rfl, hfits⟩)⟩
  | wake k w hp =>
    exact ⟨queue, _, h.ofPlaced (hclient (by simp [hp])) (fun _ h => by cases h) rfl
      (by simp [hp])
      (h.placed.wake rfl (by rw [hp]; rfl) rfl (h.placed.nowhere hp id) rfl rfl rfl rfl)⟩
  | woken k self token rest hp hpipe =>
    obtain rfl : self = t := h.requests.own t self (by rw [hp]; rfl)
    exact ⟨queue, _, h.ofPlaced (hclient (by simp [hp])) (fun _ h => by cases h) rfl
      (by simp [hp]) (h.placed.read rfl hpipe (by rw [hp]; rfl) rfl rfl rfl rfl rfl)⟩
  | send self newthr hp =>
    obtain rfl : self = t := h.requests.own t self (by rw [hp]; rfl)
    exact ⟨queue, _, h.memory, h.listed.congr rfl rfl rfl rfl rfl h.listed.failed,
      h.requests.send hp,
      h.placed.send rfl (h.placed.nowhere hp id) (by rw [hp]; rfl) rfl ⟨rfl, trivial⟩ rfl rfl rfl⟩
  | replied self newthr token rest hp hpipe =>
    obtain rfl : self = t := h.requests.own t self (by rw [hp]; rfl)
    -- a pipe with a token belongs to a thread whose request is no longer under way
    exact ⟨queue, _, h.memory, h.listed.congr rfl rfl rfl rfl rfl h.listed.failed,
      h.requests.goto rfl rfl rfl rfl rfl rfl (hclient (by simp [hp]))
        (fun _ h => (Option.some_inj.mp h).symm) (fun _ h => by rw [hp]; exact h) rfl
        ((h.placed self).1.answered hpipe),
      h.placed.read rfl hpipe (by rw [hp]; rfl) rfl rfl rfl rfl rfl⟩
  | created self newthr hp hst =>
    exact ⟨queue, place, h.toIdle hp (by simp) rfl (by simp) id⟩
  | free self newthr hp hst =>
    obtain rfl : self = t := h.requests.own t self (by rw [hp]; rfl)
    exact ⟨queue, place, h.memory, h.listed.congr rfl rfl rfl rfl rfl h.listed.failed,
      h.requests.free hp hst,
      h.placed.goto rfl (by rw [hp]; rfl) rfl rfl rfl (h.placed.nowhere hp id)⟩

omit [DecidableEq κ] in
theorem Listed.createOut (h : Listed s) (hm : s.manager.adding = none) (c t : Thr) :
    Listed (s.createOut c t) :=
  h.congr rfl rfl rfl rfl hm.symm fun _ _ hc => (by cases hc)

theorem Inv.createOut (h : Inv s queue place) {stage : Stage} {c t : Thr}
    (hm : s.manager = .create stage c t) (hs : stage ≠ .wake) (ha : s.manager.adding = none) :
    Inv (s.createOut c t) queue place :=
  ⟨h.memory, h.listed.createOut ha c t, h.requests.createOut hm hs,
    h.placed.manage rfl rfl rfl (by rw [hm]; rfl)⟩

theorem Inv.manager (h : Inv s queue place) (hs : ManagerStep s s')
    (hf : ∀ c t, s.manager = .create .add c t →
      ∀ u p, u ≠ .manager → s.running u = some p → s.pid t ≠ p) :
    ∃ place', Inv s' queue place' := by
  cases hs with
  | receive c t msgs hm hq =>
    refine ⟨_, h.memory, h.listed.congr rfl rfl rfl rfl (by rw [hm]; rfl) ?_,
      h.requests.receive hq, h.placed.receive hm hq⟩
    rintro _ _ ⟨⟩
  | mmap c t hm =>
    refine ⟨place, h.memory, h.listed.congr rfl rfl rfl rfl (by rw [hm]; rfl) ?_, ?_,
      h.placed.manage rfl rfl rfl (by rw [hm]; rfl)⟩
    · rintro _ _ ⟨⟩
    · refine h.requests.advance hm (by simp) rfl rfl rfl rfl rfl (fun _ => ?_) fun u hu => ?_
      · by_cases hct : c = t <;> simp [hct]
      · by_cases hut : u = t <;> by_cases huc : u = c <;> simp_all
  | mmapFail c t hm =>
    have hreset : Inv { s with
        status := Function.update (Function.update s.status c 0) t 0 } queue place := by
      refine ⟨h.memory, h.listed.congr rfl rfl rfl rfl rfl h.listed.failed, ?_,
        h.placed.manage rfl rfl rfl rfl⟩
      refine h.requests.advance hm (by simp) hm rfl rfl rfl rfl (fun hg => by cases hg)
        fun u hu => ?_
      by_cases hut : u = t <;> by_cases huc : u = c <;> simp_all
    exact ⟨place, hreset.createOut hm (by simp) (by
      change s.manager.adding = none
      rw [hm]
      rfl)⟩
  | pipe c t hm =>
    -- the new struct does not run, so nothing can be in its pipe that `pipe()` would empty
    have hidle : s.pc t = .idle := h.requests.idle t (Or.inl (h.requests.notRunning hm (by simp)))
    have hpipe : s.pipe t = [] := by
      rw [(h.placed t).1.tokens, h.placed.nowhere hidle id]
      rfl
    refine ⟨place, h.memory, h.listed.congr rfl rfl rfl rfl (by rw [hm]; rfl) ?_,
      h.requests.advance hm (by simp) rfl rfl rfl rfl rfl
        (fun _ => h.requests.status .pipe c t hm rfl) fun _ hu => hu,
      h.placed.manage rfl ?_ rfl (by rw [hm]; rfl)⟩
    · rintro _ _ ⟨⟩
    · rw [← hpipe]
      exact Function.update_eq_self ..
  | malloc c t hm =>
    refine ⟨place, h.memory, h.listed.congr rfl rfl rfl rfl (by rw [hm]; rfl) ?_,
      h.requests.advance hm (by simp) rfl rfl rfl rfl rfl
        (fun _ => h.requests.status .malloc c t hm rfl) fun _ hu => hu,
      h.placed.manage rfl rfl rfl (by rw [hm]; rfl)⟩
    rintro _ _ ⟨⟩
  | fail c t hm =>
    rcases hm with hm | hm
    · exact ⟨place, h.createOut hm (by simp) (by rw [hm]; rfl)⟩
    · exact ⟨place, h.createOut hm (by simp) (by rw [hm]; rfl)⟩
  | add c t hm =>
    exact ⟨place, h.memory,
      h.listed.add hm (h.requests.notRunning hm (by simp)) (hf c t hm),
      h.requests.advance hm (by simp) rfl rfl rfl rfl rfl
        (fun _ => h.requests.status .add c t hm rfl) fun _ hu => hu,
      h.placed.manage rfl rfl rfl (by rw [hm]; rfl)⟩
  | clone c t p hm hp hfresh =>
    -- the request is in the manager's hands and therefore not also in its pipe
    have hplace : place c = .handled := (h.placed c).1.handled.mp (by rw [hm]; rfl)
    have hq : c ∉ s.msgs.map Prod.fst := by
      rw [← List.count_eq_zero, (h.placed c).1.requested, hplace]
      simp
    exact ⟨place, h.memory,
      h.listed.clone hm (h.requests.notRunning hm (by simp)) hp hfresh,
      h.requests.clone hm hq, h.placed.manage rfl rfl rfl (by rw [hm]; rfl)⟩
  | cloneFail c t hm =>
    exact ⟨place, h.memory, h.listed.cloneFail hm (h.requests.notRunning hm (by simp)),
      h.requests.advance hm (by simp) rfl rfl rfl rfl rfl (fun hg => by cases hg) fun _ hu => hu,
      h.placed.manage rfl rfl rfl (by rw [hm]; rfl)⟩
  | listdel c t list hm hl =>
    have hreq : Requests { s with list := list } :=
      h.requests.advance hm (by simp) hm rfl rfl rfl rfl (fun hg => by cases hg) fun _ hu => hu
    exact ⟨place, h.memory, h.listed.listdel hm (h.requests.notRunning hm (by simp)) hl,
      hreq.createOut hm (by simp), h.placed.manage rfl rfl rfl (by rw [hm]; rfl)⟩
  | wake c t hm =>
    refine ⟨_, h.memory, h.listed.congr rfl rfl rfl rfl (by rw [hm]; rfl) ?_,
      h.requests.reply c, h.placed.reply hm⟩
    rintro _ _ ⟨⟩

omit [DecidableEq κ] in
theorem start_listed {count : κ → ℤ} {p₀ p₁ : ℤ} (h₀ : 0 < p₀) (h₁ : 0 < p₁) (hne : p₀ ≠ p₁) :
    Listed (start count p₀ p₁) := by
  have hrun : ∀ t p, (start count p₀ p₁).running t = some p →
      (t = .main ∧ p = p₀) ∨ (t = .manager ∧ p = p₁) := by
    intro t p ht
    cases t <;> simp_all [start]
  refine ⟨fun t p ht => ?_, fun t u p ht hu => ?_, fun x hx => Or.inl ?_, by simp [start],
    fun x hx => (by cases hx), fun c t hc => (by cases hc), rfl⟩
  · obtain ⟨rfl, rfl⟩ | ⟨rfl, rfl⟩ := hrun t p ht
    · simp [start, h₀]
    · simp [start, h₁]
  · obtain ⟨rfl, rfl⟩ | ⟨rfl, rfl⟩ := hrun t p ht <;>
      obtain ⟨rfl, hp⟩ | ⟨rfl, hp⟩ := hrun u _ hu
    · rfl
    · exact absurd hp hne
    · exact absurd hp.symm hne
    · rfl
  · obtain rfl | rfl : x = .manager ∨ x = .main := by simpa [start] using hx
    · rfl
    · rfl

omit [DecidableEq κ] in
theorem start_requests (count : κ → ℤ) (p₀ p₁ : ℤ) : Requests (start count p₀ p₁) := by
  refine ⟨fun _ _ h => (by cases h), fun _ _ => rfl, fun t p ht => ?_, fun _ _ h => (by cases h),
    fun _ _ _ h => (by cases h), fun _ _ h => (by cases h), fun _ _ _ h => (by cases h),
    fun _ _ _ h => (by cases h), fun _ _ h => (by cases h)⟩
  cases t <;> simp_all [start]

theorem start_inv {count : κ → ℤ} {p₀ p₁ : ℤ} (h₀ : 0 < p₀) (h₁ : 0 < p₁) (hne : p₀ ≠ p₁) :
    Inv (start count p₀ p₁) (fun _ => []) fun _ => .nowhere := by
  refine ⟨⟨fun _ => [], fun k => (sthreadSemInit_refines (count k)
    ⟨⟨0, 0, none, none⟩, fun _ => none⟩).2, fun _ _ _ => ?_⟩,
    start_listed h₀ h₁ hne, start_requests count p₀ p₁, fun t => ⟨⟨fun k => ?_, fun k u => ?_, rfl,
      ?_, ?_⟩, rfl⟩⟩
  · exact List.disjoint_nil_left _
  · simp
  · simp [start, Pc.waking]
  · simp [start]
  · simp [start, ManagerPc.caller]

/-- Every thread is at exactly one place, and at one that suits what it is doing. A thread that is
suspended in `sthread_sem_down` reads its own pipe and can only find a token of that semaphore
there; one that is suspended in `sthread_create` can only find a reply. -/
structure Accounted (s : State κ) : Prop where
  place : ∀ t, ∃! p, At (fun k => (s.cell k).waiting) s t p ∧ Fits t (s.pc t) p
  down : ∀ t k self, s.pc t = .suspended k self → self = t ∧ ∀ x ∈ s.pipe self, x = .sem k
  create : ∀ t self n, s.pc t = .awaitReply self n → self = t ∧ ∀ x ∈ s.pipe self, x = .reply

theorem Inv.accounted (h : Inv s queue place) : Accounted s := by
  obtain ⟨xs, hxs, -⟩ := h.memory
  have hqueue : (fun k => (s.cell k).waiting) = queue := funext fun k => (hxs k).waiting_eq
  refine ⟨fun t => ⟨place t, ?_, fun p hp => ?_⟩, fun t k self hp => ?_, fun t self n hp => ?_⟩
  · rw [hqueue]
    exact h.placed t
  · rw [hqueue] at hp
    exact hp.1.unique (h.placed t).1
  · obtain ⟨hat, hfits⟩ := h.placed t
    rw [hp] at hfits
    obtain ⟨rfl, hdown⟩ := hfits
    refine ⟨rfl, fun x hx => ?_⟩
    rw [hat.tokens] at hx
    cases hpl : place self <;> simp_all [Place.tokens, Place.InDown]
  · obtain ⟨hat, hfits⟩ := h.placed t
    rw [hp] at hfits
    obtain ⟨rfl, hcreate⟩ := hfits
    refine ⟨rfl, fun x hx => ?_⟩
    rw [hat.tokens] at hx
    cases hpl : place self <;> simp_all [Place.tokens, Place.InCreate]

def FreshAt (s : State κ) : ManagerPc → Prop
  | .create .add _ t => ∀ u ∈ s.list, u ≠ .manager → s.running u ≠ some (s.pid t)
  | _ => True

/-- When `threadlist_add` links a new struct, its `pid` field does not hold the pid of a client
that is running. -/
def FreshPid (s : State κ) : Act κ → Prop
  | .manage _ _ => FreshAt s s.manager
  | _ => True

/-- In every run that publishes no such `pid`, every wakeup is where it should be. -/
theorem wakeups_accounted (count : κ → ℤ) (p₀ p₁ : ℤ) (h₀ : 0 < p₀) (h₁ : 0 < p₁) (hne : p₀ ≠ p₁)
    (as : List (Act κ)) (s : State κ) (hm : Meets next FreshPid as (start count p₀ p₁))
    (h : exec next as (start count p₀ p₁) = some s) : Accounted s := by
  have hinv : ∃ queue place, Inv s queue place := by
    refine hm.invariant (P := fun s => ∃ queue place, Inv s queue place)
      (fun s a s' hs hf ha => ?_) ⟨_, _, start_inv h₀ h₁ hne⟩ h
    obtain ⟨queue, place, hs⟩ := hs
    cases step_of_next ha with
    | client _ t _ hstep => exact hs.client hstep
    | manager ok p _ hstep =>
      obtain ⟨place', hs'⟩ := hs.manager hstep (by
        intro c t hadd u q hu hr hpid
        simp only [FreshPid, hadd, FreshAt] at hf
        exact hf u (hs.listed.running u q hr).1 hu (hpid ▸ hr))
      exact ⟨queue, place', hs'⟩
  obtain ⟨queue, place, hs⟩ := hinv
  exact hs.accounted

omit [DecidableEq κ] in
instance (s : State κ) (m : ManagerPc) : Decidable (FreshAt s m) := match m with
  | .create .add _ t => inferInstanceAs (Decidable
    (∀ u ∈ s.list, u ≠ .manager → s.running u ≠ some (s.pid t)))
  | .read | .create .mmap _ _ | .create .pipe _ _ | .create .malloc _ _ | .create .clone _ _
  | .create .listdel _ _ | .create .wake _ _ => inferInstanceAs (Decidable True)

omit [DecidableEq κ] in
instance (s : State κ) (a : Act κ) : Decidable (FreshPid s a) := match a with
  | .manage _ _ => inferInstanceAs (Decidable (FreshAt s s.manager))
  | .call .. | .create _ | .malloc .. | .step .. => inferInstanceAs (Decidable True)

def creation (t : Thr) (a : Addr) (garbage pid : ℤ) (n : ℕ) : List (Act Unit) :=
  [.create t, .malloc t (some (a, garbage)), .step t 0] ++ .replicate n (.manage true pid)

def handOver : List (Act Unit) :=
  creation .main 0 0 3 7 ++ .replicate 2 (.step .main 0) ++
    .call .main .down () :: .replicate 4 (.step .main 0) ++
    .call (.worker 0) .up () :: .replicate 3 (.step (.worker 0) 1)

set_option maxRecDepth 4000 in
theorem wakeups_accounted_handOver : ∃ s, exec next handOver (start (fun _ => 0) 1 2) = some s ∧
    s.pc (.worker 0) = .after () (.wake .main) ∧ Accounted s := by
  obtain ⟨s, hs, hv⟩ := Option.map_eq_some_iff.mp (show
    (exec next handOver (start (fun _ => 0) 1 2)).map (fun s => s.pc (.worker 0)) =
      some (.after () (.wake .main)) by decide)
  exact ⟨s, hs, hv, wakeups_accounted _ 1 2 (by decide) (by decide) (by decide) _ s (by decide) hs⟩

/-- While the struct of a second thread is on the list with the pid of the main thread in it, the
main thread calls `sthread_sem_down`. -/
def misfiled : List (Act Unit) :=
  creation .main 0 0 3 7 ++ .replicate 2 (.step .main 0) ++ creation (.worker 0) 1 1 4 5 ++
    .call .main .down () :: .replicate 2 (.step .main 0)

set_option maxRecDepth 4000 in
/-- The main thread has put the new thread on the queue in its own place. -/
theorem waiter_misfiled : ∃ s, exec next misfiled (start (fun _ => 0) 1 2) = some s ∧
    s.pc .main = .unlock () .suspend ∧ s.pipe .main = [] ∧ (s.cell ()).waiting = [.worker 1] ∧
      ¬ Accounted s := by
  obtain ⟨s, hs, hv⟩ := Option.map_eq_some_iff.mp (show
    (exec next misfiled (start (fun _ => 0) 1 2)).map (fun s => (s.pc .main, s.pipe .main,
      (s.cell ()).waiting, s.pc (.worker 1))) =
      some (.unlock () .suspend, [], [.worker 1], .idle) by decide)
  simp only [Prod.mk.injEq] at hv
  obtain ⟨hmain, hpipe, hqueue, hidle⟩ := hv
  refine ⟨s, hs, hmain, hpipe, hqueue, fun h => ?_⟩
  obtain ⟨p, ⟨hat, hfits⟩, -⟩ := h.place (.worker 1)
  rw [hidle] at hfits
  obtain rfl : p = .nowhere := hfits
  have hcount := hat.queued ()
  simp only [hqueue] at hcount
  exact absurd hcount (by decide)

end AndroidKernel.Sthread
