import AndroidKernel.Sched.Completion

/-! Runs of a completion: what was added to `done` and what the waits took, and that no waiter stays
asleep beside a completion it could take. -/

namespace AndroidKernel.Completions
open Lts
variable {τ : Type} [DecidableEq τ]

variable {x y : Completion τ} {w : Waiter τ} {q : List (Waiter τ)} {task : τ} {log : List (Event τ)}
  {e : Event τ} {mode : Mode} {timeout left n : ℕ} {s : Signal} {value : ℤ}

omit [DecidableEq τ] in
theorem added_concat : added (log ++ [e]) = added log + e.added := by
  simp only [added, List.map_append, List.sum_append, List.map_cons, List.map_nil, List.sum_singleton]

omit [DecidableEq τ] in
theorem taken_concat : taken (log ++ [e]) = taken log + e.taken := by
  simp only [taken, List.map_append, List.sum_append, List.map_cons, List.map_nil, List.sum_singleton]

theorem orOne_pos (timeout : ℕ) : 0 < orOne timeout := by
  unfold orOne
  split_ifs <;> omega

def awakeCount (q : List (Waiter τ)) : ℕ := q.countP (·.awake)

omit [DecidableEq τ] in
theorem awakeCount_le (q : List (Waiter τ)) : awakeCount q ≤ q.length := List.countP_le_length

omit [DecidableEq τ] in
@[simp] theorem awakeCount_cons : awakeCount (w :: q) = awakeCount q + if w.awake then 1 else 0 :=
  List.countP_cons

omit [DecidableEq τ] in
theorem wakeUpCommon_tasks (nr : ℤ) (q : List (Waiter τ)) :
    (wakeUpCommon nr q).map (·.task) = q.map (·.task) := by
  induction q generalizing nr with
  | nil => rfl
  | cons w q ih =>
    rw [wakeUpCommon]
    split_ifs <;> simp only [List.map_cons, ih]

omit [DecidableEq τ] in
theorem wakeUpCommon_exclusive (nr : ℤ) (h : ∀ w ∈ q, w.exclusive = true) :
    ∀ w ∈ wakeUpCommon nr q, w.exclusive = true := by
  induction q generalizing nr with
  | nil => exact h
  | cons w q ih =>
    obtain ⟨hw, hq⟩ := List.forall_mem_cons.mp h
    rw [wakeUpCommon]
    split_ifs
    · exact List.forall_mem_cons.mpr ⟨hw, ih nr hq⟩
    · exact List.forall_mem_cons.mpr ⟨hw, hq⟩
    · exact List.forall_mem_cons.mpr ⟨hw, ih (nr - 1) hq⟩

omit [DecidableEq τ] in
theorem awakeCount_wakeUpCommon (h : ∀ w ∈ q, w.exclusive = true) (n : ℕ) :
    awakeCount (wakeUpCommon (n + 1) q) = min (awakeCount q + (n + 1)) q.length := by
  induction q generalizing n with
  | nil => rfl
  | cons w q ih =>
    obtain ⟨hw, hq⟩ := List.forall_mem_cons.mp h
    have hle := awakeCount_le q
    rw [wakeUpCommon]
    split_ifs with ha hn
    · rw [awakeCount_cons, awakeCount_cons, ih hq, if_pos ha, List.length_cons]
      omega
    · rw [awakeCount_cons, awakeCount_cons, if_pos rfl, if_neg ha, List.length_cons]
      omega
    · obtain ⟨k, rfl⟩ := Nat.exists_eq_succ_of_ne_zero (show n ≠ 0 by omega)
      rw [awakeCount_cons, awakeCount_cons, if_pos rfl, if_neg ha, List.length_cons,
        show ((k.succ : ℤ) + 1 - 1) = (k + 1 : ℤ) by push_cast; ring, ih hq]
      omega

omit [DecidableEq τ] in
theorem awakeCount_wakeUpCommon_all {nr : ℤ} (hnr : nr ≤ 0) :
    awakeCount (wakeUpCommon nr q) = q.length := by
  induction q generalizing nr with
  | nil => rfl
  | cons w q ih =>
    rw [wakeUpCommon]
    split_ifs with ha _ hn
    · rw [awakeCount_cons, ih hnr, if_pos ha, List.length_cons]
    · omega
    · rw [awakeCount_cons, ih (show nr - 1 ≤ 0 by omega), if_pos rfl, List.length_cons]
    · rw [awakeCount_cons, ih hnr, if_pos rfl, List.length_cons]

/-- What holds between the critical sections. Enough waiters are awake to take what is there. -/
structure Inv (x : Completion τ) : Prop where
  lt : x.done < 2 ^ 32
  account : x.done + taken x.log ≡ added x.log [MOD 2 ^ 32]
  exact : added x.log < 2 ^ 32 → x.done + taken x.log = added x.log
  exclusive : ∀ w ∈ x.taskList, w.exclusive = true
  nodup : (x.taskList.map (·.task)).Nodup
  awake : min x.done x.taskList.length ≤ awakeCount x.taskList
  fair : ∀ e ∈ x.log, e.Fair

omit [DecidableEq τ] in
theorem inv_init : Inv (initCompletion : Completion τ) :=
  ⟨Nat.two_pow_pos 32, rfl, fun _ => rfl, fun _ hw => absurd hw List.not_mem_nil, List.nodup_nil,
    min_le_right _ _, fun _ he => absurd he List.not_mem_nil⟩

omit [DecidableEq τ] in
theorem Inv.signalled (h : Inv x) {nr : ℤ}
    (hwake : min (x.done + n) x.taskList.length ≤ awakeCount (wakeUpCommon nr x.taskList)) :
    Inv (signal x n nr) where
  lt := Nat.mod_lt _ (by decide)
  account := by
    change (x.done + n) % 2 ^ 32 + taken (x.log ++ [.signalled n]) ≡
      added (x.log ++ [.signalled n]) [MOD 2 ^ 32]
    rw [added_concat, taken_concat]
    have hmod : (x.done + n) % 2 ^ 32 ≡ x.done + n [MOD 2 ^ 32] := Nat.mod_modEq ..
    calc (x.done + n) % 2 ^ 32 + (taken x.log + 0)
        ≡ x.done + n + (taken x.log + 0) [MOD 2 ^ 32] := hmod.add_right _
      _ = x.done + taken x.log + n := by ring
      _ ≡ added x.log + n [MOD 2 ^ 32] := h.account.add_right n
  exact := by
    change added (x.log ++ [.signalled n]) < 2 ^ 32 →
      (x.done + n) % 2 ^ 32 + taken (x.log ++ [.signalled n]) = added (x.log ++ [.signalled n])
    rw [added_concat, taken_concat]
    change added x.log + n < 2 ^ 32 → (x.done + n) % 2 ^ 32 + (taken x.log + 0) = added x.log + n
    intro hlt
    have hx := h.exact (by omega)
    rw [Nat.mod_eq_of_lt (by omega)]
    omega
  exclusive := wakeUpCommon_exclusive nr h.exclusive
  nodup := by
    change ((wakeUpCommon nr x.taskList).map (·.task)).Nodup
    rw [wakeUpCommon_tasks]
    exact h.nodup
  awake := by
    have hlen : (wakeUpCommon nr x.taskList).length = x.taskList.length := by
      simpa using congrArg List.length (wakeUpCommon_tasks nr x.taskList)
    change min ((x.done + n) % 2 ^ 32) (wakeUpCommon nr x.taskList).length ≤ _
    rw [hlen]
    exact (min_le_min_right _ (Nat.mod_le ..)).trans hwake
  fair := by
    intro e he
    rcases List.mem_append.mp he with he | he
    · exact h.fair e he
    · rw [List.mem_singleton.mp he]
      trivial

omit [DecidableEq τ] in
theorem Inv.ret (h : Inv x) (hq : q.Sublist x.taskList) {d : ℕ}
    (hd : d + (if 0 < value then 1 else 0) = x.done)
    (hawake : min d q.length ≤ awakeCount q)
    (hfair : (Event.returned task mode timeout value).Fair) :
    Inv (Completion.ret ⟨d, q, x.log⟩ task mode timeout value) where
  lt := by
    have hlt := h.lt
    change d < 2 ^ 32
    omega
  account := by
    change d + taken (x.log ++ [.returned task mode timeout value]) ≡
      added (x.log ++ [.returned task mode timeout value]) [MOD 2 ^ 32]
    rw [added_concat, taken_concat]
    have hx := h.account
    rw [← hd] at hx
    change d + (taken x.log + if 0 < value then 1 else 0) ≡ added x.log + 0 [MOD 2 ^ 32]
    rwa [Nat.add_zero, Nat.add_comm (taken x.log), ← Nat.add_assoc]
  exact := by
    change added (x.log ++ [.returned task mode timeout value]) < 2 ^ 32 →
      d + taken (x.log ++ [.returned task mode timeout value]) =
        added (x.log ++ [.returned task mode timeout value])
    rw [added_concat, taken_concat]
    intro hlt
    have hx := h.exact hlt
    change d + (taken x.log + if 0 < value then 1 else 0) = added x.log + 0
    omega
  exclusive := fun w hw => h.exclusive w (hq.subset hw)
  nodup := h.nodup.sublist (hq.map _)
  awake := hawake
  fair := by
    intro e he
    rcases List.mem_append.mp he with he | he
    · exact h.fair e he
    · rw [List.mem_singleton.mp he]
      exact hfair

theorem taskList_split (h : x.taskList.find? (·.task = task) = some w) :
    ∃ pre post, x.taskList = pre ++ w :: post ∧ w.task = task ∧
      (removeWaitQueue x task).taskList = pre ++ post := by
  obtain ⟨hw, pre, post, hq, hpre⟩ := List.find?_eq_some_iff_append.mp h
  refine ⟨pre, post, hq, of_decide_eq_true hw, ?_⟩
  change x.taskList.eraseP _ = _
  rw [hq, List.eraseP_append_right _ (fun a ha => by simpa using hpre a ha),
    List.eraseP_cons_of_pos (p := fun v : Waiter τ => decide (v.task = task)) hw]

theorem updateWaiter_awakeCount (x : Completion τ) (task : τ) {f : Waiter τ → Waiter τ}
    (hf : ∀ w, w.awake = true → (f w).awake = true) :
    awakeCount x.taskList ≤ awakeCount (updateWaiter x task f).taskList := by
  change awakeCount x.taskList ≤ awakeCount (x.taskList.map _)
  rw [awakeCount, awakeCount, List.countP_map]
  refine List.countP_mono_left fun w _ hw => ?_
  simp only [Function.comp_apply]
  split_ifs
  · exact hf w hw
  · exact hw

theorem Inv.update (h : Inv x) {f : Waiter τ → Waiter τ} (ht : ∀ w, (f w).task = w.task)
    (he : ∀ w, (f w).exclusive = w.exclusive)
    (hawake : min x.done x.taskList.length ≤ awakeCount (updateWaiter x task f).taskList) :
    Inv (updateWaiter x task f) where
  lt := h.lt
  account := h.account
  exact := h.exact
  exclusive := by
    intro w hw
    obtain ⟨v, hv, rfl⟩ := List.mem_map.mp hw
    split_ifs
    · rw [he, h.exclusive v hv]
    · exact h.exclusive v hv
  nodup := by
    have htasks : (updateWaiter x task f).taskList.map (·.task) = x.taskList.map (·.task) := by
      change (x.taskList.map _).map _ = _
      rw [List.map_map]
      refine List.map_congr_left fun w _ => ?_
      simp only [Function.comp_apply]
      split_ifs
      · exact ht w
      · rfl
    rw [htasks]
    exact h.nodup
  awake := by
    change min x.done (x.taskList.map _).length ≤ _
    rw [List.length_map]
    exact hawake
  fair := h.fair

omit [DecidableEq τ] in
theorem Inv.waits (h : Inv x) (hnew : ∀ w ∈ x.taskList, w.task ≠ task) :
    Inv (waitForCommon x task mode timeout s) := by
  unfold waitForCommon
  split_ifs with hd hs
  · refine h.ret (List.Sublist.refl _) (by rw [if_neg (by decide)]; rfl) h.awake
      (Or.inr (Or.inr ⟨rfl, ?_⟩))
    rintro rfl
    cases hs
  · refine ⟨h.lt, h.account, h.exact, ?_, ?_, ?_, h.fair⟩
    · intro w hw
      rcases List.mem_append.mp hw with hw | hw
      · exact h.exclusive w hw
      · rw [List.mem_singleton.mp hw]
    · change ((x.taskList ++ [_]).map _).Nodup
      rw [List.map_append, List.map_singleton, List.nodup_append_comm]
      refine List.nodup_cons.mpr ⟨fun hin => ?_, h.nodup⟩
      obtain ⟨w, hw, hwt⟩ := List.mem_map.mp hin
      exact hnew w hw hwt
    · change min x.done _ ≤ _
      rw [hd, Nat.zero_min]
      exact Nat.zero_le _
  · have hawake := h.awake
    refine h.ret (List.Sublist.refl _) ?_ ?_ (Or.inl (orOne_pos timeout))
    · rw [if_pos (orOne_pos timeout)]
      exact Nat.sub_add_cancel (Nat.pos_of_ne_zero hd)
    · omega

theorem Inv.resumed (h : Inv x) (hw : x.taskList.find? (·.task = task) = some w)
    (ha : w.awake = true) (hl : Left w.timeout left) : Inv (resume x w left s) := by
  obtain ⟨pre, post, hq, rfl, hrest⟩ := taskList_split hw
  have hsub : (removeWaitQueue x w.task).taskList.Sublist x.taskList := List.eraseP_sublist
  have hawake := h.awake
  have hcount : awakeCount x.taskList = awakeCount (pre ++ post) + 1 := by
    rw [hq, awakeCount, awakeCount, List.countP_append, List.countP_append, List.countP_cons,
      if_pos ha]
    rfl
  have hlen : x.taskList.length = (pre ++ post).length + 1 := by
    rw [hq, List.length_append, List.length_append, List.length_cons]
    rfl
  unfold resume
  split_ifs with hd hs hd'
  · refine h.ret hsub (by rw [if_neg (by decide)]; rfl) ?_ (Or.inr (Or.inr ⟨rfl, ?_⟩))
    · rw [hd.1, Nat.zero_min]
      exact Nat.zero_le _
    · intro hm
      rw [hm] at hs
      cases hs
  · refine h.update (fun _ => rfl) (fun _ => rfl) ?_
    rw [hd.1, Nat.zero_min]
    exact Nat.zero_le _
  · have hleft : left = 0 := by
      by_contra hne
      exact hd ⟨hd', hne⟩
    subst hleft
    refine h.ret hsub (by rw [if_neg (by decide)]; rfl) ?_ (Or.inr (Or.inl ⟨rfl, fun hm => ?_⟩))
    · rw [hd', Nat.zero_min]
      exact Nat.zero_le _
    · exact absurd (hl.2 hm) (by decide)
  · refine h.ret hsub ?_ ?_ (Or.inl (orOne_pos left))
    · rw [if_pos (orOne_pos left)]
      exact Nat.sub_add_cancel (Nat.pos_of_ne_zero hd')
    · rw [hrest]
      omega

theorem Inv.step (h : Inv x) (a : Action τ) (hn : next x a = some y) : Inv y := by
  cases a with
  | complete =>
    obtain rfl := Option.some.inj hn
    have hwake := awakeCount_wakeUpCommon h.exclusive 0
    have hawake := h.awake
    refine h.signalled ?_
    change _ ≤ awakeCount (wakeUpCommon ((0 : ℕ) + 1) x.taskList)
    rw [hwake]
    omega
  | completeAll =>
    obtain rfl := Option.some.inj hn
    refine h.signalled ?_
    rw [awakeCount_wakeUpCommon_all le_rfl]
    exact min_le_right _ _
  | tryWait task =>
    obtain rfl := Option.some.inj hn
    have hawake := h.awake
    unfold tryWaitForCompletion
    split_ifs with hd
    · exact h
    · refine h.ret (List.Sublist.refl _) ?_ ?_ (Or.inl one_pos)
      · exact Nat.sub_add_cancel (Nat.pos_of_ne_zero hd)
      · omega
  | wait task mode timeout s =>
    rw [next] at hn
    split_ifs at hn with hc
    obtain rfl := Option.some.inj hn
    refine h.waits fun w hw hwt => hc (Or.inl ?_)
    exact List.any_eq_true.mpr ⟨w, hw, decide_eq_true hwt⟩
  | resume task left s =>
    rw [next] at hn
    cases hw : x.taskList.find? (·.task = task) with
    | none =>
      rw [hw] at hn
      cases hn
    | some w =>
      rw [hw] at hn
      dsimp only at hn
      split_ifs at hn with hc
      obtain rfl := Option.some.inj hn
      exact h.resumed hw hc.1 hc.2
  | wake task =>
    obtain rfl := Option.some.inj hn
    refine h.update (fun _ => rfl) (fun _ => rfl) (h.awake.trans ?_)
    exact updateWaiter_awakeCount x task fun _ _ => rfl

theorem Inv.find (h : Inv x) (hw : w ∈ x.taskList) :
    x.taskList.find? (·.task = w.task) = some w := by
  obtain ⟨pre, post, hq⟩ := List.append_of_mem hw
  have hnodup := h.nodup
  rw [hq, List.map_append, List.map_cons, List.nodup_append] at hnodup
  rw [List.find?_eq_some_iff_append]
  refine ⟨decide_eq_true rfl, pre, post, hq, fun v hv => ?_⟩
  have hne := hnodup.2.2 v.task (List.mem_map_of_mem hv) w.task (List.mem_cons_self ..)
  simpa using hne

theorem Inv.takes (h : Inv x) (hd : x.done ≠ 0) (hw : w ∈ x.taskList) (ha : w.awake = true)
    (hl : Left w.timeout left) (s : Signal) :
    ∃ y, next x (.resume w.task left s) = some y ∧ y.done + 1 = x.done ∧
      y.taskList.length + 1 = x.taskList.length ∧ w ∉ y.taskList ∧
      y.log = x.log ++ [.returned w.task w.mode w.timeout (orOne left)] := by
  have hfind := h.find hw
  obtain ⟨pre, post, hq, -, hrest⟩ := taskList_split hfind
  refine ⟨{ removeWaitQueue x w.task with done := x.done - 1 }.ret w.task w.mode w.timeout
    (orOne left), ?_, Nat.sub_add_cancel (Nat.pos_of_ne_zero hd), ?_, ?_, rfl⟩
  · simp only [next, hfind]
    rw [if_pos ⟨ha, hl⟩, resume, if_neg fun hc => hd hc.1, if_neg hd]
  · change (removeWaitQueue x w.task).taskList.length + 1 = _
    rw [hrest, hq, List.length_append, List.length_append, List.length_cons]
    rfl
  · change w ∉ (removeWaitQueue x w.task).taskList
    have hnodup := h.nodup.of_map
    rw [hq, List.nodup_middle] at hnodup
    rw [hrest]
    exact (List.nodup_cons.mp hnodup).1

omit [DecidableEq τ] in
theorem Inv.exists_awake (h : Inv x) (hd : x.done ≠ 0) (hq : x.taskList ≠ []) :
    ∃ w ∈ x.taskList, w.awake = true := by
  have hlen := List.length_pos_iff.mpr hq
  have hawake := h.awake
  have hpos : 0 < awakeCount x.taskList := by omega
  exact List.countP_pos_iff.mp hpos

theorem left_self (timeout : ℕ) : Left timeout timeout := ⟨le_rfl, id⟩

/-- The waiters that are awake take what there is, or nobody is left to take it. -/
theorem Inv.drain (h : Inv x) : ∃ bs y, (∀ a ∈ bs, ∃ task left s, a = .resume task left s) ∧
    exec next bs x = some y ∧ (y.done = 0 ∨ y.taskList = []) := by
  induction hn : x.done generalizing x with
  | zero => exact ⟨[], x, fun _ ha => absurd ha List.not_mem_nil, rfl, Or.inl hn⟩
  | succ n ih =>
    by_cases hq : x.taskList = []
    · exact ⟨[], x, fun _ ha => absurd ha List.not_mem_nil, rfl, Or.inr hq⟩
    · have hd : x.done ≠ 0 := by omega
      obtain ⟨w, hw, ha⟩ := h.exists_awake hd hq
      obtain ⟨u, hu, hdone, -⟩ := h.takes hd hw ha (left_self _) ⟨false, false⟩
      obtain ⟨bs, y, hbs, hy, hend⟩ := ih (h.step _ hu) (by omega)
      refine ⟨.resume w.task w.timeout ⟨false, false⟩ :: bs, y, ?_, ?_, hend⟩
      · exact List.forall_mem_cons.mpr ⟨⟨_, _, _, rfl⟩, hbs⟩
      · exact exec_cons_eq_some.mpr ⟨u, hu, hy⟩

variable {as : List (Action τ)}

theorem inv_of_exec (h : exec next as initCompletion = some x) : Inv x :=
  exec_invariant (fun _ a _ hs hn => hs.step a hn) inv_init h

/-- In every run `done` is what has been signalled less the calls that took a completion, as long as
that fits in an `unsigned int`, and modulo its size in any case. A call that ends without a completion
was interrupted where it may be, or had a timeout. -/
theorem run_completion_account (h : exec next as initCompletion = some x) :
    x.done < 2 ^ 32 ∧ x.done + taken x.log ≡ added x.log [MOD 2 ^ 32] ∧
      (added x.log < 2 ^ 32 → x.done + taken x.log = added x.log) ∧ ∀ e ∈ x.log, e.Fair := by
  have hi := inv_of_exec h
  exact ⟨hi.lt, hi.account, hi.exact, hi.fair⟩

def twoWaiters : List (Action ℕ) :=
  [.wait 0 .uninterruptible maxScheduleTimeout ⟨false, false⟩,
    .wait 1 .killable maxScheduleTimeout ⟨false, false⟩, .complete, .wake 1]

def twoWaitersEnd : Completion ℕ where
  done := 1
  taskList := [⟨0, true, .uninterruptible, maxScheduleTimeout, true⟩,
    ⟨1, true, .killable, maxScheduleTimeout, true⟩]
  log := [.signalled 1]

theorem twoWaiters_exec : exec next twoWaiters initCompletion = some twoWaitersEnd := by decide

theorem run_completion_account_twoWaiters :
    twoWaitersEnd.done + taken twoWaitersEnd.log = added twoWaitersEnd.log :=
  (run_completion_account twoWaiters_exec).2.2.1 (by decide)

/-- In every run no wakeup is lost: as many waiters are awake as can take what is there. Each of them
that gets the lock takes a completion, even if its timeout has run out or a signal is pending, and the
waiters alone can go on until nothing is left or nobody waits. -/
theorem run_completion_wakes (h : exec next as initCompletion = some x) :
    min x.done x.taskList.length ≤ awakeCount x.taskList ∧
    (x.done ≠ 0 → ∀ w ∈ x.taskList, w.awake = true → ∀ left s, Left w.timeout left →
      ∃ y, next x (.resume w.task left s) = some y ∧ y.done + 1 = x.done ∧ w ∉ y.taskList ∧
        y.log = x.log ++ [.returned w.task w.mode w.timeout (orOne left)]) ∧
    ∃ bs y, (∀ a ∈ bs, ∃ task left s, a = .resume task left s) ∧
      exec next bs x = some y ∧ (y.done = 0 ∨ y.taskList = []) := by
  have hi := inv_of_exec h
  refine ⟨hi.awake, fun hd w hw ha left s hl => ?_, hi.drain⟩
  obtain ⟨y, hy, hdone, -, hout, hlog⟩ := hi.takes hd hw ha hl s
  exact ⟨y, hy, hdone, hout, hlog⟩

/-- The killed task takes the completion if it gets the lock first. -/
theorem run_completion_wakes_twoWaiters :
    ∃ y, next twoWaitersEnd (.resume 1 maxScheduleTimeout ⟨true, true⟩) = some y ∧ y.done + 1 = 1 := by
  obtain ⟨y, hy, hdone, -⟩ := (run_completion_wakes twoWaiters_exec).2.1 (by decide)
    ⟨1, true, .killable, maxScheduleTimeout, true⟩ (by decide) rfl _ ⟨true, true⟩ (left_self _)
  exact ⟨y, hy, hdone⟩

end AndroidKernel.Completions
