import AndroidKernel.Lib.Runs

/-! The bandwidth of one task group, from `hw4/kernel/sched/fair.c` and `core.c`. A step is a
section under `cfs_b->lock`, or one under the lock of a runqueue up to where it takes that one. -/

namespace AndroidKernel.Bandwidth
open Lts

structure CfsRq where
  runtimeEnabled : Bool
  runtimeExpires : BitVec 64
  runtimeRemaining : ℤ
  throttled : Bool
deriving DecidableEq, Repr

/-- `RUNTIME_INF` is no quota. -/
structure CfsBandwidth (n : ℕ) where
  period : BitVec 64
  quota : Option ℕ
  runtime : ℕ
  runtimeExpires : BitVec 64
  idle : Bool
  timerActive : Bool
  throttledCfsRq : List (Fin n)
deriving DecidableEq, Repr

structure Hand where
  runtime : ℕ
  expires : BitVec 64
deriving DecidableEq, Repr

inductive Event (n : ℕ)
  | charged (i : Fin n) (delta : ℕ)
  | expired
  | waited
  | refilled (quota : ℕ)
  | granted (amount : ℕ)
deriving DecidableEq, Repr

/-- Where a CPU is in `__account_cfs_rq_runtime`, under the lock of its runqueue: about to ask for
runtime, or waiting in `__start_cfs_bandwidth` for the end of the timer. -/
inductive Phase
  | out
  | asking
  | starting (minAmount : ℕ)
deriving DecidableEq, Repr

/-- A writer of the quota has the `cfs_rq`s of `todo` still to set, and is `restarting` while it
waits in `__start_cfs_bandwidth`. -/
structure State (n : ℕ) where
  bandwidth : CfsBandwidth n
  rq : Fin n → CfsRq
  phase : Fin n → Phase
  periodTimer : Option Hand
  slackTimer : Option Hand
  restarting : Bool
  todo : List (Fin n)
  log : List (Event n)
deriving DecidableEq

variable {n : ℕ}

/-- `init_cfs_bandwidth` and `init_cfs_rq_runtime`. -/
def initState (period : BitVec 64) : State n where
  bandwidth := ⟨period, none, 0, 0, false, false, []⟩
  rq _ := ⟨false, 0, 0, false⟩
  phase _ := .out
  periodTimer := none
  slackTimer := none
  restarting := false
  todo := []
  log := []

def minCfsRqRuntime : ℤ := 1000000

def State.setRq (s : State n) (i : Fin n) (q : CfsRq) : State n :=
  { s with rq := Function.update s.rq i q }

def State.setPhase (s : State n) (i : Fin n) (p : Phase) : State n :=
  { s with phase := Function.update s.phase i p }

def State.emit (s : State n) (e : Event n) : State n := { s with log := s.log ++ [e] }

def refillCfsBandwidthRuntime (s : State n) (now : BitVec 64) : State n :=
  match s.bandwidth.quota with
  | none => s
  | some quota => { s with bandwidth := { s.bandwidth with
      runtime := quota, runtimeExpires := now + s.bandwidth.period } }.emit (.refilled quota)

def expireCfsRqRuntime (tickNsec : BitVec 64) (b : CfsBandwidth n) (q : CfsRq)
    (clock : BitVec 64) : CfsRq :=
  if (clock - q.runtimeExpires).toInt < 0 then q
  else if q.runtimeRemaining < 0 then q
  else if 0 ≤ (q.runtimeExpires - b.runtimeExpires).toInt then
    { q with runtimeExpires := q.runtimeExpires + tickNsec }
  else { q with runtimeRemaining := 0 }

def accountCfsRqRuntime (tickNsec : BitVec 64) (s : State n) (i : Fin n) (deltaExec : ℕ)
    (clock : BitVec 64) : State n :=
  let q := s.rq i
  let q' := expireCfsRqRuntime tickNsec s.bandwidth
    { q with runtimeRemaining := q.runtimeRemaining - deltaExec } clock
  ((s.setRq i q').emit (.charged i deltaExec)).setPhase i
    (if q'.runtimeRemaining ≤ 0 then .asking else .out)

def addRuntime (s : State n) (i : Fin n) (amount : ℕ) : State n :=
  let q := s.rq i
  let expires := s.bandwidth.runtimeExpires
  (s.setRq i { q with
    runtimeRemaining := q.runtimeRemaining + amount
    runtimeExpires :=
      if 0 < (expires - q.runtimeExpires).toInt then expires else q.runtimeExpires }).setPhase i .out

def takeRuntime (s : State n) (i : Fin n) (minAmount : ℕ) : State n :=
  if 0 < s.bandwidth.runtime then
    let amount := min s.bandwidth.runtime minAmount
    addRuntime { s with bandwidth := { s.bandwidth with
      runtime := s.bandwidth.runtime - amount, idle := false } } i amount
  else addRuntime s i 0

def startCfsBandwidth (s : State n) : State n :=
  { s with bandwidth := { s.bandwidth with timerActive := true } }

/-- `assign_cfs_rq_runtime`, up to where it waits if the timer is `busy`. -/
def assignCfsRqRuntime (s : State n) (i : Fin n) (slice : ℕ) (now : BitVec 64) (busy : Bool) :
    State n :=
  let minAmount := (slice - (s.rq i).runtimeRemaining).toNat
  if s.bandwidth.quota = none then addRuntime (s.emit (.granted minAmount)) i minAmount
  else if s.bandwidth.timerActive then takeRuntime s i minAmount
  else
    let s := refillCfsBandwidthRuntime s now
    if busy then (s.emit .waited).setPhase i (.starting minAmount)
    else takeRuntime (startCfsBandwidth s) i minAmount

def throttleCfsRq (s : State n) (i : Fin n) : State n :=
  { s.setRq i { s.rq i with throttled := true } with
    bandwidth := { s.bandwidth with throttledCfsRq := s.bandwidth.throttledCfsRq ++ [i] } }

def unthrottleCfsRq (s : State n) (i : Fin n) : State n :=
  { s.setRq i { s.rq i with throttled := false } with
    bandwidth := { s.bandwidth with throttledCfsRq := s.bandwidth.throttledCfsRq.erase i } }

def returnCfsRqRuntime (s : State n) (i : Fin n) : State n :=
  let q := s.rq i
  let slackRuntime := q.runtimeRemaining - minCfsRqRuntime
  if slackRuntime ≤ 0 then s
  else
    let s := if s.bandwidth.quota ≠ none ∧ q.runtimeExpires = s.bandwidth.runtimeExpires then
        { s with bandwidth := { s.bandwidth with
          runtime := s.bandwidth.runtime + slackRuntime.toNat } }
      else s
    s.setRq i { q with runtimeRemaining := q.runtimeRemaining - slackRuntime }

/-- `-cfs_rq->runtime_remaining + 1`, which is unsigned, up to what is left. -/
def payment (q : CfsRq) (remaining : ℕ) : ℕ :=
  min ((-q.runtimeRemaining + 1) % 2 ^ 64).toNat remaining

def distribute (s : State n) (hand : Hand) (i : Fin n) : State n × Hand :=
  let q := s.rq i
  if q.throttled then
    let runtime := payment q hand.runtime
    let q := { q with
      runtimeRemaining := q.runtimeRemaining + runtime, runtimeExpires := hand.expires }
    let s := s.setRq i q
    (if 0 < q.runtimeRemaining then unthrottleCfsRq s i else s,
      { hand with runtime := hand.runtime - runtime })
  else (s, hand)

/-- `do_sched_cfs_period_timer` up to where it gives the lock back for the first time. -/
def periodTimerStart (s : State n) (now : BitVec 64) : State n :=
  let s := s.emit .expired
  if s.bandwidth.quota = none ∨ s.bandwidth.idle ∧ s.bandwidth.throttledCfsRq = [] then
    { s with bandwidth := { s.bandwidth with timerActive := false } }
  else
    let s := refillCfsBandwidthRuntime s now
    if s.bandwidth.throttledCfsRq = [] then
      { s with bandwidth := { s.bandwidth with idle := true } }
    else { s with
      periodTimer := some ⟨s.bandwidth.runtime, s.bandwidth.runtimeExpires⟩
      bandwidth := { s.bandwidth with runtime := 0 } }

def periodTimerEnd (s : State n) (hand : Hand) : State n :=
  { s with
    periodTimer := none
    bandwidth := { s.bandwidth with runtime := hand.runtime, idle := false } }

def slackTimerStart (s : State n) (slice : ℕ) : State n :=
  if s.bandwidth.quota ≠ none ∧ slice < s.bandwidth.runtime then { s with
    slackTimer := some ⟨s.bandwidth.runtime, s.bandwidth.runtimeExpires⟩
    bandwidth := { s.bandwidth with runtime := 0 } }
  else s

def slackTimerEnd (s : State n) (hand : Hand) : State n :=
  { s with
    slackTimer := none
    bandwidth := if hand.expires = s.bandwidth.runtimeExpires then
        { s.bandwidth with runtime := hand.runtime }
      else s.bandwidth }

def tgSetCfsBandwidth (s : State n) (period : BitVec 64) (quota : Option ℕ) (now : BitVec 64) :
    State n :=
  let s := { s with bandwidth := { s.bandwidth with period := period, quota := quota } }
  let s := refillCfsBandwidthRuntime s now
  let restart : Bool := quota.isSome && s.bandwidth.timerActive
  { s with
    restarting := restart
    todo := List.finRange n
    bandwidth := { s.bandwidth with timerActive := s.bandwidth.timerActive && !restart } }

def setCfsRq (s : State n) (i : Fin n) : State n :=
  let q := s.rq i
  let s := (s.setRq i { q with
    runtimeEnabled := s.bandwidth.quota.isSome, runtimeRemaining := 0 }).emit
      (.granted (-q.runtimeRemaining).toNat)
  if q.throttled then unthrottleCfsRq s i else s

/-- `cfs_rq->runtime_remaining = cfs_b->quota`, where `RUNTIME_INF` reads as -1. -/
def signedQuota : Option ℕ → ℤ
  | none => -1
  | some quota => quota

def unthrottleOfflineCfsRq (s : State n) (i : Fin n) (used : Bool) : State n :=
  let q := s.rq i
  let quota := signedQuota s.bandwidth.quota
  let s := (s.setRq i { q with runtimeRemaining := quota }).emit
    (.granted (quota - q.runtimeRemaining).toNat)
  if used ∧ q.throttled then unthrottleCfsRq s i else s

inductive Action (n : ℕ)
  | account (i : Fin n) (deltaExec : ℕ) (clock : BitVec 64)
  | assign (i : Fin n) (slice : ℕ) (now : BitVec 64) (busy : Bool)
  | started (i : Fin n)
  | throttle (i : Fin n)
  | giveBack (i : Fin n)
  | periodStart (now : BitVec 64)
  | periodGive (i : Fin n)
  | periodEnd
  | slackStart (slice : ℕ)
  | slackGive (i : Fin n)
  | slackEnd
  | setBandwidth (period : BitVec 64) (quota : Option ℕ) (now : BitVec 64)
  | restart
  | setCfsRq
  | offline (i : Fin n) (used : Bool)
deriving DecidableEq

/-- The timers may visit the CPUs in any order and pass over any, as the list may change under
`distribute_cfs_runtime`; the period timer goes round until nobody is throttled or nothing left. -/
def next (tickNsec : BitVec 64) (s : State n) : Action n → Option (State n)
  | .account i deltaExec clock =>
    if s.phase i = .out ∧ (s.rq i).runtimeEnabled then
      some (accountCfsRqRuntime tickNsec s i deltaExec clock)
    else none
  | .assign i slice now busy =>
    if s.phase i = .asking then some (assignCfsRqRuntime s i slice now busy) else none
  | .started i =>
    match s.phase i with
    | .starting minAmount => some (takeRuntime (startCfsBandwidth s) i minAmount)
    | _ => none
  | .throttle i =>
    if s.phase i = .out ∧ (s.rq i).runtimeEnabled ∧ (s.rq i).runtimeRemaining ≤ 0 ∧
      (s.rq i).throttled = false then some (throttleCfsRq s i) else none
  | .giveBack i =>
    if s.phase i = .out ∧ (s.rq i).runtimeEnabled then some (returnCfsRqRuntime s i) else none
  | .periodStart now => if s.periodTimer = none then some (periodTimerStart s now) else none
  | .periodGive i =>
    match s.periodTimer with
    | none => none
    | some hand =>
      if s.phase i = .out then
        let (s, hand) := distribute s hand i
        some { s with periodTimer := some hand }
      else none
  | .periodEnd =>
    match s.periodTimer with
    | none => none
    | some hand =>
      if s.bandwidth.throttledCfsRq = [] ∨ hand.runtime = 0 then some (periodTimerEnd s hand)
      else none
  | .slackStart slice => if s.slackTimer = none then some (slackTimerStart s slice) else none
  | .slackGive i =>
    match s.slackTimer with
    | none => none
    | some hand =>
      if s.phase i = .out then
        let (s, hand) := distribute s hand i
        some { s with slackTimer := some hand }
      else none
  | .slackEnd =>
    match s.slackTimer with
    | none => none
    | some hand => some (slackTimerEnd s hand)
  | .setBandwidth period quota now =>
    if s.todo = [] ∧ s.restarting = false then some (tgSetCfsBandwidth s period quota now) else none
  | .restart =>
    if s.restarting then some { startCfsBandwidth s with restarting := false } else none
  | .setCfsRq =>
    match s.todo with
    | [] => none
    | i :: todo =>
      if s.restarting = false ∧ s.phase i = .out then some { setCfsRq s i with todo := todo }
      else none
  | .offline i used =>
    if s.phase i = .out ∧ (s.rq i).runtimeEnabled then some (unthrottleOfflineCfsRq s i used)
    else none

def firstCpu : Fin 2 := 0

def secondCpu : Fin 2 := 1

inductive Moves (tickNsec : BitVec 64) (s : State n) : Action n → State n → Prop
  | account (i : Fin n) (deltaExec : ℕ) (clock : BitVec 64) (hout : s.phase i = .out)
      (he : (s.rq i).runtimeEnabled = true) :
      Moves tickNsec s (.account i deltaExec clock) (accountCfsRqRuntime tickNsec s i deltaExec clock)
  | assign (i : Fin n) (slice : ℕ) (now : BitVec 64) (busy : Bool) (hask : s.phase i = .asking) :
      Moves tickNsec s (.assign i slice now busy) (assignCfsRqRuntime s i slice now busy)
  | started (i : Fin n) (minAmount : ℕ) (hstart : s.phase i = .starting minAmount) :
      Moves tickNsec s (.started i) (takeRuntime (startCfsBandwidth s) i minAmount)
  | throttle (i : Fin n) (hout : s.phase i = .out) (he : (s.rq i).runtimeEnabled = true)
      (hr : (s.rq i).runtimeRemaining ≤ 0) (ht : (s.rq i).throttled = false) :
      Moves tickNsec s (.throttle i) (throttleCfsRq s i)
  | giveBack (i : Fin n) (hout : s.phase i = .out) (he : (s.rq i).runtimeEnabled = true) :
      Moves tickNsec s (.giveBack i) (returnCfsRqRuntime s i)
  | periodStart (now : BitVec 64) (hp : s.periodTimer = none) :
      Moves tickNsec s (.periodStart now) (periodTimerStart s now)
  | periodGive (i : Fin n) (hand : Hand) (hp : s.periodTimer = some hand)
      (hout : s.phase i = .out) : Moves tickNsec s (.periodGive i)
        { (distribute s hand i).1 with periodTimer := some (distribute s hand i).2 }
  | periodEnd (hand : Hand) (hp : s.periodTimer = some hand)
      (hend : s.bandwidth.throttledCfsRq = [] ∨ hand.runtime = 0) :
      Moves tickNsec s .periodEnd (periodTimerEnd s hand)
  | slackStart (slice : ℕ) (hs : s.slackTimer = none) :
      Moves tickNsec s (.slackStart slice) (slackTimerStart s slice)
  | slackGive (i : Fin n) (hand : Hand) (hs : s.slackTimer = some hand)
      (hout : s.phase i = .out) : Moves tickNsec s (.slackGive i)
        { (distribute s hand i).1 with slackTimer := some (distribute s hand i).2 }
  | slackEnd (hand : Hand) (hs : s.slackTimer = some hand) :
      Moves tickNsec s .slackEnd (slackTimerEnd s hand)
  | setBandwidth (period : BitVec 64) (quota : Option ℕ) (now : BitVec 64) (htodo : s.todo = [])
      (hr : s.restarting = false) :
      Moves tickNsec s (.setBandwidth period quota now) (tgSetCfsBandwidth s period quota now)
  | restart (hr : s.restarting = true) :
      Moves tickNsec s .restart { startCfsBandwidth s with restarting := false }
  | setCfsRq (i : Fin n) (todo : List (Fin n)) (htodo : s.todo = i :: todo)
      (hr : s.restarting = false) (hout : s.phase i = .out) :
      Moves tickNsec s .setCfsRq { Bandwidth.setCfsRq s i with todo := todo }
  | offline (i : Fin n) (used : Bool) (hout : s.phase i = .out)
      (he : (s.rq i).runtimeEnabled = true) :
      Moves tickNsec s (.offline i used) (unthrottleOfflineCfsRq s i used)

theorem moves_of_next {tickNsec : BitVec 64} {s t : State n} {a : Action n}
    (h : next tickNsec s a = some t) : Moves tickNsec s a t := by
  cases a with
  | account i deltaExec clock =>
    obtain ⟨⟨hout, he⟩, ht⟩ := Option.ite_none_right_eq_some.mp h
    cases ht
    exact .account i deltaExec clock hout he
  | assign i slice now busy =>
    obtain ⟨hask, ht⟩ := Option.ite_none_right_eq_some.mp h
    cases ht
    exact .assign i slice now busy hask
  | started i =>
    simp only [next] at h
    split at h
    · next minAmount hstart =>
      cases h
      exact .started i minAmount hstart
    · cases h
  | throttle i =>
    obtain ⟨⟨hout, he, hr, ht⟩, ht'⟩ := Option.ite_none_right_eq_some.mp h
    cases ht'
    exact .throttle i hout he hr ht
  | giveBack i =>
    obtain ⟨⟨hout, he⟩, ht⟩ := Option.ite_none_right_eq_some.mp h
    cases ht
    exact .giveBack i hout he
  | periodStart now =>
    obtain ⟨hp, ht⟩ := Option.ite_none_right_eq_some.mp h
    cases ht
    exact .periodStart now hp
  | periodGive i =>
    simp only [next] at h
    split at h
    · cases h
    · next hand hp =>
      obtain ⟨hout, ht⟩ := Option.ite_none_right_eq_some.mp h
      cases ht
      exact .periodGive i hand hp hout
  | periodEnd =>
    simp only [next] at h
    split at h
    · cases h
    · next hand hp =>
      obtain ⟨hend, ht⟩ := Option.ite_none_right_eq_some.mp h
      cases ht
      exact .periodEnd hand hp hend
  | slackStart slice =>
    obtain ⟨hs, ht⟩ := Option.ite_none_right_eq_some.mp h
    cases ht
    exact .slackStart slice hs
  | slackGive i =>
    simp only [next] at h
    split at h
    · cases h
    · next hand hs =>
      obtain ⟨hout, ht⟩ := Option.ite_none_right_eq_some.mp h
      cases ht
      exact .slackGive i hand hs hout
  | slackEnd =>
    simp only [next] at h
    split at h
    · cases h
    · next hand hs =>
      cases h
      exact .slackEnd hand hs
  | setBandwidth period quota now =>
    obtain ⟨⟨htodo, hr⟩, ht⟩ := Option.ite_none_right_eq_some.mp h
    cases ht
    exact .setBandwidth period quota now htodo hr
  | restart =>
    obtain ⟨hr, ht⟩ := Option.ite_none_right_eq_some.mp h
    cases ht
    exact .restart hr
  | setCfsRq =>
    simp only [next] at h
    split at h
    · cases h
    · next i todo htodo =>
      obtain ⟨⟨hr, hout⟩, ht⟩ := Option.ite_none_right_eq_some.mp h
      cases ht
      exact .setCfsRq i todo htodo hr hout
  | offline i used =>
    obtain ⟨⟨hout, he⟩, ht⟩ := Option.ite_none_right_eq_some.mp h
    cases ht
    exact .offline i used hout he

end AndroidKernel.Bandwidth
