import AndroidKernel.Lib.Words
import AndroidKernel.Mlimit.Selection

/-! The scores of `oom_badness`, for users with a limit and without. The score of an eligible task
is between 1 and 1000, and as long as the sums fit a `long` it does not decrease when the task uses
more memory. -/

namespace AndroidKernel.Mlimit
open Lts
variable {us : Users} {w : Tasks} {current p t : Tid} {memcg : Option Memcg}
  {nodemask : Option Nodemask} {totalpages : Long}

/-- A division of `unsigned long`; no answer stands for a division by zero. -/
def divide (a b : Long) : Option Long := if b = 0 then none else some (a / b)

def checkedPoints (us : Users) (w : Tasks) (t : Tid) (totalpages : Long) : Option Long :=
  if (us.obj (w.task t).user).memMax ≠ -1 then some (bonus (w.task t) (w.memory t).rss)
  else (divide (((w.memory t).rss + (w.memory t).nrPtes + (w.memory t).swapents) * 1000)
    totalpages).map fun points => bonus (w.task t) points + (w.task t).oomScoreAdj

def checkedBadness (us : Users) (w : Tasks) (current p : Tid) (memcg : Option Memcg)
    (nodemask : Option Nodemask) (totalpages : Long) : Option Long :=
  if oomUnkillableTask w current p memcg nodemask then some 0
  else match findLockTaskMm w p with
    | none => some 0
    | some t =>
      if (w.task t).oomScoreAdj = OOM_SCORE_ADJ_MIN then some 0
      else (checkedPoints us w t (if totalpages = 0 then 1 else totalpages)).map clampPoints

theorem checkedPoints_eq (us : Users) (w : Tasks) (t : Tid) (h : totalpages ≠ 0) :
    checkedPoints us w t totalpages = some (limitPoints us w t totalpages) := by
  unfold checkedPoints limitPoints divide proportion
  rw [if_neg h]
  split
  · rfl
  · rfl

theorem checkedBadness_eq (us : Users) (w : Tasks) (current p : Tid) (memcg : Option Memcg)
    (nodemask : Option Nodemask) (totalpages : Long) :
    checkedBadness us w current p memcg nodemask totalpages =
      some (oomBadness us w current p memcg nodemask totalpages) := by
  have hpages : (if totalpages = 0 then 1 else totalpages) ≠ 0 := by
    split
    · decide
    · assumption
  unfold checkedBadness oomBadness badnessWith
  split
  · rfl
  · cases findLockTaskMm w p with
    | none => rfl
    | some t =>
      dsimp only
      rw [checkedPoints_eq us w t hpages]
      split
      · rfl
      · rfl

theorem oomBadness_of_ineligible (h : Ineligible w current p memcg nodemask) (us : Users)
    (totalpages : Long) : oomBadness us w current p memcg nodemask totalpages = 0 :=
  badnessWith_of_ineligible h _ totalpages

theorem oomBadness_of_eligible (h : ¬ Ineligible w current p memcg nodemask) :
    ∃ t, findLockTaskMm w p = some t ∧ ∀ us totalpages,
      oomBadness us w current p memcg nodemask totalpages =
        clampPoints (limitPoints us w t (if totalpages = 0 then 1 else totalpages)) := by
  unfold Ineligible at h
  push Not at h
  obtain ⟨hun, hfound, hadj⟩ := h
  obtain ⟨t, ht⟩ := Option.ne_none_iff_exists'.mp hfound
  refine ⟨t, ht, fun us totalpages => ?_⟩
  unfold oomBadness badnessWith
  rw [if_neg hun, ht]
  exact if_neg (hadj t ht)

theorem clampPoints_ne_zero (points : Long) : clampPoints points ≠ 0 := by
  unfold clampPoints
  split
  · decide
  · rename_i hpos
    split
    · rintro rfl
      exact hpos (by decide)
    · decide

theorem clampPoints_le (points : Long) : (clampPoints points).toNat ≤ 1000 := by
  unfold clampPoints
  split
  · decide
  · rename_i hpos
    split
    · rename_i hlt
      rw [BitVec.sle_iff_toInt_le, not_le] at hpos
      rw [BitVec.slt_iff_toInt_lt] at hlt
      have hpos' : 0 < points.toInt := hpos
      have hlt' : points.toInt < 1000 := hlt
      have heq := Words.toInt_of_nonneg hpos'.le
      omega
    · decide

theorem clampPoints_mono {a b : Long} (h : a.toInt ≤ b.toInt) :
    (clampPoints a).toNat ≤ (clampPoints b).toNat := by
  have hone : 1 ≤ (clampPoints b).toNat := by
    have := clampPoints_ne_zero b
    rw [Nat.one_le_iff_ne_zero]
    exact fun hz => this (BitVec.eq_of_toNat_eq hz)
  by_cases ha : a.toInt ≤ 0
  · have hmin : clampPoints a = 1 := if_pos (BitVec.sle_iff_toInt_le.mpr ha)
    rw [hmin]
    exact hone
  · have ha' : ¬ a.sle 0 = true := fun h' => ha (BitVec.sle_iff_toInt_le.mp h')
    have hb' : ¬ b.sle 0 = true := fun h' => ha (h.trans (BitVec.sle_iff_toInt_le.mp h'))
    by_cases hb : b.toInt < 1000
    · have hlt : a.toInt < 1000 := lt_of_le_of_lt h hb
      have hca : clampPoints a = a := by
        unfold clampPoints
        rw [if_neg ha', if_pos (BitVec.slt_iff_toInt_lt.mpr hlt)]
      have hcb : clampPoints b = b := by
        unfold clampPoints
        rw [if_neg hb', if_pos (BitVec.slt_iff_toInt_lt.mpr hb)]
      have hna := Words.toInt_of_nonneg (not_le.mp ha).le
      have hnb := Words.toInt_of_nonneg ((not_le.mp ha).le.trans h)
      rw [hca, hcb]
      omega
    · have hcb : clampPoints b = 1000 := by
        unfold clampPoints
        rw [if_neg hb', if_neg fun h' => hb (BitVec.slt_iff_toInt_lt.mp h')]
      rw [hcb]
      exact clampPoints_le a

theorem oomBadness_eq_zero_iff (us : Users) (totalpages : Long) :
    oomBadness us w current p memcg nodemask totalpages = 0 ↔
      Ineligible w current p memcg nodemask := by
  constructor
  · intro h
    by_contra hel
    obtain ⟨t, -, hscore⟩ := oomBadness_of_eligible hel
    rw [hscore] at h
    exact clampPoints_ne_zero _ h
  · intro h
    exact oomBadness_of_ineligible h us totalpages

/-- The counters of a thread fit a `long` when they are scaled, and its adjustment is in range. -/
structure Fits (w : Tasks) (t : Tid) : Prop where
  memory : 1000 * ((w.memory t).rss.toNat + (w.memory t).nrPtes.toNat +
    (w.memory t).swapents.toNat) + 1000 < 2 ^ 31
  adj : -1000 ≤ (w.task t).oomScoreAdj.toInt ∧ (w.task t).oomScoreAdj.toInt ≤ 1000

theorem Fits.proportion (h : Fits w t) (totalpages : Long) :
    (proportion (w.memory t) totalpages).toInt =
      ((((w.memory t).rss.toNat + (w.memory t).nrPtes.toNat + (w.memory t).swapents.toNat) * 1000 /
        totalpages.toNat : ℕ) : ℤ) := by
  have hmem := h.memory
  have hsum : (((w.memory t).rss + (w.memory t).nrPtes + (w.memory t).swapents) * 1000).toNat =
      ((w.memory t).rss.toNat + (w.memory t).nrPtes.toNat + (w.memory t).swapents.toNat) * 1000 := by
    rw [BitVec.toNat_mul, BitVec.toNat_add, BitVec.toNat_add,
      show (1000 : Long).toNat = 1000 from rfl]
    omega
  have hle := Nat.div_le_self (((w.memory t).rss.toNat + (w.memory t).nrPtes.toNat +
    (w.memory t).swapents.toNat) * 1000) totalpages.toNat
  unfold Mlimit.proportion
  have hdiv : (((w.memory t).rss + (w.memory t).nrPtes + (w.memory t).swapents) * 1000 /
      totalpages).toNat = ((w.memory t).rss.toNat + (w.memory t).nrPtes.toNat +
        (w.memory t).swapents.toNat) * 1000 / totalpages.toNat := by
    rw [BitVec.toNat_udiv, hsum]
  rw [Words.toInt_of_toNat_lt, hdiv]
  rw [hdiv]
  omega

def bonusOf (t : Task) : ℤ := if t.sysAdmin then 30 else 0

theorem bonus_toInt (t : Task) {points : Long} (h : 0 ≤ points.toInt) :
    (bonus t points).toInt = points.toInt - bonusOf t := by
  have hlt := BitVec.two_mul_toInt_lt (x := points)
  unfold bonus bonusOf
  split
  · rw [Words.toInt_sub_of_range]
    · rfl
    · rw [show (30 : Long).toInt = 30 from rfl]
      omega
    · rw [show (30 : Long).toInt = 30 from rfl]
      omega
  · rw [sub_zero]

theorem Fits.limitPoints (h : Fits w t) (us : Users) (totalpages : Long) :
    (limitPoints us w t totalpages).toInt =
      if (us.obj (w.task t).user).memMax ≠ -1 then
        ((w.memory t).rss.toNat : ℤ) - bonusOf (w.task t)
      else ((((w.memory t).rss.toNat + (w.memory t).nrPtes.toNat + (w.memory t).swapents.toNat) *
        1000 / totalpages.toNat : ℕ) : ℤ) - bonusOf (w.task t) + (w.task t).oomScoreAdj.toInt := by
  have hmem := h.memory
  unfold Mlimit.limitPoints
  split
  · have hrss : (w.memory t).rss.toInt = (w.memory t).rss.toNat :=
      Words.toInt_of_toNat_lt (by omega)
    rw [bonus_toInt _ (by omega), hrss]
  · have hprop := h.proportion totalpages
    have hle := Nat.div_le_self (((w.memory t).rss.toNat + (w.memory t).nrPtes.toNat +
      (w.memory t).swapents.toNat) * 1000) totalpages.toNat
    generalize ((w.memory t).rss.toNat + (w.memory t).nrPtes.toNat +
      (w.memory t).swapents.toNat) * 1000 / totalpages.toNat = d at hprop hle ⊢
    have hnonneg : 0 ≤ (Mlimit.proportion (w.memory t) totalpages).toInt := by omega
    have hbonus := bonus_toInt (w.task t) hnonneg
    have hadj := h.adj
    have hb : 0 ≤ bonusOf (w.task t) ∧ bonusOf (w.task t) ≤ 30 := by
      unfold bonusOf
      split
      · decide
      · decide
    rw [Words.toInt_add_of_range, hbonus, hprop]
    · omega
    · omega

def Tasks.setRss (w : Tasks) (q : MmPtr) (rss : Long) : Tasks :=
  { w with mm := Function.update w.mm q { w.mm q with rss := rss } }

theorem memory_setRss (w : Tasks) (q : MmPtr) (rss : Long) (t : Tid) :
    (w.setRss q rss).memory t =
      if (w.task t).mm = some q then { w.memory t with rss := rss } else w.memory t := by
  unfold Tasks.memory Tasks.setRss
  dsimp only
  cases hmm : (w.task t).mm with
  | none => rw [if_neg (by simp)]; rfl
  | some q' =>
    by_cases hq : q' = q
    · subst hq
      simp
    · simp [hq]

theorem limitPoints_mono {q : MmPtr} {rss : Long} (hle : (w.mm q).rss.toNat ≤ rss.toNat)
    (h : Fits w t) (h' : Fits (w.setRss q rss) t) (us : Users) (totalpages : Long) :
    (limitPoints us w t totalpages).toInt ≤
      (limitPoints us (w.setRss q rss) t totalpages).toInt := by
  have hmem := memory_setRss w q rss t
  have hrss : (w.memory t).rss.toNat ≤ ((w.setRss q rss).memory t).rss.toNat := by
    rw [hmem]
    split
    · rename_i hq
      have : w.memory t = w.mm q := by
        unfold Tasks.memory
        rw [hq]
        rfl
      rw [this]
      exact hle
    · exact le_rfl
  have hptes : ((w.setRss q rss).memory t).nrPtes = (w.memory t).nrPtes := by
    rw [hmem]
    split
    · rfl
    · rfl
  have hswap : ((w.setRss q rss).memory t).swapents = (w.memory t).swapents := by
    rw [hmem]
    split
    · rfl
    · rfl
  have hdiv : ((w.memory t).rss.toNat + (w.memory t).nrPtes.toNat + (w.memory t).swapents.toNat) *
        1000 / totalpages.toNat ≤
      (((w.setRss q rss).memory t).rss.toNat + (w.memory t).nrPtes.toNat +
        (w.memory t).swapents.toNat) * 1000 / totalpages.toNat := by
    gcongr
  have htask : (w.setRss q rss).task = w.task := rfl
  rw [h.limitPoints, h'.limitPoints, hptes, hswap, htask]
  split
  · omega
  · omega

/-- `oom_badness` never divides by zero, is 0 exactly for the tasks that cannot be chosen and
otherwise between 1 and 1000. As long as the sums fit a `long`, it does not decrease when a task
uses more memory, whether its user has a limit or not. -/
theorem badness_well_formed (us : Users) (w : Tasks) (current p : Tid) (memcg : Option Memcg)
    (nodemask : Option Nodemask) (totalpages : Long) :
    checkedBadness us w current p memcg nodemask totalpages =
      some (oomBadness us w current p memcg nodemask totalpages) ∧
    (oomBadness us w current p memcg nodemask totalpages = 0 ↔
      Ineligible w current p memcg nodemask) ∧
    (¬ Ineligible w current p memcg nodemask →
      1 ≤ (oomBadness us w current p memcg nodemask totalpages).toNat ∧
        (oomBadness us w current p memcg nodemask totalpages).toNat ≤ 1000) ∧
    ∀ q rss, (w.mm q).rss.toNat ≤ rss.toNat →
      (∀ t, findLockTaskMm w p = some t → Fits w t ∧ Fits (w.setRss q rss) t) →
      (oomBadness us w current p memcg nodemask totalpages).toNat ≤
        (oomBadness us (w.setRss q rss) current p memcg nodemask totalpages).toNat := by
  refine ⟨checkedBadness_eq .., oomBadness_eq_zero_iff us totalpages, fun hel => ?_,
    fun q rss hle hfits => ?_⟩
  · have hne : oomBadness us w current p memcg nodemask totalpages ≠ 0 :=
      fun h => hel ((oomBadness_eq_zero_iff us totalpages).mp h)
    obtain ⟨t, -, hscore⟩ := oomBadness_of_eligible hel
    refine ⟨Nat.one_le_iff_ne_zero.mpr fun h => hne (BitVec.eq_of_toNat_eq h), ?_⟩
    rw [hscore]
    exact clampPoints_le _
  · by_cases hel : Ineligible w current p memcg nodemask
    · rw [oomBadness_of_ineligible hel]
      exact Nat.zero_le _
    · -- who is eligible, and by which thread, does not depend on the counters
      have hel' : ¬ Ineligible (w.setRss q rss) current p memcg nodemask := hel
      obtain ⟨t, ht, hscore⟩ := oomBadness_of_eligible hel
      obtain ⟨t', ht', hscore'⟩ := oomBadness_of_eligible hel'
      obtain rfl : t = t' := Option.some_inj.mp (ht.symm.trans ht')
      obtain ⟨hw, hw'⟩ := hfits t ht
      rw [hscore, hscore']
      exact clampPoints_mono (limitPoints_mono hle hw hw' us _)

/-- Process 5 grows from ten pages to twenty. -/
theorem badness_well_formed_growing :
    (1 ≤ (oomBadness bootUsers oneTask 5 5 none none 1000).toNat ∧
      (oomBadness bootUsers oneTask 5 5 none none 1000).toNat ≤ 1000) ∧
    (oomBadness bootUsers oneTask 5 5 none none 1000).toNat ≤
      (oomBadness bootUsers (oneTask.setRss 5 20) 5 5 none none 1000).toNat := by
  obtain ⟨-, hzero, hrange, hmono⟩ := badness_well_formed bootUsers oneTask 5 5 none none 1000
  have hel : ¬ Ineligible oneTask 5 5 none none := fun h => absurd (hzero.mpr h) (by decide)
  refine ⟨hrange hel, hmono 5 20 (by decide) fun t ht => ?_⟩
  obtain rfl : 5 = t := Option.some_inj.mp ht
  exact ⟨⟨by decide, by decide⟩, ⟨by decide, by decide⟩⟩

end AndroidKernel.Mlimit
