import AndroidKernel.Pages.Boot

/-! The bitmap that holds the migratetypes of the pageblocks, `zone->pageblock_flags`: it carries
out what the model does with a function on pageblocks, and `usemap_size` decides whether it is large
enough. -/

namespace AndroidKernel.Pages
open Migratetype

structure FlagLayout where
  pbMigrate : ℕ
  pbMigrateEnd : ℕ
  nrPageblockBits : ℕ
  sizeofLong : ℕ
  end_lt : pbMigrateEnd < nrPageblockBits
  required_bits : pbMigrateEnd + 1 = pbMigrate + 3
  sizeofLong_pos : 0 < sizeofLong

abbrev FlagLayout.Word (l : FlagLayout) : Type := BitVec (8 * l.sizeofLong)

def roundDown (x n : ℕ) : ℕ := x / n * n

def roundup (x n : ℕ) : ℕ := (x + (n - 1)) / n * n

def pfnToBitidx (c : Config) (l : FlagLayout) (pfn : ℕ) : ℕ :=
  ((pfn - roundDown c.zoneStartPfn (pageblockNrPages c)) >>> c.pageblockOrder) * l.nrPageblockBits

def getFlagsLoop {w : ℕ} (bitmap : ℕ → Bool) (bitidx : ℕ) :
    ℕ → ℕ → BitVec w → BitVec w → BitVec w
  | 0, _, _, flags => flags
  | n + 1, startBitidx, value, flags =>
    getFlagsLoop bitmap bitidx n (startBitidx + 1) (value <<< 1)
      (if bitmap (bitidx + startBitidx) then flags ||| value else flags)

def setFlagsLoop {w : ℕ} (flags : BitVec w) (bitidx : ℕ) :
    ℕ → ℕ → BitVec w → (ℕ → Bool) → ℕ → Bool
  | 0, _, _, bitmap => bitmap
  | n + 1, startBitidx, value, bitmap =>
    setFlagsLoop flags bitidx n (startBitidx + 1) (value <<< 1)
      (Function.update bitmap (bitidx + startBitidx) (flags &&& value != 0))

def getPageblockFlagsGroup (c : Config) (l : FlagLayout) (bitmap : ℕ → Bool)
    (pfn startBitidx endBitidx : ℕ) : l.Word :=
  getFlagsLoop bitmap (pfnToBitidx c l pfn) (endBitidx + 1 - startBitidx) startBitidx 1 0

def setPageblockFlagsGroup (c : Config) (l : FlagLayout) (bitmap : ℕ → Bool) (pfn : ℕ)
    (flags : l.Word) (startBitidx endBitidx : ℕ) : ℕ → Bool :=
  setFlagsLoop flags (pfnToBitidx c l pfn) (endBitidx + 1 - startBitidx) startBitidx 1 bitmap

def usemapMigratetype (c : Config) (l : FlagLayout) (bitmap : ℕ → Bool) (pfn : ℕ) : l.Word :=
  getPageblockFlagsGroup c l bitmap pfn l.pbMigrate l.pbMigrateEnd

def setUsemapMigratetype (c : Config) (l : FlagLayout) (bitmap : ℕ → Bool) (pfn : ℕ)
    (mt : Migratetype) : ℕ → Bool :=
  setPageblockFlagsGroup c l bitmap pfn (.ofNat _ (groupedMigratetype c mt).code) l.pbMigrate
    l.pbMigrateEnd

/-- In bytes. -/
def usemapSize (c : Config) (l : FlagLayout) (zonesize : ℕ) : ℕ :=
  roundup ((roundup zonesize (pageblockNrPages c) >>> c.pageblockOrder) * l.nrPageblockBits)
    (8 * l.sizeofLong) / 8

variable {c : Config} {l : FlagLayout} {w n start bitidx i j k : ℕ} {bitmap : ℕ → Bool}
  {flags : BitVec w} {pfn pfn' : ℕ} {mt : Migratetype}

theorem twoPow_shiftLeft_one (k : ℕ) : BitVec.twoPow w k <<< 1 = BitVec.twoPow w (k + 1) := by
  rw [BitVec.twoPow_eq, BitVec.twoPow_eq, BitVec.shiftLeft_add]

theorem and_twoPow_ne_zero (flags : BitVec w) (k : ℕ) :
    (flags &&& BitVec.twoPow w k != 0) = flags.getLsbD k := by
  rw [BitVec.and_twoPow]
  cases h : flags.getLsbD k with
  | false => simp
  | true =>
    have hk := BitVec.lt_of_getLsbD h
    have hne : BitVec.twoPow w k ≠ 0 := by
      intro he
      have hbit := congrArg (BitVec.getLsbD · k) he
      simp [hk] at hbit
    simpa using hne

theorem getFlagsLoop_spec (bitmap : ℕ → Bool) (bitidx n start k : ℕ) (flags : BitVec w) (j : ℕ) :
    (getFlagsLoop bitmap bitidx n start (BitVec.twoPow w k) flags).getLsbD j =
      (flags.getLsbD j || decide (j < w ∧ k ≤ j ∧ j < k + n) && bitmap (bitidx + start + (j - k))) := by
  induction n generalizing start k flags with
  | zero =>
    rw [getFlagsLoop, decide_eq_false (by omega), Bool.false_and, Bool.or_false]
  | succ n ih =>
    rw [getFlagsLoop, twoPow_shiftLeft_one, ih]
    have hbit : (if bitmap (bitidx + start) then flags ||| BitVec.twoPow w k else flags).getLsbD j =
        (flags.getLsbD j || decide (k < w ∧ k = j) && bitmap (bitidx + start)) := by
      split_ifs with hb <;> simp [hb, BitVec.getLsbD_twoPow]
    rw [hbit, Bool.or_assoc]
    congr 1
    by_cases hkj : k = j
    · subst hkj
      rw [decide_eq_false (p := k < w ∧ k + 1 ≤ k ∧ _) (by omega), Nat.sub_self]
      by_cases hw : k < w
      · rw [decide_eq_true (p := k < w ∧ k = k) ⟨hw, rfl⟩, decide_eq_true (by omega)]
        simp
      · rw [decide_eq_false (p := k < w ∧ k = k) (by omega), decide_eq_false (by omega)]
        simp
    · rw [decide_eq_false (p := k < w ∧ k = j) (by omega), Bool.false_and, Bool.false_or]
      by_cases hj : j < w ∧ k + 1 ≤ j ∧ j < k + 1 + n
      · rw [decide_eq_true hj, decide_eq_true (by omega)]
        congr 2
        omega
      · rw [decide_eq_false hj, decide_eq_false (by omega), Bool.false_and, Bool.false_and]

theorem setFlagsLoop_spec (flags : BitVec w) (bitidx n start k : ℕ) (bitmap : ℕ → Bool) (i : ℕ) :
    setFlagsLoop flags bitidx n start (BitVec.twoPow w k) bitmap i =
      if bitidx + start ≤ i ∧ i < bitidx + start + n then flags.getLsbD (k + (i - (bitidx + start)))
      else bitmap i := by
  induction n generalizing start k bitmap with
  | zero => exact (if_neg (by omega)).symm
  | succ n ih =>
    rw [setFlagsLoop, twoPow_shiftLeft_one, ih, and_twoPow_ne_zero]
    by_cases hi : i = bitidx + start
    · subst hi
      rw [if_neg (by omega), if_pos (by omega), Function.update_self, Nat.sub_self, Nat.add_zero]
    · rw [Function.update_of_ne hi]
      by_cases hin : bitidx + start ≤ i ∧ i < bitidx + start + (n + 1)
      · rw [if_pos (by omega), if_pos hin]
        congr 1
        omega
      · rw [if_neg (by omega), if_neg hin]

theorem getPageblockFlagsGroup_getLsbD {e : ℕ} (j : ℕ) :
    (getPageblockFlagsGroup c l bitmap pfn start e).getLsbD j =
      (decide (j < 8 * l.sizeofLong ∧ j < e + 1 - start) &&
        bitmap (pfnToBitidx c l pfn + start + j)) := by
  have h := getFlagsLoop_spec (w := 8 * l.sizeofLong) bitmap (pfnToBitidx c l pfn) (e + 1 - start) start
    0 0 j
  rw [BitVec.twoPow_zero] at h
  rw [getPageblockFlagsGroup, BitVec.ofNat_eq_ofNat, h]
  simp

theorem setPageblockFlagsGroup_apply {e : ℕ} {flags : l.Word} (i : ℕ) :
    setPageblockFlagsGroup c l bitmap pfn flags start e i =
      if pfnToBitidx c l pfn + start ≤ i ∧ i < pfnToBitidx c l pfn + start + (e + 1 - start) then
        flags.getLsbD (i - (pfnToBitidx c l pfn + start)) else bitmap i := by
  have h := setFlagsLoop_spec flags (pfnToBitidx c l pfn) (e + 1 - start) start 0 bitmap i
  rw [BitVec.twoPow_zero, Nat.zero_add] at h
  exact h

theorem pfnToBitidx_eq (c : Config) (l : FlagLayout) (pfn : ℕ) :
    pfnToBitidx c l pfn =
      (pfn >>> c.pageblockOrder - c.zoneStartPfn >>> c.pageblockOrder) * l.nrPageblockBits := by
  simp only [pfnToBitidx, roundDown, pageblockNrPages, Nat.one_shiftLeft, Nat.shiftRight_eq_div_pow]
  rw [Nat.mul_comm _ (2 ^ c.pageblockOrder), Nat.sub_mul_div]

theorem pfnToBitidx_cases (hp : c.zoneStartPfn ≤ pfn) (hp' : c.zoneStartPfn ≤ pfn')
    (hi : i < l.nrPageblockBits) (hj : j < l.nrPageblockBits)
    (he : pfnToBitidx c l pfn + i = pfnToBitidx c l pfn' + j) :
    pfn >>> c.pageblockOrder = pfn' >>> c.pageblockOrder ∧ i = j := by
  have hpos : 0 < l.nrPageblockBits := Nat.zero_lt_of_lt hi
  have hmono : ∀ {x}, c.zoneStartPfn ≤ x →
      c.zoneStartPfn >>> c.pageblockOrder ≤ x >>> c.pageblockOrder := by
    intro x hx
    rw [Nat.shiftRight_eq_div_pow, Nat.shiftRight_eq_div_pow]
    exact Nat.div_le_div_right hx
  rw [pfnToBitidx_eq, pfnToBitidx_eq, Nat.mul_comm, Nat.mul_comm _ l.nrPageblockBits] at he
  have hdiv := congrArg (· / l.nrPageblockBits) he
  have hmod := congrArg (· % l.nrPageblockBits) he
  simp only [Nat.mul_add_div hpos, Nat.div_eq_of_lt hi, Nat.div_eq_of_lt hj, Nat.add_zero] at hdiv
  simp only [Nat.mul_add_mod, Nat.mod_eq_of_lt hi, Nat.mod_eq_of_lt hj] at hmod
  have := hmono hp
  have := hmono hp'
  exact ⟨by omega, hmod⟩

theorem getPageblockFlagsGroup_congr {e : ℕ}
    (h : pfn >>> c.pageblockOrder = pfn' >>> c.pageblockOrder) :
    getPageblockFlagsGroup c l bitmap pfn start e = getPageblockFlagsGroup c l bitmap pfn' start e := by
  rw [getPageblockFlagsGroup, getPageblockFlagsGroup, pfnToBitidx_eq, pfnToBitidx_eq, h]

theorem get_set_same {e : ℕ} {flags : l.Word} (hf : flags.toNat < 2 ^ (e + 1 - start)) :
    getPageblockFlagsGroup c l (setPageblockFlagsGroup c l bitmap pfn flags start e) pfn start e =
      flags := by
  refine BitVec.eq_of_getLsbD_eq fun j hj => ?_
  rw [getPageblockFlagsGroup_getLsbD, setPageblockFlagsGroup_apply]
  by_cases hje : j < e + 1 - start
  · rw [decide_eq_true ⟨hj, hje⟩, if_pos (by omega), Nat.add_sub_cancel_left, Bool.true_and]
  · rw [decide_eq_false (by omega), Bool.false_and]
    have hlt : flags.toNat < 2 ^ j := hf.trans_le (Nat.pow_le_pow_right two_pos (by omega))
    exact (Nat.testBit_lt_two_pow hlt).symm

theorem get_set_other {e s' e' : ℕ} {flags : l.Word} (hp : c.zoneStartPfn ≤ pfn)
    (hp' : c.zoneStartPfn ≤ pfn') (he : e < l.nrPageblockBits) (he' : e' < l.nrPageblockBits)
    (h : pfn >>> c.pageblockOrder ≠ pfn' >>> c.pageblockOrder ∨ e < s' ∨ e' < start) :
    getPageblockFlagsGroup c l (setPageblockFlagsGroup c l bitmap pfn flags start e) pfn' s' e' =
      getPageblockFlagsGroup c l bitmap pfn' s' e' := by
  refine BitVec.eq_of_getLsbD_eq fun j hj => ?_
  rw [getPageblockFlagsGroup_getLsbD, getPageblockFlagsGroup_getLsbD]
  by_cases hje : j < e' + 1 - s'
  · rw [setPageblockFlagsGroup_apply, if_neg]
    rintro ⟨hlow, hhigh⟩
    obtain ⟨i, hi⟩ := Nat.exists_eq_add_of_le hlow
    obtain ⟨hsame, hij⟩ := pfnToBitidx_cases (l := l) (i := start + i) (j := s' + j) hp hp'
      (by omega) (by omega) (by omega)
    rcases h with hne | hlt | hlt
    · exact hne hsame
    · omega
    · omega
  · rw [decide_eq_false (by omega), Bool.false_and, Bool.false_and]

/-- Of every page from the start of the zone on the bitmap says what the zone says. -/
def UsemapOk (c : Config) (l : FlagLayout) (bitmap : ℕ → Bool) (z : Zone) : Prop :=
  ∀ pfn, c.zoneStartPfn ≤ pfn →
    usemapMigratetype c l bitmap pfn = .ofNat _ (getPageblockMigratetype c z pfn).code

theorem code_toNat_lt (l : FlagLayout) (mt : Migratetype) :
    (BitVec.ofNat (8 * l.sizeofLong) mt.code).toNat < 2 ^ (l.pbMigrateEnd + 1 - l.pbMigrate) := by
  have hcode : mt.code < 2 ^ 3 := by cases mt <;> decide
  have hbits := l.required_bits
  rw [BitVec.toNat_ofNat, show l.pbMigrateEnd + 1 - l.pbMigrate = 3 by omega]
  exact (Nat.mod_le ..).trans_lt hcode

theorem UsemapOk.set {z : Zone} (h : UsemapOk c l bitmap z) (mt : Migratetype) (hp : c.zoneStartPfn ≤ pfn) :
    UsemapOk c l (setUsemapMigratetype c l bitmap pfn mt) (setPageblockMigratetype c z pfn mt) := by
  intro p hp'
  simp only [getPageblockMigratetype, setPageblockMigratetype]
  by_cases hsame : p >>> c.pageblockOrder = pfn >>> c.pageblockOrder
  · rw [hsame, Function.update_self, usemapMigratetype, getPageblockFlagsGroup_congr hsame]
    exact get_set_same (code_toNat_lt l _)
  · rw [Function.update_of_ne hsame, ← getPageblockMigratetype, ← h p hp']
    exact get_set_other hp hp' l.end_lt l.end_lt (Or.inl (Ne.symm hsame))

def setUsemapMigratetypes (c : Config) (l : FlagLayout) (calls : List (ℕ × Migratetype))
    (bitmap : ℕ → Bool) : ℕ → Bool :=
  calls.foldl (fun bitmap r => setUsemapMigratetype c l bitmap r.1 r.2) bitmap

def setPageblockMigratetypes (c : Config) (calls : List (ℕ × Migratetype)) (z : Zone) : Zone :=
  calls.foldl (fun z r => setPageblockMigratetype c z r.1 r.2) z

/-- However often the migratetypes of pageblocks are set, the bitmap says what the model says, and the
other groups of every pageblock read as before. -/
theorem setUsemapMigratetypes_spec {z : Zone} (h : UsemapOk c l bitmap z)
    (calls : List (ℕ × Migratetype)) (hc : ∀ r ∈ calls, c.zoneStartPfn ≤ r.1) :
    UsemapOk c l (setUsemapMigratetypes c l calls bitmap) (setPageblockMigratetypes c calls z) ∧
      ∀ pfn start e, c.zoneStartPfn ≤ pfn → e < l.nrPageblockBits →
        (e < l.pbMigrate ∨ l.pbMigrateEnd < start) →
        getPageblockFlagsGroup c l (setUsemapMigratetypes c l calls bitmap) pfn start e =
          getPageblockFlagsGroup c l bitmap pfn start e := by
  induction calls generalizing bitmap z with
  | nil => exact ⟨h, fun _ _ _ _ _ _ => rfl⟩
  | cons r calls ih =>
    have hr := hc r (List.mem_cons_self ..)
    obtain ⟨hok, hother⟩ := ih (h.set r.2 hr) fun r' hr' => hc r' (List.mem_cons_of_mem _ hr')
    refine ⟨hok, fun pfn start e hp he hgroup => (hother pfn start e hp he hgroup).trans ?_⟩
    exact get_set_other hr hp l.end_lt he (Or.inr hgroup.symm)

theorem usemapOk_clear {z : Zone} (h : ∀ i, z.pageblock i = .unmovable) :
    UsemapOk c l (fun _ => false) z := by
  intro pfn _
  refine BitVec.eq_of_getLsbD_eq fun j _ => ?_
  rw [usemapMigratetype, getPageblockFlagsGroup_getLsbD, Bool.and_false, getPageblockMigratetype, h]
  exact (BitVec.getLsbD_zero).symm

theorem shiftedZone_span {p : ℕ} (h : (decide (0 < p) && decide (p < 65)) = true) : 0 < p ∧ p < 65 := by
  simpa using h

def shiftedZone : Config :=
  { fourPages with
    zoneStartPfn := 1
    spannedPages := 64
    pfnValid := fun p => decide (0 < p) && decide (p < 65)
    pfnValidWithin := fun p => decide (0 < p) && decide (p < 65)
    valid := fun _ h => h
    span := fun _ h => iff_of_true rfl (shiftedZone_span h) }

def armLayout : FlagLayout := ⟨0, 2, 3, 4, by decide, rfl, by decide⟩

theorem setUsemapMigratetypes_spec_shiftedZone :
    usemapMigratetype shiftedZone armLayout (setUsemapMigratetypes shiftedZone armLayout
      [(1, .reserve), (3, .isolate), (1, .movable)] fun _ => false) 2 = 5#32 := by
  have hok := usemapOk_clear (c := shiftedZone) (l := armLayout)
    (z := ⟨fun _ => ⟨false, false, 0, 0⟩, fun _ => ⟨fun _ => [], 0⟩, fun _ => .unmovable, 0, 0⟩)
    fun _ => rfl
  exact (setUsemapMigratetypes_spec hok [(1, .reserve), (3, .isolate), (1, .movable)]
    (by decide)).1 2 (by decide)

theorem roundup_le (x : ℕ) (h : 0 < n) : x ≤ roundup x n ∧ roundup x n < x + n := by
  have hdiv := Nat.div_add_mod (x + (n - 1)) n
  have hmod := Nat.mod_lt (x + (n - 1)) h
  rw [Nat.mul_comm] at hdiv
  rw [roundup]
  omega

def touchedPageblocks (c : Config) : ℕ :=
  (c.zoneStartPfn + c.spannedPages - 1) >>> c.pageblockOrder + 1 -
    c.zoneStartPfn >>> c.pageblockOrder

def sizedPageblocks (c : Config) : ℕ :=
  roundup c.spannedPages (pageblockNrPages c) >>> c.pageblockOrder

theorem touchedPageblocks_cases (h : 0 < c.spannedPages) :
    touchedPageblocks c = sizedPageblocks c ∨ touchedPageblocks c = sizedPageblocks c + 1 := by
  have hpos := Nat.two_pow_pos c.pageblockOrder
  simp only [touchedPageblocks, sizedPageblocks, roundup, pageblockNrPages, Nat.one_shiftLeft,
    Nat.shiftRight_eq_div_pow, Nat.mul_div_cancel _ hpos]
  generalize 2 ^ c.pageblockOrder = m at hpos
  have hstart := Nat.div_add_mod c.zoneStartPfn m
  have hend := Nat.div_add_mod (c.zoneStartPfn + c.spannedPages - 1) m
  have hsize := Nat.div_add_mod (c.spannedPages + (m - 1)) m
  have hstart' := Nat.mod_lt c.zoneStartPfn hpos
  have hend' := Nat.mod_lt (c.zoneStartPfn + c.spannedPages - 1) hpos
  have hsize' := Nat.mod_lt (c.spannedPages + (m - 1)) hpos
  generalize c.zoneStartPfn / m = a at *
  generalize (c.zoneStartPfn + c.spannedPages - 1) / m = b at *
  generalize (c.spannedPages + (m - 1)) / m = d at *
  have hlow : a + d ≤ b + 1 := by
    by_contra hlt
    have hmul : m * (b + 2) ≤ m * (a + d) := Nat.mul_le_mul_left m (by omega)
    rw [Nat.mul_add, Nat.mul_add] at hmul
    omega
  have hhigh : b ≤ a + d := by
    by_contra hlt
    have hmul : m * (a + d + 1) ≤ m * b := Nat.mul_le_mul_left m (by omega)
    rw [Nat.mul_add, Nat.mul_add] at hmul
    omega
  omega

theorem mul_usemapSize (c : Config) (l : FlagLayout) : 8 * usemapSize c l c.spannedPages =
    roundup (sizedPageblocks c * l.nrPageblockBits) (8 * l.sizeofLong) := by
  rw [usemapSize]
  refine Nat.mul_div_cancel' ?_
  exact Dvd.dvd.mul_left (Nat.dvd_mul_right ..) _

/-- `usemap_size` does not ask where the zone starts. The bitmap holds the bits of all pages of the
zone exactly if the zone touches no more pageblocks than one of its size must, or rounding to words
leaves room for one pageblock more. -/
theorem usemapSize_covers_iff (c : Config) (l : FlagLayout) (h : 0 < c.spannedPages) :
    (∀ pfn, c.zoneStartPfn ≤ pfn → pfn < c.zoneStartPfn + c.spannedPages →
      ∀ i < l.nrPageblockBits, pfnToBitidx c l pfn + i < 8 * usemapSize c l c.spannedPages) ↔
    touchedPageblocks c = sizedPageblocks c ∨
      l.nrPageblockBits ≤ roundup (sizedPageblocks c * l.nrPageblockBits) (8 * l.sizeofLong) -
        sizedPageblocks c * l.nrPageblockBits := by
  have hbits : 0 < l.nrPageblockBits := Nat.zero_lt_of_lt l.end_lt
  have hword : 0 < 8 * l.sizeofLong := Nat.mul_pos (by decide) l.sizeofLong_pos
  obtain ⟨hround, -⟩ := roundup_le (sizedPageblocks c * l.nrPageblockBits) hword
  rw [mul_usemapSize]
  -- it is the last bit of the last page that has to fit
  have hfit : (∀ pfn, c.zoneStartPfn ≤ pfn → pfn < c.zoneStartPfn + c.spannedPages →
      ∀ i < l.nrPageblockBits, pfnToBitidx c l pfn + i <
        roundup (sizedPageblocks c * l.nrPageblockBits) (8 * l.sizeofLong)) ↔
      touchedPageblocks c * l.nrPageblockBits ≤
        roundup (sizedPageblocks c * l.nrPageblockBits) (8 * l.sizeofLong) := by
    have hmono : ∀ {x y : ℕ}, x ≤ y → x >>> c.pageblockOrder ≤ y >>> c.pageblockOrder := by
      intro x y hxy
      rw [Nat.shiftRight_eq_div_pow, Nat.shiftRight_eq_div_pow]
      exact Nat.div_le_div_right hxy
    constructor
    · intro hall
      have hlast := hall (c.zoneStartPfn + c.spannedPages - 1) (by omega) (by omega)
        (l.nrPageblockBits - 1) (by omega)
      have hle := hmono (show c.zoneStartPfn ≤ c.zoneStartPfn + c.spannedPages - 1 by omega)
      rw [pfnToBitidx_eq] at hlast
      rw [touchedPageblocks, Nat.sub_add_comm hle, Nat.add_mul]
      omega
    · intro hle pfn hlow hhigh i hi
      have hlt : pfn >>> c.pageblockOrder - c.zoneStartPfn >>> c.pageblockOrder + 1 ≤
          touchedPageblocks c := by
        have := hmono hlow
        have := hmono (show pfn ≤ c.zoneStartPfn + c.spannedPages - 1 by omega)
        rw [touchedPageblocks]
        omega
      have hmul := Nat.mul_le_mul_right l.nrPageblockBits hlt
      rw [Nat.add_mul] at hmul
      rw [pfnToBitidx_eq]
      omega
  rw [hfit]
  rcases touchedPageblocks_cases h with he | he
  · rw [he]
    exact iff_of_true hround (Or.inl rfl)
  · rw [he, Nat.add_mul, Nat.one_mul]
    constructor
    · exact fun hle => Or.inr (by omega)
    · rintro (hbad | hle)
      · omega
      · omega

/-- There is no room for the last of the 33 pageblocks of such a zone. -/
theorem usemapSize_covers_iff_shiftedZone : ¬ ∀ pfn, shiftedZone.zoneStartPfn ≤ pfn →
    pfn < shiftedZone.zoneStartPfn + shiftedZone.spannedPages → ∀ i < armLayout.nrPageblockBits,
      pfnToBitidx shiftedZone armLayout pfn + i < 8 * usemapSize shiftedZone armLayout 64 := by
  rw [show 64 = shiftedZone.spannedPages from rfl,
    usemapSize_covers_iff shiftedZone armLayout (by decide)]
  decide

end AndroidKernel.Pages
