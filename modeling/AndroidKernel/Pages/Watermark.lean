import AndroidKernel.Pages.Zone

/-! The watermark check that stands before an allocation. -/

namespace AndroidKernel.Pages

variable {c : Config} {z : Zone} {order : ℕ}

/-- The flags of a request that lower the watermark, and whether it may use CMA pages. -/
structure AllocFlags where
  high : Bool
  harder : Bool
  cma : Bool

/-- The loop of `__zone_watermark_ok` from order `o` on; `shift` is `min_free_order_shift`. -/
def watermarkLoop (z : Zone) (shift : ℕ) : ℕ → ℕ → ℤ → ℤ → Bool
  | 0, _, _, _ => true
  | fuel + 1, o, freePages, min =>
    let freePages := freePages - (z.freeArea o).nrFree * 2 ^ o
    let min := min >>> shift
    if freePages ≤ min then false else watermarkLoop z shift fuel (o + 1) freePages min

/-- `__zone_watermark_ok`; `lowmemReserve` is that of the class zone. The counter of the CMA pages is
read as `zone_page_state` does, which never answers less than zero. -/
def zoneWatermarkOk (c : Config) (z : Zone) (shift order mark lowmemReserve : ℕ) (f : AllocFlags)
    (freePages : ℤ) : Bool :=
  let min : ℤ := mark
  let freePages := freePages - ((1 <<< order : ℕ) - 1)
  let min := if f.high then min - min / 2 else min
  let min := if f.harder then min - min / 4 else min
  let freePages := if c.cma && !f.cma then freePages - z.nrFreeCmaPages.toNat else freePages
  if freePages ≤ min + lowmemReserve then false else watermarkLoop z shift order 0 freePages min

theorem watermarkLoop_sound {shift fuel o : ℕ} {freePages min : ℤ} (hmin : 0 ≤ min)
    (hf : 0 < freePages) (h : watermarkLoop z shift fuel o freePages min = true) :
    ∑ i ∈ Finset.range fuel, (z.freeArea (o + i)).nrFree * 2 ^ (o + i) < freePages := by
  induction fuel generalizing o freePages min with
  | zero => simpa using hf
  | succ fuel ih =>
    simp only [watermarkLoop] at h
    split_ifs at h with hle
    have hshift : 0 ≤ min >>> shift := by
      rw [Int.shiftRight_eq_div_pow]
      positivity
    have hrest := ih hshift (by omega) h
    rw [Finset.sum_range_succ']
    simp only [Nat.add_zero]
    have hsum : ∑ i ∈ Finset.range fuel, (z.freeArea (o + (i + 1))).nrFree * 2 ^ (o + (i + 1)) =
        ∑ i ∈ Finset.range fuel, (z.freeArea (o + 1 + i)).nrFree * 2 ^ (o + 1 + i) :=
      Finset.sum_congr rfl fun i _ => by rw [Nat.add_right_comm, Nat.add_assoc]
    rw [hsum]
    omega

theorem zoneWatermarkOk_sound {shift mark reserve : ℕ} {f : AllocFlags} {freePages : ℤ}
    (h : zoneWatermarkOk c z shift order mark reserve f freePages = true) :
    ∑ o ∈ Finset.range order, (z.freeArea o).nrFree * 2 ^ o < freePages := by
  simp only [zoneWatermarkOk] at h
  have hpow : (1 : ℤ) ≤ (1 <<< order : ℕ) := by
    rw [Nat.one_shiftLeft]
    exact_mod_cast Nat.one_le_two_pow
  generalize hm₁ : (if f.high then (mark : ℤ) - mark / 2 else mark) = min₁ at h
  have hmin₁ : 0 ≤ min₁ := by
    rw [← hm₁]
    split_ifs <;> omega
  generalize hm₂ : (if f.harder then min₁ - min₁ / 4 else min₁) = min₂ at h
  have hmin₂ : 0 ≤ min₂ := by
    rw [← hm₂]
    split_ifs <;> omega
  generalize hfp : (if c.cma && !f.cma then freePages - ((1 <<< order : ℕ) - 1) - z.nrFreeCmaPages.toNat
    else freePages - ((1 <<< order : ℕ) - 1)) = freePages' at h
  have hle : freePages' ≤ freePages := by
    rw [← hfp]
    split_ifs <;> omega
  split_ifs at h with hmark
  have hloop := watermarkLoop_sound hmin₂ (by omega) h
  simp only [Nat.zero_add] at hloop
  omega

end AndroidKernel.Pages
