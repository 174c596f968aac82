import ContextLattice.Foundation.Interpolation

/-!
# Latency percentiles

`_retrieval_latency_snapshot` sorts the samples of a source and interpolates between them. The
values are exact, before they are rounded.
-/

namespace ContextLattice

open Foundation List

/-- `_percentile` of a list that is sorted. -/
def percentile (values : List ℚ) (pct : ℚ) : ℚ :=
  if values = [] then 0
  else
    let quantile := max 0 (min 1 pct)
    if values.length = 1 then values.getD 0 0
    else
      let rank := (values.length - 1) * quantile
      let lower := values.getD ⌊rank⌋₊ 0
      let upper := values.getD ⌈rank⌉₊ 0
      if ⌊rank⌋₊ = ⌈rank⌉₊ then lower else lower + (upper - lower) * (rank - ⌊rank⌋₊)

def latencyPercentile (samples : List ℚ) (pct : ℚ) : ℚ :=
  percentile (samples.insertionSort (· ≤ ·)) pct

def percentileRank (count : ℕ) (pct : ℚ) : ℚ := (count - 1) * max 0 (min 1 pct)

theorem percentile_eq {values : List ℚ} (h : values ≠ []) (pct : ℚ) :
    percentile values pct = interpolate (values.getD · 0) (percentileRank values.length pct) := by
  unfold percentile interpolate percentileRank
  rw [if_neg h]
  split
  · next hone => simp [hone]
  · dsimp only
    split_ifs with hint
    · simp [hint]
    · rfl

theorem percentileRank_mem {count : ℕ} (h : 0 < count) (pct : ℚ) :
    0 ≤ percentileRank count pct ∧ percentileRank count pct ≤ (count - 1 : ℕ) := by
  have hcount : (1 : ℚ) ≤ count := Nat.one_le_cast.mpr h
  have hpct : max 0 (min 1 pct) ≤ 1 := max_le zero_le_one (min_le_left ..)
  rw [Nat.cast_sub h, Nat.cast_one]
  exact ⟨mul_nonneg (by linarith) (le_max_left ..), mul_le_of_le_one_right (by linarith) hpct⟩

/-- **Percentiles are ordered**: by the fraction, between any bounds of the samples, and by the
samples. -/
theorem percentiles_ordered {samples : List ℚ} (h : samples ≠ []) :
    Monotone (latencyPercentile samples) ∧
      (∀ pct lo hi, (∀ x ∈ samples, lo ≤ x ∧ x ≤ hi) →
        lo ≤ latencyPercentile samples pct ∧ latencyPercentile samples pct ≤ hi) ∧
      ∀ pct samples', Forall₂ (· ≤ ·) samples samples' →
        latencyPercentile samples pct ≤ latencyPercentile samples' pct := by
  set s := samples.insertionSort (· ≤ ·) with hs
  have hne : s ≠ [] := by
    rwa [Ne, ← length_eq_zero_iff, hs, length_insertionSort, length_eq_zero_iff]
  have hpos := length_pos_iff.mpr hne
  have hsorted (i j : ℕ) (hij : i ≤ j) (hj : j ≤ s.length - 1) : s.getD i 0 ≤ s.getD j 0 := by
    rw [getD_eq_getElem _ _ (by omega), getD_eq_getElem _ _ (by omega)]
    exact sortedLE_insertionSort.getElem_le_getElem_of_le hij
  have hrank := percentileRank_mem hpos
  refine ⟨fun pct pct' hle => ?_, fun pct lo hi hbounds => ?_, fun pct samples' hle => ?_⟩
  · unfold latencyPercentile
    rw [percentile_eq hne, percentile_eq hne]
    refine interpolate_le_of_le hsorted (hrank pct).1 ?_ (hrank pct').2
    have hcount : (1 : ℚ) ≤ s.length := Nat.one_le_cast.mpr hpos
    exact mul_le_mul_of_nonneg_left (max_le_max le_rfl (min_le_min le_rfl hle)) (by linarith)
  · have hmem {i : ℕ} (hi : i ≤ s.length - 1) : s.getD i 0 ∈ samples := by
      rw [getD_eq_getElem _ _ (by omega)]
      exact (mem_insertionSort _).mp (getElem_mem _)
    obtain ⟨hlower, hupper⟩ := interpolate_mem hsorted (hrank pct).1 (hrank pct).2
    have hceil := Nat.ceil_le.mpr (hrank pct).2
    unfold latencyPercentile
    rw [percentile_eq hne]
    exact ⟨(hbounds _ (hmem ((Nat.floor_le_ceil _).trans hceil))).1.trans hlower,
      hupper.trans (hbounds _ (hmem hceil)).2⟩
  · have hsort := forall₂_insertionSort hle
    have hne' : samples'.insertionSort (· ≤ ·) ≠ [] := by
      rwa [Ne, ← length_eq_zero_iff, ← hsort.length_eq, length_eq_zero_iff]
    unfold latencyPercentile
    rw [percentile_eq hne, percentile_eq hne', ← hsort.length_eq]
    exact interpolate_le_interpolate (getD_le_getD hsort) (hrank pct).1

theorem percentiles_ordered_two : Monotone (latencyPercentile [30, 10]) :=
  (percentiles_ordered (by simp)).1

end ContextLattice
