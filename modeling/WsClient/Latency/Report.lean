import WsClient.Latency.Percentile
import Mathlib.Data.List.Chain

/-!
# The report

The figures of `print_report` in order, as exact numbers and as the hundredths that are shown.
-/

namespace WsClient.Latency

open Lib

variable {samples sorted : List Int64} {x y : ℚ}

/-- The two roundings of neighbours at one floor, and the floors between them. -/
theorem hundredths_mono (h : x ≤ y) : hundredths x ≤ hundredths y := by
  have hlow : ⌊x*100⌋ ≤ ⌊y*100⌋ := Int.floor_le_floor (mul_le_mul_of_nonneg_right h (by norm_num))
  have hx : hundredths x = ⌊x*100⌋ ∨ hundredths x = ⌊x*100⌋+1 := by
    rw [hundredths]
    split_ifs <;> simp
  have hy : ⌊y*100⌋ ≤ hundredths y := by
    rw [hundredths]
    split_ifs <;> simp
  by_cases heq : ⌊x*100⌋ = ⌊y*100⌋
  · rw [hundredths,hundredths,heq]
    split_ifs <;> first | omega | linarith
  · rcases hx with hx | hx <;> omega

/-- `percentile` as the sequence at the rank. -/
def percentileAt (sorted : List Int64) (pct : ℚ) : ℚ :=
  interpolate (stair sorted) (rank sorted.length pct)

/-- The report of ascending samples, each of its figures named. -/
theorem figures_eq (hne : sorted ≠ []) :
    ∃ variance, figures sorted = some ⟨sorted.length,toDouble (sorted.head hne)/1000,
      toDouble (sorted.getLast hne)/1000,
      sorted.foldl (fun sum s => sum+toDouble s) 0/sorted.length/1000,variance,
      percentileAt sorted 50/1000,percentileAt sorted 95/1000,percentileAt sorted 99/1000,
      percentileAt sorted (999/10)/1000⟩ := by
  rw [figures,List.head?_eq_some_head hne,List.getLast?_eq_getLast_of_ne_nil hne,
    percentile_eq hne (by norm_num) (by norm_num),percentile_eq hne (by norm_num) (by norm_num),
    percentile_eq hne (by norm_num) (by norm_num),percentile_eq hne (by norm_num) (by norm_num)]
  exact ⟨_,rfl⟩

theorem printReport_of_ne_nil {stats : LatencyStats} (hne : stats.samplesNs ≠ [])
    (label : String) :
    printReport stats label = (figures (sort stats.samplesNs)).map (.table label) := by
  have hempty : stats.samplesNs.isEmpty = false := by simpa using hne
  rw [printReport,if_neg (by rw [hempty]; exact Bool.false_ne_true)]

theorem head_le_percentileAt {pct : ℚ} (hne : sorted ≠ []) (hs : sorted.Pairwise (· ≤ ·))
    (h0 : 0 ≤ pct) : toDouble (sorted.head hne) ≤ percentileAt sorted pct := by
  rw [← stair_zero hne]
  exact (stair_monotone hs (Nat.zero_le _)).trans (le_interpolate (stair_monotone hs) (rank_nonneg h0))

theorem percentileAt_le_last {pct : ℚ} (hne : sorted ≠ []) (hs : sorted.Pairwise (· ≤ ·))
    (h0 : 0 ≤ pct) (h100 : pct ≤ 100) :
    percentileAt sorted pct ≤ toDouble (sorted.getLast hne) := by
  obtain ⟨v,w,hv,hw,hle⟩ := percentile_le hne hs h0 h100 le_rfl
  rw [percentile_eq hne h0 h100] at hv
  rw [percentile_hundred hne,stair_last hne] at hw
  cases hv
  cases hw
  exact hle

theorem percentileAt_mono {p q : ℚ} (hs : sorted.Pairwise (· ≤ ·)) (h0 : 0 ≤ p) (hpq : p ≤ q) :
    percentileAt sorted p ≤ percentileAt sorted q :=
  interpolate_mono (stair_monotone hs) (rank_nonneg h0) (rank_mono hpq)

/-- The figures of a report from the least to the greatest, as its rows order them. -/
def Figures.ascending (f : Figures) : List ℚ := [f.min,f.median,f.p95,f.p99,f.p999,f.max]

theorem figures_ascending (hne : sorted ≠ []) (hs : sorted.Pairwise (· ≤ ·)) :
    ∃ f, figures sorted = some f ∧ f.ascending.IsChain (· ≤ ·) := by
  obtain ⟨variance,hfig⟩ := figures_eq hne
  have hmin : toDouble (sorted.head hne) ≤ percentileAt sorted 50 :=
    head_le_percentileAt hne hs (by norm_num)
  have h95 : percentileAt sorted 50 ≤ percentileAt sorted 95 :=
    percentileAt_mono hs (by norm_num) (by norm_num)
  have h99 : percentileAt sorted 95 ≤ percentileAt sorted 99 :=
    percentileAt_mono hs (by norm_num) (by norm_num)
  have h999 : percentileAt sorted 99 ≤ percentileAt sorted (999/10) :=
    percentileAt_mono hs (by norm_num) (by norm_num)
  have hmax : percentileAt sorted (999/10) ≤ toDouble (sorted.getLast hne) :=
    percentileAt_le_last hne hs (by norm_num) (by norm_num)
  refine ⟨_,hfig,?_⟩
  simp only [Figures.ascending,List.isChain_cons_cons,List.isChain_singleton,and_true]
  refine ⟨?_,?_,?_,?_,?_⟩ <;> exact div_le_div_of_nonneg_right (by assumption) (by norm_num)

/-- `percentile` is monotone in its percentage between the least and the greatest sample, and
monotone in the samples; so the figures of a report stand in order, exact and as they are
shown. -/
theorem percentile_monotone :
    (∀ sorted p q, sorted ≠ [] → sorted.Pairwise (· ≤ ·) → 0 ≤ p → p ≤ q → q ≤ 100 →
      ∃ min max v w, sorted.head? = some min ∧ sorted.getLast? = some max ∧
        (∀ s ∈ sorted, min ≤ s ∧ s ≤ max) ∧
        percentile sorted p = some v ∧ percentile sorted q = some w ∧
        toDouble min ≤ v ∧ v ≤ w ∧ w ≤ toDouble max ∧
        percentile sorted 0 = some (toDouble min) ∧
        percentile sorted 100 = some (toDouble max)) ∧
    (∀ samples raised pct, samples ≠ [] → List.Forall₂ (· ≤ ·) samples raised → 0 ≤ pct →
      pct ≤ 100 → ∃ v w, percentile (sort samples) pct = some v ∧
        percentile (sort raised) pct = some w ∧ v ≤ w) ∧
    (∀ (stats : LatencyStats) label, stats.samplesNs ≠ [] →
      ∃ f, printReport stats label = some (.table label f) ∧
        f.ascending.IsChain (· ≤ ·) ∧ (f.ascending.map hundredths).IsChain (· ≤ ·)) := by
  refine ⟨?_,?_,?_⟩
  · intro sorted p q hne hs h0 hpq h100
    refine ⟨_,_,_,_,List.head?_eq_some_head hne,List.getLast?_eq_getLast_of_ne_nil hne,?_,
      percentile_eq hne h0 (hpq.trans h100),percentile_eq hne (h0.trans hpq) h100,
      head_le_percentileAt hne hs h0,percentileAt_mono hs h0 hpq,
      percentileAt_le_last hne hs (h0.trans hpq) h100,?_,?_⟩
    · intro s hmem
      obtain ⟨i,hi,rfl⟩ := List.getElem_of_mem hmem
      rw [← toDouble_le_toDouble,← toDouble_le_toDouble,← stair_zero hne,← stair_last hne,
        ← stair_eq hi]
      exact ⟨stair_monotone hs (Nat.zero_le i),stair_monotone hs (by omega)⟩
    · rw [percentile_zero hne,stair_zero hne]
    · rw [percentile_hundred hne,stair_last hne]
  · intro samples raised pct hne h h0 h100
    have hlen : samples.length = raised.length := h.length_eq
    have hne' : raised ≠ [] := by
      rw [← List.length_pos_iff,← hlen]
      exact List.length_pos_iff.mpr hne
    refine ⟨_,_,percentile_eq (sort_ne_nil hne) h0 h100,percentile_eq (sort_ne_nil hne') h0 h100,?_⟩
    rw [length_sort,length_sort,hlen]
    exact interpolate_le_interpolate (stair_le_of_forall₂ h) (rank_nonneg h0)
  · intro stats label hne
    obtain ⟨f,hfig,hchain⟩ := figures_ascending (sort_ne_nil hne) (sort_pairwise stats.samplesNs)
    refine ⟨f,?_,hchain,?_⟩
    · rw [printReport_of_ne_nil hne,hfig]
      rfl
    · rw [List.isChain_map]
      exact hchain.imp fun _ _ => hundredths_mono

theorem percentile_monotone_three :
    (∃ min max v w, [(-3 : Int64),1,7].head? = some min ∧ [(-3 : Int64),1,7].getLast? = some max ∧
      (∀ s ∈ [(-3 : Int64),1,7], min ≤ s ∧ s ≤ max) ∧
      percentile [-3,1,7] 40 = some v ∧ percentile [-3,1,7] 95 = some w ∧
      toDouble min ≤ v ∧ v ≤ w ∧ w ≤ toDouble max ∧
      percentile [-3,1,7] 0 = some (toDouble min) ∧
      percentile [-3,1,7] 100 = some (toDouble max)) ∧
    (∃ v w, percentile (sort [7,-3,1]) 40 = some v ∧ percentile (sort [7,2,1]) 40 = some w ∧
      v ≤ w) ∧
    ∃ f, printReport ⟨[7,-3,1]⟩ "burst" = some (.table "burst" f) ∧
      f.ascending.IsChain (· ≤ ·) ∧ (f.ascending.map hundredths).IsChain (· ≤ ·) :=
  ⟨percentile_monotone.1 [-3,1,7] 40 95 (by decide) (by decide) (by norm_num) (by norm_num)
      (by norm_num),
    percentile_monotone.2.1 [7,-3,1] [7,2,1] 40 (by decide)
      (.cons (by decide) (.cons (by decide) (.cons (by decide) .nil))) (by norm_num) (by norm_num),
    percentile_monotone.2.2 ⟨[7,-3,1]⟩ "burst" (by decide)⟩

end WsClient.Latency
