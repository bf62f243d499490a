import WsClient.Latency.Report
import WsClient.Lib.Moments

/-!
# Mean and deviation in the report

The mean that `print_report` writes lies between its Min and its Max, and the deviation is at most
half of what lies between them.
-/

namespace WsClient.Latency
open Lib

variable {sorted : List Int64}

/-- The samples in microseconds. -/
def micros (sorted : List Int64) : List ℚ := sorted.map fun s => toDouble s/1000

theorem micros_ne_nil (hne : sorted ≠ []) : micros sorted ≠ [] := by
  simpa [micros] using hne

theorem foldl_add_eq (f : Int64 → ℚ) (c : ℚ) (l : List Int64) :
    l.foldl (fun acc s => acc+f s) c = c+(l.map f).sum := by
  induction l generalizing c with
  | nil => simp
  | cons s l ih =>
    rw [List.foldl_cons,ih,List.map_cons,List.sum_cons,add_assoc]

theorem mean_micros (sorted : List Int64) : mean (micros sorted) =
    sorted.foldl (fun sum s => sum+toDouble s) 0/sorted.length/1000 := by
  have hsum : (micros sorted).sum = (sorted.map toDouble).sum/1000 := by
    rw [micros]
    induction sorted with
    | nil => simp
    | cons s l ih =>
      rw [List.map_cons,List.sum_cons,List.map_cons,List.sum_cons,ih,add_div]
  have hlength : (micros sorted).length = sorted.length := by simp [micros]
  rw [mean,hsum,hlength,foldl_add_eq,zero_add,div_right_comm]

/-- Mean and variance of a report are those of the samples. -/
theorem figures_moments (hne : sorted ≠ []) : ∃ f, figures sorted = some f ∧
    f.min = toDouble (sorted.head hne)/1000 ∧ f.max = toDouble (sorted.getLast hne)/1000 ∧
      f.mean = mean (micros sorted) ∧ f.variance = variance (micros sorted) := by
  have hsquares (c : ℚ) : sorted.foldl
      (fun sqSum s => sqSum+(toDouble s/1000-c)*(toDouble s/1000-c)) 0 =
        squares (micros sorted) c := by
    rw [foldl_add_eq,zero_add,squares,micros,List.map_map]
    rfl
  have hlength : (micros sorted).length = sorted.length := by simp [micros]
  rw [figures,List.head?_eq_some_head hne,List.getLast?_eq_getLast_of_ne_nil hne,
    percentile_eq hne (by norm_num) (by norm_num),percentile_eq hne (by norm_num) (by norm_num),
    percentile_eq hne (by norm_num) (by norm_num),percentile_eq hne (by norm_num) (by norm_num)]
  refine ⟨_,rfl,rfl,rfl,(mean_micros sorted).symm,?_⟩
  rw [variance,hlength,← hsquares,mean_micros]

theorem micros_bounds (hne : sorted ≠ []) (hs : sorted.Pairwise (· ≤ ·)) :
    ∀ x ∈ micros sorted, toDouble (sorted.head hne)/1000 ≤ x ∧
      x ≤ toDouble (sorted.getLast hne)/1000 := by
  intro x hx
  obtain ⟨s,hmem,rfl⟩ := List.mem_map.mp hx
  obtain ⟨i,hi,rfl⟩ := List.getElem_of_mem hmem
  have hlow : toDouble (sorted.head hne) ≤ toDouble sorted[i] := by
    rw [← stair_zero hne,← stair_eq hi]
    exact stair_monotone hs (Nat.zero_le i)
  have hhigh : toDouble sorted[i] ≤ toDouble (sorted.getLast hne) := by
    rw [← stair_last hne,← stair_eq hi]
    exact stair_monotone hs (by omega)
  exact ⟨div_le_div_of_nonneg_right hlow (by norm_num),
    div_le_div_of_nonneg_right hhigh (by norm_num)⟩

theorem micros_eq_iff {x y : Int64} : toDouble x/1000 = toDouble y/1000 ↔ x = y := by
  rw [div_left_inj' (by norm_num)]
  refine ⟨fun h => Int64.le_antisymm ?_ ?_,congrArg _⟩
  · exact toDouble_le_toDouble.mp h.le
  · exact toDouble_le_toDouble.mp h.ge

/-- The Mean of a report stands between Min and Max, also as it is shown; the square of StdDev is
at most the product of its distances to them, so StdDev is at most half of Max-Min, and it is 0
exactly when all samples are the same. -/
theorem spread_bounded (stats : LatencyStats) (label : String) (hne : stats.samplesNs ≠ []) :
    ∃ f, printReport stats label = some (.table label f) ∧
      ([f.min,f.mean,f.max].map hundredths).IsChain (· ≤ ·) ∧
      f.min ≤ f.mean ∧ f.mean ≤ f.max ∧ 0 ≤ f.variance ∧
      f.variance ≤ (f.max-f.mean)*(f.mean-f.min) ∧ f.variance ≤ ((f.max-f.min)/2)^2 ∧
      (f.variance = 0 ↔ ∀ x ∈ stats.samplesNs, ∀ y ∈ stats.samplesNs, x = y) := by
  have hsorted := sort_ne_nil hne
  obtain ⟨f,hfig,hmin,hmax,hmean,hvariance⟩ := figures_moments hsorted
  have hbounds := micros_bounds hsorted (sort_pairwise stats.samplesNs)
  have hmicros := micros_ne_nil hsorted
  have hlow : f.min ≤ f.mean := by
    rw [hmin,hmean]
    exact le_mean hmicros fun x hx => (hbounds x hx).1
  have hhigh : f.mean ≤ f.max := by
    rw [hmax,hmean]
    exact mean_le hmicros fun x hx => (hbounds x hx).2
  have hprod : f.variance ≤ (f.max-f.mean)*(f.mean-f.min) := by
    rw [hvariance,hmax,hmean,hmin]
    exact variance_le hmicros hbounds
  refine ⟨f,?_,?_,hlow,hhigh,?_,hprod,?_,?_⟩
  · rw [printReport_of_ne_nil hne,hfig]
    rfl
  · simp only [List.map_cons,List.map_nil,List.isChain_cons_cons,List.isChain_singleton,and_true]
    exact ⟨hundredths_mono hlow,hundredths_mono hhigh⟩
  · rw [hvariance]
    exact variance_nonneg _
  · -- a product of two numbers is at most the square of half their sum
    have hsquare := sq_nonneg ((f.max-f.mean)-(f.mean-f.min))
    linarith [hprod]
  · rw [hvariance,variance_eq_zero_iff hmicros]
    simp only [micros,List.forall_mem_map,micros_eq_iff,(sort_perm stats.samplesNs).mem_iff]

/-- Two samples at the bounds: the deviation is half of what lies between them. -/
theorem spread_bounded_two :
    ∃ f, printReport ⟨[7000,1000]⟩ "burst" = some (.table "burst" f) ∧ f.mean = 4 ∧
      f.variance = ((f.max-f.min)/2)^2 ∧ f.variance ≤ (f.max-f.mean)*(f.mean-f.min) := by
  obtain ⟨f,hreport,_,_,_,_,hprod,_⟩ := spread_bounded ⟨[7000,1000]⟩ "burst" (by decide)
  have hf : some (Report.table "burst" f) = printReport ⟨[7000,1000]⟩ "burst" := hreport.symm
  have hfigures : printReport ⟨[7000,1000]⟩ "burst" =
      some (.table "burst" ⟨2,1,7,4,9,4,67/10,694/100,6994/1000⟩) := by decide +kernel
  rw [hfigures] at hf
  cases hf
  exact ⟨_,hfigures,rfl,by norm_num,hprod⟩

end WsClient.Latency
