import WsClient.Latency.Model
import WsClient.Lib.Quantile
import Mathlib.Data.List.GetD
import Mathlib.Tactic.NormNum

/-!
# What `percentile` returns

For a percentage in range it is the ascending samples, as a sequence that stays at its last value,
interpolated at the rank. So its order properties are those of interpolation and of sorting.
-/

namespace WsClient.Latency

open Lib

variable {samples raised sorted : List Int64} {pct p q : ℚ} {i k : ℕ}

/-- The samples as exact numbers. -/
def values (samples : List Int64) : List ℚ := samples.map toDouble

/-- The samples as a sequence, which stays at the last of them. -/
def stair (sorted : List Int64) (i : ℕ) : ℚ :=
  (values sorted).getD (min i (sorted.length-1)) 0

/-- The rank of a percentage among `n` samples. -/
def rank (n : ℕ) (pct : ℚ) : ℚ := pct/100*(n-1 : ℕ)

@[simp] theorem length_values : (values samples).length = samples.length := List.length_map ..

theorem toDouble_le_toDouble {x y : Int64} : toDouble x ≤ toDouble y ↔ x ≤ y := by
  rw [toDouble,toDouble,Int.cast_le,Int64.le_iff_toInt_le]

theorem toDouble_lt_toDouble {x y : Int64} : toDouble x < toDouble y ↔ x < y := by
  rw [toDouble,toDouble,Int.cast_lt,Int64.lt_iff_toInt_lt]

theorem stair_eq (hi : i < sorted.length) : stair sorted i = toDouble sorted[i] := by
  rw [stair,Nat.min_eq_left (by omega),List.getD_eq_getElem _ _ (by simpa using hi)]
  exact List.getElem_map ..

theorem stair_of_le (hne : sorted ≠ []) (hi : sorted.length ≤ i+1) :
    stair sorted i = toDouble (sorted.getLast hne) := by
  have hpos : 0 < sorted.length := List.length_pos_iff.mpr hne
  rw [List.getLast_eq_getElem,← stair_eq (by omega),stair,stair,Nat.min_eq_right (by omega),
    Nat.min_self]

theorem sortedLE_values (hs : sorted.Pairwise (· ≤ ·)) : (values sorted).SortedLE :=
  (List.pairwise_map.mpr (hs.imp fun h => toDouble_le_toDouble.mpr h)).sortedLE

theorem stair_monotone (hs : sorted.Pairwise (· ≤ ·)) : Monotone (stair sorted) := by
  intro i j hij
  by_cases hlen : sorted.length = 0
  · rw [List.length_eq_zero_iff.mp hlen]
    exact le_rfl
  · have hi : min i (sorted.length-1) < (values sorted).length := by
      rw [length_values]
      omega
    have hj : min j (sorted.length-1) < (values sorted).length := by
      rw [length_values]
      omega
    rw [stair,stair,List.getD_eq_getElem _ _ hi,List.getD_eq_getElem _ _ hj]
    exact (sortedLE_values hs).getElem_le_getElem_of_le (by omega)

theorem rank_nonneg (hp : 0 ≤ pct) : 0 ≤ rank i pct :=
  mul_nonneg (div_nonneg hp (by norm_num)) (Nat.cast_nonneg _)

theorem rank_mono (h : p ≤ q) : rank i p ≤ rank i q :=
  mul_le_mul_of_nonneg_right (div_le_div_of_nonneg_right h (by norm_num)) (Nat.cast_nonneg _)

theorem rank_le (hp : pct ≤ 100) : rank i pct ≤ (i-1 : ℕ) := by
  calc rank i pct ≤ rank i 100 := rank_mono hp
    _ = (i-1 : ℕ) := by
      rw [rank]
      norm_num

/-- From the last index on there is nothing to interpolate: the rank is the last index. -/
theorem rank_of_le (h0 : 0 ≤ pct) (h100 : pct ≤ 100) (h : i ≤ ⌊rank i pct⌋₊+1) :
    rank i pct = (i-1 : ℕ) := by
  apply le_antisymm (rank_le h100)
  have hfloor : ((i-1 : ℕ) : ℚ) ≤ ⌊rank i pct⌋₊ := by
    exact_mod_cast Nat.sub_le_of_le_add h
  exact hfloor.trans (Nat.floor_le (rank_nonneg h0))

/-- No index is out of range, and the result is the interpolated sequence. -/
theorem percentile_eq (hne : sorted ≠ []) (h0 : 0 ≤ pct) (h100 : pct ≤ 100) :
    percentile sorted pct = some (interpolate (stair sorted) (rank sorted.length pct)) := by
  have hempty : sorted.isEmpty = false := by simpa using hne
  have hcast : truncate (rank sorted.length pct) = some ⌊rank sorted.length pct⌋₊ :=
    if_pos (lt_of_lt_of_le (by norm_num) (rank_nonneg h0))
  have hpct : percentile sorted pct =
      if ⌊rank sorted.length pct⌋₊+1 ≥ sorted.length then
        sorted.getLast?.bind fun back => some (toDouble back)
      else sorted[⌊rank sorted.length pct⌋₊]?.bind fun x =>
        sorted[⌊rank sorted.length pct⌋₊+1]?.bind fun y =>
          some (toDouble x*(1-(rank sorted.length pct-⌊rank sorted.length pct⌋₊))+
            toDouble y*(rank sorted.length pct-⌊rank sorted.length pct⌋₊)) := by
    rw [percentile,if_neg (by rw [hempty]; exact Bool.false_ne_true)]
    change (truncate (rank sorted.length pct)).bind _ = _
    rw [hcast]
    rfl
  rw [hpct]
  by_cases hlast : sorted.length ≤ ⌊rank sorted.length pct⌋₊+1
  · rw [if_pos hlast,List.getLast?_eq_getLast_of_ne_nil hne,rank_of_le h0 h100 hlast,
      interpolate_natCast,stair_of_le hne (by omega)]
    rfl
  · have hupper : ⌊rank sorted.length pct⌋₊+1 < sorted.length := by omega
    rw [if_neg hlast,List.getElem?_eq_getElem (by omega),List.getElem?_eq_getElem hupper,
      interpolate,stair_eq (by omega),stair_eq hupper]
    rfl

theorem sort_perm (samples : List Int64) : (sort samples).Perm samples :=
  List.perm_insertionSort ..

theorem length_sort : (sort samples).length = samples.length := (sort_perm samples).length_eq

theorem sort_ne_nil (hne : samples ≠ []) : sort samples ≠ [] := by
  intro h
  rw [← List.length_eq_zero_iff,length_sort,List.length_eq_zero_iff] at h
  exact hne h

theorem sort_pairwise (samples : List Int64) : (sort samples).Pairwise (· ≤ ·) := by
  have htotal : Std.Total (α := Int64) (· ≤ ·) := ⟨fun x y => Int64.le_total x y⟩
  have htrans : IsTrans Int64 (· ≤ ·) := ⟨fun x y z => Int64.le_trans⟩
  exact List.pairwise_insertionSort _ samples

theorem stair_eq_values (hi : i < (values sorted).length) : stair sorted i = (values sorted)[i] := by
  rw [stair_eq (by simpa using hi)]
  exact (List.getElem_map ..).symm

theorem countP_values {P : ℚ → Bool} :
    (values samples).countP P = samples.countP fun s => P (toDouble s) :=
  List.countP_map

theorem values_sort_perm (samples : List Int64) :
    (values (sort samples)).Perm (values samples) := (sort_perm samples).map toDouble

theorem sortedLE_values_sort (samples : List Int64) : (values (sort samples)).SortedLE :=
  sortedLE_values (sort_pairwise samples)

theorem length_values_sort : (values (sort samples)).length = samples.length :=
  length_values.trans length_sort

/-- Between two neighbouring samples the result has the samples up to the lower one at most
itself, and those from the upper one on at least itself. -/
theorem countP_of_between {v : ℚ} (hk : k < samples.length) (hlow : stair (sort samples) k ≤ v)
    (hhigh : v ≤ stair (sort samples) (k+1)) :
    k+1 ≤ samples.countP (fun s => toDouble s ≤ v) ∧
      samples.length-1-k ≤ samples.countP (fun s => v ≤ toDouble s) := by
  have hs := sortedLE_values_sort samples
  have hp := values_sort_perm samples
  have hlen : (values (sort samples)).length = samples.length := length_values_sort
  refine ⟨?_,?_⟩
  · rw [stair_eq_values (by omega)] at hlow
    exact (lt_countP_le_of_perm hs hp (by omega) hlow).trans_eq countP_values
  · by_cases hlast : k+1 < samples.length
    · rw [stair_eq_values (by omega)] at hhigh
      have hcount := (le_countP_ge_of_perm hs hp (by omega) hhigh).trans_eq countP_values
      rw [length_values] at hcount
      omega
    · omega

/-- The middle sample, or the mean of the two in the middle. -/
theorem percentile_fifty (hne : sorted ≠ []) :
    percentile sorted 50 = some (if sorted.length % 2 = 1 then stair sorted (sorted.length/2)
      else (stair sorted (sorted.length/2-1)+stair sorted (sorted.length/2))/2) := by
  have hpos : 0 < sorted.length := List.length_pos_iff.mpr hne
  rw [percentile_eq hne (by norm_num) (by norm_num)]
  split
  · next hodd =>
    have hrank : rank sorted.length 50 = (sorted.length/2 : ℕ) := by
      rw [rank,show sorted.length-1 = 2*(sorted.length/2) by omega]
      push_cast
      ring
    rw [hrank,interpolate_natCast]
  · next heven =>
    -- halfway from the index before the middle to the middle
    have hrank : rank sorted.length 50 = (sorted.length/2-1 : ℕ)+1/2 := by
      rw [rank,show sorted.length-1 = 2*(sorted.length/2-1)+1 by omega]
      push_cast
      ring
    have hfloor : ⌊((sorted.length/2-1 : ℕ) : ℚ)+1/2⌋₊ = sorted.length/2-1 := by
      rw [Nat.floor_eq_iff (by positivity)]
      constructor <;> linarith
    rw [hrank,interpolate,hfloor,show sorted.length/2-1+1 = sorted.length/2 by omega]
    ring_nf

theorem stair_eq_getElem? (hi : i < sorted.length) :
    sorted[i]?.map toDouble = some (stair sorted i) := by
  rw [List.getElem?_eq_getElem hi,stair_eq hi]
  rfl

theorem rank_eq (hpos : 0 < i) : rank i pct = pct/100*(i-1) := by
  rw [rank,Nat.cast_pred hpos]

/-- `percentile` of the sorted samples is a quantile: enough samples lie on either side of it, a
rank that is an index gives the sample there, and 50 gives the median. -/
theorem percentile_quantile (hne : samples ≠ []) (h0 : 0 ≤ pct) (h100 : pct ≤ 100)
    (hk : k = ⌊pct/100*(samples.length-1)⌋₊) :
    (∃ v, percentile (sort samples) pct = some v ∧
      k+1 ≤ samples.countP (fun s => toDouble s ≤ v) ∧
      samples.length-1-k ≤ samples.countP (fun s => v ≤ toDouble s) ∧
      ((∃ m : ℤ, pct/100*(samples.length-1) = m) → (sort samples)[k]?.map toDouble = some v)) ∧
    (samples.length % 2 = 1 →
      percentile (sort samples) 50 = (sort samples)[samples.length/2]?.map toDouble) ∧
    (samples.length % 2 = 0 → ∃ x y, (sort samples)[samples.length/2-1]? = some x ∧
      (sort samples)[samples.length/2]? = some y ∧
      percentile (sort samples) 50 = some ((toDouble x+toDouble y)/2)) := by
  have hpos : 0 < samples.length := List.length_pos_iff.mpr hne
  have hlen : (sort samples).length = samples.length := length_sort
  have hrank : k = ⌊rank samples.length pct⌋₊ := by rw [rank_eq hpos,hk]
  have h0' : 0 ≤ rank samples.length pct := rank_nonneg h0
  have hklt : k < samples.length := by
    have hle : ⌊rank samples.length pct⌋₊ ≤ samples.length-1 := Nat.floor_le_of_le (rank_le h100)
    omega
  have hmono : Monotone (stair (sort samples)) := stair_monotone (sort_pairwise samples)
  have hmedian := percentile_fifty (sort_ne_nil hne)
  rw [hlen] at hmedian
  refine ⟨⟨interpolate (stair (sort samples)) (rank samples.length pct),?_,?_⟩,?_,?_⟩
  · rw [percentile_eq (sort_ne_nil hne) h0 h100,hlen]
  · have hlow := le_interpolate hmono h0'
    have hhigh := interpolate_le (r := rank samples.length pct) hmono
    rw [← hrank] at hlow hhigh
    obtain ⟨hle,hge⟩ := countP_of_between hklt hlow hhigh
    refine ⟨hle,hge,?_⟩
    rintro ⟨m,hm⟩
    -- an integer that is not negative is its own floor
    rw [← rank_eq hpos] at hm
    have hm0 : 0 ≤ m := by
      rw [hm] at h0'
      exact_mod_cast h0'
    have hmk : rank samples.length pct = (k : ℚ) := by
      obtain ⟨j,rfl⟩ := Int.eq_ofNat_of_zero_le hm0
      rw [hrank,hm,Int.cast_natCast,Nat.floor_natCast]
    rw [hmk,interpolate_natCast]
    exact stair_eq_getElem? (by omega)
  · intro hodd
    rw [hmedian,if_pos hodd,stair_eq_getElem? (by omega)]
  · intro heven
    refine ⟨_,_,List.getElem?_eq_getElem (by omega),List.getElem?_eq_getElem (by omega),?_⟩
    rw [hmedian,if_neg (by omega),stair_eq,stair_eq]

theorem percentile_quantile_four :
    (∃ v, percentile (sort [7,-3,1,5]) 50 = some v ∧
      1+1 ≤ [(7 : Int64),-3,1,5].countP (fun s => toDouble s ≤ v) ∧
      4-1-1 ≤ [(7 : Int64),-3,1,5].countP (fun s => v ≤ toDouble s) ∧
      ((∃ m : ℤ, (50 : ℚ)/100*(4-1) = m) → (sort [7,-3,1,5])[1]?.map toDouble = some v)) ∧
    (4 % 2 = 1 → percentile (sort [7,-3,1,5]) 50 = (sort [7,-3,1,5])[4/2]?.map toDouble) ∧
    (4 % 2 = 0 → ∃ x y, (sort [7,-3,1,5])[4/2-1]? = some x ∧ (sort [7,-3,1,5])[4/2]? = some y ∧
      percentile (sort [7,-3,1,5]) 50 = some ((toDouble x+toDouble y)/2)) :=
  @percentile_quantile [7,-3,1,5] 50 1 (by decide) (by norm_num) (by norm_num)
    ((Nat.floor_eq_iff (by norm_num)).mpr (by norm_num)).symm

theorem percentile_zero (hne : sorted ≠ []) : percentile sorted 0 = some (stair sorted 0) := by
  have hrank : rank sorted.length 0 = ((0 : ℕ) : ℚ) := by
    rw [rank]
    norm_num
  rw [percentile_eq hne le_rfl (by norm_num),hrank,interpolate_natCast]

theorem percentile_hundred (hne : sorted ≠ []) :
    percentile sorted 100 = some (stair sorted (sorted.length-1)) := by
  have hrank : rank sorted.length 100 = (sorted.length-1 : ℕ) := by
    rw [rank]
    norm_num
  rw [percentile_eq hne (by norm_num) le_rfl,hrank,interpolate_natCast]

theorem stair_zero (hne : sorted ≠ []) : stair sorted 0 = toDouble (sorted.head hne) := by
  rw [stair_eq (List.length_pos_iff.mpr hne),List.getElem_zero]

theorem stair_last (hne : sorted ≠ []) :
    stair sorted (sorted.length-1) = toDouble (sorted.getLast hne) :=
  stair_of_le hne (by omega)

/-- A later percentage has the later rank. -/
theorem percentile_le (hne : sorted ≠ []) (hs : sorted.Pairwise (· ≤ ·)) (h0 : 0 ≤ p)
    (hpq : p ≤ q) (h100 : q ≤ 100) :
    ∃ v w, percentile sorted p = some v ∧ percentile sorted q = some w ∧ v ≤ w :=
  ⟨_,_,percentile_eq hne h0 (hpq.trans h100),percentile_eq hne (h0.trans hpq) h100,
    interpolate_mono (stair_monotone hs) (rank_nonneg h0) (rank_mono hpq)⟩

/-- Sorting the raised samples again raises the whole sequence. -/
theorem stair_le_of_forall₂ (h : List.Forall₂ (· ≤ ·) samples raised) (i : ℕ) :
    stair (sort samples) i ≤ stair (sort raised) i := by
  have hvalues : List.Forall₂ (· ≤ ·) (values samples) (values raised) := by
    rw [values,values,List.forall₂_map_left_iff,List.forall₂_map_right_iff]
    exact h.imp fun _ _ hxy => toDouble_le_toDouble.mpr hxy
  have hlen : samples.length = raised.length := h.length_eq
  by_cases hzero : samples.length = 0
  · rw [List.length_eq_zero_iff.mp hzero,List.length_eq_zero_iff.mp (hlen.symm.trans hzero)]
  · have hi : min i ((sort samples).length-1) < (values (sort samples)).length := by
      rw [length_values_sort,length_sort]
      omega
    have hi' : min i ((sort raised).length-1) < (values (sort raised)).length := by
      rw [length_values_sort,length_sort]
      omega
    rw [stair,stair,List.getD_eq_getElem _ _ hi,List.getD_eq_getElem _ _ hi']
    simp only [length_sort,hlen]
    exact getElem_le_getElem_of_forall₂ hvalues (sortedLE_values_sort samples)
      (values_sort_perm samples) (sortedLE_values_sort raised) (values_sort_perm raised) _ _

end WsClient.Latency
