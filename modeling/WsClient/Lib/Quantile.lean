import Mathlib.Algebra.Order.Floor.Semiring
import Mathlib.Data.List.Sort
import Mathlib.Tactic.Linarith
import Mathlib.Tactic.Ring

/-!
# Order statistics and interpolation

A sequence read between its indices by linear interpolation, and the order statistics of a list:
the rank of a value is the number of entries that are at most it, which no reordering changes.
-/

namespace WsClient.Lib

section Interpolate

variable {K : Type*} [Field K] [LinearOrder K] [IsStrictOrderedRing K] [FloorSemiring K]
  {f g : ℕ → K} {r r' : K} {k : ℕ}

/-- The sequence `f` at the rank `r`, linear between two indices. -/
def interpolate (f : ℕ → K) (r : K) : K := f ⌊r⌋₊*(1-(r-⌊r⌋₊))+f (⌊r⌋₊+1)*(r-⌊r⌋₊)

theorem interpolate_natCast : interpolate f (k : K) = f k := by
  rw [interpolate,Nat.floor_natCast]
  ring

theorem frac_nonneg (hr : 0 ≤ r) : 0 ≤ r-⌊r⌋₊ := sub_nonneg.mpr (Nat.floor_le hr)

theorem frac_lt_one : r-⌊r⌋₊ < 1 := by
  have h := Nat.lt_floor_add_one r
  linarith

theorem le_interpolate (hf : Monotone f) (hr : 0 ≤ r) : f ⌊r⌋₊ ≤ interpolate f r := by
  have hstep : f ⌊r⌋₊ ≤ f (⌊r⌋₊+1) := hf (Nat.le_succ _)
  have hmul := mul_le_mul_of_nonneg_right hstep (frac_nonneg hr)
  rw [interpolate]
  linarith

theorem interpolate_le (hf : Monotone f) : interpolate f r ≤ f (⌊r⌋₊+1) := by
  have hstep : f ⌊r⌋₊ ≤ f (⌊r⌋₊+1) := hf (Nat.le_succ _)
  have hmul := mul_le_mul_of_nonneg_right hstep (sub_nonneg.mpr (frac_lt_one (r := r)).le)
  rw [interpolate]
  linarith

/-- Within one segment by its slope, and from one segment to a later one through the values
between them. -/
theorem interpolate_mono (hf : Monotone f) (hr : 0 ≤ r) (h : r ≤ r') :
    interpolate f r ≤ interpolate f r' := by
  have hfloor : ⌊r⌋₊ ≤ ⌊r'⌋₊ := Nat.floor_le_floor h
  by_cases heq : ⌊r⌋₊ = ⌊r'⌋₊
  · have hstep : f ⌊r'⌋₊ ≤ f (⌊r'⌋₊+1) := hf (Nat.le_succ _)
    have hmul := mul_le_mul_of_nonneg_right hstep (sub_nonneg.mpr h)
    rw [interpolate,interpolate,heq]
    linarith
  · calc interpolate f r ≤ f (⌊r⌋₊+1) := interpolate_le hf
      _ ≤ f ⌊r'⌋₊ := hf (by omega)
      _ ≤ interpolate f r' := le_interpolate hf (hr.trans h)

/-- Both ends of a segment carry a weight that is not negative. -/
theorem interpolate_le_interpolate (h : ∀ i, f i ≤ g i) (hr : 0 ≤ r) :
    interpolate f r ≤ interpolate g r :=
  add_le_add
    (mul_le_mul_of_nonneg_right (h _) (sub_nonneg.mpr (frac_lt_one (r := r)).le))
    (mul_le_mul_of_nonneg_right (h _) (frac_nonneg hr))

omit [IsStrictOrderedRing K] in
/-- Interpolation changes nothing at an index, and between two equal values. -/
theorem interpolate_eq_floor_iff :
    interpolate f r = f ⌊r⌋₊ ↔ r = ⌊r⌋₊ ∨ f (⌊r⌋₊+1) = f ⌊r⌋₊ := by
  have hdiff : interpolate f r-f ⌊r⌋₊ = (f (⌊r⌋₊+1)-f ⌊r⌋₊)*(r-⌊r⌋₊) := by
    rw [interpolate]
    ring
  rw [← sub_eq_zero,hdiff,mul_eq_zero,sub_eq_zero,sub_eq_zero,or_comm]

end Interpolate

section OrderStatistics

variable {α : Type*} [LinearOrder α] {l l' s s' : List α} {k : ℕ} {v : α}

/-- In an ascending list the entries with a property that every smaller one has as well come
first. -/
theorem getElem_iff_lt_countP {P : α → Bool} (hP : ∀ a b, a ≤ b → P b → P a) (hs : s.SortedLE)
    (hk : k < s.length) : P s[k] ↔ k < s.countP P := by
  induction s generalizing k with
  | nil => exact absurd hk (Nat.not_lt_zero _)
  | cons a s ih =>
    have hpair := List.pairwise_cons.mp hs.pairwise
    by_cases ha : P a
    · rw [List.countP_cons_of_pos ha]
      cases k with
      | zero => simpa using ha
      | succ k =>
        rw [List.getElem_cons_succ,ih hpair.2.sortedLE (Nat.lt_of_succ_lt_succ hk)]
        exact Nat.succ_lt_succ_iff.symm
    · -- no later entry has the property either
      have hnone : (a :: s).countP P = 0 := by
        rw [List.countP_eq_zero]
        intro b hb hPb
        rcases List.mem_cons.mp hb with rfl | hb
        · exact ha hPb
        · exact ha (hP a b (hpair.1 b hb) hPb)
      rw [hnone]
      have hab : a ≤ (a :: s)[k] := by
        rcases List.mem_cons.mp (List.getElem_mem hk) with h | h
        · exact h.ge
        · exact hpair.1 _ h
      exact iff_of_false (fun h => ha (hP _ _ hab h)) (Nat.not_lt_zero _)

theorem getElem_le_iff_lt_countP (hs : s.SortedLE) (hk : k < s.length) :
    s[k] ≤ v ↔ k < s.countP (· ≤ v) := by
  have hP : ∀ a b, a ≤ b → decide (b ≤ v) → decide (a ≤ v) := fun a b hab hb =>
    decide_eq_true (hab.trans (of_decide_eq_true hb))
  rw [← getElem_iff_lt_countP hP hs hk,decide_eq_true_eq]

theorem getElem_lt_iff_lt_countP (hs : s.SortedLE) (hk : k < s.length) :
    s[k] < v ↔ k < s.countP (· < v) := by
  have hP : ∀ a b, a ≤ b → decide (b < v) → decide (a < v) := fun a b hab hb =>
    decide_eq_true (hab.trans_lt (of_decide_eq_true hb))
  rw [← getElem_iff_lt_countP hP hs hk,decide_eq_true_eq]

/-- At least `k+1` entries are at most the entry at index `k`. -/
theorem lt_countP_le_of_perm (hs : s.SortedLE) (hp : s.Perm l) (hk : k < s.length)
    (hv : s[k] ≤ v) : k+1 ≤ l.countP (· ≤ v) := by
  rw [← hp.countP_eq]
  exact (getElem_le_iff_lt_countP hs hk).mp hv

/-- At least `n-k` entries are at least the entry at index `k`. -/
theorem le_countP_ge_of_perm (hs : s.SortedLE) (hp : s.Perm l) (hk : k < s.length)
    (hv : v ≤ s[k]) : l.length-k ≤ l.countP (v ≤ ·) := by
  rw [← hp.countP_eq,← hp.length_eq,← List.length_drop]
  have hall : (s.drop k).countP (v ≤ ·) = (s.drop k).length := by
    rw [List.countP_eq_length]
    intro b hb
    obtain ⟨i,hi,rfl⟩ := List.getElem_of_mem hb
    rw [List.getElem_drop]
    simpa using hv.trans (hs.getElem_le_getElem_of_le (Nat.le_add_right k i))
  rw [← hall]
  exact (List.drop_sublist k s).countP_le

theorem countP_le_of_forall₂ (h : List.Forall₂ (· ≤ ·) l l') :
    l'.countP (· ≤ v) ≤ l.countP (· ≤ v) := by
  induction h with
  | nil => exact Nat.le_refl _
  | @cons a b l l' hab h ih =>
    rw [List.countP_cons,List.countP_cons]
    by_cases hb : b ≤ v
    · simpa [hb,hab.trans hb] using ih
    · simpa [hb] using ih.trans (Nat.le_add_right _ _)

/-- Raising the entries of a list raises each of its order statistics, wherever the raised
entries are sorted to. -/
theorem getElem_le_getElem_of_forall₂ (h : List.Forall₂ (· ≤ ·) l l') (hs : s.SortedLE)
    (hp : s.Perm l) (hs' : s'.SortedLE) (hp' : s'.Perm l') (hk : k < s.length)
    (hk' : k < s'.length) : s[k] ≤ s'[k] := by
  rw [getElem_le_iff_lt_countP hs hk,hp.countP_eq]
  have hrank : k < l'.countP (· ≤ s'[k]) := lt_countP_le_of_perm hs' hp' hk' le_rfl
  exact hrank.trans_le (countP_le_of_forall₂ h)

/-- Two neighbouring order statistics are equal exactly if some entry has at most `k` entries below
it and at least `k+2` that are at most it. -/
theorem getElem_eq_getElem_succ_iff (hs : s.SortedLE) (hp : s.Perm l) (hk : k+1 < s.length) :
    s[k+1] = s[k] ↔ ∃ v ∈ l, l.countP (· < v) ≤ k ∧ k+2 ≤ l.countP (· ≤ v) := by
  constructor
  · intro heq
    refine ⟨s[k],hp.mem_iff.mp (List.getElem_mem _),?_,?_⟩
    · rw [← hp.countP_eq,← not_lt,← getElem_lt_iff_lt_countP hs (by omega)]
      exact lt_irrefl _
    · exact lt_countP_le_of_perm hs hp hk heq.le
  · rintro ⟨v,_,hlt,hle⟩
    rw [← hp.countP_eq,← not_lt,← getElem_lt_iff_lt_countP hs (by omega),not_lt] at hlt
    rw [← hp.countP_eq] at hle
    have hsucc : s[k+1] ≤ v := (getElem_le_iff_lt_countP hs hk).mpr hle
    exact le_antisymm (hsucc.trans hlt) (hs.getElem_le_getElem_of_le (Nat.le_succ k))

end OrderStatistics

end WsClient.Lib
