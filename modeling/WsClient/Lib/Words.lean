import Mathlib.Algebra.Order.Floor.Div
import Mathlib.Data.Nat.Bitwise

/-!
# Sizes in machine words

Rounding up to a multiple and an array of equal strides, computed modulo the range of a word: in
each case the lemmas say exactly when the modular result is the one of exact arithmetic.
-/

namespace WsClient.Lib

variable {n d k p i j w x M : ℕ}

section RoundUp

theorem isLeast_roundUp (hd : 0 < d) : IsLeast {m | d ∣ m ∧ n ≤ m} ((n+d-1)/d*d) := by
  rw [← Nat.ceilDiv_eq_add_pred_div,Nat.mul_comm]
  refine ⟨⟨Nat.dvd_mul_right ..,le_smul_ceilDiv hd⟩,?_⟩
  rintro m ⟨⟨c,rfl⟩,hle⟩
  exact Nat.mul_le_mul_left d ((ceilDiv_le_iff_le_smul hd).mpr hle)

/-- Rounding down to a divisor of `M` does not cross `M`. -/
theorem div_mul_lt_iff (hd : d ∣ M) : x/d*d < M ↔ x < M := by
  refine ⟨fun h => ?_,(Nat.div_mul_le_self x d).trans_lt⟩
  by_contra hge
  have hq : M/d ≤ x/d := Nat.div_le_div_right (not_lt.mp hge)
  have hm := Nat.mul_le_mul_right d hq
  rw [Nat.div_mul_cancel hd] at hm
  omega

/-- Rounding up modulo `M` gives the least multiple unless the sum wraps, and then it gives 0. -/
theorem isLeast_roundUp_mod_iff (hd : d ∣ M) (hn : 0 < n) (hnM : n < M) :
    IsLeast {m | d ∣ m ∧ n ≤ m} ((n+d-1) % M/d*d) ↔ n+d-1 < M := by
  have hpos : 0 < d := Nat.pos_of_dvd_of_pos hd (by omega)
  have hle : d ≤ M := Nat.le_of_dvd (by omega) hd
  constructor
  · intro h
    by_contra hge
    have hmod : (n+d-1) % M = n+d-1-M := by
      rw [Nat.mod_eq_sub_mod (by omega),Nat.mod_eq_of_lt (by omega)]
    -- the wrapped sum is less than one alignment
    have hzero : (n+d-1) % M/d = 0 := by
      rw [hmod]
      exact Nat.div_eq_of_lt (by omega)
    have hbound := h.1.2
    rw [hzero,Nat.zero_mul] at hbound
    omega
  · intro hlt
    rw [Nat.mod_eq_of_lt hlt]
    exact isLeast_roundUp hpos

/-- Clearing the low `k` bits of a `w`-bit word with the mask `~(2^k - 1)`. -/
theorem and_not_low_bits (hx : x < 2^w) (hk : k ≤ w) :
    x &&& (2^w-1-(2^k-1)) = x/2^k*2^k := by
  have hle : 2^k ≤ 2^w := Nat.pow_le_pow_right (by decide) hk
  have hpos : 0 < 2^k := Nat.two_pow_pos k
  have hlow : 2^k-1 < 2^w := by omega
  rw [show 2^w-1-(2^k-1) = 2^w-(2^k-1+1) by omega,← Nat.shiftRight_eq_div_pow,
    ← Nat.shiftLeft_eq]
  apply Nat.eq_of_testBit_eq
  intro i
  rw [Nat.testBit_and,Nat.testBit_two_pow_sub_succ hlow,Nat.testBit_two_pow_sub_one,
    Nat.testBit_shiftLeft,Nat.testBit_shiftRight]
  by_cases hik : i < k
  · have hnot : ¬ k ≤ i := by omega
    simp [hik,hnot]
  · have hki : k ≤ i := by omega
    by_cases hi : i < w
    · simp [hik,hki,hi]
    · have hbit : x.testBit i = false :=
        Nat.testBit_lt_two_pow (hx.trans_le (Nat.pow_le_pow_right (by decide) (by omega)))
      simp [hik,hki,hbit]

end RoundUp

section Strides

theorem stride_end_le (hi : i < n) : i*k+k ≤ k*n := by
  rw [← Nat.succ_mul,Nat.mul_comm]
  exact Nat.mul_le_mul_left _ hi

theorem stride_le_of_lt (hij : i < j) : i*k+k ≤ j*k := by
  rw [← Nat.succ_mul]
  exact Nat.mul_le_mul_right _ hij

theorem stride_mod_eq (hM : k*n < M) (hk : 0 < k) (hi : i < n) : i*k % M = i*k := by
  have hend : i*k+k ≤ k*n := stride_end_le hi
  exact Nat.mod_eq_of_lt (by omega)

/-- Some stride starts beyond `x`, by at most its size. -/
theorem exists_stride_beyond (hk : 0 < k) (x : ℕ) : ∃ i, 0 < i ∧ x < i*k ∧ i*k ≤ x+k := by
  have hdiv := Nat.div_add_mod' x k
  have hrest : x % k < k := Nat.mod_lt _ hk
  refine ⟨x/k+1,Nat.succ_pos _,?_,?_⟩
  · rw [Nat.succ_mul]
    omega
  · rw [Nat.succ_mul]
    omega

/-- An array of `n` strides of size `k` whose offsets and total size are taken modulo `M`: the
first `p` bytes of every stride are inside, and no two strides meet. -/
structure Strided (M k n p : ℕ) : Prop where
  inside : ∀ i < n, i*k % M+p ≤ k*n % M
  apart : ∀ i < n, ∀ j < n, i ≠ j → i*k % M+k ≤ j*k % M ∨ j*k % M+k ≤ i*k % M

/-- Such an array is one exactly if its size does not wrap: otherwise the first stride beyond the
wrapped size is outside it, or has itself wrapped and meets the stride at 0. -/
theorem strided_iff (hp : 0 < p) (hpk : p ≤ k) (hk : k < M) : Strided M k n p ↔ k*n < M := by
  constructor
  · intro h
    by_contra hge
    have hsize : k*n % M+M ≤ k*n := by
      have hdiv := Nat.mod_add_div (k*n) M
      have hq : M*1 ≤ M*(k*n/M) := Nat.mul_le_mul_left M (Nat.div_pos (by omega) (by omega))
      omega
    have hmod : k*n % M < M := Nat.mod_lt _ (by omega)
    -- the first stride that starts beyond the wrapped size
    obtain ⟨i,hi,hbeyond,hle⟩ := exists_stride_beyond (by omega : 0 < k) (k*n % M)
    have hin : i < n := by
      refine Nat.lt_of_mul_lt_mul_right (a := k) ?_
      rw [Nat.mul_comm n k]
      omega
    by_cases hwrap : i*k < M
    · have hend := h.inside i hin
      rw [Nat.mod_eq_of_lt hwrap] at hend
      omega
    · have hoff : i*k % M = i*k-M := by
        rw [Nat.mod_eq_sub_mod (by omega),Nat.mod_eq_of_lt (by omega)]
      have hap := h.apart 0 (by omega) i hin (by omega)
      rw [hoff,Nat.zero_mul,Nat.zero_mod] at hap
      omega
  · intro hlt
    refine ⟨fun i hi => ?_,fun i hi j hj hne => ?_⟩
    · have hend : i*k+k ≤ k*n := stride_end_le hi
      rw [stride_mod_eq hlt (by omega) hi,Nat.mod_eq_of_lt hlt]
      omega
    · rw [stride_mod_eq hlt (by omega) hi,stride_mod_eq hlt (by omega) hj]
      rcases Nat.lt_or_gt_of_ne hne with hij | hji
      · exact .inl (stride_le_of_lt hij)
      · exact .inr (stride_le_of_lt hji)

end Strides

end WsClient.Lib
