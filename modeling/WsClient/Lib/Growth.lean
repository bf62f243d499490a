import Mathlib.Algebra.Order.Floor.Semiring
import Mathlib.Order.Iterate
import Mathlib.Tactic.Linarith
import Mathlib.Tactic.Ring

/-!
# Capped geometric growth

A natural number that is multiplied, truncated and capped over and over. Whether it grows is
decided at its first value: a step gains something when the factor's excess over one is worth at
least one there, and then every later step does too. Whether its products stay below a bound is
decided by the cap's product and by as many steps without the cap.
-/

namespace WsClient.Lib

variable {K : Type*} [Field K] [LinearOrder K] [IsStrictOrderedRing K] [FloorSemiring K]
  {q : K} {cap x y n : ℕ}

/-- One multiplication by `q`, truncated. -/
def scale (q : K) (x : ℕ) : ℕ := ⌊(x : K)*q⌋₊

/-- One multiplication by `q`, truncated and capped. -/
def scaleCapped (q : K) (cap x : ℕ) : ℕ := min (scale q x) cap

theorem le_scale (hq : 1 ≤ q) : x ≤ scale q x := by
  apply Nat.le_floor
  calc (x : K) = x*1 := (mul_one _).symm
    _ ≤ x*q := mul_le_mul_of_nonneg_left hq (Nat.cast_nonneg x)

theorem scale_lt_iff (hq : 1 ≤ q) : scale q x < n ↔ (x : K)*q < n :=
  Nat.floor_lt (mul_nonneg (Nat.cast_nonneg x) (zero_le_one.trans hq))

theorem scale_mono (hq : 1 ≤ q) (hxy : x ≤ y) : scale q x ≤ scale q y :=
  Nat.floor_mono (mul_le_mul_of_nonneg_right (Nat.cast_le.mpr hxy) (zero_le_one.trans hq))

theorem iterate_scale_mono (hq : 1 ≤ q) : Monotone fun n => (scale q)^[n] x :=
  fun _ _ h => Function.monotone_iterate_of_id_le (fun _ => le_scale hq) h x

/-- An integer factor truncates nothing. -/
theorem iterate_scale_natCast (m : ℕ) : (scale (m : K))^[n] x = x*m^n := by
  induction n with
  | zero => simp
  | succ n ih =>
    rw [Function.iterate_succ_apply',ih,scale,← Nat.cast_mul,Nat.floor_natCast,pow_succ,mul_assoc]

theorem scaleCapped_cap (hq : 1 ≤ q) : scaleCapped q cap cap = cap :=
  Nat.min_eq_right (le_scale hq)

/-- Enough excess gains at least one. -/
theorem lt_scaleCapped (h : 1 ≤ (x : K)*(q-1)) (hx : x < cap) : x < scaleCapped q cap x := by
  have hfloor : x+1 ≤ ⌊(x : K)*q⌋₊ := by
    apply Nat.le_floor
    push_cast
    linarith
  exact Nat.lt_min.mpr ⟨hfloor,hx⟩

/-- Less than that is truncated away. -/
theorem scaleCapped_eq_self (hq : 1 ≤ q) (h : (x : K)*(q-1) < 1) (hx : x ≤ cap) :
    scaleCapped q cap x = x := by
  have hhigh : scale q x < x+1 := by
    rw [scale_lt_iff hq]
    push_cast
    linarith
  apply Nat.le_antisymm
  · exact (Nat.min_le_left _ _).trans (Nat.lt_succ_iff.mp hhigh)
  · exact Nat.le_min.mpr ⟨le_scale hq,hx⟩

theorem excess_mono (hq : 1 ≤ q) (h : 1 ≤ (x : K)*(q-1)) (hxy : x ≤ y) : 1 ≤ (y : K)*(q-1) :=
  h.trans (mul_le_mul_of_nonneg_right (Nat.cast_le.mpr hxy) (sub_nonneg.mpr hq))

/-- Capping after every step comes to the same as capping at the end. -/
theorem iterate_scaleCapped (hq : 1 ≤ q) (hx : x ≤ cap) :
    (scaleCapped q cap)^[n] x = min ((scale q)^[n] x) cap := by
  induction n with
  | zero => exact (Nat.min_eq_left hx).symm
  | succ n ih =>
    rw [Function.iterate_succ_apply',Function.iterate_succ_apply',ih]
    rcases Nat.le_total ((scale q)^[n] x) cap with hle | hle
    · rw [Nat.min_eq_left hle]
      rfl
    · rw [Nat.min_eq_right hle,scaleCapped_cap hq]
      exact (Nat.min_eq_right (hle.trans (le_scale hq))).symm

/-- The products of `n` capped steps stay below a bound above the cap exactly if the cap's product
does, or `n` steps without the cap do. -/
theorem iterate_scaleCapped_fits (hq : 1 ≤ q) (hx : x ≤ cap) {bound : ℕ} (hcap : cap < bound) :
    (∀ i < n, ((scaleCapped q cap)^[i] x : K)*q < bound) ↔
      (cap : K)*q < bound ∨ (scale q)^[n] x < bound := by
  simp only [iterate_scaleCapped hq hx,← scale_lt_iff hq]
  constructor
  · intro h
    by_contra hnot
    obtain ⟨hbig,hlarge⟩ := not_or.mp hnot
    cases n with
    | zero => exact hlarge (hx.trans_lt hcap)
    | succ n =>
      rw [Function.iterate_succ_apply'] at hlarge
      -- the last product fits, so it is not the cap's, and the cap has not been reached
      have hlast := h n (Nat.lt_succ_self n)
      rcases Nat.le_total ((scale q)^[n] x) cap with hle | hle
      · rw [Nat.min_eq_left hle] at hlast
        exact hlarge hlast
      · rw [Nat.min_eq_right hle] at hlast
        exact hbig hlast
  · rintro (hfits | hfits) i hi
    · exact (scale_mono hq (Nat.min_le_right _ _)).trans_lt hfits
    · calc scale q (min ((scale q)^[i] x) cap)
          ≤ scale q ((scale q)^[i] x) := scale_mono hq (Nat.min_le_left _ _)
        _ = (scale q)^[i+1] x := (Function.iterate_succ_apply' _ _ _).symm
        _ ≤ (scale q)^[n] x := iterate_scale_mono hq hi
        _ < bound := hfits

end WsClient.Lib
