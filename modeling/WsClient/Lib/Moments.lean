import Mathlib.Algebra.Order.BigOperators.Group.List
import Mathlib.Algebra.Order.Field.Basic
import Mathlib.Tactic.Ring
import Mathlib.Tactic.Linarith

/-!
# Mean and variance of a list

The mean lies between any bounds of the values, and the variance is at most the product of its
distances to them, which is attained when all values lie on the bounds.
-/

namespace WsClient.Lib

variable {K : Type*} [Field K] {l : List K} {a b c : K}

def mean (l : List K) : K := l.sum/l.length

def squares (l : List K) (c : K) : K := (l.map fun x => (x-c)*(x-c)).sum

def variance (l : List K) : K := squares l (mean l)/l.length

@[simp] theorem squares_cons (x : K) (l : List K) (c : K) :
    squares (x :: l) c = (x-c)*(x-c)+squares l c := rfl

variable [LinearOrder K] [IsStrictOrderedRing K]

theorem length_mul_mean (hne : l ≠ []) : l.length*mean l = l.sum := by
  have hpos : (l.length : K) ≠ 0 := Nat.cast_ne_zero.mpr (List.length_pos_iff.mpr hne).ne'
  rw [mean,mul_div_cancel₀ _ hpos]

theorem le_mean (hne : l ≠ []) (h : ∀ x ∈ l, a ≤ x) : a ≤ mean l := by
  have hpos : (0 : K) < l.length := Nat.cast_pos.mpr (List.length_pos_iff.mpr hne)
  rw [mean,le_div_iff₀ hpos,mul_comm,← nsmul_eq_mul]
  exact List.card_nsmul_le_sum l a h

theorem mean_le (hne : l ≠ []) (h : ∀ x ∈ l, x ≤ b) : mean l ≤ b := by
  have hpos : (0 : K) < l.length := Nat.cast_pos.mpr (List.length_pos_iff.mpr hne)
  rw [mean,div_le_iff₀ hpos,mul_comm,← nsmul_eq_mul]
  exact List.sum_le_card_nsmul l b h

theorem squares_nonneg (l : List K) (c : K) : 0 ≤ squares l c := by
  induction l with
  | nil => exact le_refl _
  | cons x l ih =>
    rw [squares_cons]
    exact add_nonneg (mul_self_nonneg _) ih

theorem squares_eq_zero_iff : squares l c = 0 ↔ ∀ x ∈ l, x = c := by
  induction l with
  | nil => simp [squares]
  | cons x l ih =>
    have hl := squares_nonneg l c
    have hx := mul_self_nonneg (x-c)
    rw [squares_cons,add_eq_zero_iff_of_nonneg hx hl,mul_self_eq_zero,sub_eq_zero,
      List.forall_mem_cons]
    exact and_congr_right fun _ => ih

/-- Between the bounds `(b-x)*(x-a)` is not negative, and its sum is a matter of the squares. -/
theorem squares_le (h : ∀ x ∈ l, a ≤ x ∧ x ≤ b) (c : K) :
    squares l c ≤ l.length*((b-c)*(c-a))+(l.sum-l.length*c)*(a+b-2*c) := by
  induction l with
  | nil => simp [squares]
  | cons x l ih =>
    obtain ⟨hax,hxb⟩ := h x List.mem_cons_self
    have hl := ih fun y hy => h y (List.mem_cons_of_mem _ hy)
    have hprod : 0 ≤ (b-x)*(x-a) := mul_nonneg (sub_nonneg.mpr hxb) (sub_nonneg.mpr hax)
    rw [squares_cons,List.length_cons,List.sum_cons,Nat.cast_succ]
    linarith

theorem variance_nonneg (l : List K) : 0 ≤ variance l :=
  div_nonneg (squares_nonneg _ _) (Nat.cast_nonneg _)

theorem variance_le (hne : l ≠ []) (h : ∀ x ∈ l, a ≤ x ∧ x ≤ b) :
    variance l ≤ (b-mean l)*(mean l-a) := by
  have hpos : (0 : K) < l.length := Nat.cast_pos.mpr (List.length_pos_iff.mpr hne)
  have hle := squares_le h (mean l)
  rw [length_mul_mean hne,sub_self,zero_mul,add_zero] at hle
  rw [variance,div_le_iff₀ hpos]
  linarith

/-- The variance tells whether the values differ. -/
theorem variance_eq_zero_iff (hne : l ≠ []) : variance l = 0 ↔ ∀ x ∈ l, ∀ y ∈ l, x = y := by
  have hpos : (l.length : K) ≠ 0 := Nat.cast_ne_zero.mpr (List.length_pos_iff.mpr hne).ne'
  rw [variance,div_eq_zero_iff,or_iff_left hpos,squares_eq_zero_iff]
  constructor
  · intro h x hx y hy
    exact (h x hx).trans (h y hy).symm
  · intro h x hx
    exact le_antisymm (le_mean hne fun y hy => (h x hx y hy).le)
      (mean_le hne fun y hy => (h y hy x hx).le)

end WsClient.Lib
