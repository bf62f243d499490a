import Mathlib.Logic.Function.Basic
import Mathlib.Algebra.Group.Nat.Defs

/-!
# Byte-addressed memory

Little-endian loads and stores of `n`-byte words, with the frame facts a proof about linked
structures needs: what a store leaves alone, and what a load depends on.
-/

namespace WsClient.Lib

/-- Memory as a function from addresses to bytes. -/
abbrev ByteMem := ℕ → UInt8

namespace ByteMem

variable {m m' : ByteMem} {a b n k v i : ℕ}

/-- The `n`-byte little-endian word at address `a`. -/
def load (m : ByteMem) (a : ℕ) : ℕ → ℕ
  | 0 => 0
  | n+1 => (m a).toNat+256*load m (a+1) n

/-- Write the low `n` bytes of `v` at address `a`, least significant first. -/
def store (m : ByteMem) (a : ℕ) : ℕ → ℕ → ByteMem
  | 0, _ => m
  | n+1, v => store (Function.update m a (UInt8.ofNat v)) (a+1) n (v/256)

theorem store_frame (h : i < a ∨ a+n ≤ i) : m.store a n v i = m i := by
  induction n generalizing m a v with
  | zero => rfl
  | succ n ih =>
    rw [store,ih (by omega)]
    exact Function.update_of_ne (by omega) ..

theorem load_congr (h : ∀ i, a ≤ i → i < a+n → m i = m' i) : m.load a n = m'.load a n := by
  induction n generalizing a with
  | zero => rfl
  | succ n ih =>
    rw [load,load,h a (Nat.le_refl _) (by omega),ih fun i hi hlt => h i (by omega) (by omega)]

theorem load_store_of_disjoint (h : a+n ≤ b ∨ b+k ≤ a) : (m.store b k v).load a n = m.load a n :=
  load_congr fun i hi hlt => store_frame (by omega)

theorem load_store_same (hv : v < 256^n) : (m.store a n v).load a n = v := by
  induction n generalizing m a v with
  | zero =>
    have hz : v = 0 := by simpa using hv
    rw [hz]
    rfl
  | succ n ih =>
    have hdiv : v/256 < 256^n := by
      rw [Nat.div_lt_iff_lt_mul (by decide)]
      exact Nat.lt_of_lt_of_eq hv (Nat.pow_succ ..)
    rw [store,load,ih hdiv,store_frame (by omega),Function.update_self,UInt8.toNat_ofNat']
    change v % 256+256*(v/256) = v
    omega

/-- A write of one byte leaves every word it is not part of as it was. -/
theorem load_update_of_notMem {byte : UInt8} (h : b < a ∨ a+n ≤ b) :
    ByteMem.load (Function.update m b byte) a n = m.load a n :=
  load_congr fun i hi hlt => Function.update_of_ne (by omega) ..

end ByteMem

end WsClient.Lib
