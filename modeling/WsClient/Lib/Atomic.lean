import Mathlib.Data.List.Basic

/-!
# Atomic locations with a modification order

An atomic variable remembers every value stored into it, oldest first. A load names the
position it reads: the newest one under the strong reading, and under per-location coherence
any position not older than the one the loading thread last observed.
-/

namespace WsClient.Lib

/-- The modification order of one atomic location: the overwritten values and the current one. -/
structure Atomic (α : Type*) where
  past : List α
  cur : α

namespace Atomic

variable {α : Type*} (a : Atomic α) (v : α)

def new : Atomic α := ⟨[],v⟩

/-- The position of the current value in the modification order. -/
def newest : ℕ := a.past.length

def load? (i : ℕ) : Option α := (a.past++[a.cur])[i]?

def store : Atomic α := ⟨a.past++[a.cur],v⟩

@[simp] theorem newest_store : (a.store v).newest = a.newest+1 := by
  simp [newest,store]

@[simp] theorem cur_store : (a.store v).cur = v := rfl

@[simp] theorem load?_newest : a.load? a.newest = some a.cur := by
  simp [load?,newest]

/-- A store leaves every earlier position of the modification order as it was. -/
theorem load?_store_of_le {i : ℕ} (h : i ≤ a.newest) : (a.store v).load? i = a.load? i := by
  have hi : i < (a.past++[a.cur]).length := by
    simpa [newest,Nat.lt_succ_iff] using h
  simp only [load?,store]
  exact List.getElem?_append_left hi

/-- A location whose stores count up is described by a function of the position. -/
def Follows (f : ℕ → α) : Prop := ∀ i, i ≤ a.newest → a.load? i = some (f i)

variable {a} {f : ℕ → α}

theorem Follows.cur_eq (h : a.Follows f) : a.cur = f a.newest := by
  have hn := h a.newest (Nat.le_refl _)
  rw [load?_newest] at hn
  exact Option.some.inj hn

theorem follows_new : (new (f 0)).Follows f := by
  intro i hi
  have h0 : i = 0 := Nat.le_zero.mp hi
  subst h0
  rfl

theorem Follows.store (h : a.Follows f) : (a.store (f (a.newest+1))).Follows f := by
  intro i hi
  rw [newest_store] at hi
  rcases Nat.lt_or_ge a.newest i with hlt | hle
  · have he : i = (a.store (f (a.newest+1))).newest := by rw [newest_store]; omega
    rw [he,load?_newest,cur_store,newest_store]
  · rw [load?_store_of_le _ _ hle]
    exact h i hle

end Atomic

/-- How far behind the newest store a load may be. -/
inductive Visibility
  | current
  | coherent
  deriving DecidableEq, Repr

/-- May a thread that last observed position `seen` read position `i`? -/
def Visibility.Allows : Visibility → ℕ → ℕ → ℕ → Prop
  | .current, _, newest, i => i = newest
  | .coherent, seen, newest, i => seen ≤ i ∧ i ≤ newest

instance (vis : Visibility) (seen newest i : ℕ) : Decidable (vis.Allows seen newest i) := by
  cases vis <;> unfold Visibility.Allows <;> infer_instance

theorem Visibility.Allows.bounds {vis : Visibility} {seen newest i : ℕ}
    (h : vis.Allows seen newest i) (hs : seen ≤ newest) : seen ≤ i ∧ i ≤ newest := by
  cases vis with
  | current => exact ⟨h ▸ hs,Nat.le_of_eq h⟩
  | coherent => exact h

end WsClient.Lib
