import WsClient.Lib.Bytes

/-!
# Linked lists embedded in memory

A null-terminated list whose links are words stored at the start of its cells. Cells are
disjoint from one another in the uses below, so pushing a cell is a store that no other link
depends on.
-/

namespace WsClient.Lib.ByteMem

/-- Following the `w`-byte links from `head` visits exactly the cells `l` and ends at null. -/
def Chain (m : ByteMem) (w : ℕ) : ℕ → List ℕ → Prop
  | head, [] => head = 0
  | head, a :: l => head = a ∧ a ≠ 0 ∧ Chain m w (m.load a w) l

variable {m m' : ByteMem} {w head a : ℕ} {l : List ℕ}

theorem Chain.congr (h : m.Chain w head l) (hm : ∀ a ∈ l, m'.load a w = m.load a w) :
    m'.Chain w head l := by
  induction l generalizing head with
  | nil => exact h
  | cons a l ih =>
    obtain ⟨rfl,ha,htail⟩ := h
    refine ⟨rfl,ha,?_⟩
    rw [hm _ List.mem_cons_self]
    exact ih htail fun b hb => hm b (List.mem_cons_of_mem _ hb)

theorem Chain.head_eq_zero_iff (h : m.Chain w head l) : head = 0 ↔ l = [] := by
  cases l with
  | nil => exact iff_of_true h rfl
  | cons a l => exact iff_of_false (h.1 ▸ h.2.1) (List.cons_ne_nil _ _)

/-- Unlinking the first cell: its word is the next head. -/
theorem Chain.pop (h : m.Chain w head l) (hne : head ≠ 0) :
    ∃ tail, l = head :: tail ∧ m.Chain w (m.load head w) tail := by
  cases l with
  | nil => exact absurd h hne
  | cons a l =>
    obtain ⟨rfl,_,htail⟩ := h
    exact ⟨l,rfl,htail⟩

/-- Linking a cell in front: write the old head into it. -/
theorem Chain.push (h : m.Chain w head l) (ha : a ≠ 0) (hhead : head < 256^w)
    (hd : ∀ b ∈ l, b+w ≤ a ∨ a+w ≤ b) : (m.store a w head).Chain w a (a :: l) := by
  refine ⟨rfl,ha,?_⟩
  rw [load_store_same hhead]
  exact h.congr fun b hb => load_store_of_disjoint (hd b hb)

end WsClient.Lib.ByteMem
