import WsClient.MemoryPool.Model
import WsClient.Lib.Words
import Mathlib.Data.Nat.Basic
import Mathlib.Data.List.Nodup

/-!
# The layout of `MemoryPool`

The sizes and offsets that the class computes on `size_t`. They are those of `numBlocks` aligned
blocks side by side exactly when the storage's exact size is a `size_t`.
-/

namespace WsClient.MemoryPool
open WsClient.Lib

namespace Layout

variable {L : Layout}

theorem maxAlign_pos : 0 < L.maxAlign := by
  obtain ⟨k,_,hk⟩ := L.maxAlign_pow
  exact hk ▸ Nat.two_pow_pos k

theorem maxAlign_dvd : L.maxAlign ∣ 2^64 := by
  obtain ⟨k,hk,he⟩ := L.maxAlign_pow
  exact he ▸ Nat.pow_dvd_pow 2 (by omega)

/-- The mask rounds the wrapped sum down to the alignment. -/
theorem kAlignedBlockSize_mod :
    L.kAlignedBlockSize = (L.blockSize+L.maxAlign-1) % 2^64/L.maxAlign*L.maxAlign := by
  obtain ⟨k,hk,he⟩ := L.maxAlign_pow
  have hpos := L.maxAlign_pos
  have hlt : (L.blockSize+L.maxAlign-1) % 2^64 < 2^64 := Nat.mod_lt _ (by decide)
  have hmod : (L.blockSize+L.maxAlign+(2^64-1)) % 2^64 = (L.blockSize+L.maxAlign-1) % 2^64 := by
    rw [show L.blockSize+L.maxAlign+(2^64-1) = L.blockSize+L.maxAlign-1+2^64 by omega,
      Nat.add_mod_right]
  rw [kAlignedBlockSize,hmod]
  rw [he] at hlt ⊢
  exact and_not_low_bits hlt (by omega)

/-- When the storage fits, the mask rounds the block size up to the alignment. -/
theorem kAlignedBlockSize_eq (h : L.NoOverflow) :
    L.kAlignedBlockSize = (L.blockSize+L.maxAlign-1)/L.maxAlign*L.maxAlign := by
  have hround : (L.blockSize+L.maxAlign-1)/L.maxAlign*L.maxAlign < 2^64 :=
    Nat.lt_of_le_of_lt (Nat.le_mul_of_pos_right _ L.numBlocks_pos) h
  rw [kAlignedBlockSize_mod,Nat.mod_eq_of_lt ((div_mul_lt_iff maxAlign_dvd).mp hround)]

/-- When the storage fits, a block is the least multiple of the alignment that holds
`blockSize` bytes. -/
theorem isLeast_kAlignedBlockSize (h : L.NoOverflow) :
    IsLeast {size | L.maxAlign ∣ size ∧ L.blockSize ≤ size} L.kAlignedBlockSize := by
  rw [kAlignedBlockSize_eq h]
  exact isLeast_roundUp maxAlign_pos

theorem dvd_kAlignedBlockSize (h : L.NoOverflow) : L.maxAlign ∣ L.kAlignedBlockSize :=
  (isLeast_kAlignedBlockSize h).1.1

theorem blockSize_le (h : L.NoOverflow) : L.blockSize ≤ L.kAlignedBlockSize :=
  (isLeast_kAlignedBlockSize h).1.2

theorem ptrSize_le (h : L.NoOverflow) : ptrSize ≤ L.kAlignedBlockSize :=
  L.blockSize_ge.trans (blockSize_le h)

theorem kAlignedBlockSize_pos (h : L.NoOverflow) : 0 < L.kAlignedBlockSize :=
  Nat.lt_of_lt_of_le (by decide) (ptrSize_le h)

theorem size_lt (h : L.NoOverflow) : L.kAlignedBlockSize*L.numBlocks < 2^64 := by
  rw [kAlignedBlockSize_eq h]
  exact h

theorem storageSize_eq (h : L.NoOverflow) :
    L.storageSize = L.kAlignedBlockSize*L.numBlocks := Nat.mod_eq_of_lt (size_lt h)

theorem block_end_le (h : L.NoOverflow) {i : ℕ} (hi : i < L.numBlocks) :
    i*L.kAlignedBlockSize+L.kAlignedBlockSize ≤ L.storageSize := by
  rw [storageSize_eq h]
  exact stride_end_le hi

theorem blockOffset_eq (h : L.NoOverflow) {i : ℕ} (hi : i < L.numBlocks) :
    L.blockOffset i = i*L.kAlignedBlockSize :=
  stride_mod_eq (size_lt h) (kAlignedBlockSize_pos h) hi

/-- The start of block `i` of a pool whose storage is at `storage`. -/
def block (L : Layout) (storage i : ℕ) : ℕ := storage+i*L.kAlignedBlockSize

/-- All block starts, by ascending address. -/
def blocks (L : Layout) (storage : ℕ) : List ℕ := (List.range L.numBlocks).map (L.block storage)

theorem block_disjoint (storage : ℕ) {i j : ℕ} (hij : i < j) :
    L.block storage i+L.kAlignedBlockSize ≤ L.block storage j := by
  have hle : i*L.kAlignedBlockSize+L.kAlignedBlockSize ≤ j*L.kAlignedBlockSize :=
    stride_le_of_lt hij
  simp only [block]
  omega

/-- Two different block starts are a block apart. -/
theorem blocks_apart {storage a b : ℕ} (ha : a ∈ L.blocks storage) (hb : b ∈ L.blocks storage)
    (hne : a ≠ b) : a+L.kAlignedBlockSize ≤ b ∨ b+L.kAlignedBlockSize ≤ a := by
  obtain ⟨i,_,rfl⟩ := List.mem_map.mp ha
  obtain ⟨j,_,rfl⟩ := List.mem_map.mp hb
  rcases Nat.lt_trichotomy i j with hij | rfl | hji
  · exact .inl (block_disjoint _ hij)
  · exact absurd rfl hne
  · exact .inr (block_disjoint _ hji)

theorem blocks_nodup (h : L.NoOverflow) (storage : ℕ) : (L.blocks storage).Nodup := by
  have hk := kAlignedBlockSize_pos h
  refine List.Nodup.map_on ?_ List.nodup_range
  intro i _ j _ he
  rcases Nat.lt_trichotomy i j with hij | rfl | hji
  · have := L.block_disjoint storage hij
    omega
  · rfl
  · have := L.block_disjoint storage hji
    omega

theorem mem_blocks (h : L.NoOverflow) {storage a : ℕ} (ha : a ∈ L.blocks storage) :
    ∃ offset, a = storage+offset ∧ L.maxAlign ∣ offset ∧
      offset+L.kAlignedBlockSize ≤ L.storageSize := by
  obtain ⟨i,hi,rfl⟩ := List.mem_map.mp ha
  exact ⟨i*L.kAlignedBlockSize,rfl,Nat.dvd_mul_left_of_dvd (dvd_kAlignedBlockSize h) i,
    block_end_le h (List.mem_range.mp hi)⟩

end Layout

variable {L : Layout}

/-- The constructor's loop writes the first `sizeof(void*)` bytes of each block, at the offsets
`size_t` arithmetic gives, and no others. -/
theorem linkBlocks_other {storage i a : ℕ}
    (ha : ∀ j < i, a < storage+L.blockOffset j ∨ storage+L.blockOffset j+ptrSize ≤ a)
    (s : ByteMem × ℕ) : (linkBlocks L storage i s).1 a = s.1 a := by
  induction i generalizing s with
  | zero => rfl
  | succ i ih =>
    rw [linkBlocks,ih fun j hj => ha j (by omega)]
    exact ByteMem.store_frame (ha i (Nat.lt_succ_self i))

/-- What the pool relies on: a block is the least aligned size that holds `blockSize` bytes, every
link the constructor writes lies in the storage, the blocks are disjoint with room for `blockSize`
bytes each, and `owns` accepts them. -/
structure Layout.Sound (L : Layout) : Prop where
  least : IsLeast {size | L.maxAlign ∣ size ∧ L.blockSize ≤ size} L.kAlignedBlockSize
  links : ∀ i < L.numBlocks, L.blockOffset i+ptrSize ≤ L.storageSize
  room : ∀ i < L.numBlocks, L.blockOffset i+L.blockSize ≤ L.storageSize
  apart : ∀ i < L.numBlocks, ∀ j < L.numBlocks, i ≠ j →
    L.blockOffset i+L.kAlignedBlockSize ≤ L.blockOffset j ∨
      L.blockOffset j+L.kAlignedBlockSize ≤ L.blockOffset i
  owned : ∀ (p : Placement L) m, ∀ i < L.numBlocks,
    owns L (construct L p.address m).2 (p.address+L.blockOffset i) = true

namespace Layout

theorem strided (h : L.NoOverflow) :
    Strided (2^64) L.kAlignedBlockSize L.numBlocks ptrSize := by
  have hk : L.kAlignedBlockSize < 2^64 :=
    Nat.lt_of_le_of_lt (Nat.le_mul_of_pos_right _ L.numBlocks_pos) (size_lt h)
  exact (strided_iff (by decide) (ptrSize_le h) hk).mpr (size_lt h)

theorem Sound.of_noOverflow (h : L.NoOverflow) : L.Sound where
  least := isLeast_kAlignedBlockSize h
  links := (strided h).inside
  room i hi := by
    have hend := block_end_le h hi
    have hle := blockSize_le h
    rw [blockOffset_eq h hi]
    omega
  apart := (strided h).apart
  owned p m i hi := by
    have hin : L.blockOffset i+ptrSize ≤ L.storageSize := (strided h).inside i hi
    have hpos : 0 < ptrSize := by decide
    have hstorage : (construct L p.address m).2.storage = p.address := rfl
    rw [owns,hstorage,Bool.and_eq_true,decide_eq_true_eq,decide_eq_true_eq]
    omega

/-- If the block size is the least aligned one, the sum of the rounding has not wrapped. -/
theorem Sound.sum_lt (h : L.Sound) : L.blockSize+L.maxAlign-1 < 2^64 := by
  have hpos : 0 < L.blockSize := Nat.lt_of_lt_of_le (by decide) L.blockSize_ge
  have hleast := h.least
  rw [kAlignedBlockSize_mod] at hleast
  exact (isLeast_roundUp_mod_iff maxAlign_dvd hpos L.blockSize_fits).mp hleast

theorem Sound.noOverflow (h : L.Sound) : L.NoOverflow := by
  have hle : ptrSize ≤ L.kAlignedBlockSize := L.blockSize_ge.trans h.least.1.2
  have heq : L.kAlignedBlockSize = (L.blockSize+L.maxAlign-1)/L.maxAlign*L.maxAlign := by
    rw [kAlignedBlockSize_mod,Nat.mod_eq_of_lt h.sum_lt]
  have hlt : L.kAlignedBlockSize < 2^64 := by
    rw [heq]
    exact (div_mul_lt_iff maxAlign_dvd).mpr h.sum_lt
  have hsize : L.kAlignedBlockSize*L.numBlocks < 2^64 :=
    (strided_iff (by decide) hle hlt).mp ⟨h.links,h.apart⟩
  rwa [heq] at hsize

/-- The static assertions do not make the layout sound: it is so exactly when the exact size of the
storage fits `size_t`. -/
theorem sound_iff_noOverflow (L : Layout) : L.Sound ↔ L.NoOverflow :=
  ⟨Sound.noOverflow,Sound.of_noOverflow⟩

/-- `MemoryPool<SIZE_MAX, 1>`. -/
def largestBlock : Layout where
  blockSize := 2^64-1
  numBlocks := 1
  maxAlign := 2^4
  blockSize_fits := by decide
  numBlocks_fits := by decide
  blockSize_ge := by decide
  numBlocks_pos := by decide
  maxAlign_pow := ⟨4,by decide,rfl⟩

/-- Blocks of 128 bytes, 2^64 bytes in all. -/
def wholeRange : Layout where
  blockSize := 128
  numBlocks := 2^57
  maxAlign := 2^4
  blockSize_fits := by decide
  numBlocks_fits := by decide
  blockSize_ge := by decide
  numBlocks_pos := by decide
  maxAlign_pow := ⟨4,by decide,rfl⟩

/-- The rounding wraps to blocks of no bytes, of which `owns` rejects the only one, or the product
to a storage of none, in which the constructor writes links. -/
theorem accepted_unsound :
    ¬largestBlock.Sound ∧ largestBlock.kAlignedBlockSize = 0 ∧
      (∀ (p : Placement largestBlock) m,
        owns largestBlock (construct largestBlock p.address m).2 p.address = false) ∧
      ¬wholeRange.Sound ∧ wholeRange.kAlignedBlockSize = 128 ∧ wholeRange.storageSize = 0 := by
  have hzero : largestBlock.storageSize = 0 := by decide
  refine ⟨fun h => absurd h.least.1.2 (by decide),by decide,fun p m => ?_,
    fun h => absurd (h.links 0 (by decide)) (by decide),by decide,by decide⟩
  have hstorage : (construct largestBlock p.address m).2.storage = p.address := rfl
  rw [owns,hstorage,hzero]
  simp

end Layout

end WsClient.MemoryPool
