import WsClient.Lib.Transition
import WsClient.Lib.LinkedList
import Mathlib.Data.List.Basic

/-!
# `MemoryPool`

A pool of equally sized blocks whose free list is threaded through the blocks themselves:
the links are words in the same bytes a client writes while it holds a block.
-/

namespace WsClient.MemoryPool
open WsClient.Lib

/-- `sizeof(void*)`. -/
def ptrSize : ℕ := 8

/-- The template arguments with the class's `static_assert`s, and `alignof(std::max_align_t)`. -/
structure Layout where
  blockSize : ℕ
  numBlocks : ℕ
  maxAlign : ℕ
  blockSize_fits : blockSize < 2^64
  numBlocks_fits : numBlocks < 2^64
  blockSize_ge : ptrSize ≤ blockSize
  numBlocks_pos : 0 < numBlocks
  maxAlign_pow : ∃ k, k < 64 ∧ maxAlign = 2^k

namespace Layout

variable (L : Layout)

/-- `(BlockSize + alignof(max_align_t) - 1) & ~(alignof(max_align_t) - 1)` on `size_t`. -/
def kAlignedBlockSize : ℕ :=
  (L.blockSize+L.maxAlign+(2^64-1)) % 2^64 &&& (2^64-1-(L.maxAlign-1))

/-- `kAlignedBlockSize * NumBlocks` on `size_t`. -/
def storageSize : ℕ := L.kAlignedBlockSize*L.numBlocks % 2^64

/-- `i * kAlignedBlockSize` on `size_t`. -/
def blockOffset (i : ℕ) : ℕ := i*L.kAlignedBlockSize % 2^64

/-- The storage, computed without wrapping, has a size that fits `size_t`. -/
def NoOverflow : Prop := (L.blockSize+L.maxAlign-1)/L.maxAlign*L.maxAlign*L.numBlocks < 2^64

instance : Decidable L.NoOverflow := inferInstanceAs (Decidable (_ < _))

end Layout

/-- `storage_`, `free_head_` and `free_count_`; null is address 0. -/
structure Pool where
  storage : ℕ
  freeHead : ℕ
  freeCount : ℕ
  deriving DecidableEq, Repr

/-- Where `std::make_unique` may put the storage. -/
structure Placement (L : Layout) where
  address : ℕ
  pos : 0 < address
  fits : address+L.storageSize ≤ 2^64

variable (L : Layout)

/-- The constructor's loop: link block `i-1` in front, for `i` counting down to 1. -/
def linkBlocks (storage : ℕ) : ℕ → ByteMem × ℕ → ByteMem × ℕ
  | 0, s => s
  | i+1, (m,head) =>
    let block := storage+L.blockOffset i
    linkBlocks storage i (m.store block ptrSize head,block)

/-- `make_unique<uint8_t[]>` zeroes the storage. -/
def zeroed (storage : ℕ) (m : ByteMem) : ByteMem := fun a =>
  if storage ≤ a ∧ a < storage+L.storageSize then 0 else m a

/-- `MemoryPool::MemoryPool`. -/
def construct (storage : ℕ) (m : ByteMem) : ByteMem × Pool :=
  let linked := linkBlocks L storage L.numBlocks (zeroed L storage m,0)
  (linked.1,⟨storage,linked.2,L.numBlocks⟩)

/-- `allocate`: the block handed out (null when there is none) and the pool left behind. -/
def allocate (m : ByteMem) (p : Pool) : ℕ × Pool :=
  if p.freeHead = 0 then (0,p)
  else (p.freeHead,{ p with
    freeHead := m.load p.freeHead ptrSize
    freeCount := (p.freeCount+(2^64-1)) % 2^64 })

/-- `owns`. -/
def owns (p : Pool) (ptr : ℕ) : Bool :=
  decide (p.storage ≤ ptr) && decide (ptr < p.storage+L.storageSize)

/-- `deallocate`; `none` is a failed assertion, which `ndebug` compiles away. -/
def deallocate (ndebug : Bool) (m : ByteMem) (p : Pool) (ptr : ℕ) : Option (ByteMem × Pool) :=
  if ptr = 0 then some (m,p)
  else if ndebug = false ∧ owns L p ptr = false then none
  -- the block's first bytes become the link
  else some (m.store ptr ptrSize p.freeHead,{ p with
    freeHead := ptr
    freeCount := (p.freeCount+1) % 2^64 })

/-- Memory, the pool, and the blocks its clients hold. -/
structure State where
  mem : ByteMem
  pool : Pool
  out : List ℕ

/-- Clients allocate, give back null or a block they hold, and write into blocks they hold. -/
inductive Action
  | allocate
  | deallocate (ptr : ℕ)
  | write (ptr off : ℕ) (byte : UInt8)
  deriving DecidableEq, Repr

inductive Event
  | allocated (ptr : ℕ)
  | deallocated (ptr : ℕ)
  deriving DecidableEq, Repr

def step (ndebug : Bool) (s : State) : Action → Option (State × List Event)
  | .allocate =>
    let (ptr,pool) := MemoryPool.allocate s.mem s.pool
    some ({ s with pool := pool, out := if ptr = 0 then s.out else ptr :: s.out },
      [.allocated ptr])
  | .deallocate ptr =>
    if ptr = 0 ∨ ptr ∈ s.out then
      (MemoryPool.deallocate L ndebug s.mem s.pool ptr).map fun (m,pool) =>
        ({ mem := m, pool := pool, out := s.out.erase ptr },[.deallocated ptr])
    else none
  | .write ptr off byte =>
    if ptr ∈ s.out ∧ off < L.blockSize then
      some ({ s with mem := Function.update s.mem (ptr+off) byte },[])
    else none

/-- A pool and the clients of its blocks. -/
def pool (ndebug : Bool) : System State Action Event := ⟨step L ndebug⟩

/-- The state after the constructor has run. -/
def start (storage : ℕ) (m : ByteMem) : State :=
  let constructed := construct L storage m
  ⟨constructed.1,constructed.2,[]⟩

/-- The pool's purpose: a stack of free block addresses. -/
def lifo : Automaton (List ℕ) Event where
  next
    | [], .allocated ptr => if ptr = 0 then some [] else none
    | a :: l, .allocated ptr => if ptr = a then some l else none
    | l, .deallocated ptr => if ptr = 0 then some l else some (ptr :: l)

end WsClient.MemoryPool
