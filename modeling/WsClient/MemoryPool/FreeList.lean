import WsClient.MemoryPool.Layout
import Mathlib.Data.List.Perm.Basic

/-!
# The free list of `MemoryPool`

The embedded links represent a stack of free blocks; with the blocks handed out it makes up
all of them. Everything a client writes lands in blocks that carry no link.
-/

namespace WsClient.MemoryPool
open WsClient.Lib

variable {L : Layout} {ndebug : Bool}

/-- `allocate` hands out the head of the free list, null included. -/
theorem allocate_fst (m : ByteMem) (p : Pool) : (allocate m p).1 = p.freeHead := by
  rw [allocate]
  split
  · next hz => exact hz.symm
  · rfl

/-- Pointers into a placed pool are non-null words. -/
theorem Placement.block_bounds (h : L.NoOverflow) (p : Placement L) {a : ℕ}
    (ha : a ∈ L.blocks p.address) : a ≠ 0 ∧ a < 256^ptrSize := by
  obtain ⟨offset,rfl,_,hend⟩ := Layout.mem_blocks h ha
  have hpos := p.pos
  have hfits := p.fits
  have hk := Layout.kAlignedBlockSize_pos h
  refine ⟨by omega,?_⟩
  change p.address+offset < 2^64
  omega

theorem blocks_link_apart (h : L.NoOverflow) {storage a b : ℕ} (ha : a ∈ L.blocks storage)
    (hb : b ∈ L.blocks storage) (hne : a ≠ b) : a+ptrSize ≤ b ∨ b+ptrSize ≤ a := by
  have hp := Layout.ptrSize_le h
  rcases Layout.blocks_apart ha hb hne with hab | hba
  · exact .inl (by omega)
  · exact .inr (by omega)

/-- The constructor's loop extends a chain of the blocks from `i` on to all blocks. -/
theorem linkBlocks_chain (h : L.NoOverflow) (p : Placement L) {i : ℕ} (hi : i ≤ L.numBlocks)
    {m : ByteMem} {head : ℕ} (hhead : head = 0 ∨ head ∈ L.blocks p.address)
    (hc : m.Chain ptrSize head ((List.range' i (L.numBlocks-i)).map (L.block p.address))) :
    (linkBlocks L p.address i (m,head)).1.Chain ptrSize
      (linkBlocks L p.address i (m,head)).2 (L.blocks p.address) := by
  induction i generalizing m head with
  | zero => simpa [linkBlocks,Layout.blocks,List.range_eq_range'] using hc
  | succ i ih =>
    have hmem : L.block p.address i ∈ L.blocks p.address :=
      List.mem_map.mpr ⟨i,List.mem_range.mpr hi,rfl⟩
    have hoff : p.address+L.blockOffset i = L.block p.address i := by
      rw [Layout.blockOffset_eq h hi]
      rfl
    have hword : head < 256^ptrSize := by
      rcases hhead with rfl | hb
      · decide
      · exact (p.block_bounds h hb).2
    rw [linkBlocks,hoff]
    -- block `i` goes in front of the chain of the blocks after it
    refine ih (by omega) (.inr hmem) ?_
    rw [show L.numBlocks-i = L.numBlocks-(i+1)+1 by omega,List.range'_succ,List.map_cons]
    refine hc.push (p.block_bounds h hmem).1 hword ?_
    intro b hb
    obtain ⟨j,hj,rfl⟩ := List.mem_map.mp hb
    rw [List.mem_range'_1] at hj
    have hsep := L.block_disjoint p.address (show i < j by omega)
    have hp := Layout.ptrSize_le h
    exact .inr (by omega)

theorem linkBlocks_frame (h : L.NoOverflow) {storage i a : ℕ} (hi : i ≤ L.numBlocks)
    (ha : a < storage ∨ storage+L.storageSize ≤ a) (s : ByteMem × ℕ) :
    (linkBlocks L storage i s).1 a = s.1 a := by
  refine linkBlocks_other (fun j hj => ?_) s
  have hend := Layout.block_end_le h (show j < L.numBlocks by omega)
  have hp := Layout.ptrSize_le h
  rw [Layout.blockOffset_eq h (by omega)]
  omega

/-- The constructor writes into its own storage only. -/
theorem construct_frame (h : L.NoOverflow) {storage a : ℕ}
    (ha : a < storage ∨ storage+L.storageSize ≤ a) (m : ByteMem) :
    (construct L storage m).1 a = m a := by
  rw [construct,linkBlocks_frame h (Nat.le_refl _) ha]
  exact if_neg (by omega)

/-- The simulation relation: memory's links visit the stack `free`, and together with the
blocks handed out these are all the blocks. -/
structure Rel (L : Layout) (p : Placement L) (s : State) (free : List ℕ) : Prop where
  storage : s.pool.storage = p.address
  chain : s.mem.Chain ptrSize s.pool.freeHead free
  count : s.pool.freeCount = free.length
  perm : (free++s.out).Perm (L.blocks p.address)

/-- The blocks out once `allocate` has answered. -/
def State.outAfter (s : State) : List ℕ :=
  if (allocate s.mem s.pool).1 = 0 then s.out else (allocate s.mem s.pool).1 :: s.out

namespace Rel

variable {p : Placement L} {s s' : State} {free : List ℕ} {es : List Event}

theorem nodup (h : Rel L p s free) (hfit : L.NoOverflow) : (free++s.out).Nodup :=
  h.perm.nodup_iff.mpr (Layout.blocks_nodup hfit _)

theorem mem_free (h : Rel L p s free) {a : ℕ} (ha : a ∈ free) : a ∈ L.blocks p.address :=
  h.perm.mem_iff.mp (List.mem_append_left _ ha)

theorem mem_out (h : Rel L p s free) {a : ℕ} (ha : a ∈ s.out) : a ∈ L.blocks p.address :=
  h.perm.mem_iff.mp (List.mem_append_right _ ha)

theorem length_add (h : Rel L p s free) : free.length+s.out.length = L.numBlocks := by
  have hl := h.perm.length_eq
  simpa [Layout.blocks] using hl

theorem free_ne_out (h : Rel L p s free) (hfit : L.NoOverflow) {a b : ℕ} (ha : a ∈ free)
    (hb : b ∈ s.out) : a ≠ b :=
  fun he => (List.nodup_append.mp (h.nodup hfit)).2.2 a ha b hb he

theorem owns_out (h : Rel L p s free) (hfit : L.NoOverflow) {a : ℕ} (ha : a ∈ s.out) :
    owns L s.pool a = true := by
  obtain ⟨offset,rfl,_,hend⟩ := Layout.mem_blocks hfit (h.mem_out ha)
  have hk := Layout.kAlignedBlockSize_pos hfit
  simp only [owns,h.storage,Bool.and_eq_true,decide_eq_true_eq]
  omega

theorem freeHead_lt (h : Rel L p s free) (hfit : L.NoOverflow) :
    s.pool.freeHead < 256^ptrSize := by
  by_cases hz : s.pool.freeHead = 0
  · rw [hz]
    decide
  · obtain ⟨tail,rfl,_⟩ := h.chain.pop hz
    exact (p.block_bounds hfit (h.mem_free List.mem_cons_self)).2

theorem freeHead_eq_zero_iff (h : Rel L p s free) :
    s.pool.freeHead = 0 ↔ s.out.length = L.numBlocks := by
  have hl := h.length_add
  rw [h.chain.head_eq_zero_iff,← List.length_eq_zero_iff]
  omega

/-- The relation depends on the pool, the links of the free blocks, and which blocks are out. -/
theorem congr (h : Rel L p s free) (hpool : s'.pool = s.pool)
    (hmem : ∀ a ∈ free, s'.mem.load a ptrSize = s.mem.load a ptrSize) (hout : s'.out.Perm s.out) :
    Rel L p s' free where
  storage := by
    rw [hpool]
    exact h.storage
  chain := by
    rw [hpool]
    exact h.chain.congr hmem
  count := by
    rw [hpool]
    exact h.count
  perm := (hout.append_left free).trans h.perm

/-- `allocate` takes the first free block, if there is one. -/
theorem allocate_call (h : Rel L p s free) : ∃ free',
    lifo.run free [.allocated (MemoryPool.allocate s.mem s.pool).1] = some free' ∧
      Rel L p ⟨s.mem,(MemoryPool.allocate s.mem s.pool).2,s.outAfter⟩ free' := by
  rw [State.outAfter,MemoryPool.allocate]
  by_cases hz : s.pool.freeHead = 0
  · have hnil := h.chain.head_eq_zero_iff.mp hz
    subst hnil
    rw [if_pos hz]
    exact ⟨[],rfl,⟨h.storage,h.chain,h.count,h.perm⟩⟩
  · obtain ⟨tail,rfl,htail⟩ := h.chain.pop hz
    rw [if_neg hz,if_neg hz]
    refine ⟨tail,?_,⟨h.storage,htail,?_,?_⟩⟩
    · simp [lifo]
    · -- a block was free, so the decrement does not wrap
      have hc := h.count
      have hl := h.length_add
      have hn := L.numBlocks_fits
      simp only [List.length_cons] at hc hl
      change (s.pool.freeCount+(2^64-1)) % 2^64 = tail.length
      omega
    · exact List.perm_middle.trans h.perm

theorem allocate (h : Rel L p s free)
    (hs : step L ndebug s .allocate = some (s',es)) :
    ∃ free', lifo.run free es = some free' ∧ Rel L p s' free' := by
  simp only [step,Option.some.injEq,Prod.mk.injEq] at hs
  obtain ⟨rfl,rfl⟩ := hs
  exact h.allocate_call

theorem deallocate_null (h : Rel L p s free) (hfit : L.NoOverflow)
    (hs : step L ndebug s (.deallocate 0) = some (s',es)) :
    ∃ free', lifo.run free es = some free' ∧ Rel L p s' free' := by
  simp only [step,MemoryPool.deallocate,true_or,if_true,Option.map_some,Option.some.injEq,
    Prod.mk.injEq] at hs
  obtain ⟨rfl,rfl⟩ := hs
  have hout : s.out.erase 0 = s.out :=
    List.erase_of_not_mem fun hz => (p.block_bounds hfit (h.mem_out hz)).1 rfl
  refine ⟨free,by cases free <;> rfl,⟨h.storage,h.chain,h.count,?_⟩⟩
  change (free++s.out.erase 0).Perm _
  rw [hout]
  exact h.perm

/-- `deallocate` of a block that is out succeeds, and links it in front. -/
theorem deallocate_call (h : Rel L p s free) (hfit : L.NoOverflow) (ndebug : Bool) {ptr : ℕ}
    (hptr : ptr ∈ s.out) : ∃ m pool,
    MemoryPool.deallocate L ndebug s.mem s.pool ptr = some (m,pool) ∧
      m = s.mem.store ptr ptrSize s.pool.freeHead ∧
      Rel L p ⟨m,pool,s.out.erase ptr⟩ (ptr :: free) := by
  have hne := (p.block_bounds hfit (h.mem_out hptr)).1
  refine ⟨_,{ s.pool with freeHead := ptr, freeCount := (s.pool.freeCount+1) % 2^64 },?_,rfl,
    ⟨h.storage,?_,?_,?_⟩⟩
  · rw [MemoryPool.deallocate,if_neg hne,if_neg (by simp [h.owns_out hfit hptr])]
  · -- the link is written inside a held block, so no link of the free list changes
    refine h.chain.push hne (h.freeHead_lt hfit) fun b hb => ?_
    exact blocks_link_apart hfit (h.mem_free hb) (h.mem_out hptr) (h.free_ne_out hfit hb hptr)
  · have hc := h.count
    have hl := h.length_add
    have hn := L.numBlocks_fits
    have hpos := List.length_pos_of_mem hptr
    change (s.pool.freeCount+1) % 2^64 = free.length+1
    omega
  · change ((ptr :: free)++s.out.erase ptr).Perm _
    refine List.Perm.trans ?_ h.perm
    rw [List.cons_append]
    exact List.perm_middle.symm.trans ((List.perm_cons_erase hptr).symm.append_left free)

theorem deallocate (h : Rel L p s free) (hfit : L.NoOverflow) {ptr : ℕ} (hptr : ptr ∈ s.out)
    (hs : step L ndebug s (.deallocate ptr) = some (s',es)) :
    ∃ free', lifo.run free es = some free' ∧ Rel L p s' free' := by
  have hne := (p.block_bounds hfit (h.mem_out hptr)).1
  obtain ⟨m,pool,hcall,_,hrel⟩ := h.deallocate_call hfit ndebug hptr
  simp only [step,hcall,hptr,or_true,if_true,Option.map_some,Option.some.injEq,
    Prod.mk.injEq] at hs
  obtain ⟨rfl,rfl⟩ := hs
  refine ⟨ptr :: free,?_,hrel⟩
  cases free <;> simp [lifo,hne]

theorem write (h : Rel L p s free) (hfit : L.NoOverflow) {ptr off : ℕ} {byte : UInt8}
    (hs : step L ndebug s (.write ptr off byte) = some (s',es)) :
    ∃ free', lifo.run free es = some free' ∧ Rel L p s' free' := by
  simp only [step] at hs
  split at hs
  · next hw =>
    simp only [Option.some.injEq,Prod.mk.injEq] at hs
    obtain ⟨rfl,rfl⟩ := hs
    refine ⟨free,rfl,⟨h.storage,?_,h.count,h.perm⟩⟩
    -- the byte written lies in a held block, every link in a free one
    refine h.chain.congr fun a ha => ByteMem.load_update_of_notMem ?_
    have hne := h.free_ne_out hfit ha hw.1
    have hb := Layout.blockSize_le hfit
    have hk := Layout.ptrSize_le hfit
    have hoff := hw.2
    rcases Layout.blocks_apart (h.mem_free ha) (h.mem_out hw.1) hne with hap | hpa
    · exact .inr (by omega)
    · exact .inl (by omega)
  · cases hs

/-- One operation of any client moves the stack as its event says. -/
theorem step_refines (h : Rel L p s free) (hfit : L.NoOverflow) {a : Action}
    (hs : step L ndebug s a = some (s',es)) :
    ∃ free', lifo.run free es = some free' ∧ Rel L p s' free' := by
  cases a with
  | allocate => exact h.allocate hs
  | write ptr off byte => exact h.write hfit hs
  | deallocate ptr =>
    by_cases hz : ptr = 0
    · exact h.deallocate_null hfit (hz ▸ hs)
    · by_cases hptr : ptr ∈ s.out
      · exact h.deallocate hfit hptr hs
      · simp [step,hz,hptr] at hs

end Rel

theorem rel_start (hfit : L.NoOverflow) (p : Placement L) (m : ByteMem) :
    Rel L p (start L p.address m) (L.blocks p.address) where
  storage := rfl
  chain := by
    refine linkBlocks_chain hfit p (Nat.le_refl _) (.inl rfl) ?_
    rw [Nat.sub_self]
    rfl
  count := by simp [start,construct,Layout.blocks]
  perm := by
    change (L.blocks p.address++[]).Perm _
    rw [List.append_nil]

/-- Every history of the pool is a history of a stack of block addresses. -/
theorem run_refines (hfit : L.NoOverflow) (p : Placement L) {m : ByteMem} {tr : List Event}
    {s : State} (h : (pool L ndebug).Run (start L p.address m) tr s) :
    ∃ free, lifo.run (L.blocks p.address) tr = some free ∧ Rel L p s free := by
  have hr := h.refines (A := lifo) (R := Rel L p) (g := some) (rel_start hfit p m)
    (fun s t a s' es hrel _ hs => by
      rw [List.filterMap_some]
      exact hrel.step_refines hfit hs)
  rwa [List.filterMap_some] at hr

/-- The free list and the blocks handed out partition the blocks in every history, so
`allocate` fails exactly when all are out, and otherwise hands out an aligned block of its own. -/
theorem free_list_partition (L : Layout) (hfit : L.NoOverflow) (p : Placement L) (ndebug : Bool)
    (m : ByteMem) {tr : List Event} {s : State}
    (h : (pool L ndebug).Run (start L p.address m) tr s) :
    ∃ free, lifo.run (L.blocks p.address) tr = some free ∧
      s.mem.Chain ptrSize s.pool.freeHead free ∧
      free.length = s.pool.freeCount ∧ (free++s.out).Nodup ∧
      (free++s.out).Perm (L.blocks p.address) ∧
      ((allocate s.mem s.pool).1 = 0 ↔ s.out.length = L.numBlocks) ∧
      (∀ ptr, (allocate s.mem s.pool).1 = ptr → ptr ≠ 0 →
        ∃ offset, ptr = p.address+offset ∧ L.maxAlign ∣ offset ∧
          offset+L.blockSize ≤ L.storageSize ∧
          ∀ q ∈ s.out, ptr+L.blockSize ≤ q ∨ q+L.blockSize ≤ ptr) ∧
      ∀ ptr, ptr = 0 ∨ ptr ∈ s.out → deallocate L ndebug s.mem s.pool ptr ≠ none := by
  obtain ⟨free,hrun,hrel⟩ := run_refines hfit p h
  rw [allocate_fst]
  refine ⟨free,hrun,hrel.chain,hrel.count.symm,hrel.nodup hfit,hrel.perm,
    hrel.freeHead_eq_zero_iff,?_,?_⟩
  · rintro ptr rfl hne
    obtain ⟨tail,htail,_⟩ := hrel.chain.pop hne
    have hmem : s.pool.freeHead ∈ free := htail ▸ List.mem_cons_self
    obtain ⟨offset,he,hd,hend⟩ := Layout.mem_blocks hfit (hrel.mem_free hmem)
    have hb := Layout.blockSize_le hfit
    refine ⟨offset,he,hd,by omega,fun q hq => ?_⟩
    have hap := Layout.blocks_apart (hrel.mem_free hmem) (hrel.mem_out hq)
      (hrel.free_ne_out hfit hmem hq)
    omega
  · rintro ptr (rfl | hptr)
    · exact fun hn => nomatch hn
    · have hne := (p.block_bounds hfit (hrel.mem_out hptr)).1
      rw [deallocate,if_neg hne,if_neg (fun hc => by simp [hrel.owns_out hfit hptr] at hc)]
      exact Option.some_ne_none _

/-- The smallest pool of the tests' kind: two blocks of 64 bytes. -/
def layout64 : Layout where
  blockSize := 64
  numBlocks := 2
  maxAlign := 16
  blockSize_fits := by decide
  numBlocks_fits := by decide
  blockSize_ge := by decide
  numBlocks_pos := by decide
  maxAlign_pow := ⟨4,by decide,by decide⟩

def placement4096 : Placement layout64 := ⟨4096,by decide,by decide⟩

/-- The second block is handed out after the first has been written over; then none is left. -/
theorem free_list_partition_exhaust :
    ∃ s, (pool layout64 false).Run (start layout64 4096 fun _ => 0)
      [.allocated 4096,.allocated 4160] s ∧ (allocate s.mem s.pool).1 = 0 := by
  have hrun : (pool layout64 false).Run (start layout64 placement4096.address fun _ => 0)
      [.allocated 4096,.allocated 4160] _ :=
    System.run_of_exec (l := [.allocate,.write 4096 0 255,.allocate]) rfl
  obtain ⟨_,_,_,_,_,_,hnull,_⟩ :=
    free_list_partition layout64 (by decide) placement4096 false (fun _ => 0) hrun
  exact ⟨_,hrun,hnull.mpr rfl⟩

end WsClient.MemoryPool
