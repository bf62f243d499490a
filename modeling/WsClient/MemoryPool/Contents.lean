import WsClient.MemoryPool.FreeList

/-!
# Block contents

Links sit in free blocks only, and blocks do not overlap: what a client has written into a block
it holds stays there, whatever happens to the pool and to the other blocks.
-/

namespace WsClient.MemoryPool
open WsClient.Lib

/-- What a client does to a block. -/
inductive Access
  | allocated (ptr : ℕ)
  | deallocated (ptr : ℕ)
  | wrote (ptr off : ℕ) (byte : UInt8)
  deriving DecidableEq, Repr

def Event.access : Event → Access
  | .allocated ptr => .allocated ptr
  | .deallocated ptr => .deallocated ptr

/-- The accesses of a step, from its action and the events it emits. -/
def Action.accesses : Action → List Event → List Access
  | .write ptr off byte, _ => [.wrote ptr off byte]
  | _, es => es.map Event.access

/-- The pool with the writes of its clients on record. -/
def history (L : Layout) (ndebug : Bool) : System State Action Access where
  step s a := (step L ndebug s a).map fun (s',es) => (s',a.accesses es)

/-- How an access changes what was last written at `off` of block `ptr`. -/
def Access.note (ptr off : ℕ) (last : Option UInt8) : Access → Option UInt8
  | .allocated p | .deallocated p => if p = ptr then none else last
  | .wrote p o byte => if p = ptr ∧ o = off then some byte else last

/-- The byte the holder of block `ptr` has last written at `off` since its allocation. -/
def lastWritten (tr : List Access) (ptr off : ℕ) : Option UInt8 :=
  tr.foldl (Access.note ptr off) none

variable {L : Layout} {ndebug : Bool} {p : Placement L} {s s' : State} {free : List ℕ}
  {a : Action} {es : List Event} {tr : List Access} {ptr off : ℕ}

@[simp] theorem lastWritten_append (tr : List Access) (access : Access) :
    lastWritten (tr++[access]) ptr off = access.note ptr off (lastWritten tr ptr off) :=
  List.foldl_append

/-- A block stays held until it is given back. -/
theorem mem_out_of_step (hptr : ptr ∈ s.out) (hs : step L ndebug s a = some (s',es))
    (ha : a ≠ .deallocate ptr) : ptr ∈ s'.out := by
  cases a with
  | allocate =>
    cases hs
    dsimp only
    split
    · exact hptr
    · exact List.mem_cons_of_mem _ hptr
  | deallocate q =>
    simp only [step] at hs
    split at hs
    · obtain ⟨_,_,he⟩ := Option.map_eq_some_iff.mp hs
      cases he
      exact (List.mem_erase_of_ne fun he => ha (by rw [he])).mpr hptr
    · cases hs
  | write q o byte =>
    simp only [step] at hs
    split at hs <;> cases hs
    exact hptr

namespace Rel

/-- A byte of a held block lies outside every other block. -/
theorem byte_apart (h : Rel L p s free) (hfit : L.NoOverflow) {q : ℕ} (hptr : ptr ∈ s.out)
    (hq : q ∈ s.out) (hne : q ≠ ptr) (hoff : off < L.blockSize) :
    ptr+off < q ∨ q+L.blockSize ≤ ptr+off := by
  have hb := Layout.blockSize_le hfit
  rcases Layout.blocks_apart (h.mem_out hq) (h.mem_out hptr) hne with hqp | hpq
  · exact .inr (by omega)
  · exact .inl (by omega)

/-- No step but its holder's changes the bytes of a held block. -/
theorem frame (h : Rel L p s free) (hfit : L.NoOverflow) (hptr : ptr ∈ s.out)
    (hoff : off < L.blockSize) (hs : step L ndebug s a = some (s',es)) (ha : a ≠ .deallocate ptr)
    (hw : ∀ byte, a ≠ .write ptr off byte) : s'.mem (ptr+off) = s.mem (ptr+off) := by
  cases a with
  | allocate =>
    cases hs
    rfl
  | deallocate q =>
    have hqp : q ≠ ptr := fun he => ha (by rw [he])
    simp only [step] at hs
    split at hs
    · next hq =>
      obtain ⟨⟨m,pool⟩,hd,he⟩ := Option.map_eq_some_iff.mp hs
      cases he
      simp only [MemoryPool.deallocate] at hd
      split at hd
      · cases hd
        rfl
      · next hz =>
        split at hd
        · cases hd
        · -- the link goes into the block that is given back
          cases hd
          have hsize := L.blockSize_ge
          have hap := h.byte_apart hfit hptr (hq.resolve_left hz) hqp hoff
          exact ByteMem.store_frame (by omega)
    · cases hs
  | write q o byte =>
    simp only [step] at hs
    split at hs
    · next hq =>
      cases hs
      -- another byte of the block, or a block apart from it
      refine Function.update_of_ne ?_ ..
      by_cases he : q = ptr
      · subst he
        have ho : o ≠ off := fun he => hw byte (he ▸ rfl)
        omega
      · have hap := h.byte_apart hfit hptr hq.1 he hoff
        have ho := hq.2
        omega
    · cases hs

end Rel

/-- Every held block has the contents its holder has written. -/
def Faithful (L : Layout) (tr : List Access) (s : State) : Prop :=
  ∀ ptr ∈ s.out, ∀ off < L.blockSize, ∀ byte,
    lastWritten tr ptr off = some byte → s.mem (ptr+off) = byte

/-- One access keeps the contents of the held blocks. -/
theorem Faithful.step (h : Faithful L tr s) (hrel : Rel L p s free) (hfit : L.NoOverflow)
    (hs : step L ndebug s a = some (s',es)) : Faithful L (tr++a.accesses es) s' := by
  intro ptr hptr off hoff byte hlast
  cases a with
  | allocate =>
    have hs' := hs
    simp only [MemoryPool.step,Option.some.injEq,Prod.mk.injEq] at hs'
    obtain ⟨rfl,rfl⟩ := hs'
    simp only [Action.accesses,List.map_cons,List.map_nil,Event.access,lastWritten_append,
      Access.note] at hlast
    -- nothing has been written yet into a new block
    split at hlast
    · cases hlast
    · next hne =>
      have hold : ptr ∈ s.out := by
        dsimp only at hptr
        split at hptr
        · exact hptr
        · exact (List.mem_cons.mp hptr).resolve_left (Ne.symm hne)
      exact h ptr hold off hoff byte hlast
  | deallocate q =>
    obtain ⟨rfl,hsub⟩ : es = [.deallocated q] ∧ s'.out = s.out.erase q := by
      simp only [MemoryPool.step] at hs
      split at hs
      · obtain ⟨_,_,he⟩ := Option.map_eq_some_iff.mp hs
        cases he
        exact ⟨rfl,rfl⟩
      · cases hs
    simp only [Action.accesses,List.map_cons,List.map_nil,Event.access,lastWritten_append,
      Access.note] at hlast
    split at hlast
    · cases hlast
    · next hne =>
      rw [hsub] at hptr
      have hold := List.mem_of_mem_erase hptr
      rw [hrel.frame hfit hold hoff hs (by simpa using hne) (by simp)]
      exact h ptr hold off hoff byte hlast
  | write q o b =>
    have hout : s'.out = s.out := by
      simp only [MemoryPool.step] at hs
      split at hs <;> cases hs
      rfl
    rw [hout] at hptr
    simp only [Action.accesses,lastWritten_append,Access.note] at hlast
    split at hlast
    · next heq =>
      -- the holder's own write
      obtain ⟨rfl,rfl⟩ := heq
      cases hlast
      simp only [MemoryPool.step] at hs
      split at hs <;> cases hs
      exact Function.update_self ..
    · next hne =>
      rw [hrel.frame hfit hptr hoff hs (by simp) (by grind)]
      exact h ptr hptr off hoff byte hlast

/-- Whatever is allocated, given back and written, a held block keeps each byte its holder has
last written into it, and no step but the holder's own write or its giving the block back
changes any of its bytes. -/
theorem contents_preserved (L : Layout) (hfit : L.NoOverflow) (p : Placement L) (ndebug : Bool)
    (m : ByteMem) {tr : List Access} {s : State}
    (h : (history L ndebug).Run (start L p.address m) tr s) :
    (∀ ptr ∈ s.out, ∀ off < L.blockSize, ∀ byte,
      lastWritten tr ptr off = some byte → s.mem (ptr+off) = byte) ∧
    ∀ a s' es, (history L ndebug).step s a = some (s',es) →
      ∀ ptr ∈ s.out, a ≠ .deallocate ptr → ptr ∈ s'.out ∧
        ∀ off < L.blockSize, (∀ byte, a ≠ .write ptr off byte) →
          s'.mem (ptr+off) = s.mem (ptr+off) := by
  have hinv : (∃ free, Rel L p s free) ∧ Faithful L tr s := by
    refine h.invariant (I := fun tr s => (∃ free, Rel L p s free) ∧ Faithful L tr s) ?_ ?_
    · exact ⟨⟨_,rel_start hfit p m⟩,fun _ hptr => by cases hptr⟩
    · rintro tr s a s' _ ⟨⟨free,hrel⟩,hf⟩ _ hs
      obtain ⟨⟨s₁,es⟩,hstep,he⟩ := Option.map_eq_some_iff.mp hs
      cases he
      obtain ⟨free',_,hrel'⟩ := hrel.step_refines hfit hstep
      exact ⟨⟨free',hrel'⟩,hf.step hrel hfit hstep⟩
  obtain ⟨⟨free,hrel⟩,hf⟩ := hinv
  refine ⟨hf,fun a s' _ hs ptr hptr ha => ?_⟩
  obtain ⟨⟨s₁,es⟩,hstep,he⟩ := Option.map_eq_some_iff.mp hs
  cases he
  exact ⟨mem_out_of_step hptr hstep ha,fun off hoff hw => hrel.frame hfit hptr hoff hstep ha hw⟩

/-- The first block keeps a byte while the second is allocated, written to and given back. -/
theorem contents_preserved_neighbour :
    ∃ tr s, (history layout64 false).Run (start layout64 4096 fun _ => 0) tr s ∧
      lastWritten tr 4096 63 = some 7 ∧ s.mem 4159 = 7 := by
  have hrun : (history layout64 false).Run (start layout64 placement4096.address fun _ => 0)
      [.allocated 4096,.wrote 4096 63 7,.allocated 4160,.wrote 4160 0 9,.deallocated 4160] _ :=
    System.run_of_exec (l := [.allocate,.write 4096 63 7,.allocate,.write 4160 0 9,
      .deallocate 4160]) rfl
  have hbyte := (contents_preserved layout64 (by decide) placement4096 false (fun _ => 0) hrun).1
    4096 (by decide) 63 (by decide) 7 rfl
  exact ⟨_,_,hrun,rfl,hbyte⟩

end WsClient.MemoryPool
