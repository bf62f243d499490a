import WsClient.PoolPtr.Conservation

/-!
# Blocks and the pools they go back to

A handle gives its block back to the pool it is bound to, which is the pool the block came from
as long as no block is move-assigned into a handle bound to another pool. From then on the
handle's destructor calls `deallocate` on a pool that does not own the block.
-/

namespace WsClient.PoolPtr
open WsClient.Lib WsClient.MemoryPool

variable {ι : Type} [DecidableEq ι] {L : Layout} {ndebug : Bool} {ps : ι → Placement L}
  {s : State ι} {free : ι → List ℕ} {i j : ι} {h other ptr : ℕ} {x y : Handle ι}

/-- Every `deallocate` was on the pool that owns its argument, no assertion has failed, and the
free list of every pool consists of the pool's own blocks. -/
structure GivenBack (ps : ι → Placement L) (tr : List (Event ι)) (s : State ι) : Prop where
  owned : ∀ i ptr owned, .deallocate i ptr owned ∈ tr → owned = true
  running : s.aborted = false
  freeList : ∀ i, ∃ free, s.mem.Chain ptrSize (s.pools i).freeHead free ∧
    ∀ b ∈ free, b ∈ L.blocks (ps i).address

omit [DecidableEq ι] in
/-- No pool owns a block of another. -/
theorem owns_apart (hfit : L.NoOverflow) (hd : Apart ps) (hne : i ≠ j) {p : Pool}
    (hp : p.storage = (ps i).address) (hptr : ptr ∈ L.blocks (ps j).address) :
    owns L p ptr = false := by
  obtain ⟨o,rfl,_,ho⟩ := Layout.mem_blocks hfit hptr
  have hk := Layout.kAlignedBlockSize_pos hfit
  rw [owns,hp,Bool.and_eq_false_iff,decide_eq_false_iff_not,decide_eq_false_iff_not]
  rcases hd i j hne with hij | hji
  · exact .inr (by omega)
  · exact .inl (by omega)

/-- Once a block has been assigned across pools, the destructor of the handle it is in gives it
to the wrong one. -/
theorem Conserved.misplaced (hc : Conserved ps s free) (hfit : L.NoOverflow) (hd : Apart ps)
    (hne : h ≠ other) (hx : s.handles.lookup h = some x) (hy : s.handles.lookup other = some y)
    (hz : y.ptr ≠ 0) (hpool : x.pool ≠ y.pool) : ∃ s₁ es₁ s₂ es₂,
      (program L ndebug).step s (.moveAssign h other) = some (s₁,es₁) ∧
        (program L ndebug).step s₁ (.destroy h) = some (s₂,es₂) ∧
        .deallocate x.pool y.ptr false ∈ es₂ := by
  obtain ⟨s₁,fs,hcall,hh,hr,_,hnext⟩ := hc.giveBack hfit hd ndebug hx
  -- the state in which `h` would have been destroyed instead
  obtain ⟨free',hc'⟩ := hnext { s₁ with handles := s₁.handles.erase h } rfl rfl rfl fun j => by
    rw [State.view,State.view,hh,hr,← List.append_assoc]
    exact (held_perm j hx).symm.append_right _
  have hrun₁ : s₁.aborted = false := hc'.running
  have howns : owns L (s₁.pools x.pool) y.ptr = false := by
    refine owns_apart hfit hd hpool (hc'.rel x.pool).storage ((hc.rel y.pool).mem_out ?_)
    exact List.mem_append_left _ (mem_held hy hz)
  have hassign : (program L ndebug).step s (.moveAssign h other) = some ({ s₁ with
      handles := (s₁.handles.insert other { y with ptr := 0 }).insert h
        { x with ptr := y.ptr } },fs) := by
    simp only [program,PoolPtr.step]
    rw [if_neg (by simp [hc.running]),hx,hy]
    dsimp only
    rw [if_neg hne,hcall]
  have hcalls : ∃ s₂, State.deallocate L ndebug { s₁ with
      handles := (s₁.handles.insert other { y with ptr := 0 }).insert h
        { x with ptr := y.ptr } } x.pool y.ptr = (s₂,[.deallocate x.pool y.ptr false]) := by
    simp only [State.deallocate,howns]
    split
    · exact ⟨_,rfl⟩
    · exact ⟨_,rfl⟩
  obtain ⟨s₂,hcalls⟩ := hcalls
  refine ⟨_,_,{ s₂ with handles := s₂.handles.erase h },_,hassign,?_,List.mem_singleton.mpr rfl⟩
  simp only [program,PoolPtr.step]
  rw [if_neg (by simp [hrun₁]),AList.lookup_insert,Option.map_some,State.giveBack,if_neg hz,hcalls]

/-- In a program that moves blocks by assignment only between handles bound to the same pool,
every block goes back to the pool it came from; and the first assignment that does otherwise
makes a handle whose destructor gives a block to a pool that does not own it. -/
theorem returned_to_owner (L : Layout) (hfit : L.NoOverflow) (n : ℕ) (ps : Fin n → Placement L)
    (hd : Apart ps) (ndebug : Bool) (m : ByteMem) {tr : List (Event (Fin n))} {s : State (Fin n)}
    (h : (program L ndebug).RunWhere SamePool
      (start L (fun i => (ps i).address) (List.finRange n) m) tr s) :
    GivenBack ps tr s ∧
      ∀ h other x y, h ≠ other → s.handles.lookup h = some x → s.handles.lookup other = some y →
        y.ptr ≠ 0 → x.pool ≠ y.pool → ∃ s₁ es₁ s₂ es₂,
          (program L ndebug).step s (.moveAssign h other) = some (s₁,es₁) ∧
            (program L ndebug).step s₁ (.destroy h) = some (s₂,es₂) ∧
            .deallocate x.pool y.ptr false ∈ es₂ := by
  obtain ⟨⟨free,hc⟩,hes⟩ := run_conserved hfit hd List.mem_finRange h
  refine ⟨⟨hes,hc.running,fun i => ⟨free i,(hc.rel i).chain,fun b hb => (hc.rel i).mem_free hb⟩⟩,?_⟩
  intro h other x y hne hx hy hz hpool
  exact hc.misplaced hfit hd hne hx hy hz hpool

/-- Two pools of the tests' kind. -/
def placements : Fin 2 → Placement layout64
  | 0 => placement4096
  | 1 => ⟨8192,by decide,by decide⟩

theorem placements_apart : Apart placements := by
  unfold Apart
  decide +kernel

/-- Moves within either of two pools. -/
theorem returned_to_owner_two_pools :
    ∃ tr s, (program layout64 false).RunWhere SamePool
      (start layout64 (fun i => (placements i).address) (List.finRange 2) fun _ => 0) tr s ∧
      .deallocate 1 8192 true ∈ tr ∧ GivenBack placements tr s := by
  have hexec : ((program layout64 false).execWhere SamePool
      (start layout64 (fun i => (placements i).address) (List.finRange 2) fun _ => 0)
      [.construct 0 0,.construct 1 1,.construct 2 1,.moveAssign 1 2,.moveConstruct 3 0,
        .destroy 3]).any (fun r => decide (.deallocate 1 8192 true ∈ r.2)) = true := by
    decide +kernel
  obtain ⟨s,tr,hrun,hs⟩ := System.exists_run_of_exec hexec
  exact ⟨tr,s,hrun,of_decide_eq_true hs,
    (returned_to_owner layout64 (by decide) 2 placements placements_apart false _ hrun).1⟩

/-- A handle on the first pool is assigned a block of the second, and destroyed. -/
theorem returned_to_other_pool :
    ¬∀ (L : Layout) (_ : L.NoOverflow) (n : ℕ) (ps : Fin n → Placement L) (_ : Apart ps)
      (ndebug : Bool) (m : ByteMem) (tr : List (Event (Fin n))) (s : State (Fin n)),
      (program L ndebug).RunWhere (fun _ a => a.handlesOnly = true)
        (start L (fun i => (ps i).address) (List.finRange n) m) tr s → GivenBack ps tr s := by
  intro hall
  have hexec : ((program layout64 true).execWhere (fun _ a => a.handlesOnly = true)
      (start layout64 (fun i => (placements i).address) (List.finRange 2) fun _ => 0)
      [.construct 0 0,.construct 1 1,.moveAssign 0 1,.destroy 0]).any
      (fun r => decide (.deallocate 0 8192 false ∈ r.2)) = true := by
    decide +kernel
  obtain ⟨s,tr,hrun,hs⟩ := System.exists_run_of_exec hexec
  have hback := hall layout64 (by decide) 2 placements placements_apart true _ tr s hrun
  cases hback.owned 0 8192 false (of_decide_eq_true hs)

end WsClient.PoolPtr
