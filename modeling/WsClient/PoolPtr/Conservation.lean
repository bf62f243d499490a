import WsClient.PoolPtr.Model
import WsClient.MemoryPool.FreeList

/-!
# Where the blocks are

As long as a block moves between handles bound to the same pool, the free list of each pool,
its handles and its released pointers share out its blocks, and whatever is given back is given
back to the pool that owns it. A move assignment between handles of two pools breaks this.
-/

namespace WsClient.PoolPtr
open WsClient.Lib WsClient.MemoryPool

variable {ι : Type} [DecidableEq ι] {L : Layout} {ndebug : Bool} {ps : ι → Placement L}
  {s s' : State ι} {free : ι → List ℕ} {handles : AList fun _ : ℕ => Handle ι}
  {i j : ι} {h other ptr : ℕ} {x y : Handle ι}

/-! ## Handles -/

theorem held_insert (i : ι) (h : ℕ) (x : Handle ι) (handles : AList fun _ : ℕ => Handle ι) :
    held i (handles.insert h x) = (x.block? i).toList++held i (handles.erase h) := by
  change ((⟨h,x⟩ : Σ _ : ℕ, Handle ι) :: (handles.erase h).entries).filterMap _ = _
  rw [List.filterMap_cons]
  cases hx : x.block? i <;> rfl

theorem held_erase_of_notMem (i : ι) (hh : h ∉ handles) :
    held i (handles.erase h) = held i handles :=
  congrArg (List.filterMap _) (List.kerase_of_notMem_keys hh)

/-- What one handle holds, and what the others do. -/
theorem held_perm (i : ι) (hx : handles.lookup h = some x) :
    (held i handles).Perm ((x.block? i).toList++held i (handles.erase h)) := by
  have hmem : (⟨h,x⟩ : Σ _ : ℕ, Handle ι) ∈ handles.entries := AList.mem_lookup_iff.mp hx
  obtain ⟨x',l₁,l₂,_,hl,hk⟩ := List.exists_of_kerase (List.mem_keys_of_mem hmem)
  have hsplit : (⟨h,x'⟩ : Σ _ : ℕ, Handle ι) ∈ handles.entries := by
    rw [hl]
    exact List.mem_append_right _ List.mem_cons_self
  obtain rfl := handles.nodupKeys.eq_of_mk_mem hmem hsplit
  have hperm : handles.entries.Perm (⟨h,x⟩ :: (handles.erase h).entries) := by
    change handles.entries.Perm (⟨h,x⟩ :: handles.entries.kerase h)
    rw [hk,hl]
    exact List.perm_middle
  rw [← held_insert]
  exact hperm.filterMap _

@[simp] theorem block?_zero (i : ι) (x : Handle ι) : ({ x with ptr := 0 } : Handle ι).block? i = none := by
  simp [Handle.block?]

theorem block?_eq (hz : x.ptr ≠ 0) : x.block? x.pool = some x.ptr := by
  simp [Handle.block?,hz]

theorem block?_null (hz : x.ptr = 0) : x.block? i = none := by
  simp [Handle.block?,hz]

theorem block?_ne (hne : x.pool ≠ i) : x.block? i = none := by
  simp [Handle.block?,hne]

theorem mem_held (hx : handles.lookup h = some x) (hz : x.ptr ≠ 0) :
    x.ptr ∈ held x.pool handles := by
  rw [(held_perm x.pool hx).mem_iff,block?_eq hz]
  exact List.mem_cons_self

/-- A block moves into a new handle. -/
theorem held_moveConstruct (hh : h ∉ handles) (hy : handles.lookup other = some y) :
    (held i ((handles.insert other { y with ptr := 0 }).insert h y)).Perm (held i handles) := by
  have hne : h ≠ other := by
    rintro rfl
    simp [AList.lookup_eq_none.mpr hh] at hy
  have hfresh : h ∉ handles.insert other { y with ptr := 0 } := by
    rw [AList.mem_insert,not_or]
    exact ⟨hne,hh⟩
  rw [held_insert,held_erase_of_notMem i hfresh,held_insert,block?_zero]
  exact (held_perm i hy).symm

/-- A block moves into an old handle, which gives up the block it has. -/
theorem held_moveAssign (hne : h ≠ other) (hx : handles.lookup h = some x)
    (hy : handles.lookup other = some y) {z : Handle ι} (hz : z.block? i = y.block? i) :
    ((x.block? i).toList++held i ((handles.insert other { y with ptr := 0 }).insert h z)).Perm
      (held i handles) := by
  have hx' : (handles.insert other { y with ptr := 0 }).lookup h = some x := by
    rw [AList.lookup_insert_ne hne,hx]
  have hother := held_perm i hx'
  rw [held_insert,block?_zero] at hother
  rw [held_insert,hz]
  refine List.perm_append_comm_assoc _ _ _ |>.trans ?_
  exact (hother.symm.append_left _).trans (held_perm i hy).symm

/-! ## Released pointers -/

theorem mem_releasedOf {released : List (ι × ℕ)} (h : (i,ptr) ∈ released) :
    ptr ∈ releasedOf i released :=
  List.mem_filterMap.mpr ⟨(i,ptr),h,if_pos rfl⟩

theorem releasedOf_erase {released : List (ι × ℕ)} (h : (i,ptr) ∈ released) :
    (releasedOf i released).Perm (ptr :: releasedOf i (released.erase (i,ptr))) := by
  have hp := (List.perm_cons_erase h).filterMap fun r => if r.1 = i then some r.2 else none
  rw [List.filterMap_cons,if_pos rfl] at hp
  exact hp

theorem releasedOf_erase_ne {released : List (ι × ℕ)} (h : (i,ptr) ∈ released) (hne : i ≠ j) :
    (releasedOf j released).Perm (releasedOf j (released.erase (i,ptr))) := by
  have hp := (List.perm_cons_erase h).filterMap fun r => if r.1 = j then some r.2 else none
  rw [List.filterMap_cons,if_neg hne] at hp
  exact hp

/-! ## Pools -/

/-- The storage of different pools does not overlap. -/
def Apart (ps : ι → Placement L) : Prop :=
  ∀ i j, i ≠ j → (ps i).address+L.storageSize ≤ (ps j).address ∨
    (ps j).address+L.storageSize ≤ (ps i).address

/-- What a pool and the clients of its blocks see of a program. -/
def State.view (s : State ι) (i : ι) : MemoryPool.State :=
  ⟨s.mem,s.pools i,held i s.handles++releasedOf i s.released⟩

/-- Every pool's free list, handles and released pointers share out its blocks. -/
structure Conserved (ps : ι → Placement L) (s : State ι) (free : ι → List ℕ) : Prop where
  running : s.aborted = false
  rel : ∀ i, Rel L (ps i) (s.view i) (free i)

namespace Conserved

/-- Blocks change hands outside the pools. -/
theorem rearrange (h : Conserved ps s free) (hmem : s'.mem = s.mem) (hpools : s'.pools = s.pools)
    (hrun : s'.aborted = s.aborted) (hout : ∀ i, (s'.view i).out.Perm (s.view i).out) :
    Conserved ps s' free := by
  refine ⟨hrun.trans h.running,fun i => (h.rel i).congr ?_ ?_ (hout i)⟩
  · exact congrFun hpools i
  · intro a _
    simp only [State.view,hmem]

/-- A store into a block of one pool leaves the links of the others alone. -/
theorem load_apart (h : Conserved ps s free) (hfit : L.NoOverflow) (hd : Apart ps) (hne : i ≠ j)
    (hptr : ptr ∈ (s.view i).out) (v : ℕ) {a : ℕ} (ha : a ∈ free j) :
    (s.mem.store ptr ptrSize v).load a ptrSize = s.mem.load a ptrSize := by
  obtain ⟨o,rfl,_,ho⟩ := Layout.mem_blocks hfit ((h.rel i).mem_out hptr)
  obtain ⟨o',rfl,_,ho'⟩ := Layout.mem_blocks hfit ((h.rel j).mem_free ha)
  have hp := Layout.ptrSize_le hfit
  refine ByteMem.load_store_of_disjoint ?_
  rcases hd i j hne with hij | hji
  · exact .inr (by omega)
  · exact .inl (by omega)

/-- A block that is out is given back to the pool that owns it. -/
theorem deallocate (h : Conserved ps s free) (hfit : L.NoOverflow) (hd : Apart ps)
    (ndebug : Bool) (hptr : ptr ∈ (s.view i).out) : ∃ s₁,
    s.deallocate L ndebug i ptr = (s₁,[.deallocate i ptr true]) ∧ s₁.handles = s.handles ∧
      s₁.released = s.released ∧ ∀ s', s'.mem = s₁.mem → s'.pools = s₁.pools →
        s'.aborted = s₁.aborted → ((ptr :: (s'.view i).out).Perm (s.view i).out) →
        (∀ j, i ≠ j → (s'.view j).out.Perm (s.view j).out) →
        Conserved ps s' (Function.update free i (ptr :: free i)) := by
  have howns : owns L (s.pools i) ptr = true := (h.rel i).owns_out hfit hptr
  obtain ⟨m,pool,hcall,hm,hrel⟩ := (h.rel i).deallocate_call hfit ndebug hptr
  refine ⟨{ s with mem := m, pools := Function.update s.pools i pool },?_,rfl,rfl,?_⟩
  · simp only [State.view] at hcall
    simp only [State.deallocate,hcall,howns]
  · intro s' hmem hpools hrun hout hothers
    refine ⟨hrun.trans h.running,fun j => ?_⟩
    by_cases hij : i = j
    · subst hij
      rw [Function.update_self]
      refine hrel.congr ?_ ?_ ?_
      · exact (congrFun hpools i).trans (Function.update_self ..)
      · intro a _
        simp only [State.view,hmem]
      · exact (List.cons_perm_iff_perm_erase.mp hout).2
    · rw [Function.update_of_ne (Ne.symm hij)]
      refine (h.rel j).congr ?_ ?_ (hothers j hij)
      · exact (congrFun hpools j).trans (Function.update_of_ne (Ne.symm hij) ..)
      · intro a ha
        simp only [State.view,hmem,hm]
        exact h.load_apart hfit hd hij hptr _ ha

/-- `if (ptr_) pool_.deallocate(ptr_)` on a handle's own block. -/
theorem giveBack (h : Conserved ps s free) (hfit : L.NoOverflow) (hd : Apart ps)
    (ndebug : Bool) {name : ℕ} (hx : s.handles.lookup name = some x) : ∃ s₁ es,
    s.giveBack L ndebug x = (s₁,es) ∧ s₁.handles = s.handles ∧ s₁.released = s.released ∧
      (∀ e ∈ es, e = .deallocate x.pool x.ptr true ∧ x.ptr ∉ free x.pool) ∧
      ∀ s', s'.mem = s₁.mem → s'.pools = s₁.pools → s'.aborted = s₁.aborted →
        (∀ j, ((x.block? j).toList++(s'.view j).out).Perm (s.view j).out) →
        ∃ free', Conserved ps s' free' := by
  by_cases hz : x.ptr = 0
  · refine ⟨s,[],by rw [State.giveBack,if_pos hz],rfl,rfl,by simp,?_⟩
    intro s' hmem hpools hrun hout
    refine ⟨free,h.rearrange hmem hpools hrun fun j => ?_⟩
    have hj := hout j
    rwa [block?_null hz] at hj
  · have hptr : x.ptr ∈ (s.view x.pool).out := List.mem_append_left _ (mem_held hx hz)
    obtain ⟨s₁,hcall,hh,hr,hnext⟩ := h.deallocate hfit hd ndebug hptr
    refine ⟨s₁,_,by rw [State.giveBack,if_neg hz,hcall],hh,hr,?_,?_⟩
    · intro e he
      exact ⟨List.mem_singleton.mp he,fun hf => (h.rel x.pool).free_ne_out hfit hf hptr rfl⟩
    · intro s' hmem hpools hrun hout
      refine ⟨_,hnext s' hmem hpools hrun ?_ fun j hj => ?_⟩
      · have hi := hout x.pool
        rwa [block?_eq hz] at hi
      · have hi := hout j
        rwa [block?_ne hj] at hi

theorem construct (h : Conserved ps s free) {name : ℕ} (hh : name ∉ s.handles) :
    ∃ free', Conserved ps { s with
      pools := Function.update s.pools i (allocate s.mem (s.pools i)).2
      handles := s.handles.insert name ⟨i,(allocate s.mem (s.pools i)).1⟩ } free' := by
  obtain ⟨free',_,hrel⟩ := (h.rel i).allocate_call
  refine ⟨Function.update free i free',h.running,fun j => ?_⟩
  by_cases hij : i = j
  · subst hij
    rw [Function.update_self]
    refine hrel.congr (Function.update_self ..) (fun _ _ => rfl) ?_
    simp only [State.view,held_insert,held_erase_of_notMem _ hh,Handle.block?,MemoryPool.State.outAfter]
    by_cases hz : (allocate s.mem (s.pools i)).1 = 0
    · simp [hz]
    · simp [hz]
  · rw [Function.update_of_ne (Ne.symm hij)]
    refine (h.rel j).congr (Function.update_of_ne (Ne.symm hij) ..) (fun _ _ => rfl) ?_
    simp only [State.view,held_insert,held_erase_of_notMem _ hh,Handle.block?,hij,false_and,
      if_false]
    exact .refl _

theorem moveConstruct (h : Conserved ps s free) {name : ℕ} (hh : name ∉ s.handles)
    (hy : s.handles.lookup other = some y) :
    Conserved ps { s with
      handles := (s.handles.insert other { y with ptr := 0 }).insert name y } free :=
  h.rearrange rfl rfl rfl fun _ => (held_moveConstruct hh hy).append_right _

theorem release (h : Conserved ps s free) {name : ℕ} (hx : s.handles.lookup name = some x) :
    Conserved ps { s with
      handles := s.handles.insert name { x with ptr := 0 }
      released := if x.ptr = 0 then s.released else (x.pool,x.ptr) :: s.released } free := by
  refine h.rearrange rfl rfl rfl fun j => ?_
  have hp := (held_perm j hx).symm.append_right (releasedOf j s.released)
  simp only [State.view,held_insert,block?_zero]
  refine List.Perm.trans ?_ hp
  by_cases hz : x.ptr = 0
  · rw [if_pos hz,block?_null hz]
  · by_cases hj : x.pool = j
    · subst hj
      rw [if_neg hz,block?_eq hz]
      simp only [releasedOf,List.filterMap_cons,if_true]
      exact List.perm_middle
    · rw [if_neg hz,block?_ne hj]
      simp only [releasedOf,List.filterMap_cons,if_neg hj]
      exact .refl _

/-- The steps of a program keep the blocks shared out, and give back only what is out. -/
theorem step (h : Conserved ps s free) (hfit : L.NoOverflow) (hd : Apart ps) {a : Action ι}
    (ha : SamePool s a) {es : List (Event ι)}
    (hs : (program L ndebug).step s a = some (s',es)) :
    (∃ free', Conserved ps s' free') ∧
      ∀ i ptr owned, .deallocate i ptr owned ∈ es → owned = true ∧ ptr ∉ free i := by
  simp only [program,PoolPtr.step] at hs
  rw [if_neg (by simp [h.running])] at hs
  cases a with
  | construct name i =>
    simp only at hs
    split at hs
    · cases hs
    · next hh =>
      cases hs
      exact ⟨h.construct hh,by simp⟩
  | moveConstruct name other =>
    simp only at hs
    split at hs
    · cases hs
    · next hh =>
      obtain ⟨y,hy,he⟩ := Option.map_eq_some_iff.mp hs
      cases he
      exact ⟨⟨free,h.moveConstruct hh hy⟩,by simp⟩
  | release name =>
    obtain ⟨x,hx,he⟩ := Option.map_eq_some_iff.mp hs
    cases he
    exact ⟨⟨free,h.release hx⟩,by simp⟩
  | destroy name =>
    obtain ⟨x,hx,he⟩ := Option.map_eq_some_iff.mp hs
    obtain ⟨s₁,fs,hcall,hh,hr,hes,hnext⟩ := h.giveBack hfit hd ndebug hx
    rw [hcall] at he
    cases he
    refine ⟨hnext _ rfl rfl rfl fun j => ?_,fun i ptr owned he => ?_⟩
    · rw [State.view,State.view,hh,hr,← List.append_assoc]
      -- the block leaves the handle for the free list
      exact (held_perm j hx).symm.append_right _
    · obtain ⟨he,hf⟩ := hes _ he
      cases he
      exact ⟨rfl,hf⟩
  | moveAssign name other =>
    simp only at hs
    split at hs
    · next x y hx hy =>
      split at hs
      · cases hs
        exact ⟨⟨free,h⟩,by simp⟩
      · next hne =>
        -- the old block of the target is given back first
        obtain ⟨s₁,fs,hcall,hh,hr,hes,hnext⟩ := h.giveBack hfit hd ndebug hx
        rw [hcall] at hs
        cases hs
        refine ⟨hnext _ rfl rfl rfl fun j => ?_,fun i ptr owned he => ?_⟩
        · -- the block fits the handle it moves into: both are bound to its pool
          have hz : ({ x with ptr := y.ptr } : Handle ι).block? j = y.block? j := by
            rcases ha.resolve_left hne x hx y hy with hz | hp
            · simp [Handle.block?,hz]
            · simp only [Handle.block?,hp]
          rw [State.view,State.view,hh,hr,← List.append_assoc]
          exact (held_moveAssign hne hx hy hz).append_right _
        · obtain ⟨he,hf⟩ := hes _ he
          cases he
          exact ⟨rfl,hf⟩
    · cases hs
  | deallocate i ptr =>
    simp only at hs
    split at hs
    · next hmem =>
      have hptr : ptr ∈ (s.view i).out := List.mem_append_right _ (mem_releasedOf hmem)
      obtain ⟨s₁,hcall,hh,hr,hnext⟩ := h.deallocate hfit hd ndebug hptr
      rw [hcall] at hs
      cases hs
      refine ⟨⟨_,hnext _ rfl rfl rfl ?_ fun j hj => ?_⟩,fun j q owned he => ?_⟩
      · simp only [State.view,hh,hr]
        exact List.perm_middle.symm.trans ((releasedOf_erase hmem).symm.append_left _)
      · simp only [State.view,hh,hr]
        exact (releasedOf_erase_ne hmem hj).symm.append_left _
      · cases List.mem_singleton.mp he
        exact ⟨rfl,fun hf => (h.rel i).free_ne_out hfit hf hptr rfl⟩
    · cases hs

end Conserved

/-- Constructing pools makes all their blocks free and leaves the other pools alone. -/
theorem conserved_constructPools (hfit : L.NoOverflow) (hd : Apart ps) (is : List ι)
    (hrun : s.aborted = false) (hh : s.handles = ∅) (hr : s.released = [])
    (hrel : ∀ j, j ∉ is → ∃ l, Rel L (ps j) (s.view j) l) :
    ∃ free, Conserved ps (constructPools L (fun i => (ps i).address) is s) free := by
  induction is generalizing s with
  | nil =>
    have hall : ∀ j, ∃ l, Rel L (ps j) (s.view j) l := fun j => hrel j List.not_mem_nil
    choose free hfree using hall
    exact ⟨free,hrun,hfree⟩
  | cons i is ih =>
    refine ih hrun hh hr fun j hj => ?_
    -- the new pool's blocks are free; no other pool notices
    by_cases hij : i = j
    · subst hij
      have hview : held i s.handles++releasedOf i s.released = [] := by
        rw [hh,hr]
        rfl
      refine ⟨_,(rel_start hfit (ps i) s.mem).congr (Function.update_self ..) (fun _ _ => rfl) ?_⟩
      exact List.Perm.of_eq hview
    · have hnot : j ∉ i :: is := by
        rw [List.mem_cons,not_or]
        exact ⟨Ne.symm hij,hj⟩
      obtain ⟨l,hl⟩ := hrel j hnot
      refine ⟨l,hl.congr (Function.update_of_ne (Ne.symm hij) ..) (fun a ha => ?_) (.refl _)⟩
      -- the new pool's storage is apart from every free block of the old one
      refine ByteMem.load_congr fun b hb hlt => ?_
      have hsep : b < (ps i).address ∨ (ps i).address+L.storageSize ≤ b := by
        obtain ⟨o,rfl,_,ho⟩ := Layout.mem_blocks hfit (hl.mem_free ha)
        have hp := Layout.ptrSize_le hfit
        rcases hd i j hij with hap | hap
        · exact .inr (by omega)
        · exact .inl (by omega)
      exact construct_frame hfit hsep s.mem

/-- In a run that moves blocks between handles of one pool only, the blocks stay shared out and
every block is given back to its owner. -/
theorem run_conserved (hfit : L.NoOverflow) (hd : Apart ps) {is : List ι} (hall : ∀ i, i ∈ is)
    {m : ByteMem} {tr : List (Event ι)} (h : (program L ndebug).RunWhere SamePool
      (start L (fun i => (ps i).address) is m) tr s) :
    (∃ free, Conserved ps s free) ∧
      ∀ i ptr owned, .deallocate i ptr owned ∈ tr → owned = true := by
  refine h.invariant (I := fun tr s => (∃ free, Conserved ps s free) ∧
    ∀ i ptr owned, .deallocate i ptr owned ∈ tr → owned = true) ⟨?_,by simp⟩ ?_
  · exact conserved_constructPools hfit hd is rfl rfl rfl fun j hj => absurd (hall j) hj
  · rintro tr s a s' es ⟨⟨free,hc⟩,htr⟩ ha hs
    obtain ⟨hc',hes⟩ := hc.step hfit hd ha hs
    refine ⟨hc',fun i ptr owned he => ?_⟩
    rcases List.mem_append.mp he with he | he
    · exact htr i ptr owned he
    · exact (hes i ptr owned he).1

omit [DecidableEq ι] in
/-- With one pool every move is within it. -/
theorem samePool_of_subsingleton [Subsingleton ι] (s : State ι) (a : Action ι) : SamePool s a := by
  cases a with
  | moveAssign => exact .inr fun _ _ _ _ => .inr (Subsingleton.elim _ _)
  | _ => trivial

/-- `PoolPtr` conserves the blocks of its pool: at every point of every program each block is in
the free list, in one handle or among the released pointers, and nowhere else; no free block is
given back; and without handles and released pointers all blocks are free. -/
theorem blocks_conserved (L : Layout) (hfit : L.NoOverflow) (p : Placement L) (ndebug : Bool)
    (m : ByteMem) {tr : List (Event Unit)} {s : State Unit}
    (h : (program L ndebug).Run (start L (fun _ => p.address) [()] m) tr s) :
    ∃ free, s.mem.Chain ptrSize (s.pools ()).freeHead free ∧
      (free++(held () s.handles++releasedOf () s.released)).Nodup ∧
      (free++(held () s.handles++releasedOf () s.released)).Perm (L.blocks p.address) ∧
      (s.pools ()).freeCount+(held () s.handles).length+(releasedOf () s.released).length =
        L.numBlocks ∧
      (∀ a s' es, (program L ndebug).step s a = some (s',es) → s'.aborted = false ∧
        ∀ i ptr owned, .deallocate i ptr owned ∈ es → owned = true ∧ ptr ∉ free) ∧
      (s.handles = ∅ → s.released = [] → (s.pools ()).freeCount = L.numBlocks) := by
  have hd : Apart fun _ : Unit => p := fun i j hij => absurd (Subsingleton.elim i j) hij
  have hall : ∀ i : Unit, i ∈ [()] := fun _ => List.mem_singleton.mpr rfl
  obtain ⟨⟨free,hc⟩,_⟩ := run_conserved hfit hd hall
    (h.mono fun s a _ => samePool_of_subsingleton s a)
  have hrel := hc.rel ()
  have hcount : (s.pools ()).freeCount+(held () s.handles).length+
      (releasedOf () s.released).length = L.numBlocks := by
    have hl := hrel.length_add
    rw [← hrel.count] at hl
    simpa [State.view,Nat.add_assoc] using hl
  refine ⟨free (),hrel.chain,hrel.nodup hfit,hrel.perm,hcount,fun a s' es hs => ?_,?_⟩
  · obtain ⟨⟨_,hc'⟩,hes⟩ := hc.step hfit hd (samePool_of_subsingleton s a) hs
    exact ⟨hc'.running,fun i => hes i⟩
  · intro hh hr
    rw [hh,hr] at hcount
    exact hcount

/-- Two handles take both blocks, a third finds none; one is moved over the other, and one
pointer is released and given back. -/
theorem blocks_conserved_moves :
    ∃ tr s, (program layout64 false).Run (start layout64 (fun _ => 4096) [()] fun _ => 0) tr s ∧
      tr = [.deallocate () 4096 true,.deallocate () 4160 true] ∧ (s.pools ()).freeCount = 2 := by
  have hexec : ((program layout64 false).execWhere (fun _ _ => True)
      (start layout64 (fun _ : Unit => placement4096.address) [()] fun _ => 0)
      [.construct 0 (),.construct 1 (),.construct 2 (),.moveAssign 0 1,.moveAssign 2 2,
        .moveConstruct 3 0,.release 3,.deallocate () 4160,.destroy 0,.destroy 1,.destroy 2,
        .destroy 3]).any
      (fun r => decide (r.1.handles.entries = [] ∧ r.1.released = [] ∧
        r.2 = [.deallocate () 4096 true,.deallocate () 4160 true])) = true := by
    decide +kernel
  obtain ⟨s,tr,hrun,hs⟩ := System.exists_run_of_exec hexec
  obtain ⟨hh,hr,htr⟩ : s.handles.entries = [] ∧ s.released = [] ∧
      tr = [.deallocate () 4096 true,.deallocate () 4160 true] := of_decide_eq_true hs
  obtain ⟨_,_,_,_,_,_,hempty⟩ :=
    blocks_conserved layout64 (by decide) placement4096 false (fun _ => 0) hrun
  exact ⟨tr,s,hrun,htr,hempty (AList.ext hh) hr⟩

end WsClient.PoolPtr
