import WsClient.MemoryPool.Model
import Mathlib.Data.List.AList

/-!
# `PoolPtr`

Owning handles on blocks of memory pools of one type. A handle refers to the pool it was bound
to when it was constructed: a move construction copies that reference, a move assignment cannot
change it.
-/

namespace WsClient.PoolPtr
open WsClient.Lib WsClient.MemoryPool

/-- `pool_`, as the name of the pool it refers to, and `ptr_`; null is 0. -/
structure Handle (ι : Type) where
  pool : ι
  ptr : ℕ
  deriving DecidableEq, Repr

/-- Memory and the pools in it, the `PoolPtr` objects by name, and the pointers that `release`
has given away, each with the pool its handle was bound to. -/
structure State (ι : Type) where
  mem : ByteMem
  pools : ι → Pool
  handles : AList fun _ : ℕ => Handle ι
  released : List (ι × ℕ)
  aborted : Bool

/-- A call of `deallocate`, with what `owns` says of its argument. -/
inductive Event (ι : Type)
  | deallocate (pool : ι) (ptr : ℕ) (owned : Bool)
  deriving DecidableEq, Repr

/-- The operations of `PoolPtr`, and `deallocate` of a pointer that was released. -/
inductive Action (ι : Type)
  | construct (h : ℕ) (pool : ι)
  | destroy (h : ℕ)
  | moveConstruct (h other : ℕ)
  | moveAssign (h other : ℕ)
  | release (h : ℕ)
  | deallocate (pool : ι) (ptr : ℕ)
  deriving DecidableEq, Repr

variable {ι : Type} [DecidableEq ι] (L : Layout) (ndebug : Bool)

/-- A call of `deallocate`; a failed assertion ends the program. -/
def State.deallocate (s : State ι) (i : ι) (ptr : ℕ) : State ι × List (Event ι) :=
  let event := Event.deallocate i ptr (owns L (s.pools i) ptr)
  match MemoryPool.deallocate L ndebug s.mem (s.pools i) ptr with
  | none => ({ s with aborted := true },[event])
  | some (mem,pool) => ({ s with mem := mem, pools := Function.update s.pools i pool },[event])

/-- `if (ptr_) pool_.deallocate(ptr_)`. -/
def State.giveBack (s : State ι) (x : Handle ι) : State ι × List (Event ι) :=
  if x.ptr = 0 then (s,[]) else s.deallocate L ndebug x.pool x.ptr

def step (s : State ι) (a : Action ι) : Option (State ι × List (Event ι)) :=
  if s.aborted then none
  else match a with
    | .construct h i =>
      if h ∈ s.handles then none
      else
        let (ptr,pool) := allocate s.mem (s.pools i)
        some ({ s with
          pools := Function.update s.pools i pool
          handles := s.handles.insert h ⟨i,ptr⟩ },[])
    | .destroy h =>
      (s.handles.lookup h).map fun x =>
        let (s,es) := s.giveBack L ndebug x
        ({ s with handles := s.handles.erase h },es)
    | .moveConstruct h other =>
      if h ∈ s.handles then none
      else (s.handles.lookup other).map fun y =>
        ({ s with handles := (s.handles.insert other { y with ptr := 0 }).insert h y },[])
    | .moveAssign h other =>
      match s.handles.lookup h, s.handles.lookup other with
      | some x, some y =>
        -- `this != &other`
        if h = other then some (s,[])
        else
          let (s,es) := s.giveBack L ndebug x
          some ({ s with
            handles := (s.handles.insert other { y with ptr := 0 }).insert h
              { x with ptr := y.ptr } },es)
      | _, _ => none
    | .release h =>
      (s.handles.lookup h).map fun x =>
        ({ s with
          handles := s.handles.insert h { x with ptr := 0 }
          released := if x.ptr = 0 then s.released else (x.pool,x.ptr) :: s.released },[])
    | .deallocate i ptr =>
      if (i,ptr) ∈ s.released then
        let (s,es) := s.deallocate L ndebug i ptr
        some ({ s with released := s.released.erase (i,ptr) },es)
      else none

/-- A program that works on handles. -/
def program : System (State ι) (Action ι) (Event ι) := ⟨step L ndebug⟩

/-- The pools are constructed one after the other. -/
def constructPools (storage : ι → ℕ) : List ι → State ι → State ι
  | [], s => s
  | i :: is, s =>
    let (mem,pool) := construct L (storage i) s.mem
    constructPools storage is { s with mem := mem, pools := Function.update s.pools i pool }

/-- The pools `is` have been constructed, and there is no handle yet. -/
def start (storage : ι → ℕ) (is : List ι) (m : ByteMem) : State ι :=
  constructPools L storage is ⟨m,fun _ => ⟨0,0,0⟩,∅,[],false⟩

/-- The block a handle holds, if the handle is bound to pool `i`. -/
def Handle.block? (i : ι) (x : Handle ι) : Option ℕ :=
  if x.pool = i ∧ x.ptr ≠ 0 then some x.ptr else none

/-- The blocks in the handles bound to pool `i`, one entry a full handle. -/
def held (i : ι) (handles : AList fun _ : ℕ => Handle ι) : List ℕ :=
  handles.entries.filterMap fun e => e.2.block? i

/-- The pointers released from handles bound to pool `i`. -/
def releasedOf (i : ι) (released : List (ι × ℕ)) : List ℕ :=
  released.filterMap fun r => if r.1 = i then some r.2 else none

/-- No raw pointer leaves or enters the handles. -/
def Action.handlesOnly : Action ι → Bool
  | .release _ | .deallocate _ _ => false
  | _ => true

/-- A move assignment of a block is between handles bound to the same pool. -/
def SamePool (s : State ι) : Action ι → Prop
  | .moveAssign h other => h = other ∨ ∀ x ∈ s.handles.lookup h, ∀ y ∈ s.handles.lookup other,
      y.ptr = 0 ∨ x.pool = y.pool
  | _ => True

instance (s : State ι) : ∀ a, Decidable (SamePool s a)
  | .moveAssign _ _ => inferInstanceAs (Decidable (_ ∨ _))
  | .construct _ _ | .destroy _ | .moveConstruct _ _ | .release _ | .deallocate _ _ => isTrue trivial

end WsClient.PoolPtr
