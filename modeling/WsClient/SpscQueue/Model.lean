import WsClient.Lib.Atomic
import WsClient.Lib.Fifo
import Mathlib.Logic.Function.Basic
import Mathlib.Data.Nat.Bitwise

/-!
# `SPSCQueue`

One producer calls `try_push`, one consumer calls `try_pop`; every load, store and slot
access of either operation is a step of its own. A load of the other side's index names the
position of that index's modification order it reads, and `Visibility` says which positions
it may name.
-/

namespace WsClient.SpscQueue
open WsClient.Lib

/-- The template argument `Capacity`, a `std::size_t`, with the class's `static_assert`. -/
structure Capacity where
  val : ℕ
  pos : 0 < val
  pow2 : val &&& (val-1) = 0
  fits : val < 2^64

/-- `kMask`. -/
def Capacity.kMask (cap : Capacity) : ℕ := cap.val-1

/-- `(i + 1) & kMask` in `size_t` arithmetic. -/
def Capacity.next (cap : Capacity) (i : ℕ) : ℕ := (i+1) % 2^64 &&& cap.kMask

/-- `(tail - head) & kMask` in `size_t` arithmetic. -/
def Capacity.distance (cap : Capacity) (head tail : ℕ) : ℕ :=
  (tail+2^64-head) % 2^64 &&& cap.kMask

/-- Where the producer stands inside `try_push`. -/
inductive PushPc (α : Type*)
  | idle
  | loadTail (item : α)
  | loadHead (item : α) (tail : ℕ)
  | write (item : α) (tail next_tail : ℕ)
  | storeTail (item : α) (tail next_tail : ℕ)
  deriving DecidableEq, Repr

/-- Where the consumer stands inside `try_pop`. -/
inductive PopPc (α : Type*)
  | idle
  | loadHead
  | loadTail (head : ℕ)
  | read (head : ℕ)
  | storeHead (head : ℕ) (item : α)
  deriving DecidableEq, Repr

/-- The item a push in progress was called with. -/
def PushPc.item? {α : Type*} : PushPc α → Option α
  | .idle => none
  | .loadTail item => some item
  | .loadHead item _ => some item
  | .write item _ _ => some item
  | .storeTail item _ _ => some item

/-- `head_`, `tail_` and `buffer_`, what each side last observed of the other's index, and
the two program counters. -/
structure State (α : Type*) where
  head : Atomic ℕ
  tail : Atomic ℕ
  buffer : ℕ → α
  seenHead : ℕ
  seenTail : ℕ
  push : PushPc α
  pop : PopPc α

/-- The constructor: both indices 0 and value-initialised slots. -/
def init {α : Type*} (zero : α) : State α where
  head := .new 0
  tail := .new 0
  buffer := fun _ => zero
  seenHead := 0
  seenTail := 0
  push := .idle
  pop := .idle

/-- Results of the two operations: `pushed` is `true` for the item written to `slot`,
`pushFull` is `false`, `popped` the item read from `slot`, `popEmpty` is `std::nullopt`. -/
inductive Event (α : Type*)
  | pushed (slot : ℕ) (item : α)
  | pushFull (item : α)
  | popped (slot : ℕ) (item : α)
  | popEmpty
  deriving DecidableEq, Repr

/-- A call of either operation, or the next step of the thread inside one. -/
inductive Action (α : Type*)
  | tryPush (item : α)
  | producer (obs : ℕ)
  | tryPop
  | consumer (obs : ℕ)
  deriving DecidableEq, Repr

variable {α : Type*} (cap : Capacity) (vis : Visibility) (moved : α → α)

/-- `try_push` after the call. -/
def pushStep (s : State α) (obs : ℕ) : Option (State α × List (Event α)) :=
  match s.push with
  | .idle => none
  | .loadTail item => some ({ s with push := .loadHead item s.tail.cur },[])
  | .loadHead item tail =>
    -- an acquire load: any index it may still see
    if vis.Allows s.seenHead s.head.newest obs then
      (s.head.load? obs).map fun head =>
        if cap.next tail = head then
          ({ s with push := .idle, seenHead := obs },[.pushFull item])
        else
          ({ s with push := .write item tail (cap.next tail), seenHead := obs },[])
    else none
  | .write item tail next_tail =>
    some ({ s with
      buffer := Function.update s.buffer tail item
      push := .storeTail item tail next_tail },[])
  | .storeTail item tail next_tail =>
    some ({ s with tail := s.tail.store next_tail, push := .idle },[.pushed tail item])

/-- `try_pop` after the call; `moved` is what a move leaves behind in the slot. -/
def popStep (s : State α) (obs : ℕ) : Option (State α × List (Event α)) :=
  match s.pop with
  | .idle => none
  | .loadHead => some ({ s with pop := .loadTail s.head.cur },[])
  | .loadTail head =>
    if vis.Allows s.seenTail s.tail.newest obs then
      (s.tail.load? obs).map fun tail =>
        if head = tail then ({ s with pop := .idle, seenTail := obs },[.popEmpty])
        else ({ s with pop := .read head, seenTail := obs },[])
    else none
  -- `std::move` out of the slot, before the slot is given back
  | .read head =>
    some ({ s with
      buffer := Function.update s.buffer head (moved (s.buffer head))
      pop := .storeHead head (s.buffer head) },[])
  | .storeHead head item =>
    some ({ s with head := s.head.store (cap.next head), pop := .idle },[.popped head item])

/-- One step of either thread. -/
def step (s : State α) : Action α → Option (State α × List (Event α))
  | .tryPush item =>
    match s.push with
    | .idle => some ({ s with push := .loadTail item },[])
    | _ => none
  | .producer obs => pushStep cap vis s obs
  | .tryPop =>
    match s.pop with
    | .idle => some ({ s with pop := .loadHead },[])
    | _ => none
  | .consumer obs => popStep cap vis moved s obs

/-- The queue shared by one producer and one consumer. -/
def queue : System (State α) (Action α) (Event α) := ⟨step cap vis moved⟩

/-- The item of slot `j`: the consumer has moved it out once it is past its read. -/
def State.slotItem (s : State α) (j : ℕ) : α :=
  match s.pop with
  | .storeHead head item => if j = head then item else s.buffer j
  | _ => s.buffer j

/-- The queue's contents as its indices and slots describe them, oldest first. -/
def State.contents (s : State α) : List α :=
  (List.range (cap.distance s.head.cur s.tail.cur)).map fun i =>
    s.slotItem ((s.head.cur+i) % cap.val)

/-- The slot a push past its fullness check writes to, until it has stored `tail_`. -/
def State.writeSlot (s : State α) : Option ℕ :=
  match s.push with
  | .write _ tail _ => some tail
  | .storeTail _ tail _ => some tail
  | _ => none

/-- The slot a pop past its emptiness check reads from, until it has stored `head_`. -/
def State.readSlot (s : State α) : Option ℕ :=
  match s.pop with
  | .read head => some head
  | .storeHead head _ => some head
  | _ => none

/-- Indices and slots: what a call that changes nothing leaves alone. -/
def State.memory (s : State α) : Atomic ℕ × Atomic ℕ × (ℕ → α) := (s.head,s.tail,s.buffer)

namespace Event

def pushed? : Event α → Option α
  | .pushed _ item => some item
  | _ => none

def popped? : Event α → Option α
  | .popped _ item => some item
  | _ => none

/-- The event as an operation on a queue of items tagged with their slots. -/
def toFifo : Event α → FifoEvent (ℕ × α)
  | .pushed slot item => .push (slot,item)
  | .pushFull _ => .full
  | .popped slot item => .pop (slot,item)
  | .popEmpty => .empty

end Event

/-- Items of the successful pushes, in order. -/
def accepted (tr : List (Event α)) : List α := tr.filterMap Event.pushed?

/-- Items of the successful pops, in order. -/
def delivered (tr : List (Event α)) : List α := tr.filterMap Event.popped?

/-- Slots of the items pushed and not yet popped, oldest first. -/
def heldSlots (tr : List (Event α)) : List ℕ :=
  ((FifoEvent.pushes (tr.map Event.toFifo)).drop (delivered tr).length).map Prod.fst

end WsClient.SpscQueue
