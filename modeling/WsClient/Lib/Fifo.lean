import WsClient.Lib.Transition

/-!
# The bounded first-in first-out queue

The abstract queue as a specification automaton: what a trace of pushes, pops, refused
pushes and refused pops must look like, whatever implements it.
-/

namespace WsClient.Lib

inductive FifoEvent (α : Type*)
  | push (x : α)
  | full
  | pop (x : α)
  | empty
  deriving DecidableEq, Repr

namespace FifoEvent

variable {α β : Type*}

@[simp] def pushed? : FifoEvent α → Option α
  | .push x => some x
  | .full => none
  | .pop _ => none
  | .empty => none

@[simp] def popped? : FifoEvent α → Option α
  | .push _ => none
  | .full => none
  | .pop x => some x
  | .empty => none

def map (g : α → β) : FifoEvent α → FifoEvent β
  | .push x => .push (g x)
  | .full => .full
  | .pop x => .pop (g x)
  | .empty => .empty

/-- The items of the successful pushes of a trace, in order. -/
def pushes (es : List (FifoEvent α)) : List α := es.filterMap pushed?

/-- The items of the successful pops of a trace, in order. -/
def pops (es : List (FifoEvent α)) : List α := es.filterMap popped?

end FifoEvent

open FifoEvent Classical in
/-- A queue of at most `n` items. When `exact` is false a push or a pop may also be refused
although there is room or there are items. -/
noncomputable def boundedFifo (α : Type*) (n : ℕ) (exact : Prop) :
    Automaton (List α) (FifoEvent α) where
  next l
    | .push x => if l.length < n then some (l++[x]) else none
    | .full => if exact → l.length = n then some l else none
    | .pop y => match l with
      | [] => none
      | x :: rest => if x = y then some rest else none
    | .empty => if exact → l = [] then some l else none

namespace boundedFifo

variable {α β : Type*} {n : ℕ} {exact : Prop} {l l' : List α} {es : List (FifoEvent α)}

theorem next_push {x : α} :
    (boundedFifo α n exact).next l (.push x) = some l' ↔ l.length < n ∧ l' = l++[x] := by
  simp only [boundedFifo]
  split
  · next h => simp [h,eq_comm]
  · next h => simp [h]

theorem next_full :
    (boundedFifo α n exact).next l .full = some l' ↔ (exact → l.length = n) ∧ l' = l := by
  simp only [boundedFifo]
  split <;> simp_all [eq_comm]

theorem next_pop {x : α} :
    (boundedFifo α n exact).next l (.pop x) = some l' ↔ l = x :: l' := by
  cases l with
  | nil => simp [boundedFifo]
  | cons y rest =>
    simp only [boundedFifo,List.cons.injEq]
    split <;> simp_all

theorem next_empty :
    (boundedFifo α n exact).next l .empty = some l' ↔ (exact → l = []) ∧ l' = l := by
  simp only [boundedFifo]
  split <;> simp_all [eq_comm]

/-- Nothing is lost, duplicated, altered or reordered: what was pushed is what was popped
followed by what is still held. -/
theorem run_contents (h : (boundedFifo α n exact).run l es = some l') :
    l++FifoEvent.pushes es = FifoEvent.pops es++l' := by
  induction es generalizing l with
  | nil =>
    simp only [Automaton.run_nil,Option.some.injEq] at h
    simp [FifoEvent.pushes,FifoEvent.pops,h]
  | cons e es ih =>
    rw [Automaton.run_cons] at h
    obtain ⟨u,hu,hrest⟩ := Option.bind_eq_some_iff.mp h
    have hi := ih hrest
    simp only [FifoEvent.pushes,FifoEvent.pops] at hi ⊢
    cases e with
    | push x =>
      obtain ⟨_,rfl⟩ := next_push.mp hu
      simpa [List.filterMap_cons] using hi
    | full =>
      obtain ⟨_,rfl⟩ := next_full.mp hu
      simpa [List.filterMap_cons] using hi
    | pop x =>
      rw [next_pop.mp hu]
      simpa [List.filterMap_cons] using hi
    | empty =>
      obtain ⟨_,rfl⟩ := next_empty.mp hu
      simpa [List.filterMap_cons] using hi

/-- What is still held is what was pushed less the first pops. -/
theorem run_drop (h : (boundedFifo α n exact).run [] es = some l') :
    (FifoEvent.pushes es).drop (FifoEvent.pops es).length = l' := by
  have hc := run_contents h
  rw [List.nil_append] at hc
  rw [hc,List.drop_left]

/-- Forgetting part of every item keeps a trace a queue trace. -/
theorem run_map (g : α → β) (h : (boundedFifo α n exact).run l es = some l') :
    (boundedFifo β n exact).run (l.map g) (es.map (FifoEvent.map g)) = some (l'.map g) := by
  induction es generalizing l with
  | nil =>
    simp only [Automaton.run_nil,Option.some.injEq] at h
    simp [h]
  | cons e es ih =>
    rw [Automaton.run_cons] at h
    obtain ⟨u,hu,hrest⟩ := Option.bind_eq_some_iff.mp h
    rw [List.map_cons,Automaton.run_cons]
    refine Option.bind_eq_some_iff.mpr ⟨u.map g,?_,ih hrest⟩
    cases e with
    | push x =>
      obtain ⟨hlt,rfl⟩ := next_push.mp hu
      exact next_push.mpr ⟨by simpa using hlt,by simp⟩
    | full =>
      obtain ⟨hn,rfl⟩ := next_full.mp hu
      exact next_full.mpr ⟨by simpa using hn,rfl⟩
    | pop x =>
      rw [next_pop.mp hu]
      exact next_pop.mpr rfl
    | empty =>
      obtain ⟨he,rfl⟩ := next_empty.mp hu
      exact next_empty.mpr ⟨fun hx => by simp [he hx],rfl⟩

end boundedFifo

end WsClient.Lib
