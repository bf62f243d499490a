import WsClient.SpscQueue.Refinement

/-!
# Runs of `SPSCQueue`

The step-by-step simulation carried to every interleaving of the producer and the consumer:
linearizability when loads return current values, and what survives stale loads.
-/

namespace WsClient.SpscQueue
open WsClient.Lib

variable {α : Type*} {cap : Capacity} {vis : Visibility} {moved : α → α}

theorem pushes_toFifo (tr : List (Event α)) :
    (FifoEvent.pushes (tr.map Event.toFifo)).map Prod.snd = accepted tr := by
  rw [FifoEvent.pushes,List.filterMap_map,List.map_filterMap,accepted]
  apply List.filterMap_congr
  intro e _
  cases e <;> rfl

theorem pops_toFifo (tr : List (Event α)) :
    (FifoEvent.pops (tr.map Event.toFifo)).map Prod.snd = delivered tr := by
  rw [FifoEvent.pops,List.filterMap_map,List.map_filterMap,delivered]
  apply List.filterMap_congr
  intro e _
  cases e <;> rfl

/-- Every interleaving is a run of the abstract queue. -/
theorem run_refines {zero : α} {tr : List (Event α)} {s : State α}
    (h : (queue cap vis moved).Run (init zero) tr s) :
    ∃ l, (fifo α cap vis).run [] (tr.map Event.toFifo) = some l ∧ Rel cap s l := by
  have hr := h.refines (A := fifo α cap vis) (R := Rel cap) (g := fun e => some e.toFifo)
    (rel_init zero) (fun s t a s' es hrel _ hs => by
      rw [List.filterMap_eq_map']
      exact hrel.step_refines hs)
  rwa [List.filterMap_eq_map'] at hr

theorem run_accepted {l : List (ℕ × α)} {tr : List (Event α)}
    (h : (fifo α cap vis).run [] (tr.map Event.toFifo) = some l) :
    accepted tr = delivered tr++l.map Prod.snd := by
  have hc := boundedFifo.run_contents h
  rw [List.nil_append] at hc
  rw [← pushes_toFifo,hc,List.map_append,pops_toFifo]

/-- What one step can do: call, load, refuse, or act on the slot its check has passed for. -/
theorem step_cases {s s' : State α} {a : Action α} {es : List (Event α)}
    (hs : (queue cap vis moved).step s a = some (s',es)) :
    (s'.memory = s.memory ∧ (es = [] ∨ (∃ item, es = [.pushFull item]) ∨ es = [.popEmpty])) ∨
      (s.writeSlot ≠ none ∧ (es = [] ∨ ∃ slot item, es = [.pushed slot item])) ∨
      (s.readSlot ≠ none ∧ (es = [] ∨ ∃ slot item, es = [.popped slot item])) := by
  cases a with
  | tryPush item =>
    simp only [queue,step] at hs
    split at hs <;> cases hs
    exact .inl ⟨rfl,.inl rfl⟩
  | tryPop =>
    simp only [queue,step] at hs
    split at hs <;> cases hs
    exact .inl ⟨rfl,.inl rfl⟩
  | producer obs =>
    cases hpc : s.push with
    | idle => simp [queue,step,pushStep,hpc] at hs
    | loadTail item =>
      simp only [queue,step,pushStep,hpc,Option.some.injEq,Prod.mk.injEq] at hs
      obtain ⟨rfl,rfl⟩ := hs
      exact .inl ⟨rfl,.inl rfl⟩
    | loadHead item tail =>
      simp only [queue,step,pushStep,hpc] at hs
      split at hs
      · obtain ⟨head,_,hs⟩ := Option.map_eq_some_iff.mp hs
        -- either refused, or past the check and not yet in the slot
        split at hs <;> cases hs
        · exact .inl ⟨rfl,.inr (.inl ⟨item,rfl⟩)⟩
        · exact .inl ⟨rfl,.inl rfl⟩
      · cases hs
    | write item tail next_tail =>
      simp only [queue,step,pushStep,hpc,Option.some.injEq,Prod.mk.injEq] at hs
      exact .inr (.inl ⟨by simp [State.writeSlot,hpc],.inl hs.2.symm⟩)
    | storeTail item tail next_tail =>
      simp only [queue,step,pushStep,hpc,Option.some.injEq,Prod.mk.injEq] at hs
      exact .inr (.inl ⟨by simp [State.writeSlot,hpc],.inr ⟨tail,item,hs.2.symm⟩⟩)
  | consumer obs =>
    cases hpc : s.pop with
    | idle => simp [queue,step,popStep,hpc] at hs
    | loadHead =>
      simp only [queue,step,popStep,hpc,Option.some.injEq,Prod.mk.injEq] at hs
      obtain ⟨rfl,rfl⟩ := hs
      exact .inl ⟨rfl,.inl rfl⟩
    | loadTail head =>
      simp only [queue,step,popStep,hpc] at hs
      split at hs
      · obtain ⟨tail,_,hs⟩ := Option.map_eq_some_iff.mp hs
        split at hs <;> cases hs
        · exact .inl ⟨rfl,.inr (.inr rfl)⟩
        · exact .inl ⟨rfl,.inl rfl⟩
      · cases hs
    | read head =>
      simp only [queue,step,popStep,hpc,Option.some.injEq,Prod.mk.injEq] at hs
      exact .inr (.inr ⟨by simp [State.readSlot,hpc],.inl hs.2.symm⟩)
    | storeHead head item =>
      simp only [queue,step,popStep,hpc,Option.some.injEq,Prod.mk.injEq] at hs
      exact .inr (.inr ⟨by simp [State.readSlot,hpc],.inr ⟨head,item,hs.2.symm⟩⟩)

/-- A step of the producer goes on with the same item or answers for it. -/
theorem producer_step {s s' : State α} {obs : ℕ} {es : List (Event α)} {item : α}
    (hi : s.push.item? = some item)
    (hs : (queue cap vis moved).step s (.producer obs) = some (s',es)) :
    (es = [] ∧ s'.push.item? = some item) ∨
      (s'.push = .idle ∧ ((∃ slot, es = [.pushed slot item]) ∨ es = [.pushFull item])) := by
  cases hpc : s.push with
  | idle => simp [queue,step,pushStep,hpc] at hs
  | loadTail i =>
    simp only [queue,step,pushStep,hpc,Option.some.injEq,Prod.mk.injEq] at hs
    obtain ⟨rfl,rfl⟩ := hs
    exact .inl ⟨rfl,by simpa [hpc,PushPc.item?] using hi⟩
  | loadHead i tail =>
    obtain rfl : i = item := by simpa [hpc,PushPc.item?] using hi
    simp only [queue,step,pushStep,hpc] at hs
    split at hs
    · obtain ⟨head,_,hs⟩ := Option.map_eq_some_iff.mp hs
      split at hs <;> cases hs
      · exact .inr ⟨rfl,.inr rfl⟩
      · exact .inl ⟨rfl,rfl⟩
    · cases hs
  | write i tail next_tail =>
    simp only [queue,step,pushStep,hpc,Option.some.injEq,Prod.mk.injEq] at hs
    obtain ⟨rfl,rfl⟩ := hs
    exact .inl ⟨rfl,by simpa [hpc,PushPc.item?] using hi⟩
  | storeTail i tail next_tail =>
    obtain rfl : i = item := by simpa [hpc,PushPc.item?] using hi
    simp only [queue,step,pushStep,hpc,Option.some.injEq,Prod.mk.injEq] at hs
    obtain ⟨rfl,rfl⟩ := hs
    exact .inr ⟨rfl,.inl ⟨tail,rfl⟩⟩

/-- A step of the consumer, or a call of `try_pop`, leaves the producer where it is. -/
theorem consumer_step {s s' : State α} {a : Action α} {es : List (Event α)}
    (ha : a = .tryPop ∨ ∃ obs, a = .consumer obs)
    (hs : (queue cap vis moved).step s a = some (s',es)) :
    s'.push = s.push ∧ (es = [] ∨ (∃ slot item, es = [.popped slot item]) ∨ es = [.popEmpty]) := by
  rcases ha with rfl | ⟨obs,rfl⟩
  · simp only [queue,step] at hs
    split at hs <;> cases hs
    exact ⟨rfl,.inl rfl⟩
  · cases hpc : s.pop with
    | idle => simp [queue,step,popStep,hpc] at hs
    | loadHead =>
      simp only [queue,step,popStep,hpc,Option.some.injEq,Prod.mk.injEq] at hs
      obtain ⟨rfl,rfl⟩ := hs
      exact ⟨rfl,.inl rfl⟩
    | loadTail head =>
      simp only [queue,step,popStep,hpc] at hs
      split at hs
      · obtain ⟨tail,_,hs⟩ := Option.map_eq_some_iff.mp hs
        split at hs <;> cases hs
        · exact ⟨rfl,.inr (.inr rfl)⟩
        · exact ⟨rfl,.inl rfl⟩
      · cases hs
    | read head =>
      simp only [queue,step,popStep,hpc,Option.some.injEq,Prod.mk.injEq] at hs
      obtain ⟨rfl,rfl⟩ := hs
      exact ⟨rfl,.inl rfl⟩
    | storeHead head item =>
      simp only [queue,step,popStep,hpc,Option.some.injEq,Prod.mk.injEq] at hs
      obtain ⟨rfl,rfl⟩ := hs
      exact ⟨rfl,.inr (.inl ⟨head,item,rfl⟩)⟩

/-- A call that returns `false` or `nullopt` stores nothing: indices and slots are written
only by an operation that has passed its check. -/
theorem step_memory {s s' : State α} {a : Action α} {es : List (Event α)}
    (hs : (queue cap vis moved).step s a = some (s',es)) :
    (∀ item, .pushFull item ∈ es → s'.memory = s.memory) ∧
      (.popEmpty ∈ es → s'.memory = s.memory) ∧
      (s'.memory ≠ s.memory → s.writeSlot ≠ none ∨ s.readSlot ≠ none) := by
  rcases step_cases hs with ⟨hm,_⟩ | ⟨hw,he⟩ | ⟨hr,he⟩
  · exact ⟨fun _ _ => hm,fun _ => hm,fun hne => absurd hm hne⟩
  · rcases he with rfl | ⟨slot,item,rfl⟩
    · simp [hw]
    · simp [hw]
  · rcases he with rfl | ⟨slot,item,rfl⟩
    · simp [hr]
    · simp [hr]

/-- The refusals of a step, read off the abstract queue's refusals. -/
theorem Rel.refused {s s' : State α} {l : List (ℕ × α)} (h : Rel cap s l) {a : Action α}
    {es : List (Event α)} (hs : (queue cap .current moved).step s a = some (s',es)) :
    (∀ item, .pushFull item ∈ es → (s.contents cap).length = cap.val-1) ∧
      (.popEmpty ∈ es → s.contents cap = []) := by
  obtain ⟨l',hrun,_⟩ := h.step_refines hs
  rw [h.contents_eq]
  have hone : ∀ e, e ∈ es → es = [e] := by
    intro e hm
    rcases step_cases hs with ⟨_,rfl | ⟨item,rfl⟩ | rfl⟩ | ⟨_,rfl | ⟨slot,item,rfl⟩⟩ |
      ⟨_,rfl | ⟨slot,item,rfl⟩⟩ <;> simp_all
  refine ⟨fun item hm => ?_,fun hm => ?_⟩
  · rw [hone _ hm] at hrun
    obtain ⟨u,hu,_⟩ := Option.bind_eq_some_iff.mp hrun
    rw [List.length_map]
    exact (boundedFifo.next_full.mp hu).1 rfl
  · rw [hone _ hm] at hrun
    obtain ⟨u,hu,_⟩ := Option.bind_eq_some_iff.mp hrun
    rw [(boundedFifo.next_empty.mp hu).1 rfl]
    rfl

/-- `SPSCQueue` is a queue of at most `Capacity - 1` items: its events are those of the
abstract queue, what was accepted is what was delivered followed by the contents, and a
refused call found the queue full, or empty, and stored nothing. -/
theorem queue_linearizable (cap : Capacity) (zero : α) (moved : α → α) {tr : List (Event α)}
    {s : State α} (h : (queue cap .current moved).Run (init zero) tr s) :
    (boundedFifo α (cap.val-1) True).run [] (tr.map fun e => e.toFifo.map Prod.snd) =
        some (s.contents cap) ∧
      accepted tr = delivered tr++s.contents cap ∧
      (s.contents cap).length ≤ cap.val-1 ∧
      ∀ a s' es, (queue cap .current moved).step s a = some (s',es) →
        (∀ item, .pushFull item ∈ es →
          (s.contents cap).length = cap.val-1 ∧ s'.memory = s.memory) ∧
        (.popEmpty ∈ es → s.contents cap = [] ∧ s'.memory = s.memory) ∧
        (s'.memory ≠ s.memory → s.writeSlot ≠ none ∨ s.readSlot ≠ none) := by
  obtain ⟨l,hrun,hrel⟩ := run_refines h
  have hexact : fifo α cap .current = boundedFifo (ℕ × α) (cap.val-1) True := by
    simp [fifo]
  refine ⟨?_,?_,?_,?_⟩
  · have hm := boundedFifo.run_map Prod.snd (hexact ▸ hrun)
    rw [List.map_nil,List.map_map,← hrel.contents_eq] at hm
    exact hm
  · rw [hrel.contents_eq]
    exact run_accepted hrun
  · rw [hrel.contents_eq,List.length_map]
    exact hrel.length_le
  · intro a s' es hs
    obtain ⟨hfull,hempty⟩ := hrel.refused hs
    obtain ⟨hmf,hme,hmw⟩ := step_memory hs
    exact ⟨fun item hm => ⟨hfull item hm,hmf item hm⟩,fun hm => ⟨hempty hm,hme hm⟩,hmw⟩

/-- A queue of capacity 4, as the tests use it. -/
def capacity4 : Capacity := ⟨4,by decide,by decide,by decide⟩

/-- What the calls of the run below return, in order. -/
def wrapTrace : List (Event ℕ) := [.popEmpty,.pushed 0 7,.pushed 1 8,.pushed 2 9,.pushFull 10,
  .popped 0 7,.pushed 3 10,.popped 1 8,.pushed 0 11]

/-- Pushes and pops interleaved step by step: the queue fills up, a push is refused while a pop is
under way, and the tail wraps around. -/
theorem queue_linearizable_wrap : ∃ s, (queue capacity4 .current id).Run (init 0) wrapTrace s ∧
    s.tail.cur < s.head.cur ∧ s.contents capacity4 = [9,10,11] := by
  have hexec : ((queue capacity4 .current id).execWhere (fun _ _ => True) (init 0)
      [.tryPush 7,.tryPop,.producer 0,.consumer 0,.producer 0,.producer 0,.consumer 0,.producer 0,
        .tryPush 8,.producer 0,.producer 0,.producer 0,.producer 0,
        .tryPop,.consumer 0,.tryPush 9,.producer 0,.consumer 2,.producer 0,.consumer 0,.producer 0,
        .producer 0,.tryPush 10,.producer 0,.producer 0,.consumer 0,
        .tryPush 10,.producer 0,.producer 1,.producer 0,.producer 0,
        .tryPop,.consumer 0,.consumer 4,.consumer 0,.consumer 0,
        .tryPush 11,.producer 0,.producer 2,.producer 0,.producer 0]).any
      (fun r => decide (r.2 = wrapTrace ∧ r.1.tail.cur < r.1.head.cur)) = true := by
    decide +kernel
  obtain ⟨s,tr,hrun,hs⟩ := System.exists_run_of_exec hexec
  obtain ⟨rfl,hwrap⟩ : tr = wrapTrace ∧ s.tail.cur < s.head.cur := of_decide_eq_true hs
  have hfifo : [7,8,9,10,11] = [7,8]++s.contents capacity4 :=
    (queue_linearizable capacity4 0 id hrun).2.1
  exact ⟨s,hrun,hwrap,by simpa using hfifo.symm⟩

/-- Whatever position of the modification order the loads read, the slot a producer is about
to fill holds no item of the queue and is not the slot the consumer is reading, and items come
out in the order they went in. -/
theorem slots_exclusive_of_coherent (cap : Capacity) (zero : α) (moved : α → α)
    {tr : List (Event α)} {s : State α} (h : (queue cap .coherent moved).Run (init zero) tr s) :
    (∀ j, s.writeSlot = some j → j ∉ heldSlots tr ∧ s.readSlot ≠ some j) ∧
      delivered tr <+: accepted tr := by
  obtain ⟨l,hrun,hrel⟩ := run_refines h
  refine ⟨fun j hj => ⟨?_,fun hr => ?_⟩,?_⟩
  · have hslots : heldSlots tr = s.window.map (· % cap.val) := by
      rw [heldSlots,← pops_toFifo,List.length_map,boundedFifo.run_drop hrun,hrel.held,List.map_map]
      rfl
    rw [hslots,List.mem_map]
    rintro ⟨i,hi,he⟩
    obtain ⟨hlo,hhi⟩ := (mem_window hrel.head_le_tail).mp hi
    exact hrel.tail_slot_ne hlo hhi (he.trans (hrel.writeSlot_eq hj))
  · obtain ⟨he,hlt⟩ := hrel.readSlot_eq hr
    exact hrel.tail_slot_ne (Nat.le_refl _) hlt (he.symm.trans (hrel.writeSlot_eq hj))
  · rw [run_accepted hrun]
    exact List.prefix_append _ _

/-- The producer still reads the initial head after a pop has moved it, and writes slot 1. -/
theorem slots_exclusive_of_coherent_stale :
    ∃ s, (queue capacity4 .coherent id).Run (init 0) [.pushed 0 7,.popped 0 7] s ∧
      s.writeSlot = some 1 ∧ 1 ∉ heldSlots [Event.pushed 0 7,.popped 0 7] := by
  have hrun : (queue capacity4 .coherent id).Run (init 0) [.pushed 0 7,.popped 0 7] _ :=
    System.run_of_exec (l := [.tryPush 7,.producer 0,.producer 0,.producer 0,.producer 0,
      .tryPop,.consumer 1,.consumer 1,.consumer 1,.consumer 1,
      .tryPush 8,.producer 0,.producer 0]) rfl
  exact ⟨_,hrun,rfl,((slots_exclusive_of_coherent capacity4 0 id hrun).1 1 rfl).1⟩

end WsClient.SpscQueue
