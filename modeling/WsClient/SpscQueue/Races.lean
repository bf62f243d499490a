import WsClient.Lib.HappensBefore
import WsClient.SpscQueue.Progress
import WsClient.SpscQueue.Linearizability

/-!
# The memory orders of `SPSCQueue`

The same queue, with the memory accesses of its steps as its trace. The slots of `buffer_` are not
atomic: that the two threads never race for one rests on the orders of the two indices.
-/

namespace WsClient.SpscQueue
open WsClient.Lib

inductive Thread
  | producer
  | consumer
  deriving DecidableEq, Repr

/-- `head_` and `tail_`. -/
inductive Index
  | head
  | tail
  deriving DecidableEq, Repr

/-- The orders of the accesses through which the threads see each other: of `head_` by `try_push`,
of `tail_` by `try_push` and by `try_pop`, and of `head_` by `try_pop`. Each thread loads its own
index relaxed. -/
structure Orders where
  headLoad : MemoryOrder
  tailStore : MemoryOrder
  tailLoad : MemoryOrder
  headStore : MemoryOrder
  deriving DecidableEq, Repr

/-- The orders in the source. -/
def Orders.source : Orders := ⟨.acquire,.release,.acquire,.release⟩

abbrev MemoryEvent := MemEvent Thread Index ℕ

variable {α : Type*} (cap : Capacity) (vis : Visibility) (moved : α → α) (orders : Orders)

/-- The accesses of a step. Moving an item out of a slot reads the slot and writes it. -/
def accesses (s : State α) : Action α → List MemoryEvent
  | .tryPush _ | .tryPop => []
  | .producer obs =>
    match s.push with
    | .idle => []
    | .loadTail _ => [⟨.producer,.load .tail .relaxed s.tail.newest⟩]
    | .loadHead _ _ => [⟨.producer,.load .head orders.headLoad obs⟩]
    | .write _ tail _ => [⟨.producer,.write tail⟩]
    | .storeTail _ _ _ => [⟨.producer,.store .tail orders.tailStore (s.tail.newest+1)⟩]
  | .consumer obs =>
    match s.pop with
    | .idle => []
    | .loadHead => [⟨.consumer,.load .head .relaxed s.head.newest⟩]
    | .loadTail _ => [⟨.consumer,.load .tail orders.tailLoad obs⟩]
    | .read head => [⟨.consumer,.read head⟩,⟨.consumer,.write head⟩]
    | .storeHead _ _ => [⟨.consumer,.store .head orders.headStore (s.head.newest+1)⟩]

/-- The queue and its memory accesses. -/
def memory : System (State α) (Action α) MemoryEvent where
  step s a := ((queue cap vis moved).step s a).map fun r => (r.1,accesses orders s a)

/-- How many slots have been written so far, counting a slot anew at each use. -/
def State.writes (s : State α) : ℕ :=
  match s.push with
  | .storeTail _ _ _ => s.tail.newest+1
  | _ => s.tail.newest

/-- How many items have been moved out so far. -/
def State.moves (s : State α) : ℕ :=
  match s.pop with
  | .storeHead _ _ => s.head.newest+1
  | _ => s.head.newest

variable {cap vis moved orders} {s s' : State α} {a : Action α} {tr es : List MemoryEvent} {fs : List (Event α)}

/-- Each index hands the slots over to the other thread, and no access has raced. -/
structure Synchronized (cap : Capacity) (tr : List MemoryEvent) (s : State α) : Prop where
  rel : ∃ l, Rel cap s l
  filled : Handover tr .producer .consumer .tail (· % cap.val) s.writes s.tail.newest s.seenTail
  freed : Handover tr .consumer .producer .head (· % cap.val) s.moves s.head.newest s.seenHead
  raceFree : RaceFree tr

theorem Thread.eq_consumer {t : Thread} (h : t ≠ .producer) : t = .consumer := by
  cases t with
  | producer => exact absurd rfl h
  | consumer => rfl

theorem Thread.eq_producer {t : Thread} (h : t ≠ .consumer) : t = .producer := by
  cases t with
  | producer => rfl
  | consumer => exact absurd rfl h

theorem State.writes_le (s : State α) : s.writes ≤ s.tail.newest+1 := by
  unfold State.writes
  split <;> omega

theorem Rel.moves_le {l : List (ℕ × α)} (h : Rel cap s l) : s.moves ≤ s.tail.newest := by
  have hle := h.head_le_tail
  have hpop := h.pop
  have hseen := h.seenTail_le
  unfold State.moves
  split
  · next hpc =>
    simp only [PopOk,hpc] at hpop
    omega
  · exact hle

namespace Synchronized

variable {l : List (ℕ × α)} {e : MemoryEvent} (h : Synchronized cap tr s)
include h

/-- A step without an access, or with one to an index from which nothing is learnt. -/
theorem keep (hr : Rel cap s' l) (hw : s'.writes = s.writes) (hm : s'.moves = s.moves)
    (ht : s'.tail.newest = s.tail.newest) (hh : s'.head.newest = s.head.newest)
    (hst : s'.seenTail = s.seenTail) (hsh : s'.seenHead = s.seenHead)
    (hes : es = [] ∨ ∃ e, es = [e] ∧ e.access.loc? = none) : Synchronized cap (tr++es) s' := by
  refine ⟨⟨l,hr⟩,?_,?_,?_⟩
  · rw [hw,ht,hst]
    rcases hes with rfl | ⟨e,rfl,he⟩
    · exact (List.append_nil tr).symm ▸ h.filled
    · exact h.filled.other fun _ => he
  · rw [hm,hh,hsh]
    rcases hes with rfl | ⟨e,rfl,he⟩
    · exact (List.append_nil tr).symm ▸ h.freed
    · exact h.freed.other fun _ => he
  · rcases hes with rfl | ⟨e,rfl,he⟩
    · exact (List.append_nil tr).symm ▸ h.raceFree
    · exact h.raceFree.concat_of_atomic he

/-- A load of `head_` by the producer. -/
theorem seeHead {obs : ℕ} (hr : Rel cap s' l) (hw : s'.writes = s.writes) (hm : s'.moves = s.moves)
    (ht : s'.tail.newest = s.tail.newest) (hh : s'.head.newest = s.head.newest)
    (hst : s'.seenTail = s.seenTail) (hsh : s'.seenHead = obs) (hobs : obs ≤ s.head.newest) :
    Synchronized cap (tr++[⟨.producer,.load .head .acquire obs⟩]) s' := by
  refine ⟨⟨l,hr⟩,?_,?_,h.raceFree.concat_of_atomic rfl⟩
  · rw [hw,ht,hst]
    exact h.filled.other fun _ => rfl
  · rw [hm,hh,hsh]
    exact h.freed.see rfl rfl hobs

/-- A load of `tail_` by the consumer. -/
theorem seeTail {obs : ℕ} (hr : Rel cap s' l) (hw : s'.writes = s.writes) (hm : s'.moves = s.moves)
    (ht : s'.tail.newest = s.tail.newest) (hh : s'.head.newest = s.head.newest)
    (hst : s'.seenTail = obs) (hsh : s'.seenHead = s.seenHead) (hobs : obs ≤ s.tail.newest) :
    Synchronized cap (tr++[⟨.consumer,.load .tail .acquire obs⟩]) s' := by
  refine ⟨⟨l,hr⟩,?_,?_,h.raceFree.concat_of_atomic rfl⟩
  · rw [hw,ht,hst]
    exact h.filled.see rfl rfl hobs
  · rw [hm,hh,hsh]
    exact h.freed.other fun _ => rfl

/-- A step of a push. -/
theorem push {obs : ℕ} (hs : (queue cap vis moved).step s (.producer obs) = some (s',fs)) :
    Synchronized cap (tr++accesses .source s (.producer obs)) s' := by
  obtain ⟨l,hr⟩ := h.rel
  obtain ⟨l',_,hr'⟩ := hr.step_refines hs
  cases hpc : s.push with
  | idle => simp [queue,step,pushStep,hpc] at hs
  | loadTail item =>
    simp only [queue,step,pushStep,hpc,Option.some.injEq,Prod.mk.injEq] at hs
    obtain ⟨rfl,rfl⟩ := hs
    simp only [accesses,hpc]
    exact h.keep hr' (by simp [State.writes,hpc]) rfl rfl rfl rfl rfl (.inr ⟨_,rfl,rfl⟩)
  | loadHead item tail =>
    simp only [queue,step,pushStep,hpc] at hs
    split at hs
    · next hv =>
      obtain ⟨head,_,hs⟩ := Option.map_eq_some_iff.mp hs
      have hobs := (hv.bounds hr.seenHead_le).2
      simp only [accesses,hpc]
      split at hs
      all_goals
        cases hs
        exact h.seeHead hr' (by simp [State.writes,hpc]) rfl rfl rfl rfl rfl hobs
    · cases hs
  | write item tail next_tail =>
    have hpush := hr.push
    simp only [PushOk,hpc] at hpush
    simp only [queue,step,pushStep,hpc,Option.some.injEq,Prod.mk.injEq] at hs
    obtain ⟨rfl,rfl⟩ := hs
    simp only [accesses,hpc]
    have hw : s.writes = s.tail.newest := by simp [State.writes,hpc]
    have hfill := h.filled
    rw [hw] at hfill
    refine ⟨⟨l',hr'⟩,?_,h.freed.other (fun he => by cases he),h.raceFree.concat ?_⟩
    · exact hfill.use (by rw [hpush.1]; rfl) (Nat.le_succ _) hr.seenTail_le
    · intro i a ha hne hconf
      refine h.freed.known ha (Thread.eq_consumer hne) hconf (j := s.tail.newest) (by rw [hpush.1]; rfl) ?_
      -- the items moved out of this slot before are those that the loaded head counts
      intro k hk he
      have hmoves := hr.moves_le
      by_contra hge
      have hbound := hpush.2.2
      have heq := cap.eq_of_mod_eq (by omega) (by omega) he
      omega
  | storeTail item tail next_tail =>
    simp only [queue,step,pushStep,hpc,Option.some.injEq,Prod.mk.injEq] at hs
    obtain ⟨rfl,rfl⟩ := hs
    simp only [accesses,hpc]
    have hw : s.writes = s.tail.newest+1 := by simp [State.writes,hpc]
    have hfill := h.filled
    rw [hw] at hfill
    refine ⟨⟨l',hr'⟩,?_,h.freed.other (fun he => by cases he),h.raceFree.concat_of_atomic rfl⟩
    simp only [State.writes,Atomic.newest_store]
    exact hfill.count rfl rfl

/-- A step of a pop. -/
theorem pop {obs : ℕ} (hs : (queue cap vis moved).step s (.consumer obs) = some (s',fs)) :
    Synchronized cap (tr++accesses .source s (.consumer obs)) s' := by
  obtain ⟨l,hr⟩ := h.rel
  obtain ⟨l',_,hr'⟩ := hr.step_refines hs
  cases hpc : s.pop with
  | idle => simp [queue,step,popStep,hpc] at hs
  | loadHead =>
    simp only [queue,step,popStep,hpc,Option.some.injEq,Prod.mk.injEq] at hs
    obtain ⟨rfl,rfl⟩ := hs
    simp only [accesses,hpc]
    exact h.keep hr' rfl (by simp [State.moves,hpc]) rfl rfl rfl rfl (.inr ⟨_,rfl,rfl⟩)
  | loadTail head =>
    simp only [queue,step,popStep,hpc] at hs
    split at hs
    · next hv =>
      obtain ⟨tail,_,hs⟩ := Option.map_eq_some_iff.mp hs
      have hobs := (hv.bounds hr.seenTail_le).2
      simp only [accesses,hpc]
      split at hs
      all_goals
        cases hs
        exact h.seeTail hr' rfl (by simp [State.moves,hpc]) rfl rfl rfl rfl hobs
    · cases hs
  | read head =>
    have hpop := hr.pop
    simp only [PopOk,hpc] at hpop
    simp only [queue,step,popStep,hpc,Option.some.injEq,Prod.mk.injEq] at hs
    obtain ⟨rfl,rfl⟩ := hs
    have hm : s.moves = s.head.newest := by simp [State.moves,hpc]
    have hfree := h.freed
    rw [hm] at hfree
    -- the slot is read, then written
    have hknown : ∀ access : Access Index ℕ, access.loc? = some head → ∀ i a, tr[i]? = some a →
        a.thread ≠ .consumer → a.access.Conflicts access → Known tr .consumer i := by
      intro access hacc i a ha hne hconf
      refine h.filled.known (b := ⟨.consumer,access⟩) ha (Thread.eq_producer hne) hconf
        (j := s.head.newest) (by rw [hacc,hpop.1]) ?_
      intro k hk he
      have hwrites := s.writes_le
      have hlt := hr.tail_lt
      by_contra hge
      have heq := cap.eq_of_mod_eq (by omega) (by omega) he.symm
      omega
    simp only [accesses,hpc]
    rw [show tr++[⟨.consumer,.read head⟩,⟨.consumer,.write head⟩] =
      tr++[⟨.consumer,.read head⟩]++[⟨.consumer,.write head⟩] by simp]
    refine ⟨⟨l',hr'⟩,?_,?_,?_⟩
    · exact (h.filled.other fun he => by cases he).other fun he => by cases he
    · have hread : Handover (tr++[⟨.consumer,.read head⟩]) .consumer .producer Index.head
          (· % cap.val) (s.head.newest+1) s.head.newest s.seenHead :=
        hfree.use (by rw [hpop.1]; rfl) (Nat.le_succ _) hr.seenHead_le
      exact hread.use (by rw [hpop.1]; rfl) (Nat.le_refl _) hr.seenHead_le
    · refine (h.raceFree.concat (hknown _ rfl)).concat fun i a ha hne hconf => ?_
      rcases getElem?_concat.mp ha with ha | ⟨rfl,rfl⟩
      · exact (hknown _ rfl i a ha hne hconf).concat
      · exact absurd rfl hne
  | storeHead head item =>
    simp only [queue,step,popStep,hpc,Option.some.injEq,Prod.mk.injEq] at hs
    obtain ⟨rfl,rfl⟩ := hs
    simp only [accesses,hpc]
    have hm : s.moves = s.head.newest+1 := by simp [State.moves,hpc]
    have hfree := h.freed
    rw [hm] at hfree
    refine ⟨⟨l',hr'⟩,h.filled.other (fun he => by cases he),?_,h.raceFree.concat_of_atomic rfl⟩
    simp only [State.moves,Atomic.newest_store]
    exact hfree.count rfl rfl

/-- Every step keeps the slots handed over in turn. -/
theorem step (hs : (memory cap vis moved .source).step s a = some (s',es)) :
    Synchronized cap (tr++es) s' := by
  obtain ⟨⟨_,fs⟩,hq,he⟩ := Option.map_eq_some_iff.mp hs
  cases he
  obtain ⟨l,hr⟩ := h.rel
  obtain ⟨l',-,hr'⟩ := hr.step_refines hq
  cases a with
  | tryPush item =>
    simp only [queue,SpscQueue.step] at hq
    split at hq <;> cases hq
    next hpc => exact h.keep hr' (by simp [State.writes,hpc]) rfl rfl rfl rfl rfl (.inl rfl)
  | tryPop =>
    simp only [queue,SpscQueue.step] at hq
    split at hq <;> cases hq
    next hpc => exact h.keep hr' rfl (by simp [State.moves,hpc]) rfl rfl rfl rfl (.inl rfl)
  | producer obs => exact h.push hq
  | consumer obs => exact h.pop hq

end Synchronized

theorem synchronized_init (zero : α) : Synchronized cap [] (init zero) :=
  ⟨⟨[],rel_init zero⟩,.nil,.nil,raceFree_nil⟩

/-- With the memory orders of the source no two accesses to a slot race: not for any capacity, in
any interleaving, and however stale the indices are that the threads load. -/
theorem no_data_race (cap : Capacity) (vis : Visibility) (moved : α → α) (zero : α)
    (h : (memory cap vis moved .source).Run (init zero) tr s) : RaceFree tr :=
  (h.invariant (I := Synchronized cap) (synchronized_init zero)
    fun _ _ _ _ _ hi _ hs => hi.step hs).raceFree

/-- An item goes through slot 0. -/
theorem no_data_race_push_pop :
    ∃ tr s, (memory capacity4 .coherent id .source).Run (init 0) tr s ∧
      ⟨.producer,.write 0⟩ ∈ tr ∧ ⟨.consumer,.write 0⟩ ∈ tr ∧ RaceFree tr := by
  have hexec : ((memory capacity4 .coherent id .source).execWhere (fun _ _ => True) (init 0)
      [.tryPush 7,.producer 0,.producer 0,.producer 0,.producer 0,.tryPop,.consumer 1,.consumer 1,
        .consumer 1]).any (fun r => decide (⟨.producer,.write 0⟩ ∈ r.2 ∧
          ⟨.consumer,.write 0⟩ ∈ r.2)) = true := by
    decide
  obtain ⟨s,tr,hrun,hmem⟩ := System.exists_run_of_exec hexec
  exact ⟨tr,s,hrun,(of_decide_eq_true hmem).1,(of_decide_eq_true hmem).2,
    no_data_race capacity4 .coherent id 0 hrun⟩

/-- An order of a trace's accesses to the indices, by thread. -/
def Orders.Has (orders : Orders) : MemoryEvent → Prop
  | ⟨.producer,.load .tail order _⟩ => order = .relaxed
  | ⟨.producer,.load .head order _⟩ => order = orders.headLoad
  | ⟨.producer,.store x order _⟩ => x = .tail ∧ order = orders.tailStore
  | ⟨.consumer,.load .head order _⟩ => order = .relaxed
  | ⟨.consumer,.load .tail order _⟩ => order = orders.tailLoad
  | ⟨.consumer,.store x order _⟩ => x = .head ∧ order = orders.headStore
  | _ => True

theorem has_of_mem_accesses {e : MemoryEvent} (he : e ∈ accesses orders s a) : orders.Has e := by
  cases a with
  | tryPush item => cases he
  | tryPop => cases he
  | producer obs =>
    cases hpc : s.push
    all_goals simp only [accesses,hpc,List.mem_singleton,List.not_mem_nil] at he
    all_goals
      subst he
      simp [Orders.Has]
  | consumer obs =>
    cases hpc : s.pop
    all_goals simp only [accesses,hpc,List.mem_cons,List.not_mem_nil,or_false] at he
    case read head => rcases he with rfl | rfl <;> trivial
    all_goals
      subst he
      simp [Orders.Has]

theorem run_has {zero : α} (h : (memory cap vis moved orders).Run (init zero) tr s) :
    ∀ e ∈ tr, orders.Has e := by
  refine h.invariant (I := fun tr _ => ∀ e ∈ tr, orders.Has e) (by simp) ?_
  intro tr s a s' es hi _ hs e he
  obtain ⟨r,_,hr⟩ := Option.map_eq_some_iff.mp hs
  cases hr
  exact (List.mem_append.mp he).elim (hi e) has_of_mem_accesses

/-- Two accesses of the trace synchronize only through one index, whose load acquires and whose
store releases. -/
theorem Orders.Has.synchronizes {e f : MemoryEvent} (he : orders.Has e) (hf : orders.Has f)
    (hs : e.access.SynchronizesWith f.access) :
    f.thread = .producer ∧ orders.headLoad = .acquire ∧ orders.headStore = .release ∨
      f.thread = .consumer ∧ orders.tailLoad = .acquire ∧ orders.tailStore = .release := by
  obtain ⟨t,_⟩ := e
  obtain ⟨u,_⟩ := f
  obtain ⟨x,pos,rfl,rfl⟩ := hs
  cases t <;> cases u <;> cases x <;> simp_all [Orders.Has]

section witness

variable {l : List (ℕ × α)}

/-- A push that the producer begins and ends, with the consumer waiting. -/
theorem push_run (hr : Rel cap s l) (hpc : s.push = .idle)
    (hroom : s.tail.newest+1 < s.head.newest+cap.val) (item : α) :
    ∃ tr s', (memory cap vis moved orders).Run s tr s' ∧ s'.push = .idle ∧ s'.pop = s.pop ∧
      s'.head = s.head ∧ s'.tail.newest = s.tail.newest+1 ∧
      ⟨.producer,.write (s.tail.newest % cap.val)⟩ ∈ tr := by
  have hallow : vis.Allows s.seenHead s.head.newest s.head.newest := allows_newest hr.seenHead_le
  have hnext : cap.next s.tail.cur ≠ s.head.cur := by
    rw [hr.tail.cur_eq,hr.head.cur_eq]
    intro he
    have := (hr.full_iff hr.seenHead_le (Nat.le_refl _)).mp he
    omega
  have hexec : (memory cap vis moved orders).execWhere (fun _ _ => True) s [.tryPush item,
      .producer 0,.producer s.head.newest,.producer 0,.producer 0] = some ({ s with
        buffer := Function.update s.buffer s.tail.cur item
        seenHead := s.head.newest
        tail := s.tail.store (cap.next s.tail.cur) },
      [⟨.producer,.load .tail .relaxed s.tail.newest⟩,
        ⟨.producer,.load .head orders.headLoad s.head.newest⟩,⟨.producer,.write s.tail.cur⟩,
        ⟨.producer,.store .tail orders.tailStore (s.tail.newest+1)⟩]) := by
    simp [System.execWhere,memory,queue,step,pushStep,accesses,hpc,hallow,hnext]
  refine ⟨_,_,System.run_of_exec hexec,hpc,rfl,rfl,Atomic.newest_store ..,?_⟩
  rw [hr.tail.cur_eq]
  simp

/-- A pop that the consumer begins and ends, with the producer waiting. -/
theorem pop_run (hr : Rel cap s l) (hpc : s.pop = .idle) (hitem : s.head.newest < s.tail.newest) :
    ∃ tr s', (memory cap vis moved orders).Run s tr s' ∧ s'.pop = .idle ∧ s'.push = s.push ∧
      s'.tail = s.tail ∧ s'.head.newest = s.head.newest+1 ∧
      ⟨.consumer,.write (s.head.newest % cap.val)⟩ ∈ tr := by
  have hallow : vis.Allows s.seenTail s.tail.newest s.tail.newest := allows_newest hr.seenTail_le
  have hne : s.head.cur ≠ s.tail.cur := by
    rw [hr.tail.cur_eq,hr.head.cur_eq]
    intro he
    have := (hr.empty_iff hr.seenTail_le (Nat.le_refl _)).mp he
    omega
  have hexec : (memory cap vis moved orders).execWhere (fun _ _ => True) s [.tryPop,
      .consumer 0,.consumer s.tail.newest,.consumer 0,.consumer 0] = some ({ s with
        buffer := Function.update s.buffer s.head.cur (moved (s.buffer s.head.cur))
        seenTail := s.tail.newest
        head := s.head.store (cap.next s.head.cur) },
      [⟨.consumer,.load .head .relaxed s.head.newest⟩,
        ⟨.consumer,.load .tail orders.tailLoad s.tail.newest⟩,⟨.consumer,.read s.head.cur⟩,
        ⟨.consumer,.write s.head.cur⟩,
        ⟨.consumer,.store .head orders.headStore (s.head.newest+1)⟩]) := by
    simp [System.execWhere,memory,queue,step,popStep,accesses,hpc,hallow,hne]
  refine ⟨_,_,System.run_of_exec hexec,hpc,rfl,rfl,Atomic.newest_store ..,?_⟩
  rw [hr.head.cur_eq]
  simp

theorem run_rel {zero : α} (h : (memory cap vis moved orders).Run (init zero) tr s) :
    ∃ l, Rel cap s l := by
  refine h.invariant (I := fun _ s => ∃ l, Rel cap s l) ⟨[],rel_init zero⟩ ?_
  rintro tr s a s' es ⟨l,hr⟩ _ hs
  obtain ⟨⟨s₁,fs⟩,hq,he⟩ := Option.map_eq_some_iff.mp hs
  cases he
  obtain ⟨l',-,hr'⟩ := hr.step_refines hq
  exact ⟨l',hr'⟩

/-- Pushing and popping in turn takes the indices as far as one likes. -/
theorem exists_rounds (hcap : 2 ≤ cap.val) (zero : α) (n : ℕ) :
    ∃ tr s, (memory cap vis moved orders).Run (init zero) tr s ∧ s.push = .idle ∧ s.pop = .idle ∧
      s.head.newest = n ∧ s.tail.newest = n ∧
      ∀ k < n, ⟨.consumer,.write (k % cap.val)⟩ ∈ tr := by
  induction n with
  | zero => exact ⟨[],init zero,.start,rfl,rfl,rfl,rfl,fun k hk => absurd hk (Nat.not_lt_zero k)⟩
  | succ n ih =>
    obtain ⟨tr,s,hrun,hpush,hpop,hhead,htail,hmem⟩ := ih
    obtain ⟨l,hr⟩ := run_rel hrun
    obtain ⟨tr₁,s₁,hrun₁,hpush₁,hpop₁,hhead₁,htail₁,_⟩ := push_run hr hpush (by omega) zero
    have hrun₁' := hrun.append hrun₁
    obtain ⟨l₁,hr₁⟩ := run_rel hrun₁'
    obtain ⟨tr₂,s₂,hrun₂,hpop₂,hpush₂,htail₂,hhead₂,hmem₂⟩ := pop_run hr₁ (hpop₁.trans hpop)
      (by rw [htail₁,hhead₁,hhead,htail]; exact Nat.lt_succ_self n)
    refine ⟨_,s₂,hrun₁'.append hrun₂,hpush₂.trans hpush₁,hpop₂,?_,?_,fun k hk => ?_⟩
    · rw [hhead₂,hhead₁,hhead]
    · rw [htail₂,htail₁,htail]
    · rcases Nat.lt_succ_iff_lt_or_eq.mp hk with hlt | rfl
      · exact List.mem_append_left _ (List.mem_append_left _ (hmem k hlt))
      · rw [hhead₁,hhead] at hmem₂
        exact List.mem_append_right _ hmem₂

end witness

theorem Orders.ne_source (hne : orders ≠ .source) :
    ¬(orders.headLoad = .acquire ∧ orders.headStore = .release) ∨
      ¬(orders.tailLoad = .acquire ∧ orders.tailStore = .release) := by
  by_contra hall
  simp only [not_or,not_not] at hall
  obtain ⟨⟨h1,h2⟩,h3,h4⟩ := hall
  exact hne (by cases orders; simp_all [Orders.source])

/-- Each of the four orders is needed: with another one in its place there is a run with a data
race, for every capacity with room for an item. -/
theorem orders_needed (cap : Capacity) (hcap : 2 ≤ cap.val) (vis : Visibility) (moved : α → α)
    (zero : α) (hne : orders ≠ .source) :
    ∃ tr s, (memory cap vis moved orders).Run (init zero) tr s ∧ ¬RaceFree tr := by
  rcases Orders.ne_source hne with hhead | htail
  · -- after one turn round the buffer the producer writes where the consumer has been
    obtain ⟨tr,s,hrun,hpush,_,hh,ht,hmem⟩ :=
      @exists_rounds _ cap vis moved orders hcap zero cap.val
    obtain ⟨l,hr⟩ := run_rel hrun
    obtain ⟨tr',s',hrun',_,_,_,_,hmem'⟩ :=
      @push_run _ cap vis moved orders s _ hr hpush (by omega) zero
    have hall := run_has (hrun.append hrun')
    refine ⟨_,s',hrun.append hrun',?_⟩
    refine not_raceFree_append (hmem 0 cap.pos) hmem' (by simp) ⟨0,?_,?_,.inl rfl⟩ ?_
    · rw [Nat.zero_mod]
      rfl
    · rw [ht,Nat.mod_self]
      rfl
    · intro c hc d hd hsync hthread
      rcases (hall c hc).synchronizes (hall d hd) hsync with ⟨_,horders⟩ | ⟨hconsumer,_⟩
      · exact absurd horders hhead
      · rw [hconsumer] at hthread
        cases hthread
  · -- the first item is already read without an order after its write
    obtain ⟨tr,s,hrun,_,hpop,hh,ht,hmem⟩ :=
      @push_run _ cap vis moved orders (init zero) _ (rel_init zero) rfl (by
        change 0+1 < 0+cap.val
        omega) zero
    obtain ⟨l,hr⟩ := run_rel hrun
    obtain ⟨tr',s',hrun',_,_,_,_,hmem'⟩ :=
      @pop_run _ cap vis moved orders s _ hr hpop (by rw [hh,ht]; exact Nat.lt_succ_self _)
    have hall := run_has (hrun.append hrun')
    refine ⟨_,s',hrun.append hrun',?_⟩
    refine not_raceFree_append hmem hmem' (by simp) ⟨0,?_,?_,.inl rfl⟩ ?_
    · change some (0 % cap.val) = some 0
      rw [Nat.zero_mod]
    · rw [hh]
      change some (0 % cap.val) = some 0
      rw [Nat.zero_mod]
    · intro c hc d hd hsync hthread
      rcases (hall c hc).synchronizes (hall d hd) hsync with ⟨hproducer,_⟩ | ⟨_,horders⟩
      · rw [hproducer] at hthread
        cases hthread
      · exact absurd horders htail

/-- A relaxed store of `tail_`. -/
theorem orders_needed_relaxed :
    ∃ tr s, (memory capacity4 .current id ⟨.acquire,.relaxed,.acquire,.release⟩).Run (init 0) tr s ∧
      ¬RaceFree tr :=
  orders_needed capacity4 (by decide) .current id 0 (by decide)

end WsClient.SpscQueue
