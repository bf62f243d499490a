import WsClient.SpscQueue.Linearizability

/-!
# Neither operation waits

A call of `try_push` or `try_pop` that has begun can always go on, whatever the other thread does,
and each of its steps brings it closer to its end.
-/

namespace WsClient.SpscQueue
open WsClient.Lib

/-- The steps a push has left at most. -/
def PushPc.left {α : Type*} : PushPc α → ℕ
  | .idle => 0
  | .loadTail _ => 4
  | .loadHead _ _ => 3
  | .write _ _ _ => 2
  | .storeTail _ _ _ => 1

/-- The steps a pop has left at most. -/
def PopPc.left {α : Type*} : PopPc α → ℕ
  | .idle => 0
  | .loadHead => 4
  | .loadTail _ => 3
  | .read _ => 2
  | .storeHead _ _ => 1

variable {α : Type*} {cap : Capacity} {vis : Visibility} {moved : α → α} {s s' : State α}
  {l : List (ℕ × α)} {es : List (Event α)} {obs : ℕ}

theorem allows_newest {vis : Visibility} {seen newest : ℕ} (h : seen ≤ newest) :
    vis.Allows seen newest newest := by
  cases vis with
  | current => rfl
  | coherent => exact ⟨h,Nat.le_refl _⟩

/-- A step of the producer is one of its push's last steps, or the push goes on. -/
theorem producer_left (hs : (queue cap vis moved).step s (.producer obs) = some (s',es)) :
    s'.push.left < s.push.left ∧ s'.pop = s.pop ∧ (es = [] ↔ s'.push ≠ .idle) := by
  cases hpc : s.push with
  | idle => simp [queue,step,pushStep,hpc] at hs
  | loadTail item =>
    simp only [queue,step,pushStep,hpc,Option.some.injEq,Prod.mk.injEq] at hs
    obtain ⟨rfl,rfl⟩ := hs
    exact ⟨by simp [PushPc.left],rfl,by simp⟩
  | loadHead item tail =>
    simp only [queue,step,pushStep,hpc] at hs
    split at hs
    · obtain ⟨head,_,hs⟩ := Option.map_eq_some_iff.mp hs
      split at hs <;> cases hs
      · exact ⟨by simp [PushPc.left],rfl,by simp⟩
      · exact ⟨by simp [PushPc.left],rfl,by simp⟩
    · cases hs
  | write item tail next_tail =>
    simp only [queue,step,pushStep,hpc,Option.some.injEq,Prod.mk.injEq] at hs
    obtain ⟨rfl,rfl⟩ := hs
    exact ⟨by simp [PushPc.left],rfl,by simp⟩
  | storeTail item tail next_tail =>
    simp only [queue,step,pushStep,hpc,Option.some.injEq,Prod.mk.injEq] at hs
    obtain ⟨rfl,rfl⟩ := hs
    exact ⟨by simp [PushPc.left],rfl,by simp⟩

theorem consumer_left (hs : (queue cap vis moved).step s (.consumer obs) = some (s',es)) :
    s'.pop.left < s.pop.left ∧ (es = [] ↔ s'.pop ≠ .idle) := by
  cases hpc : s.pop with
  | idle => simp [queue,step,popStep,hpc] at hs
  | loadHead =>
    simp only [queue,step,popStep,hpc,Option.some.injEq,Prod.mk.injEq] at hs
    obtain ⟨rfl,rfl⟩ := hs
    exact ⟨by simp [PopPc.left],by simp⟩
  | loadTail head =>
    simp only [queue,step,popStep,hpc] at hs
    split at hs
    · obtain ⟨tail,_,hs⟩ := Option.map_eq_some_iff.mp hs
      split at hs <;> cases hs
      · exact ⟨by simp [PopPc.left],by simp⟩
      · exact ⟨by simp [PopPc.left],by simp⟩
    · cases hs
  | read head =>
    simp only [queue,step,popStep,hpc,Option.some.injEq,Prod.mk.injEq] at hs
    obtain ⟨rfl,rfl⟩ := hs
    exact ⟨by simp [PopPc.left],by simp⟩
  | storeHead head item =>
    simp only [queue,step,popStep,hpc,Option.some.injEq,Prod.mk.injEq] at hs
    obtain ⟨rfl,rfl⟩ := hs
    exact ⟨by simp [PopPc.left],by simp⟩

/-- A push in progress can go on: it may always read the newest head. -/
theorem Rel.push_enabled (h : Rel cap s l) (hbusy : s.push ≠ .idle) :
    ∃ s' es, (queue cap vis moved).step s (.producer s.head.newest) = some (s',es) := by
  cases hpc : s.push with
  | idle => exact absurd hpc hbusy
  | loadHead item tail =>
    have hallow : vis.Allows s.seenHead s.head.newest s.head.newest :=
      allows_newest h.seenHead_le
    simp only [queue,step,pushStep,hpc,if_pos hallow,Atomic.load?_newest,Option.map_some]
    split <;> exact ⟨_,_,rfl⟩
  | _ =>
    simp only [queue,step,pushStep,hpc]
    exact ⟨_,_,rfl⟩

/-- A pop in progress can go on: it may always read the newest tail. -/
theorem Rel.pop_enabled (h : Rel cap s l) (hbusy : s.pop ≠ .idle) :
    ∃ s' es, (queue cap vis moved).step s (.consumer s.tail.newest) = some (s',es) := by
  cases hpc : s.pop with
  | idle => exact absurd hpc hbusy
  | loadTail head =>
    have hallow : vis.Allows s.seenTail s.tail.newest s.tail.newest :=
      allows_newest h.seenTail_le
    simp only [queue,step,popStep,hpc,if_pos hallow,Atomic.load?_newest,Option.map_some]
    split <;> exact ⟨_,_,rfl⟩
  | _ =>
    simp only [queue,step,popStep,hpc]
    exact ⟨_,_,rfl⟩

def Action.ofProducer : Action α → Bool
  | .producer _ => true
  | _ => false

def Action.ofConsumer : Action α → Bool
  | .consumer _ => true
  | _ => false

/-- `try_push` returns. -/
def Event.answersPush : Event α → Bool
  | .pushed _ _ | .pushFull _ => true
  | _ => false

/-- `try_pop` returns. -/
def Event.answersPop : Event α → Bool
  | .popped _ _ | .popEmpty => true
  | _ => false

theorem PushPc.left_le (pc : PushPc α) : pc.left ≤ 4 := by
  cases pc <;> simp [PushPc.left]

theorem PopPc.left_le (pc : PopPc α) : pc.left ≤ 4 := by
  cases pc <;> simp [PopPc.left]

theorem PushPc.left_pos {pc : PushPc α} : 0 < pc.left ↔ pc ≠ .idle := by
  cases pc <;> simp [PushPc.left]

theorem PopPc.left_pos {pc : PopPc α} : 0 < pc.left ↔ pc ≠ .idle := by
  cases pc <;> simp [PopPc.left]

/-- The producer's steps bring its push nearer to its answer, and the consumer's leave it alone. -/
theorem push_advances {a : Action α} (hb : 0 < s.push.left)
    (hs : (queue cap vis moved).step s a = some (s',es)) :
    (∃ e ∈ es, e.answersPush = true) ∨
      0 < s'.push.left ∧ s'.push.left+a.ofProducer.toNat ≤ s.push.left := by
  cases a with
  | tryPush item =>
    simp only [queue,step] at hs
    split at hs
    · next hidle => simp [hidle,PushPc.left] at hb
    · cases hs
  | producer obs =>
    obtain ⟨item,hitem⟩ : ∃ item, s.push.item? = some item := by
      cases hpc : s.push with
      | idle => simp [hpc,PushPc.left] at hb
      | _ => exact ⟨_,rfl⟩
    obtain ⟨hlt,_,hempty⟩ := producer_left hs
    rcases producer_step hitem hs with ⟨hes,_⟩ | ⟨_,⟨slot,rfl⟩ | rfl⟩
    · exact .inr ⟨PushPc.left_pos.mpr (hempty.mp hes),hlt⟩
    · exact .inl ⟨_,List.mem_singleton_self _,rfl⟩
    · exact .inl ⟨_,List.mem_singleton_self _,rfl⟩
  | tryPop =>
    rw [(consumer_step (.inl rfl) hs).1]
    exact .inr ⟨hb,Nat.le_refl _⟩
  | consumer obs =>
    rw [(consumer_step (.inr ⟨_,rfl⟩) hs).1]
    exact .inr ⟨hb,Nat.le_refl _⟩

/-- The consumer's steps bring its pop nearer to its answer, and the producer's leave it alone. -/
theorem pop_advances {a : Action α} (hb : 0 < s.pop.left)
    (hs : (queue cap vis moved).step s a = some (s',es)) :
    (∃ e ∈ es, e.answersPop = true) ∨
      0 < s'.pop.left ∧ s'.pop.left+a.ofConsumer.toNat ≤ s.pop.left := by
  cases a with
  | tryPop =>
    simp only [queue,step] at hs
    split at hs
    · next hidle => simp [hidle,PopPc.left] at hb
    · cases hs
  | consumer obs =>
    obtain ⟨hlt,hempty⟩ := consumer_left hs
    rcases (consumer_step (.inr ⟨_,rfl⟩) hs).2 with hes | ⟨slot,item,rfl⟩ | rfl
    · exact .inr ⟨PopPc.left_pos.mpr (hempty.mp hes),hlt⟩
    · exact .inl ⟨_,List.mem_singleton_self _,rfl⟩
    · exact .inl ⟨_,List.mem_singleton_self _,rfl⟩
  | tryPush item =>
    simp only [queue,step] at hs
    split at hs <;> cases hs
    exact .inr ⟨hb,Nat.le_refl _⟩
  | producer obs =>
    rw [(producer_left hs).2.1]
    exact .inr ⟨hb,Nat.le_refl _⟩

/-- Both operations are wait-free: one that has begun can take its next step whatever the other
thread does, and has returned when its thread has taken four, in every schedule. -/
theorem wait_free (cap : Capacity) (vis : Visibility) (moved : α → α) (zero : α)
    {tr : List (Event α)} (h : (queue cap vis moved).Run (init zero) tr s) :
    (s.push ≠ .idle →
      (∃ obs s' es, (queue cap vis moved).step s (.producer obs) = some (s',es)) ∧
      ∀ as s' es, (queue cap vis moved).execWhere (fun _ _ => True) s as = some (s',es) →
        4 ≤ as.countP Action.ofProducer → ∃ e ∈ es, e.answersPush = true) ∧
    (s.pop ≠ .idle →
      (∃ obs s' es, (queue cap vis moved).step s (.consumer obs) = some (s',es)) ∧
      ∀ as s' es, (queue cap vis moved).execWhere (fun _ _ => True) s as = some (s',es) →
        4 ≤ as.countP Action.ofConsumer → ∃ e ∈ es, e.answersPop = true) := by
  obtain ⟨l,_,hrel⟩ := run_refines h
  refine ⟨fun hbusy => ⟨⟨_,hrel.push_enabled hbusy⟩,fun as s' es he hfour => ?_⟩,
    fun hbusy => ⟨⟨_,hrel.pop_enabled hbusy⟩,fun as s' es he hfour => ?_⟩⟩
  · have hanswer := System.exec_answers (I := fun _ s => 0 < s.push.left) (fun s => s.push.left)
      Action.ofProducer (fun _ => false) 0 (fun e => e.answersPush = true)
      (fun _ _ _ _ _ hb _ hs => push_advances hb hs) (PushPc.left_pos.mpr hbusy) he
    have hleft := s.push.left_le
    rw [Nat.zero_mul] at hanswer
    exact hanswer.resolve_right (by omega)
  · have hanswer := System.exec_answers (I := fun _ s => 0 < s.pop.left) (fun s => s.pop.left)
      Action.ofConsumer (fun _ => false) 0 (fun e => e.answersPop = true)
      (fun _ _ _ _ _ hb _ hs => pop_advances hb hs) (PopPc.left_pos.mpr hbusy) he
    have hleft := s.pop.left_le
    rw [Nat.zero_mul] at hanswer
    exact hanswer.resolve_right (by omega)

/-- A pop that is overtaken by a push. -/
theorem wait_free_overtaken :
    ∃ tr s, (queue capacity4 .current id).Run (init 0) tr s ∧
      ∀ as s' es, (queue capacity4 .current id).execWhere (fun _ _ => True) s as = some (s',es) →
        4 ≤ as.countP Action.ofConsumer → ∃ e ∈ es, e.answersPop = true := by
  have hrun : (queue capacity4 .current id).Run (init 0) [.pushed 0 7] _ :=
    System.run_of_exec (l := [.tryPop,.tryPush 7,.producer 0,.producer 0,.producer 0,.producer 0]) rfl
  exact ⟨_,_,hrun,((wait_free capacity4 .current id 0 hrun).2 (by simp)).2⟩

end WsClient.SpscQueue
