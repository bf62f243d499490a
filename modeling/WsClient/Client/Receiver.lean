import WsClient.Client.Accounting
import WsClient.SpscQueue.Progress

/-!
# The receiver thread

What makes `receive_loop` end, and that until then it comes to its next read: it waits for nothing
but the connection.
-/

namespace WsClient.Client
open WsClient.Lib

/-- The receiver thread has left the loop of `receive_loop`. -/
def ReceiverPc.left : ReceiverPc → Bool
  | .storeRunning | .exited => true
  | _ => false

variable {moved : Message → Message} {s s' : State} {a : Action} {es tr : List Event}

/-- The receiver leaves its loop on an error, or when `running_` is cleared. -/
theorem left_of_step (hs : (client moved).step s a = some (s',es))
    (h : s'.receiver.left = true) :
    s.receiver.left = true ∨ a = .readError ∨ s.running = false := by
  cases step_transition hs with
  | loadRunning hpc =>
    cases hrun : s.running with
    | false => exact .inr (.inr rfl)
    | true =>
      rw [hrun] at h
      cases h
  | storeRunning hpc => exact .inl (by rw [hpc]; rfl)
  | readError _ => exact .inr (.inl rfl)
  | producer _ _ =>
    dsimp only at h
    split at h <;> cases h
  | call _ _ => exact .inl h
  | consumer _ => exact .inl h
  | close => exact .inl h
  | _ => cases h

/-- Once it has left, it only finishes. -/
theorem left_step (hs : (client moved).step s a = some (s',es)) (h : s.receiver.left = true) :
    s'.receiver.left = true ∧ (a.silent = true ∨ ∃ obs, a = .consumer obs) := by
  cases step_transition hs with
  | storeRunning _ => exact ⟨rfl,.inl rfl⟩
  | readError _ => exact ⟨rfl,.inl rfl⟩
  | call hcall _ => exact ⟨h,.inl hcall.silent⟩
  | consumer _ => exact ⟨h,.inr ⟨_,rfl⟩⟩
  | close => exact ⟨h,.inl rfl⟩
  | loadRunning hpc | clearBuffer hpc | construct hpc | read hpc =>
    rw [hpc] at h
    cases h
  | push hpc _ | producer hpc _ =>
    rw [hpc] at h
    cases h

/-- `running_` is cleared by `close` or by the receiver's last step. -/
theorem running_of_step (hs : (client moved).step s a = some (s',es)) (h : s'.running = false) :
    (s.running = false ∧ (s.receiver = .exited → s'.receiver = .exited)) ∨ a = .close ∨
      s'.receiver = .exited := by
  cases step_transition hs with
  | storeRunning _ => exact .inr (.inr rfl)
  | close => exact .inr (.inl rfl)
  | call _ _ => exact .inl ⟨h,id⟩
  | consumer _ => exact .inl ⟨h,id⟩
  | loadRunning hpc | clearBuffer hpc | construct hpc | read hpc | readError hpc =>
    exact .inl ⟨h,by simp [hpc]⟩
  | push hpc _ | producer hpc _ => exact .inl ⟨h,by simp [hpc]⟩

/-- Nothing sets `running_` again. -/
theorem was_running (hs : (client moved).step s a = some (s',es)) (h : s'.running = true) :
    s.running = true := by
  cases step_transition hs with
  | storeRunning _ => cases h
  | close => cases h
  | _ => exact h

/-- Without an error and before `close` the receiver stays in its loop. -/
theorem receiving_step (hs : (client moved).step s a = some (s',es)) (hgo : s.running = true)
    (hleft : s.receiver.left = false) (herror : a ≠ .readError) (hclose : a ≠ .close) :
    s'.running = true ∧ s'.receiver.left = false := by
  have hleft' : s'.receiver.left = false := by
    by_contra hne
    rcases left_of_step hs (Bool.eq_true_of_not_eq_false hne) with h | h | h
    · rw [hleft] at h
      cases h
    · exact herror h
    · rw [hgo] at h
      cases h
  refine ⟨?_,hleft'⟩
  by_contra hne
  rcases running_of_step hs (Bool.eq_false_of_not_eq_true hne) with ⟨h,_⟩ | h | h
  · rw [hgo] at h
    cases h
  · exact hclose h
  · rw [h] at hleft'
    cases hleft'

/-- An empty queue whose producer has gone stays empty, and yields nothing. -/
theorem stays_empty (hrun : (client moved).Run init tr s)
    (hs : (client moved).step s a = some (s',es)) (hq : s.queued = [])
    (hleft : s.receiver.left = true) : s'.queued = [] ∧ delivered es = [] := by
  have hstep := queued_step hrun hs
  have hkept : kept es = [] := by
    rcases (left_step hs hleft).2 with hsilent | ⟨obs,rfl⟩
    · rw [step_silent hs hsilent]
      rfl
    · rcases step_consumer hs with rfl | ⟨slot,msg,rfl⟩ | rfl <;> rfl
  rw [hq,hkept,List.append_nil] at hstep
  have happend := List.append_eq_nil_iff.mp hstep.symm
  exact ⟨happend.2,happend.1⟩

/-! ## Progress -/

/-- The steps the receiver has left at most until it reads. -/
def State.toRead (s : State) : ℕ :=
  match s.receiver with
  | .loadRunning => 2
  | .clearBuffer => 1
  | .construct => 8
  | .push _ => 7
  | .pushing _ => s.queue.push.left+2
  | _ => 0

/-- The two threads are in the queue's operations exactly when they stand in their calls;
`spin_receive` is also between two of them. -/
structure Engaged (s : State) : Prop where
  pushing : (∃ msg, s.receiver = .pushing msg) ↔ s.queue.push ≠ .idle
  idle : s.consumer = .idle → s.queue.pop = .idle
  calling : s.consumer = .tryReceive → s.queue.pop ≠ .idle

theorem call_pop {q q' : SpscQueue.State Message} {fs : List (SpscQueue.Event Message)}
    (hq : (receiveQueue moved).step q .tryPop = some (q',fs)) :
    q'.pop ≠ .idle ∧ q'.push = q.push := by
  simp only [SpscQueue.queue,SpscQueue.step] at hq
  split at hq <;> cases hq
  exact ⟨by simp,rfl⟩

theorem call_push {q q' : SpscQueue.State Message} {fs : List (SpscQueue.Event Message)}
    {msg : Message} (hq : (receiveQueue moved).step q (.tryPush msg) = some (q',fs)) :
    q'.push ≠ .idle ∧ q'.pop = q.pop := by
  simp only [SpscQueue.queue,SpscQueue.step] at hq
  split at hq <;> cases hq
  exact ⟨by simp,rfl⟩

theorem Calls.ne_idle {pc pc' : ConsumerPc} (h : Calls pc a pc') : pc' ≠ .idle := by
  cases h <;> simp

namespace Engaged

/-- The receiver goes on outside the queue. -/
theorem of_receiver (h : Engaged s) (hbefore : ∀ msg, s.receiver ≠ .pushing msg)
    (hafter : ∀ msg, s'.receiver ≠ .pushing msg) (hqueue : s'.queue = s.queue)
    (hconsumer : s'.consumer = s.consumer) : Engaged s' := by
  obtain ⟨hpush,hidle,hcall⟩ := h
  refine ⟨?_,?_,?_⟩
  · rw [hqueue,← hpush]
    constructor
    · rintro ⟨msg,hm⟩
      exact absurd hm (hafter msg)
    · rintro ⟨msg,hm⟩
      exact absurd hm (hbefore msg)
  · rw [hconsumer,hqueue]
    exact hidle
  · rw [hconsumer,hqueue]
    exact hcall

/-- A call of `try_pop`. -/
theorem of_call (h : Engaged s) {pc : ConsumerPc} {queue : SpscQueue.State Message}
    {fs : List (SpscQueue.Event Message)} (hcall : Calls s.consumer a pc)
    (hq : (receiveQueue moved).step s.queue .tryPop = some (queue,fs)) :
    Engaged { s with queue := queue, consumer := pc } := by
  obtain ⟨hbusy,hpush⟩ := call_pop hq
  refine ⟨?_,fun hidle => absurd hidle hcall.ne_idle,fun _ => hbusy⟩
  rw [hpush]
  exact h.pushing

/-- A step of `try_push`, after which it is over exactly if the queue has answered. -/
theorem of_producer (h : Engaged s) {obs : ℕ} {msg : Message} {queue : SpscQueue.State Message}
    {fs : List (SpscQueue.Event Message)}
    (hq : (receiveQueue moved).step s.queue (.producer obs) = some (queue,fs)) :
    Engaged { s with
      queue := queue
      receiver := if fs = [] then .pushing msg else .loadRunning } := by
  obtain ⟨_,hpop,hes⟩ := SpscQueue.producer_left hq
  refine ⟨?_,?_,?_⟩
  · by_cases hfs : fs = []
    · simp [hfs,hes.mp hfs]
    · have hidle : queue.push = .idle := by
        by_contra hne
        exact hfs (hes.mpr hne)
      simp [hfs,hidle]
  · rw [hpop]
    exact h.idle
  · rw [hpop]
    exact h.calling

/-- A step of `try_pop`; `spin_receive` goes on after an empty answer. -/
theorem of_consumer (h : Engaged s) {obs : ℕ} {queue : SpscQueue.State Message}
    {fs : List (SpscQueue.Event Message)}
    (hq : (receiveQueue moved).step s.queue (.consumer obs) = some (queue,fs)) :
    Engaged { s with queue := queue, consumer := s.consumer.after fs } := by
  obtain ⟨hleft,hes⟩ := SpscQueue.consumer_left hq
  obtain ⟨hpush,hfs⟩ := SpscQueue.consumer_step (.inr ⟨obs,rfl⟩) hq
  refine ⟨?_,?_,?_⟩
  · rw [hpush]
    exact h.pushing
  · rcases hfs with rfl | ⟨slot,item,rfl⟩ | rfl
    · intro hidle
      have hpop := h.idle hidle
      rw [hpop] at hleft
      exact absurd hleft (Nat.not_lt_zero _)
    all_goals
      intro _
      by_contra hne
      exact absurd (hes.mpr hne) (by simp)
  · rcases hfs with rfl | ⟨slot,item,rfl⟩ | rfl
    · exact fun _ => hes.mp rfl
    · intro hcall
      cases hcall
    · intro hcall
      simp only [ConsumerPc.after] at hcall
      split at hcall <;> cases hcall

/-- Each step keeps the threads in their calls. -/
theorem step (h : Engaged s) (hs : (client moved).step s a = some (s',es)) : Engaged s' := by
  cases step_transition hs with
  | loadRunning hpc =>
    refine h.of_receiver (by simp [hpc]) (fun msg => ?_) rfl rfl
    cases s.running <;> simp
  | clearBuffer hpc | construct hpc | storeRunning hpc | read hpc | readError hpc =>
    exact h.of_receiver (by simp [hpc]) (by simp) rfl rfl
  | @push msg _ _ hq =>
    obtain ⟨hbusy,hpop⟩ := call_push hq
    refine ⟨⟨fun _ => hbusy,fun _ => ⟨msg,rfl⟩⟩,?_,?_⟩
    · rw [hpop]
      exact h.idle
    · rw [hpop]
      exact h.calling
  | producer _ hq => exact h.of_producer hq
  | call hcall hq => exact h.of_call hcall hq
  | consumer hq => exact h.of_consumer hq
  | close => exact ⟨h.pushing,h.idle,h.calling⟩

end Engaged

theorem engaged_init : Engaged init := by
  refine ⟨⟨?_,fun hne => absurd rfl hne⟩,fun _ => rfl,?_⟩
  · rintro ⟨msg,hm⟩
    cases hm
  · intro hc
    cases hc

theorem run_engaged (h : (client moved).Run init tr s) : Engaged s :=
  h.invariant (I := fun _ s => Engaged s) engaged_init fun _ _ _ _ _ hi _ hs => hi.step hs

/-- A receiver that has not left its loop can go on until it waits for the connection. -/
theorem receiver_enabled (h : (client moved).Run init tr s) (hleft : s.receiver.left = false)
    (hread : s.receiver ≠ .read) : (∃ s' es, (client moved).step s .receiver = some (s',es)) ∨
      ∃ obs s' es, (client moved).step s (.producer obs) = some (s',es) := by
  have hengaged := run_engaged h
  cases hpc : s.receiver with
  | read => exact absurd hpc hread
  | push msg =>
    -- the producer side is idle, so the call can begin
    have hidle : s.queue.push = .idle := by
      by_contra hne
      obtain ⟨m,hm⟩ := hengaged.pushing.mpr hne
      rw [hpc] at hm
      cases hm
    left
    simp only [client,Client.step,receiverStep,hpc,State.onQueue,SpscQueue.queue,SpscQueue.step,
      hidle]
    exact ⟨_,_,rfl⟩
  | pushing msg =>
    obtain ⟨l,_,hrel⟩ := SpscQueue.run_refines (run_queue h)
    obtain ⟨q,fs,hq⟩ := hrel.push_enabled (hengaged.pushing.mp ⟨msg,hpc⟩)
    right
    -- a load may always read the newest head
    refine ⟨s.queue.head.newest,?_⟩
    simp only [client,Client.step,hpc,State.onQueue]
    rw [hq]
    exact ⟨_,_,rfl⟩
  | storeRunning =>
    rw [hpc] at hleft
    cases hleft
  | exited =>
    rw [hpc] at hleft
    cases hleft
  | _ =>
    left
    simp only [client,Client.step,receiverStep,hpc]
    exact ⟨_,_,rfl⟩

/-- Each of its steps brings the receiver closer to its next read. -/
theorem receiver_toRead (hs : (client moved).step s .receiver = some (s',es))
    (hleft : s.receiver.left = false) :
    s'.toRead < s.toRead ∧ s'.consumer = s.consumer ∧ s'.queue.pop = s.queue.pop := by
  cases step_transition hs with
  | loadRunning hpc =>
    refine ⟨?_,rfl,rfl⟩
    cases s.running <;> simp [State.toRead,hpc]
  | clearBuffer hpc | construct hpc => exact ⟨by simp [State.toRead,hpc],rfl,rfl⟩
  | push hpc hq =>
    simp only [SpscQueue.queue,SpscQueue.step] at hq
    split at hq <;> cases hq
    exact ⟨by simp [State.toRead,hpc,SpscQueue.PushPc.left],rfl,rfl⟩
  | storeRunning hpc =>
    rw [hpc] at hleft
    cases hleft
  | call hcall _ => exact absurd rfl hcall.ne_receiver

theorem producer_toRead {obs : ℕ} (hs : (client moved).step s (.producer obs) = some (s',es)) :
    s'.toRead < s.toRead ∧ s'.consumer = s.consumer ∧ s'.queue.pop = s.queue.pop := by
  cases step_transition hs with
  | @producer _ _ _ fs hpc hq =>
    obtain ⟨hlt,hpop,_⟩ := SpscQueue.producer_left hq
    refine ⟨?_,rfl,hpop⟩
    by_cases hfs : fs = []
    · simpa [State.toRead,hpc,hfs] using hlt
    · have hpos : 0 < s.queue.push.left := Nat.zero_lt_of_lt hlt
      simpa [State.toRead,hpc,hfs] using hpos
  | call hcall _ => cases hcall.silent

/-- The steps of the receiver thread. -/
def Action.ofReceiver : Action → Bool
  | .receiver | .producer _ | .read _ _ | .readError => true
  | _ => false

theorem Calls.not_receiver {pc pc' : ConsumerPc} (h : Calls pc a pc') : a.ofReceiver = false := by
  cases h <;> rfl

/-- The receiver thread leaves the thread that receives alone. -/
theorem receiver_frame (ha : a.ofReceiver = true)
    (hs : (client moved).step s a = some (s',es)) :
    s'.consumer = s.consumer ∧ s'.queue.pop = s.queue.pop := by
  cases step_transition hs with
  | push _ hq => exact ⟨rfl,(call_push hq).2⟩
  | producer _ hq => exact ⟨rfl,(SpscQueue.producer_left hq).2.1⟩
  | call hcall =>
    rw [hcall.not_receiver] at ha
    cases ha
  | consumer => cases ha
  | _ => exact ⟨rfl,rfl⟩

/-- An idle consumer can call `try_receive`. -/
theorem tryReceive_enabled (h : (client moved).Run init tr s) (hidle : s.consumer = .idle) :
    ∃ s', (client moved).step s .tryReceive = some (s',[]) ∧ s'.queue.pop = .loadHead ∧
      s'.toRead = s.toRead ∧ s'.receiver = s.receiver := by
  have hpop := (run_engaged h).idle hidle
  simp only [client,Client.step,hidle,State.onQueue,SpscQueue.queue,SpscQueue.step,hpop]
  exact ⟨_,rfl,rfl,rfl,rfl⟩

/-- A call of `try_receive` can go on, and leaves the receiver alone. -/
theorem consumer_enabled (h : (client moved).Run init tr s) (hcall : s.consumer = .tryReceive) :
    ∃ obs s' es, (client moved).step s (.consumer obs) = some (s',es) := by
  obtain ⟨l,_,hrel⟩ := SpscQueue.run_refines (run_queue h)
  obtain ⟨q,fs,hq⟩ := hrel.pop_enabled ((run_engaged h).calling hcall)
  refine ⟨s.queue.tail.newest,?_⟩
  simp only [client,Client.step,State.onQueue]
  rw [hq]
  exact ⟨_,_,rfl⟩

theorem consumer_toRead {obs : ℕ} (hs : (client moved).step s (.consumer obs) = some (s',es)) :
    s'.toRead = s.toRead ∧ s'.receiver = s.receiver ∧ s'.running = s.running ∧
      s'.queue.pop.left < s.queue.pop.left := by
  cases step_transition hs with
  | consumer hq =>
    obtain ⟨hpush,_⟩ := SpscQueue.consumer_step (.inr ⟨obs,rfl⟩) hq
    refine ⟨?_,rfl,rfl,(SpscQueue.consumer_left hq).1⟩
    simp only [State.toRead,hpush]
  | call hcall _ => cases hcall.silent

end WsClient.Client
