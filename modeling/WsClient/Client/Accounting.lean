import WsClient.Client.Model
import WsClient.SpscQueue.Linearizability

/-!
# Accounting of the receive pipeline

Runs of the client project to runs of its queue, and what `receive_loop` has read is what the
queue has answered for followed by what the receiver still holds.
-/

namespace WsClient.Client
open WsClient.Lib

variable {moved : Message → Message} {s s' : State} {a : Action} {es tr : List Event}

@[simp] theorem filterMap_queue (es : List (SpscQueue.Event Message)) :
    (es.map Event.queue).filterMap Event.queue? = es := by
  induction es with
  | nil => rfl
  | cons e es ih => simp [Event.queue?,ih]

theorem State.onQueue_some {b : SpscQueue.Action Message}
    {next : List (SpscQueue.Event Message) → ReceiverPc × ConsumerPc}
    (h : s.onQueue moved b next = some (s',es)) :
    ∃ queue fs, (receiveQueue moved).step s.queue b = some (queue,fs) ∧ es = fs.map .queue ∧
      s' = { s with queue := queue, receiver := (next fs).1, consumer := (next fs).2 } := by
  obtain ⟨⟨queue,fs⟩,hb,he⟩ := Option.map_eq_some_iff.mp h
  cases he
  exact ⟨queue,fs,hb,rfl,rfl⟩

/-- A call of the queue by the thread that receives: where it stands before, and after. -/
inductive Calls : ConsumerPc → Action → ConsumerPc → Prop
  | tryReceive : Calls .idle .tryReceive .tryReceive
  | spinReceive : Calls .idle .spinReceive .spinReceive
  | spin : Calls .spinReceive .spin .spinReceive

/-- A step of the client by kind. -/
inductive Transition (moved : Message → Message) (s : State) : Action → List Event → State → Prop
  | loadRunning : s.receiver = .loadRunning → Transition moved s .receiver []
      { s with receiver := if s.running then .clearBuffer else .storeRunning }
  | clearBuffer : s.receiver = .clearBuffer → Transition moved s .receiver []
      { s with readBuffer := [], receiver := .read }
  | construct : s.receiver = .construct → Transition moved s .receiver []
      { s with receiver := .push ⟨s.readBuffer,s.gotText⟩ }
  | push {msg queue} : s.receiver = .push msg →
      (receiveQueue moved).step s.queue (.tryPush msg) = some (queue,[]) →
      Transition moved s .receiver [] { s with queue := queue, receiver := .pushing msg }
  | storeRunning : s.receiver = .storeRunning → Transition moved s .receiver []
      { s with running := false, receiver := .exited }
  | read {payload text} : s.receiver = .read →
      Transition moved s (.read payload text) [.read ⟨payload,text⟩] { s with
        readBuffer := s.readBuffer++payload
        gotText := text
        receiver := .construct }
  | readError : s.receiver = .read →
      Transition moved s .readError [] { s with receiver := .storeRunning }
  | producer {obs msg queue fs} : s.receiver = .pushing msg →
      (receiveQueue moved).step s.queue (.producer obs) = some (queue,fs) →
      Transition moved s (.producer obs) (fs.map .queue) { s with
        queue := queue
        receiver := if fs = [] then .pushing msg else .loadRunning }
  | call {a pc queue} : Calls s.consumer a pc →
      (receiveQueue moved).step s.queue .tryPop = some (queue,[]) →
      Transition moved s a [] { s with queue := queue, consumer := pc }
  | consumer {obs queue fs} : (receiveQueue moved).step s.queue (.consumer obs) = some (queue,fs) →
      Transition moved s (.consumer obs) (fs.map .queue)
        { s with queue := queue, consumer := s.consumer.after fs }
  | close : Transition moved s .close [] { s with running := false }

/-- The queue answers no call in its first step. -/
theorem queue_call {q q' : SpscQueue.State Message} {b : SpscQueue.Action Message}
    {fs : List (SpscQueue.Event Message)} (hb : b = .tryPop ∨ ∃ msg, b = .tryPush msg)
    (hq : (receiveQueue moved).step q b = some (q',fs)) : fs = [] := by
  rcases hb with rfl | ⟨msg,rfl⟩
  all_goals
    simp only [SpscQueue.queue,SpscQueue.step] at hq
    split at hq <;> cases hq
    rfl

theorem step_transition (hs : (client moved).step s a = some (s',es)) :
    Transition moved s a es s' := by
  cases a with
  | receiver =>
    simp only [client,step,receiverStep] at hs
    split at hs
    case h_4 hpc =>
      obtain ⟨queue,fs,hq,rfl,rfl⟩ := State.onQueue_some hs
      obtain rfl := queue_call (.inr ⟨_,rfl⟩) hq
      exact .push hpc hq
    all_goals cases hs
    case h_1 hpc => exact .loadRunning hpc
    case h_2 hpc => exact .clearBuffer hpc
    case h_3 hpc => exact .construct hpc
    case h_5 hpc => exact .storeRunning hpc
  | read payload text =>
    simp only [client,step] at hs
    split at hs <;> cases hs
    next hpc => exact .read hpc
  | readError =>
    simp only [client,step] at hs
    split at hs <;> cases hs
    next hpc => exact .readError hpc
  | producer obs =>
    simp only [client,step] at hs
    split at hs
    · next msg hpc =>
      obtain ⟨queue,fs,hq,rfl,rfl⟩ := State.onQueue_some hs
      exact .producer hpc hq
    · cases hs
  | consumer obs =>
    simp only [client,step] at hs
    obtain ⟨queue,fs,hq,rfl,rfl⟩ := State.onQueue_some hs
    exact .consumer hq
  | close =>
    cases hs
    exact .close
  | tryReceive =>
    simp only [client,step] at hs
    split at hs
    · next hpc =>
      obtain ⟨queue,fs,hq,rfl,rfl⟩ := State.onQueue_some hs
      obtain rfl := queue_call (.inl rfl) hq
      exact .call (hpc ▸ .tryReceive) hq
    · cases hs
  | spinReceive =>
    simp only [client,step] at hs
    split at hs
    · next hpc =>
      obtain ⟨queue,fs,hq,rfl,rfl⟩ := State.onQueue_some hs
      obtain rfl := queue_call (.inl rfl) hq
      exact .call (hpc ▸ .spinReceive) hq
    · cases hs
  | spin =>
    simp only [client,step] at hs
    split at hs
    · next hpc =>
      obtain ⟨queue,fs,hq,rfl,rfl⟩ := State.onQueue_some hs
      obtain rfl := queue_call (.inl rfl) hq
      exact .call (hpc ▸ .spin) hq
    · cases hs

/-- A step is one step of the queue, or leaves the queue alone. -/
theorem step_queue (hs : (client moved).step s a = some (s',es)) :
    (s'.queue = s.queue ∧ es.filterMap Event.queue? = []) ∨
      ∃ b, (receiveQueue moved).step s.queue b = some (s'.queue,es.filterMap Event.queue?) := by
  cases step_transition hs with
  | push _ hq => exact .inr ⟨_,hq⟩
  | call _ hq => exact .inr ⟨_,hq⟩
  | producer _ hq =>
    rw [filterMap_queue]
    exact .inr ⟨_,hq⟩
  | consumer hq =>
    rw [filterMap_queue]
    exact .inr ⟨_,hq⟩
  | _ => exact .inl ⟨rfl,rfl⟩

/-- Every interleaving, seen at the queue, is a run of the queue. -/
theorem run_queue (h : (client moved).Run init tr s) :
    (receiveQueue moved).Run (SpscQueue.init .empty) (tr.filterMap Event.queue?) s.queue :=
  h.project (f := State.queue) fun _ _ _ _ _ hs => step_queue hs

/-- The message in a push is the one the receiver offers, the buffer is empty when a read
begins, and every message read has been answered for, in order, but the one held. -/
structure Account (tr : List Event) (s : State) : Prop where
  pushing : ∀ msg, s.receiver = .pushing msg → s.queue.push.item? = some msg
  cleared : s.receiver = .read → s.readBuffer = []
  reads : readMessages tr = (verdicts tr).map Prod.fst++s.held

theorem readMessages_append (es fs : List Event) :
    readMessages (es++fs) = readMessages es++readMessages fs :=
  List.filterMap_append

theorem verdicts_append (es fs : List Event) : verdicts (es++fs) = verdicts es++verdicts fs :=
  List.filterMap_append

/-- A step that neither reads nor answers keeps the account when it keeps what is held. -/
theorem Account.of_silent (h : Account tr s) (hr : readMessages es = []) (hv : verdicts es = [])
    (hheld : s'.held = s.held)
    (hp : ∀ msg, s'.receiver = .pushing msg → s'.queue.push.item? = some msg)
    (hc : s'.receiver = .read → s'.readBuffer = []) : Account (tr++es) s' := by
  refine ⟨hp,hc,?_⟩
  rw [readMessages_append,verdicts_append,hr,hv,List.append_nil,List.append_nil,hheld]
  exact h.reads

/-- The consumer's side of the queue touches nothing of the account. -/
theorem Account.of_consumer (h : Account tr s) {b : SpscQueue.Action Message}
    (hb : b = .tryPop ∨ ∃ obs, b = .consumer obs) {queue : SpscQueue.State Message}
    {fs : List (SpscQueue.Event Message)}
    (hq : (receiveQueue moved).step s.queue b = some (queue,fs)) (pc : ConsumerPc) :
    Account (tr++fs.map .queue) { s with queue := queue, consumer := pc } := by
  obtain ⟨hpush,hfs⟩ := SpscQueue.consumer_step hb hq
  refine h.of_silent ?_ ?_ rfl ?_ h.cleared
  · rcases hfs with rfl | ⟨slot,item,rfl⟩ | rfl <;> rfl
  · rcases hfs with rfl | ⟨slot,item,rfl⟩ | rfl <;> rfl
  · intro msg hm
    rw [hpush]
    exact h.pushing msg hm

/-- A step of the `try_push` that the receiver is in. -/
theorem Account.producer (h : Account tr s) {obs : ℕ} {msg : Message}
    {queue : SpscQueue.State Message} {fs : List (SpscQueue.Event Message)}
    (hpc : s.receiver = .pushing msg)
    (hq : (receiveQueue moved).step s.queue (.producer obs) = some (queue,fs)) :
    Account (tr++fs.map .queue) { s with
      queue := queue
      receiver := if fs = [] then .pushing msg else .loadRunning } := by
  have hheld : s.held = [msg] := by simp [State.held,hpc]
  have hreads := h.reads
  rcases SpscQueue.producer_step (h.pushing msg hpc) hq with ⟨rfl,hi⟩ | ⟨_,⟨slot,rfl⟩ | rfl⟩
  · refine h.of_silent rfl rfl (by simp [State.held,hpc]) ?_ (by simp)
    intro m hm
    simp only [if_true,ReceiverPc.pushing.injEq] at hm
    rw [← hm]
    exact hi
  -- the queue has answered: what was held is now the last verdict
  all_goals refine ⟨by simp,by simp,?_⟩
  all_goals rw [readMessages_append,verdicts_append,hreads,hheld]
  all_goals simp [readMessages,verdicts,Event.read?,Event.verdict?,State.held]

/-- One step keeps the account. -/
theorem Account.step (h : Account tr s) (hs : (client moved).step s a = some (s',es)) :
    Account (tr++es) s' := by
  cases step_transition hs with
  | loadRunning hpc =>
    cases s.running with
    | true => exact h.of_silent rfl rfl (by simp [State.held,hpc]) (by simp) (by simp)
    | false => exact h.of_silent rfl rfl (by simp [State.held,hpc]) (by simp) (by simp)
  | clearBuffer hpc => exact h.of_silent rfl rfl (by simp [State.held,hpc]) (by simp) (by simp)
  | construct hpc => exact h.of_silent rfl rfl (by simp [State.held,hpc]) (by simp) (by simp)
  | push hpc hq =>
    simp only [SpscQueue.queue,SpscQueue.step] at hq
    split at hq <;> cases hq
    exact h.of_silent rfl rfl (by simp [State.held,hpc]) (by simp [SpscQueue.PushPc.item?])
      (by simp)
  | storeRunning hpc => exact h.of_silent rfl rfl (by simp [State.held,hpc]) (by simp) (by simp)
  | read hpc =>
    -- the buffer was cleared, so what is read is all that `construct` will find in it
    refine ⟨by simp,by simp,?_⟩
    have hheld : s.held = [] := by simp [State.held,hpc]
    rw [readMessages_append,h.reads,hheld,verdicts_append,h.cleared hpc]
    simp [readMessages,verdicts,Event.read?,Event.verdict?,State.held]
  | readError hpc => exact h.of_silent rfl rfl (by simp [State.held,hpc]) (by simp) (by simp)
  | producer hpc hq => exact h.producer hpc hq
  | call _ hq => exact h.of_consumer (.inl rfl) hq _
  | consumer hq => exact h.of_consumer (.inr ⟨_,rfl⟩) hq _
  | close => exact h.of_silent rfl rfl rfl h.pushing h.cleared

theorem run_account (h : (client moved).Run init tr s) : Account tr s :=
  h.invariant (I := Account) ⟨by simp [init],by simp [init],rfl⟩
    fun _ _ _ _ _ hi _ hs => hi.step hs

/-- Steps other than reads and the steps inside the queue's operations. -/
def Action.silent : Action → Bool
  | .read _ _ | .producer _ | .consumer _ => false
  | _ => true

theorem Calls.silent {pc pc' : ConsumerPc} (h : Calls pc a pc') : a.silent = true := by
  cases h <;> rfl

theorem Calls.ne_receiver {pc pc' : ConsumerPc} (h : Calls pc a pc') : a ≠ .receiver := by
  cases h <;> simp

theorem Calls.ne_readError {pc pc' : ConsumerPc} (h : Calls pc a pc') : a ≠ .readError := by
  cases h <;> simp

theorem Calls.of_tryReceive {pc pc' : ConsumerPc} (h : Calls pc .tryReceive pc') :
    pc' = .tryReceive := by
  cases h
  rfl

theorem Calls.of_spin {pc pc' : ConsumerPc} (h : Calls pc a pc')
    (ha : a = .spinReceive ∨ a = .spin) : pc' = .spinReceive := by
  cases h
  · rcases ha with ha | ha <;> cases ha
  · rfl
  · rfl

theorem Calls.ne_close {pc pc' : ConsumerPc} (h : Calls pc a pc') : a ≠ .close := by
  cases h <;> simp

theorem step_silent (hs : (client moved).step s a = some (s',es)) (ha : a.silent = true) :
    es = [] := by
  cases step_transition hs with
  | read _ => cases ha
  | producer _ _ => cases ha
  | consumer _ => cases ha
  | _ => rfl

theorem step_read {payload : List UInt8} {text : Bool}
    (hs : (client moved).step s (.read payload text) = some (s',es)) :
    es = [.read ⟨payload,text⟩] := by
  cases step_transition hs with
  | read _ => rfl
  | call hcall _ => cases hcall.silent

theorem step_producer {obs : ℕ} (h : Account tr s)
    (hs : (client moved).step s (.producer obs) = some (s',es)) :
    readMessages es = [] ∧ delivered es = [] := by
  cases step_transition hs with
  | producer hpc hq =>
    rcases SpscQueue.producer_step (h.pushing _ hpc) hq with ⟨rfl,_⟩ | ⟨_,⟨slot,rfl⟩ | rfl⟩
    all_goals exact ⟨rfl,rfl⟩
  | call hcall _ => cases hcall.silent

/-- A refusal comes alone. -/
theorem step_refused (h : Account tr s) (hs : (client moved).step s a = some (s',es))
    {msg : Message} (hm : .queue (.pushFull msg) ∈ es) : es = [.queue (.pushFull msg)] := by
  cases step_transition hs with
  | producer hpc hq =>
    rcases SpscQueue.producer_step (h.pushing _ hpc) hq with ⟨rfl,_⟩ | ⟨_,⟨slot,rfl⟩ | rfl⟩
    · cases hm
    · simp at hm
    · simpa [eq_comm] using hm
  | consumer hq =>
    rcases (SpscQueue.consumer_step (.inr ⟨_,rfl⟩) hq).2 with rfl | ⟨slot,item,rfl⟩ | rfl
    · cases hm
    · simp at hm
    · simp at hm
  | read _ => simp at hm
  | _ => cases hm

theorem step_consumer {obs : ℕ} (hs : (client moved).step s (.consumer obs) = some (s',es)) :
    es = [] ∨ (∃ slot msg, es = [.queue (.popped slot msg)]) ∨ es = [.queue .popEmpty] := by
  cases step_transition hs with
  | consumer hq =>
    rcases (SpscQueue.consumer_step (.inr ⟨obs,rfl⟩) hq).2 with rfl | ⟨slot,item,rfl⟩ | rfl
    · exact .inl rfl
    · exact .inr (.inl ⟨slot,item,rfl⟩)
    · exact .inr (.inr rfl)
  | call hcall _ => cases hcall.silent

theorem accepted_eq_kept (tr : List Event) :
    SpscQueue.accepted (tr.filterMap Event.queue?) = kept tr := by
  induction tr with
  | nil => rfl
  | cons e tr ih =>
    rw [SpscQueue.accepted,kept,verdicts] at ih ⊢
    cases e with
    | read msg => exact ih
    | queue e =>
      cases e with
      | pushed slot item => exact congrArg (item :: ·) ih
      | _ => exact ih

theorem delivered_queue (tr : List Event) :
    SpscQueue.delivered (tr.filterMap Event.queue?) = delivered tr := by
  rw [SpscQueue.delivered,delivered,List.filterMap_filterMap]
  apply List.filterMap_congr
  intro e _
  cases e with
  | read msg => rfl
  | queue e => cases e <;> rfl

/-- What was kept is what was delivered followed by what is queued. -/
theorem run_kept (h : (client moved).Run init tr s) : kept tr = delivered tr++s.queued := by
  obtain ⟨l,hrun,hrel⟩ := SpscQueue.run_refines (run_queue h)
  rw [← accepted_eq_kept,← delivered_queue,State.queued,hrel.contents_eq]
  exact SpscQueue.run_accepted hrun

theorem kept_append (es fs : List Event) : kept (es++fs) = kept es++kept fs := by
  rw [kept,verdicts_append,List.filter_append,List.map_append]
  rfl

theorem delivered_append (es fs : List Event) : delivered (es++fs) = delivered es++delivered fs :=
  List.filterMap_append

/-- What a step keeps or delivers goes into or out of the queue. -/
theorem queued_step (h : (client moved).Run init tr s)
    (hs : (client moved).step s a = some (s',es)) :
    s.queued++kept es = delivered es++s'.queued := by
  have hkept := run_kept (h.step trivial hs)
  rw [kept_append,delivered_append,run_kept h,List.append_assoc,List.append_assoc] at hkept
  exact List.append_cancel_left hkept

theorem queued_le (h : (client moved).Run init tr s) :
    s.queued.length ≤ kQueueCapacity.val-1 := by
  obtain ⟨l,_,hrel⟩ := SpscQueue.run_refines (run_queue h)
  rw [State.queued,hrel.contents_eq,List.length_map]
  exact hrel.length_le

/-- A message is dropped only by a full queue. -/
theorem run_refused (h : (client moved).Run init tr s)
    (hs : (client moved).step s a = some (s',es)) {msg : Message}
    (hm : .queue (.pushFull msg) ∈ es) : s.queued.length = kQueueCapacity.val-1 := by
  obtain ⟨l,_,hrel⟩ := SpscQueue.run_refines (run_queue h)
  have hfull : .pushFull msg ∈ es.filterMap Event.queue? :=
    List.mem_filterMap.mpr ⟨_,hm,rfl⟩
  rcases step_queue hs with ⟨_,he⟩ | ⟨b,hb⟩
  · rw [he] at hfull
    cases hfull
  · exact (hrel.refused hb).1 msg hfull

/-- An empty answer of `try_pop` has found the queue empty. -/
theorem run_empty (h : (client moved).Run init tr s)
    (hs : (client moved).step s a = some (s',es)) (hm : .queue .popEmpty ∈ es) : s.queued = [] := by
  obtain ⟨l,_,hrel⟩ := SpscQueue.run_refines (run_queue h)
  have hempty : .popEmpty ∈ es.filterMap Event.queue? := List.mem_filterMap.mpr ⟨_,hm,rfl⟩
  rcases step_queue hs with ⟨_,he⟩ | ⟨b,hb⟩
  · rw [he] at hempty
    cases hempty
  · exact (hrel.refused hb).2 hempty

/-- As long as nothing is dropped, everything the queue has answered for is kept. -/
theorem kept_of_undropped (hdrop : ∀ msg, Event.queue (.pushFull msg) ∉ tr) :
    (verdicts tr).map Prod.fst = kept tr := by
  have hall : (verdicts tr).filter Prod.snd = verdicts tr := by
    refine List.filter_eq_self.mpr fun (msg,b) hv => ?_
    obtain ⟨e,he,hve⟩ := List.mem_filterMap.mp hv
    cases e with
    | read m => cases hve
    | queue e =>
      cases e with
      | pushed slot item =>
        cases hve
        rfl
      | pushFull item => exact absurd he (hdrop item)
      | popped slot item => cases hve
      | popEmpty => cases hve
  rw [kept,hall]

/-- As long as nothing is dropped, what was read is what was delivered, what is queued and
what is held. -/
theorem run_undropped (h : (client moved).Run init tr s)
    (hdrop : ∀ msg, Event.queue (.pushFull msg) ∉ tr) :
    readMessages tr = delivered tr++s.queued++s.held := by
  rw [(run_account h).reads,← run_kept h,kept_of_undropped hdrop]

/-- The accounts of a part of a run that begins with nothing queued or held. -/
theorem run_resumed {tr₀ : List Event} {c : State} (h₀ : (client moved).Run init tr₀ c)
    (hqueued : c.queued = []) (hheld : c.held = []) (h : (client moved).Run init (tr₀++tr) s) :
    readMessages tr = (verdicts tr).map Prod.fst++s.held ∧ kept tr = delivered tr++s.queued := by
  constructor
  · have hreads := (run_account h).reads
    rw [readMessages_append,verdicts_append,List.map_append,(run_account h₀).reads,hheld,
      List.append_nil,List.append_assoc] at hreads
    exact List.append_cancel_left hreads
  · have hkept := run_kept h
    rw [kept_append,delivered_append,run_kept h₀,hqueued,List.append_nil,List.append_assoc] at hkept
    exact List.append_cancel_left hkept

theorem kept_le (tr : List Event) : (kept tr).length ≤ (verdicts tr).length := by
  rw [kept,List.length_map]
  exact List.length_filter_le _ _

/-- A message dropped is answered for and not kept. -/
theorem kept_lt_of_dropped {msg : Message} (h : Event.queue (.pushFull msg) ∈ tr) :
    (kept tr).length < (verdicts tr).length := by
  rw [kept,List.length_map,List.length_filter_lt_length_iff_exists]
  exact ⟨(msg,false),List.mem_filterMap.mpr ⟨_,h,rfl⟩,by simp⟩

/-- What a step reads goes to the receiver, what it answers for leaves it. -/
theorem held_step (h : (client moved).Run init tr s)
    (hs : (client moved).step s a = some (s',es)) :
    s.held++readMessages es = (verdicts es).map Prod.fst++s'.held := by
  have hreads := (run_account (h.step trivial hs)).reads
  rw [readMessages_append,verdicts_append,List.map_append,(run_account h).reads,
    List.append_assoc,List.append_assoc] at hreads
  exact List.append_cancel_left hreads

/-- A step that drops nothing moves messages along the pipe: read into it, delivered out of it. -/
theorem pipe_step (h : (client moved).Run init tr s)
    (hs : (client moved).step s a = some (s',es))
    (hdrop : ∀ msg, Event.queue (.pushFull msg) ∉ es) :
    s.queued++s.held++readMessages es = delivered es++(s'.queued++s'.held) := by
  rw [List.append_assoc,held_step h hs,kept_of_undropped hdrop,← List.append_assoc,
    queued_step h hs,List.append_assoc]

/-- Messages neither vanish nor change: each one read is, in arrival order, answered for by
the queue or held; those kept are the delivered ones followed by the queued ones; and a
message is dropped only when the queue's `kQueueCapacity - 1` usable slots are taken. -/
theorem receive_accounting (moved : Message → Message) {tr : List Event} {s : State}
    (h : (client moved).Run init tr s) :
    readMessages tr = (verdicts tr).map Prod.fst++s.held ∧
      s.held.length ≤ 1 ∧
      kept tr = delivered tr++s.queued ∧
      ∀ a s' es msg, (client moved).step s a = some (s',es) → .queue (.pushFull msg) ∈ es →
        s.queued.length = kQueueCapacity.val-1 := by
  refine ⟨(run_account h).reads,?_,run_kept h,fun _ _ _ _ hs hm => run_refused h hs hm⟩
  unfold State.held
  split <;> simp

/-- One message received while the receiver already holds the next. -/
theorem receive_accounting_two :
    ∃ tr s, (client id).Run init tr s ∧ delivered tr = [⟨[104,105],true⟩] ∧
      s.held = [⟨[0],false⟩] ∧ kept tr = delivered tr++s.queued := by
  have hrun : (client id).Run init _ _ :=
    System.run_of_exec (l := [.receiver,.receiver,.read [104,105] true,.receiver,.receiver,
      .producer 0,.tryReceive,.producer 0,.consumer 0,.producer 0,.producer 0,.consumer 1,
      .consumer 0,.consumer 0,.receiver,.receiver,.read [0] false]) rfl
  exact ⟨_,_,hrun,rfl,rfl,(receive_accounting id hrun).2.2.1⟩

end WsClient.Client
