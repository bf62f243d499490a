import WsClient.Client.Receiver
import WsClient.Session.Pairing

/-!
# Waiting for an answer that cannot come

`spin_receive` looks at the queue only, and nothing but the receiver thread puts a message into
it. Here the server does as it likes, a read or a write may fail at any moment, and the question
is whether the main thread can be left spinning on an empty queue that nobody fills.
-/

namespace WsClient.Session
open WsClient.Lib WsClient.Client

/-- `spin_receive` can never return: the queue is empty and nobody fills it. -/
def State.Stranded {ρ : Type*} (s : State ρ) : Prop :=
  s.chat.spins = true ∧ s.client.queued = [] ∧ s.client.receiver.left = true

/-- The steps of a session, and a write that throws. -/
inductive NetAction (β : Type*)
  | session (a : Action β)
  | writeError
  deriving DecidableEq, Repr

section model

variable {ρ β : Type*} (moved : Message → Message) (ndebug : Bool)
  (server : System (Wire × ρ) β Empty)

/-- An exception leaves `chat_session`: `buf` is destroyed, and the client, whose destructor
closes it. -/
def networkStep (s : State ρ) : NetAction β → Option (State ρ × List Event)
  | .session a => Session.step moved ndebug server s a
  | .writeError =>
    match s.chat with
    | .write ⟨_,none⟩ => some ({ s with chat := .closeStore },[])
    | .write ⟨_,some (_,buf)⟩ => s.onPool ndebug (.deallocate buf) fun _ => .closeStore
    | _ => none

/-- A session over a connection that may fail. -/
def network : System (State ρ) (NetAction β) Event := ⟨networkStep moved ndebug server⟩

end model

/-- While `spin_receive` waits, the connection is lost only with a message still queued, and no
request is written once the receiver has gone, unless a message is queued. -/
def Attended {ρ β : Type*} (s : State ρ) : NetAction β → Prop
  | .session .readError => s.chat.spins = true → s.client.queued ≠ []
  | .session .chat =>
    s.chat.writes = true → s.client.receiver.left = true → s.client.queued ≠ []
  | _ => True

instance {ρ : Type*} (s : State ρ) : Decidable s.Stranded :=
  inferInstanceAs (Decidable (_ ∧ _ ∧ _))

instance {ρ β : Type*} : ∀ (s : State ρ) (a : NetAction β), Decidable (Attended s a) := by
  intro s a
  unfold Attended
  split <;> infer_instance

variable {ρ β : Type*} {moved : Message → Message} {ndebug : Bool}
  {server : System (Wire × ρ) β Empty} {s s' : State ρ} {es : List Event} {a : NetAction β}

/-- A session without such a write. -/
theorem network_of_session {s₀ : State ρ} {tr : List Event}
    (h : (session moved ndebug server).Run s₀ tr s) :
    (network moved ndebug server).Run s₀ tr s := by
  induction h with
  | start => exact .start
  | @step _ s s' a es _ _ hs ih =>
    have hs' : (network moved ndebug server).step s (.session a) = some (s',es) := hs
    exact ih.step trivial hs'

/-- What a step does to the client, and to the main thread's wait. -/
structure StepFrame (moved : Message → Message) (s : State ρ) (a : NetAction β) (es : List Event)
    (s' : State ρ) : Prop where
  client : (s'.client = s.client ∧ clientTrace es = []) ∨
    ∃ b, (Client.client moved).step s.client b = some (s'.client,clientTrace es) ∧
      (b = .close → s'.chat.closing = true) ∧ (b = .readError → a = .session .readError)
  enters : s'.chat.spins = true →
    (s.chat.spins = true ∧ delivered (clientTrace es) = []) ∨
      (a = .session .chat ∧ s.chat.writes = true ∧ s'.client = s.client)
  stays : s.chat.spins = true → delivered (clientTrace es) = [] → s'.chat.spins = true
  closing : s.chat.closing = true → s'.chat.closing = true

/-- A step of the main thread from where it does not wait to where it does not. -/
theorem frame_main (hclient : s'.client = s.client) (hes : clientTrace es = [])
    (hs : s.chat.spins = false) (hs' : s'.chat.spins = false)
    (hclosing : s.chat.closing = true → s'.chat.closing = true) : StepFrame moved s a es s' where
  client := .inl ⟨hclient,hes⟩
  enters h := by
    rw [hs'] at h
    cases h
  stays h _ := by
    rw [hs] at h
    cases h
  closing := hclosing

/-- A step of the client that leaves the main thread where it is. -/
theorem frame_client {b : Client.Action} (hc : (Client.client moved).step s.client b =
      some (s'.client,clientTrace es)) (hb : b ≠ .close)
    (hread : b = .readError → a = .session .readError) (hdeliver : delivered (clientTrace es) = [])
    (hchat : s'.chat = s.chat) : StepFrame moved s a es s' where
  client := .inr ⟨b,hc,fun h => absurd h hb,hread⟩
  enters h := .inl ⟨by rwa [hchat] at h,hdeliver⟩
  stays h _ := by rwa [hchat]
  closing h := by rwa [hchat]

theorem ChatPc.not_closing {pc : ChatPc} (h : pc.spins = true) : pc.closing = false := by
  cases pc <;> first | rfl | cases h

theorem ChatPc.spins_of_pending {pc : ChatPc} (h : pc.pending = none) : pc.spins = false := by
  rw [spins_eq,awaited_eq_none h]
  rfl

theorem ChatPc.Pops.spins {pc pc' : ChatPc} {ces : List Client.Event} (h : pc.Pops ces pc')
    (hspins : pc'.spins = true) : pc.spins = true ∧ delivered ces = [] := by
  cases h <;> first | exact ⟨rfl,rfl⟩ | cases hspins

/-- The main thread goes from where it does not close to anywhere. -/
theorem opened {pc : ChatPc} (h : s.chat.closing = false) :
    s.chat.closing = true → pc.closing = true := by
  rw [h]
  intro hclosing
  cases hclosing

/-- Every step of a session, by what it does to the client and to the wait. -/
theorem Transition.frame {b : Action β} {tr : List Client.Event} (hacc : Account tr s.client)
    (h : Transition moved server s b es s') : StepFrame moved s (.session b) es s' := by
  cases h with
  | chat hg | line hg =>
    exact frame_main hg.client rfl (ChatPc.spins_of_pending hg.pending)
      (ChatPc.spins_of_pending hg.idle.1) hg.closing
  | call hpc hc =>
    have hspins := congrArg Option.isSome hpc.awaited
    rw [← ChatPc.spins_eq,← ChatPc.spins_eq] at hspins
    exact ⟨.inr ⟨_,hc,hpc.closes,fun hb => absurd hb hpc.ne_readError⟩,
      fun h => .inl ⟨hspins.symm.trans h,rfl⟩,fun h _ => hspins.trans h,opened hpc.opened⟩
  | write hpc =>
    refine ⟨.inl ⟨rfl,rfl⟩,fun _ => .inr ⟨rfl,by rw [hpc]; rfl,rfl⟩,fun _ _ => rfl,?_⟩
    rw [hpc]
    exact id
  | note hpc hclient _ _ hidle =>
    refine frame_main hclient rfl (by rw [hpc]; rfl) (ChatPc.spins_of_pending hidle.1) ?_
    exact opened (by rw [hpc]; rfl)
  | @pop _ ces _ _ hpc hc =>
    have hc' := hc
    rw [← clientTrace_map ces] at hc'
    refine ⟨.inr ⟨_,hc',by simp,by simp⟩,fun h => .inl ?_,fun h hd => ?_,opened hpc.opened⟩
    · rw [clientTrace_map]
      exact hpc.spins h
    · rw [clientTrace_map] at hd
      have hspins := congrArg Option.isSome (hpc.quiet hd).1
      rw [← ChatPc.spins_eq,← ChatPc.spins_eq] at hspins
      exact hspins.trans h
  | receiver hc => exact frame_client hc (by simp) (by simp) rfl rfl
  | readError hc => exact frame_client hc (by simp) (fun _ => rfl) rfl rfl
  | @producer _ _ ces hc =>
    have hdeliver := (step_producer hacc hc).2
    rw [← clientTrace_map ces] at hc hdeliver
    exact frame_client hc (by simp) (by simp) hdeliver rfl
  | read _ hc => exact frame_client hc (by simp) (by simp) rfl rfl
  | server _ => exact ⟨.inl ⟨rfl,rfl⟩,fun h => .inl ⟨h,rfl⟩,fun h _ => h,id⟩

theorem step_frame {tr : List Client.Event} (hacc : Account tr s.client)
    (hs : (network moved ndebug server).step s a = some (s',es)) :
    StepFrame moved s a es s' := by
  cases a with
  | session b => exact (step_transition hs).frame hacc
  | writeError =>
    simp only [network,networkStep] at hs
    split at hs
    · next hpc =>
      cases hs
      exact frame_main rfl rfl (by rw [hpc]; rfl) rfl (opened (by rw [hpc]; rfl))
    · next hpc =>
      obtain ⟨pool,pes,rfl,rfl⟩ := State.onPool_some hs
      exact frame_main rfl rfl (by rw [hpc]; rfl) rfl (opened (by rw [hpc]; rfl))
    · cases hs

/-- The client runs as such, and while the main thread is not closing it `running_` is cleared
by the receiver's last step only. -/
structure Tracked (moved : Message → Message) (tr : List Event) (s : State ρ) : Prop where
  run : (Client.client moved).Run Client.init (clientTrace tr) s.client
  running : s.client.running = false → s.client.receiver = .exited ∨ s.chat.closing = true

namespace Tracked

variable {tr : List Event}

theorem frame (h : Tracked moved tr s) (hs : (network moved ndebug server).step s a = some (s',es)) :
    StepFrame moved s a es s' :=
  step_frame (run_account h.run) hs

theorem step (h : Tracked moved tr s) (hs : (network moved ndebug server).step s a = some (s',es)) :
    Tracked moved (tr++es) s' := by
  have hf := h.frame hs
  refine ⟨?_,fun hrun => ?_⟩
  · rw [clientTrace_append]
    rcases hf.client with ⟨hc,he⟩ | ⟨b,hb,_⟩
    · rw [hc,he,List.append_nil]
      exact h.run
    · exact h.run.step trivial hb
  · rcases hf.client with ⟨hc,_⟩ | ⟨b,hb,hclose,_⟩
    · rw [hc] at hrun ⊢
      exact (h.running hrun).imp id hf.closing
    · rcases running_of_step hb hrun with ⟨hwas,hexit⟩ | hb | hexit
      · exact (h.running hwas).imp hexit hf.closing
      · exact .inr (hclose hb)
      · exact .inl hexit

/-- Nothing comes any more. -/
theorem stranded_step (h : Tracked moved tr s) (hst : s.Stranded)
    (hs : (network moved ndebug server).step s a = some (s',es)) : s'.Stranded := by
  obtain ⟨hspins,hq,hleft⟩ := hst
  have hf := h.frame hs
  rcases hf.client with ⟨hc,he⟩ | ⟨b,hb,_⟩
  · refine ⟨hf.stays hspins ?_,?_,?_⟩
    · rw [he]
      rfl
    · rw [hc]
      exact hq
    · rw [hc]
      exact hleft
  · obtain ⟨hq',hd⟩ := stays_empty h.run hb hq hleft
    exact ⟨hf.stays hspins hd,hq',(left_step hb hleft).1⟩

/-- An attended step strands nobody: where the wait, the loss of the receiver and the emptiness
of the queue come together last, the step is one of the two that are ruled out. -/
theorem not_stranded_step (h : Tracked moved tr s) (hst : ¬s.Stranded) (hp : Attended s a)
    (hs : (network moved ndebug server).step s a = some (s',es)) : ¬s'.Stranded := by
  rintro ⟨hspins,hq,hleft⟩
  have hf := h.frame hs
  rcases hf.enters hspins with ⟨hwas,hd⟩ | ⟨rfl,hwrites,hc⟩
  · rcases hf.client with ⟨hc,_⟩ | ⟨b,hb,_,hread⟩
    · rw [hc] at hq hleft
      exact hst ⟨hwas,hq,hleft⟩
    · have hempty : s.client.queued = [] := by
        have hstep := queued_step h.run hb
        rw [hd,hq,List.append_nil] at hstep
        exact (List.append_eq_nil_iff.mp hstep).1
      rcases left_of_step hb hleft with hleft | rfl | hrun
      · exact hst ⟨hwas,hempty,hleft⟩
      · rw [hread rfl] at hp
        exact hp hwas hempty
      · -- `running_` is not cleared under a waiting main thread
        rcases h.running hrun with hexit | hclosing
        · exact hst ⟨hwas,hempty,by rw [hexit]; rfl⟩
        · rw [ChatPc.not_closing hwas] at hclosing
          cases hclosing
  · rw [hc] at hq hleft
    exact hp hwrites hleft hq

end Tracked

/-- A step that is not attended strands the main thread. -/
theorem strands (hs : (network moved ndebug server).step s a = some (s',es))
    (hp : ¬Attended s a) : s'.Stranded := by
  cases a with
  | writeError => exact absurd trivial hp
  | session a =>
    simp only [network,networkStep] at hs
    cases a with
    | readError =>
      rw [Attended,Classical.not_imp,not_not] at hp
      -- the receiver leaves while the main thread polls an empty queue
      obtain ⟨hspins,hq⟩ := hp
      simp only [Session.step] at hs
      obtain ⟨c,ces,hc,_,rfl⟩ := State.onClient_some hs
      cases Client.step_transition hc with
      | readError _ => exact ⟨hspins,hq,rfl⟩
      | call hcall _ => cases hcall.ne_readError rfl
    | chat =>
      rw [Attended,Classical.not_imp,Classical.not_imp,not_not] at hp
      -- the main thread goes on to poll though the receiver has left
      obtain ⟨hwrites,hleft,hq⟩ := hp
      simp only [Session.step,chatStep] at hs
      cases hpc : s.chat with
      | write req =>
        simp only [hpc,Option.some.injEq,Prod.mk.injEq] at hs
        obtain ⟨rfl,rfl⟩ := hs
        exact ⟨rfl,hq,hleft⟩
      | _ =>
        rw [hpc] at hwrites
        cases hwrites
    | _ => exact absurd trivial hp

theorem tracked_init {srv : ρ} {storage : ℕ} {m : ByteMem} :
    Tracked moved [] (init srv storage m) := by
  refine ⟨.start,fun hrun => ?_⟩
  cases hrun

theorem run_tracked {P : State ρ → NetAction β → Prop} {srv : ρ} {storage : ℕ} {m : ByteMem}
    {tr : List Event} (h : (network moved ndebug server).RunWhere P (init srv storage m) tr s) :
    Tracked moved tr s :=
  h.invariant (I := Tracked moved) tracked_init fun _ _ _ _ _ hi _ hs => hi.step hs

/-- As long as the connection is not lost under a waiting main thread, and no request goes out
on a lost connection, unless a message is still queued, a waiting main thread is never stranded;
a step that comes otherwise leaves it stranded for good. -/
theorem never_stranded (moved : Message → Message) (ndebug : Bool)
    (server : System (Wire × ρ) β Empty) (srv : ρ) (storage : ℕ) (m : ByteMem) {tr : List Event}
    {s : State ρ} (h : (network moved ndebug server).RunWhere Attended (init srv storage m) tr s) :
    ¬s.Stranded ∧ ∀ a s' es, (network moved ndebug server).step s a = some (s',es) →
      ¬Attended s a → ∀ tr' s'', (network moved ndebug server).Run s' tr' s'' → s''.Stranded := by
  refine ⟨?_,fun a s' es hs hp tr' s'' hrest => ?_⟩
  · have hinv : Tracked moved tr s ∧ ¬s.Stranded := by
      refine h.invariant (I := fun tr s => Tracked moved tr s ∧ ¬s.Stranded) ⟨?_,?_⟩ ?_
      · exact tracked_init
      · rintro ⟨hspins,_⟩
        cases hspins
      · rintro tr s a s' es ⟨htr,hst⟩ hp hs
        exact ⟨htr.step hs,htr.not_stranded_step hst hp hs⟩
    exact hinv.2
  · have htr := (run_tracked h).step hs
    have hinv : Tracked moved (tr++es++tr') s'' ∧ s''.Stranded := by
      refine hrest.invariant
        (I := fun tr' s => Tracked moved (tr++es++tr') s ∧ s.Stranded) ⟨?_,strands hs hp⟩ ?_
      · rwa [List.append_nil]
      · rintro tr' s₁ b s₂ es' ⟨htr',hst⟩ _ hs'
        rw [← List.append_assoc]
        exact ⟨htr'.step hs',htr'.stranded_step hst hs'⟩
    exact hinv.2

/-- The answer has come when the connection is lost. -/
theorem never_stranded_answered :
    ∃ tr s, (network id true echo).RunWhere Attended (init none 4096 fun _ => 0) tr s ∧
      s.chat.spins = true ∧ s.client.receiver.left = true ∧ ¬s.Stranded := by
  have hexec : ((network id true echo).execWhere Attended (init none 4096 fun _ => 0)
      ((System.schedule [(100,[.chat,.consumer 0,.consumer 0]),(2,[.chat]),
        (1,[.line (some (bytes "text")),.line (some [104,105])]),(3,[.chat]),(2,[.server ()]),
        (2,[.receiver]),(1,[.read]),(2,[.receiver]),(4,[.producer 0]),(2,[.receiver]),
        (1,[.readError])]).map .session)).any
      (fun r => decide (r.1.chat.spins = true ∧ r.1.client.receiver.left = true)) = true := by
    decide +kernel
  obtain ⟨s,tr,hrun,hs⟩ := System.exists_run_of_exec hexec
  have hlost : s.chat.spins = true ∧ s.client.receiver.left = true := of_decide_eq_true hs
  exact ⟨tr,s,hrun,hlost.1,hlost.2,(never_stranded id true echo none 4096 _ hrun).1⟩

/-- The server closes the connection between a request and its answer. -/
theorem stranded_by_loss :
    ¬∀ moved ndebug storage m tr s,
      (network moved ndebug echo).Run (init none storage m) tr s → ¬s.Stranded := by
  intro hall
  have hexec : ((network id true echo).execWhere (fun _ _ => True) (init none 4096 fun _ => 0)
      ((System.schedule [(100,[.chat,.consumer 0,.consumer 0]),(2,[.chat]),
        (1,[.line (some (bytes "text")),.line (some [104,105])]),(3,[.chat]),(2,[.receiver]),
        (1,[.readError])]).map .session)).any
      (fun r => decide r.1.Stranded) = true := by
    decide +kernel
  obtain ⟨s,tr,hrun,hs⟩ := System.exists_run_of_exec hexec
  exact hall id true 4096 _ tr s hrun (of_decide_eq_true hs)

end WsClient.Session
