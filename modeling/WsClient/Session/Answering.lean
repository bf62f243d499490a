import WsClient.Session.Stranding

/-!
# Waiting for an answer that comes

While the connection holds, `spin_receive` keeps polling only as long as the receiver thread and
the server have something left to do, which is little; and once the message is in the queue the
poll that has begun, or the next one, finds it.
-/

namespace WsClient.Session
open WsClient.Lib WsClient.Client

/-- The steps of the main thread. -/
def Action.ofChat {β : Type*} : Action β → Bool
  | .chat | .line _ | .consumer _ => true
  | _ => false

/-- Where the main thread stands in the client. -/
def ChatPc.call : ChatPc → ConsumerPc
  | .greetingTry _ => .tryReceive
  | .spinning _ => .spinReceive
  | _ => .idle

/-- The steps of the receiver thread and the server until nothing is on its way to the queue. -/
def State.away (s : State (Option Message)) : ℕ := s.client.toRead+Wire.left s.wire s.server

/-- The steps of `chat_session` until it has taken note of a message that is in the queue; a
`try_pop` that has begun has `pop` steps left. -/
def ChatPc.toNote (pop : ℕ) : ChatPc → ℕ
  | .spin _ => 6
  | .spinning _ => if pop = 0 then 6 else pop+1
  | .record _ _ => 1
  | _ => 0

/-- The response is in the queue or already taken out of it. -/
def State.Arrived {ρ : Type*} (s : State ρ) : Prop :=
  s.chat.awaited = none ∨ s.client.queued ≠ []

/-- The main thread has asked for `msg` to be sent and has not yet taken note of a response. -/
structure Waiting (moved : Message → Message) (msg : Message) (s : State (Option Message)) :
    Prop where
  coupled : ∃ tr, Coupled moved tr s ∧ Tracked moved tr s
  call : s.client.consumer = s.chat.call
  pending : s.chat.pending = some msg

variable {ρ β : Type*} {moved : Message → Message} {ndebug : Bool}
  {server : System (Wire × ρ) β Empty}

section call

variable {s s' : State ρ} {es : List Event} {a : Action β} {c c' : Client.State}
  {b : Client.Action} {ces : List Client.Event} {pc pc' : ChatPc}

/-- A call on the client leaves the receiver thread alone. -/
theorem call_toRead (hpc : pc.Calls b pc')
    (hs : (Client.client moved).step c b = some (c',ces)) :
    c'.toRead = c.toRead ∧ c'.receiver = c.receiver := by
  cases Client.step_transition hs with
  | call _ hq => exact ⟨by simp only [Client.State.toRead,(call_pop hq).2],rfl⟩
  | close => exact ⟨rfl,rfl⟩
  | _ => cases hpc

/-- A call leaves the client in the function the main thread is in. -/
theorem ChatPc.Calls.call (hpc : pc.Calls b pc')
    (hs : (Client.client moved).step c b = some (c',ces)) (h : c.consumer = pc.call) :
    c'.consumer = pc'.call := by
  cases hpc with
  | greeting =>
    cases Client.step_transition hs with
    | call hcall _ => exact hcall.of_tryReceive
  | spin =>
    cases Client.step_transition hs with
    | call hcall _ => exact hcall.of_spin (.inl rfl)
  | spinning =>
    cases Client.step_transition hs with
    | call hcall _ => exact hcall.of_spin (.inr rfl)
  | close =>
    cases hs
    exact h

/-- So does each answer of `try_pop`. -/
theorem ChatPc.Pops.call {obs : ℕ} (hpc : pc.Pops ces pc')
    (hs : (Client.client moved).step c (.consumer obs) = some (c',ces))
    (h : c.consumer = pc.call) : c'.consumer = pc'.call := by
  cases Client.step_transition hs with
  | call hcall _ => cases hcall.silent
  | consumer hq =>
    dsimp only
    rw [h]
    rcases (SpscQueue.consumer_step (.inr ⟨obs,rfl⟩) hq).2 with rfl | ⟨slot,item,rfl⟩ | rfl
    all_goals
      cases hpc
      all_goals rfl

theorem ChatPc.command_call (input : List UInt8) : (ChatPc.command input).call = .idle := by
  unfold ChatPc.command
  split_ifs <;> rfl

theorem chat_call (hs : chatStep moved ndebug s = some (s',es))
    (h : s.client.consumer = s.chat.call) : s'.client.consumer = s'.chat.call := by
  obtain ⟨client,text,closed,wire,srv,pc,pool,stats,benchStats⟩ := s
  cases pc with
  | greeting i =>
    simp only [chatStep] at hs
    split at hs
    · obtain ⟨c,ces,hc,_,rfl⟩ := State.onClient_some hs
      exact ChatPc.Calls.greeting.call hc h
    · cases hs
      exact h
  | isRunning =>
    cases hs
    dsimp only
    split <;> exact h
  | bench i =>
    simp only [chatStep] at hs
    split at hs
    · obtain ⟨pool,pes,rfl,rfl⟩ := State.onPool_some hs
      dsimp only
      repeat' split
      all_goals exact h
    · cases hs
      exact h
  | benchCopy i buf off =>
    simp only [chatStep] at hs
    split at hs
    · obtain ⟨pool,pes,rfl,rfl⟩ := State.onPool_some hs
      exact h
    · cases hs
      exact h
  | spin req =>
    simp only [chatStep] at hs
    obtain ⟨c,ces,hc,_,rfl⟩ := State.onClient_some hs
    exact ChatPc.Calls.spin.call hc h
  | spinning req =>
    simp only [chatStep] at hs
    obtain ⟨c,ces,hc,_,rfl⟩ := State.onClient_some hs
    exact ChatPc.Calls.spinning.call hc h
  | record req response =>
    simp only [chatStep] at hs
    split at hs <;> cases hs <;> exact h
  | benchFree i buf =>
    simp only [chatStep] at hs
    obtain ⟨pool,pes,rfl,rfl⟩ := State.onPool_some hs
    exact h
  | closeStore =>
    simp only [chatStep] at hs
    obtain ⟨c,ces,hc,_,rfl⟩ := State.onClient_some hs
    exact ChatPc.Calls.close.call hc h
  | closeJoin =>
    simp only [chatStep] at hs
    split at hs <;> cases hs
    exact h
  | setKind req | write req | closeStream =>
    cases hs
    exact h
  | greetingTry i | prompt | message text | returned => cases hs

/-- The main thread is in the function of the client that it has called. -/
theorem call_step (hs : (session moved ndebug server).step s a = some (s',es))
    (h : s.client.consumer = s.chat.call) : s'.client.consumer = s'.chat.call := by
  have hothers {b : Client.Action} {c : Client.State} {ces : List Client.Event}
      (hb : b.ofReceiver = true) (hc : (Client.client moved).step s.client b = some (c,ces)) :
      c.consumer = s.chat.call :=
    (receiver_frame hb hc).1.trans h
  cases a with
  | chat => exact chat_call hs h
  | line input =>
    obtain ⟨client,text,closed,wire,srv,pc,pool,stats,benchStats⟩ := s
    simp only [session,Session.step] at hs
    split at hs
    · cases hs
      exact h.trans (ChatPc.command_call _).symm
    all_goals cases hs
    all_goals exact h
  | consumer obs =>
    cases step_transition hs with
    | pop hpc hc => exact hpc.call hc h
  | receiver =>
    cases step_transition hs with
    | receiver hc => exact hothers rfl hc
  | producer obs =>
    cases step_transition hs with
    | producer hc => exact hothers rfl hc
  | read =>
    cases step_transition hs with
    | read _ hc => exact hothers rfl hc
  | readError =>
    cases step_transition hs with
    | readError hc => exact hothers rfl hc
  | server b =>
    cases step_transition hs with
    | server _ => exact h

end call

/-- A call of `spin_receive` begins a `try_pop`. -/
theorem ChatPc.Calls.toNote {pc pc' : ChatPc} {b : Client.Action} {c c' : Client.State}
    {ces : List Client.Event} (hpc : pc.Calls b pc') (hpending : pc.pending ≠ none)
    (hs : (Client.client moved).step c b = some (c',ces)) :
    pc'.toNote c'.queue.pop.left+1 ≤ pc.toNote c.queue.pop.left := by
  have hpop {q q' : SpscQueue.State Message} {fs : List (SpscQueue.Event Message)}
      (hq : (receiveQueue moved).step q .tryPop = some (q',fs)) :
      q.pop.left = 0 ∧ q'.pop.left = 4 := by
    simp only [SpscQueue.queue,SpscQueue.step] at hq
    split at hq <;> cases hq
    next hidle => exact ⟨by rw [hidle]; rfl,rfl⟩
  cases hpc with
  | spin =>
    cases Client.step_transition hs with
    | call _ hq => simp [ChatPc.toNote,hpop hq]
  | spinning =>
    cases Client.step_transition hs with
    | call _ hq => simp [ChatPc.toNote,hpop hq]
  | greeting | close => exact absurd rfl hpending

/-- A `try_pop` that finds a message comes nearer to its end with each step. -/
theorem ChatPc.Pops.toNote {pc pc' : ChatPc} {obs : ℕ} {c c' : Client.State}
    {ces : List Client.Event} (hpc : pc.Pops ces pc') (hpending : pc.pending ≠ none)
    (hs : (Client.client moved).step c (.consumer obs) = some (c',ces))
    (hfound : .queue .popEmpty ∉ ces) :
    pc'.toNote c'.queue.pop.left+1 ≤ pc.toNote c.queue.pop.left := by
  have hlt := (consumer_toRead hs).2.2.2
  have hgoes : ces = [] → 0 < c'.queue.pop.left := by
    cases Client.step_transition hs with
    | consumer hq =>
      intro hnil
      exact SpscQueue.PopPc.left_pos.mpr
        ((SpscQueue.consumer_left hq).2.mp (List.map_eq_nil_iff.mp hnil))
    | call hcall _ => cases hcall.silent
  cases hpc with
  | spinning =>
    have hpos := hgoes rfl
    simp only [ChatPc.toNote]
    split_ifs <;> omega
  | spinningEmpty => exact absurd (List.mem_singleton_self _) hfound
  | take =>
    simp only [ChatPc.toNote]
    split_ifs <;> omega
  | greetingTry | greetingEmpty | greet => exact absurd rfl hpending

/-- In an exchange the `try_pop` is that of `spin_receive`. -/
theorem ChatPc.Pops.awaits {pc pc' : ChatPc} {ces : List Client.Event} (h : pc.Pops ces pc')
    (hpending : pc.pending ≠ none) : pc.awaited ≠ none := by
  cases h with
  | spinning | spinningEmpty | take => exact Option.some_ne_none _
  | greetingTry | greetingEmpty | greet => exact absurd rfl hpending

theorem ChatPc.Pops.taken {pc pc' : ChatPc} {ces : List Client.Event} (h : pc.Pops ces pc')
    (hd : delivered ces ≠ []) : pc'.awaited = none := by
  cases h with
  | greet | take => rfl
  | _ => exact absurd rfl hd

theorem ChatPc.Pops.pending {pc pc' : ChatPc} {ces : List Client.Event} (h : pc.Pops ces pc') :
    pc'.pending = pc.pending := by
  cases h <;> rfl

namespace Waiting

variable {s s' : State (Option Message)} {es : List Event} {a : Action Unit} {msg : Message}

theorem pending_ne (h : Waiting moved msg s) : s.chat.pending ≠ none := by
  rw [h.pending]
  exact Option.some_ne_none _

/-- The main thread waits until it takes note of the response, which is the right one. -/
theorem step (h : Waiting moved msg s) (hs : (session moved ndebug echo).step s a = some (s',es)) :
    .response msg ∈ es ∨ Waiting moved msg s' := by
  obtain ⟨tr,hcoupled,htracked⟩ := h.coupled
  have hcoupled' : ∃ tr, Coupled moved tr s' ∧ Tracked moved tr s' :=
    ⟨tr++es,hcoupled.step hs,htracked.step (a := .session a) hs⟩
  have hcall' := call_step hs h.call
  cases step_transition hs with
  | chat hg | line hg => exact absurd hg.pending h.pending_ne
  | write hpc => exact absurd (by rw [hpc]; rfl) h.pending_ne
  | @note req response _ hpc _ _ _ _ =>
    have hready := hcoupled.ready
    have hpending := h.pending
    rw [hpc] at hready hpending
    cases hpending
    have heq : response = req.msg := hready
    rw [heq]
    exact .inl (List.mem_singleton_self _)
  | call hpc _ => exact .inr ⟨hcoupled',hcall',hpc.pending.trans h.pending⟩
  | pop hpc _ => exact .inr ⟨hcoupled',hcall',hpc.pending.trans h.pending⟩
  | _ => exact .inr ⟨hcoupled',hcall',h.pending⟩

/-- The wait ends with the response. -/
theorem noted (h : Waiting moved msg s) (hs : (session moved ndebug echo).step s a = some (s',es))
    (hnone : s'.chat.pending = none) : .response msg ∈ es :=
  (h.step hs).resolve_right fun hwaiting => hwaiting.pending_ne hnone

/-- The main thread never blocks. -/
theorem chat_enabled (h : Waiting moved msg s) :
    ∃ a, a.ofChat = true ∧ ((session moved ndebug echo).step s a).isSome = true := by
  obtain ⟨⟨tr,hcoupled,_⟩,hcall,hpending⟩ := h
  have hengaged := run_engaged hcoupled.run
  cases hpc : s.chat with
  | spin req =>
    rw [hpc] at hcall
    have hidle := hengaged.idle hcall
    refine ⟨.chat,rfl,?_⟩
    simp [session,Session.step,chatStep,hpc,State.onClient,Client.step,hcall,ChatPc.call,
      Client.State.onQueue,SpscQueue.queue,SpscQueue.step,hidle]
  | spinning req =>
    rw [hpc] at hcall
    by_cases hidle : s.client.queue.pop = .idle
    · refine ⟨.chat,rfl,?_⟩
      simp [session,Session.step,chatStep,hpc,State.onClient,Client.step,hcall,ChatPc.call,
        Client.State.onQueue,SpscQueue.queue,SpscQueue.step,hidle]
    · obtain ⟨l,_,hrel⟩ := SpscQueue.run_refines (run_queue hcoupled.run)
      obtain ⟨q,fs,hq⟩ := hrel.pop_enabled hidle
      refine ⟨.consumer s.client.queue.tail.newest,rfl,?_⟩
      simp only [session,Session.step,hpc,State.onClient,Client.step,Client.State.onQueue]
      rw [hq]
      rfl
  | record req response =>
    refine ⟨.chat,rfl,?_⟩
    cases hbench : req.bench with
    | none => simp [session,Session.step,chatStep,hpc,hbench]
    | some ib => simp [session,Session.step,chatStep,hpc,hbench]
  | _ =>
    rw [hpc] at hpending
    cases hpending

/-- Until the message is in the queue, the receiver thread or the server can go on. -/
theorem away_enabled (h : Waiting moved msg s) (hleft : s.client.receiver.left = false)
    (hnot : ¬s.Arrived) : ∃ a, a.ofChat = false ∧ a ≠ .readError ∧
      ((session moved ndebug echo).step s a).isSome = true := by
  obtain ⟨⟨tr,hcoupled,_⟩,_,_⟩ := h
  obtain ⟨hawaited,hqueued⟩ := not_or.mp hnot
  have hclient {b : Client.Action} {c : Client.State} {ces : List Client.Event}
      (hc : (Client.client moved).step s.client b = some (c,ces)) :
      (s.onClient moved b fun _ => s.chat).isSome = true := by
    simp only [State.onClient,Option.isSome_map]
    exact Option.isSome_of_eq_some hc
  by_cases hread : s.client.receiver = .read
  · -- the message is not with the client, so it is on the wire
    have hflight : s.inFlight ≠ [] := by
      rw [hcoupled.inFlight_eq]
      intro hnil
      exact hawaited (Option.toList_eq_nil_iff.mp hnil)
    cases hto : s.wire.toClient with
    | cons m rest =>
      refine ⟨.read,rfl,by simp,?_⟩
      simp [session,Session.step,hto,State.onClient,Client.step,hread]
    | nil =>
      refine ⟨.server (),rfl,by simp,?_⟩
      simp only [session,Session.step,Option.isSome_map,echo]
      cases hserver : s.server with
      | some m => simp [echoStep]
      | none =>
        cases hsent : s.wire.toServer with
        | cons m rest => simp [echoStep,hsent]
        | nil =>
          have hheld : s.client.held = [] := by simp [Client.State.held,hread]
          simp [State.inFlight,not_not.mp hqueued,hheld,hto,hserver,hsent] at hflight
  · rcases receiver_enabled hcoupled.run hleft hread with ⟨c,ces,hc⟩ | ⟨obs,c,ces,hc⟩
    · exact ⟨.receiver,rfl,by simp,hclient hc⟩
    · exact ⟨.producer obs,rfl,by simp,hclient hc⟩

/-- The receiver thread and the server bring the message nearer to the queue, and the receiver
stays in its loop. -/
theorem away_step (h : Waiting moved msg s) (hleft : s.client.receiver.left = false)
    (ha : a ≠ .readError) (hs : (session moved ndebug echo).step s a = some (s',es)) :
    .response msg ∈ es ∨ s'.client.receiver.left = false ∧
      s'.away+(!a.ofChat).toNat ≤ s.away := by
  obtain ⟨tr,hcoupled,htracked⟩ := h.coupled
  have hpending := h.pending_ne
  have hrunning : s.client.running = true := by
    by_contra hne
    rcases htracked.running (Bool.eq_false_of_not_eq_true hne) with hexited | hclosing
    · rw [hexited] at hleft
      cases hleft
    · cases hpc : s.chat <;> simp [hpc,ChatPc.pending,ChatPc.closing] at hpending hclosing
  cases step_transition hs with
  | chat hg | line hg => exact absurd hg.pending h.pending_ne
  | write hpc => exact absurd (by rw [hpc]; rfl) h.pending_ne
  | note _ _ _ _ hidle => exact .inl (h.noted hs hidle.1)
  | call hpc hc =>
    obtain ⟨hread,hreceiver⟩ := call_toRead hpc hc
    refine .inr ⟨by rwa [hreceiver],?_⟩
    simp only [State.away,hread]
    exact Nat.le_refl _
  | pop hpc hc =>
    obtain ⟨hread,hreceiver,_,_⟩ := consumer_toRead hc
    refine .inr ⟨by rwa [hreceiver],?_⟩
    simp only [State.away,hread]
    exact Nat.le_refl _
  | receiver hc =>
    refine .inr ⟨(receiving_step hc hrunning hleft (by simp) (by simp)).2,?_⟩
    have hlt := (receiver_toRead hc hleft).1
    simp only [State.away,Action.ofChat,Bool.not_false,Bool.toNat_true]
    omega
  | producer hc =>
    refine .inr ⟨(receiving_step hc hrunning hleft (by simp) (by simp)).2,?_⟩
    have hlt := (producer_toRead hc).1
    simp only [State.away,Action.ofChat,Bool.not_false,Bool.toNat_true]
    omega
  | readError => exact absurd rfl ha
  | read hwire hc =>
    refine .inr ⟨(receiving_step hc hrunning hleft (by simp) (by simp)).2,?_⟩
    cases Client.step_transition hc with
    | read hpc =>
      simp only [State.away,Wire.left,Client.State.toRead,hpc,hwire,List.length_cons,
        Action.ofChat,Bool.not_false,Bool.toNat_true]
      omega
  | @server _ w held _ hb =>
    refine .inr ⟨hleft,?_⟩
    have hlt : Wire.left w held < Wire.left s.wire s.server := server_left hb
    simp only [State.away,Action.ofChat,Bool.not_false,Bool.toNat_true]
    omega

/-- What is queued stays there until it is delivered. -/
theorem queued_frame (h : Waiting moved msg s) {b : Client.Action} {c : Client.State}
    {ces : List Client.Event} (hc : (Client.client moved).step s.client b = some (c,ces))
    (hd : delivered ces = []) (hqueued : s.client.queued ≠ []) : c.queued ≠ [] := by
  obtain ⟨tr,hcoupled,_⟩ := h.coupled
  intro hnil
  have hstep := queued_step hcoupled.run hc
  rw [hd,hnil,List.append_nil] at hstep
  exact hqueued (List.append_eq_nil_iff.mp hstep).1

/-- Once the message is in the queue, each step of the main thread brings it nearer to its note of
the response. -/
theorem note_step (h : Waiting moved msg s) (harrived : s.Arrived)
    (hs : (session moved ndebug echo).step s a = some (s',es)) :
    .response msg ∈ es ∨ s'.Arrived ∧
      s'.chat.toNote s'.client.queue.pop.left+a.ofChat.toNat ≤
        s.chat.toNote s.client.queue.pop.left := by
  obtain ⟨tr,hcoupled,_⟩ := h.coupled
  have hothers {b : Client.Action} {c : Client.State} {ces : List Client.Event}
      (hb : b.ofReceiver = true) (hc : (Client.client moved).step s.client b = some (c,ces))
      (hd : delivered ces = []) (hclient : s'.client = c) (hchat : s'.chat = s.chat) : s'.Arrived ∧
        s'.chat.toNote s'.client.queue.pop.left ≤ s.chat.toNote s.client.queue.pop.left := by
    rw [State.Arrived,hchat,hclient,(receiver_frame hb hc).2]
    exact ⟨harrived.imp_right (h.queued_frame hc hd),Nat.le_refl _⟩
  cases step_transition hs with
  | chat hg | line hg => exact absurd hg.pending h.pending_ne
  | write hpc => exact absurd (by rw [hpc]; rfl) h.pending_ne
  | note _ _ _ _ hidle => exact .inl (h.noted hs hidle.1)
  | call hpc hc =>
    exact .inr ⟨harrived.imp hpc.awaited.trans (h.queued_frame hc rfl),
      hpc.toNote h.pending_ne hc⟩
  | @pop _ ces _ _ hpc hc =>
    have hqueued := harrived.resolve_left (hpc.awaits h.pending_ne)
    have hfound : .queue .popEmpty ∉ ces := fun hm => hqueued (run_empty hcoupled.run hc hm)
    refine .inr ⟨?_,hpc.toNote h.pending_ne hc hfound⟩
    by_cases hd : delivered ces = []
    · exact .inr (h.queued_frame hc hd hqueued)
    · exact .inl (hpc.taken hd)
  | receiver hc => exact .inr (hothers rfl hc rfl rfl rfl)
  | producer hc =>
    have hd := (step_producer (run_account hcoupled.run) hc).2
    exact .inr (hothers rfl hc hd rfl rfl)
  | read _ hc => exact .inr (hothers rfl hc rfl rfl rfl)
  | readError hc => exact .inr (hothers rfl hc rfl rfl rfl)
  | server _ => exact .inr ⟨harrived,Nat.le_refl _⟩

/-- With one message under way there is little to do for it. -/
theorem away_le (h : Waiting moved msg s) : s.away ≤ 13 := by
  obtain ⟨tr,hcoupled,_⟩ := h.coupled
  have hlength := hcoupled.inFlight_le
  have hread : s.client.toRead ≤ 2+6*s.client.held.length := by
    have hleft := s.client.queue.push.left_le
    cases hpc : s.client.receiver <;>
      simp only [Client.State.toRead,Client.State.held,hpc,List.length_cons,List.length_nil] <;>
      omega
  simp only [State.inFlight,List.length_append] at hlength
  simp only [State.away,Wire.left]
  omega

theorem toNote_bounds (h : Waiting moved msg s) :
    0 < s.chat.toNote s.client.queue.pop.left ∧ s.chat.toNote s.client.queue.pop.left ≤ 6 := by
  have hleft := s.client.queue.pop.left_le
  have hpending := h.pending
  cases hpc : s.chat with
  | spin req | record req response => simp [ChatPc.toNote]
  | spinning req =>
    simp only [ChatPc.toNote]
    split_ifs <;> omega
  | _ =>
    rw [hpc] at hpending
    cases hpending

variable {l : List (Action Unit)} {fs : List Event}

theorem run (h : Waiting moved msg s)
    (he : (session moved ndebug echo).execWhere (fun _ _ => True) s l = some (s',fs)) :
    .response msg ∈ fs ∨ Waiting moved msg s' := by
  have hrule := System.exec_answers (I := fun _ s => Waiting moved msg s) (fun _ => 0)
    (fun _ => false) (fun _ => false) 0 (fun e => e = .response msg)
    (fun _ _ _ _ _ hi _ hs => (hi.step hs).imp (fun hmem => ⟨_,hmem,rfl⟩)
      fun hnext => ⟨hnext,Nat.le_refl _⟩) h he
  rcases hrule with ⟨_,hmem,rfl⟩ | ⟨hnext,_⟩
  · exact .inl hmem
  · exact .inr hnext

/-- How often the main thread moves when the message is in the queue. -/
theorem note_run (h : Waiting moved msg s) (harrived : s.Arrived)
    (he : (session moved ndebug echo).execWhere (fun _ _ => True) s l = some (s',fs)) :
    .response msg ∈ fs ∨ l.countP Action.ofChat ≤ 5 := by
  have hrule := System.exec_answers (I := fun _ s => Waiting moved msg s ∧ s.Arrived)
    (fun s => s.chat.toNote s.client.queue.pop.left) Action.ofChat (fun _ => false) 0
    (fun e => e = .response msg) (fun _ _ _ _ _ hi _ hs => by
      rcases hi.1.step hs with hmem | hnext
      · exact .inl ⟨_,hmem,rfl⟩
      · rcases hi.1.note_step hi.2 hs with hmem | ⟨harrived,hle⟩
        · exact .inl ⟨_,hmem,rfl⟩
        · exact .inr ⟨⟨hnext,harrived⟩,by rwa [Nat.zero_mul]⟩) ⟨h,harrived⟩ he
  rcases hrule with ⟨_,hmem,rfl⟩ | ⟨⟨hnext,_⟩,hle⟩
  · exact .inl hmem
  · have hbefore := h.toNote_bounds
    have hafter := hnext.toNote_bounds
    exact .inr (by omega)

/-- How often the receiver thread and the server move while the connection holds. -/
theorem away_run (h : Waiting moved msg s) (hleft : s.client.receiver.left = false)
    (herror : .readError ∉ l)
    (he : (session moved ndebug echo).execWhere (fun _ _ => True) s l = some (s',fs)) :
    .response msg ∈ fs ∨ s'.client.receiver.left = false ∧
      l.countP (fun a => !a.ofChat) ≤ 13 := by
  have hrule := System.exec_answers
    (I := fun l s => Waiting moved msg s ∧ s.client.receiver.left = false ∧ .readError ∉ l)
    State.away (fun a => !a.ofChat) (fun _ => false) 0 (fun e => e = .response msg)
    (fun _ _ _ _ _ hi _ hs => by
      obtain ⟨hwaiting,hleft,herror⟩ := hi
      obtain ⟨hne,herror⟩ := not_or.mp (mt List.mem_cons.mpr herror)
      rcases hwaiting.step hs with hmem | hnext
      · exact .inl ⟨_,hmem,rfl⟩
      · rcases hwaiting.away_step hleft (Ne.symm hne) hs with hmem | ⟨hleft,hle⟩
        · exact .inl ⟨_,hmem,rfl⟩
        · exact .inr ⟨⟨hnext,hleft,herror⟩,by rwa [Nat.zero_mul]⟩) ⟨h,hleft,herror⟩ he
  rcases hrule with ⟨_,hmem,rfl⟩ | ⟨⟨_,hleft,_⟩,hle⟩
  · exact .inl hmem
  · have hbefore := h.away_le
    exact .inr ⟨hleft,by omega⟩

end Waiting

theorem run_waiting {storage : ℕ} {m : ByteMem} {tr : List Event} {s : State (Option Message)}
    {msg : Message} (h : (session moved ndebug echo).Run (init none storage m) tr s)
    (hpending : s.chat.pending = some msg) : Waiting moved msg s where
  coupled := ⟨tr,run_coupled h,h.invariant (I := Tracked moved) tracked_init
    fun _ _ _ _ _ hi _ hs => hi.step (a := .session _) hs⟩
  call := h.invariant (I := fun _ s => s.client.consumer = s.chat.call) rfl
    fun _ _ _ _ _ hi _ hs => call_step hs hi
  pending := hpending

/-- A request that has been sent is answered, with its own echo. Until then the main thread never
blocks; while the connection holds, the receiver thread and the server have at most thirteen steps
to take, and one of them can be taken as long as the echo is not in the queue; and once it is there,
the main thread has noted it with its sixth step at the latest. -/
theorem spin_returns (moved : Message → Message) (ndebug : Bool) (storage : ℕ) (m : ByteMem)
    {tr : List Event} {s : State (Option Message)} {msg : Message}
    (h : (session moved ndebug echo).Run (init none storage m) tr s)
    (hpending : s.chat.pending = some msg) {l : List (Action Unit)} {s' : State (Option Message)}
    {fs : List Event}
    (he : (session moved ndebug echo).execWhere (fun _ _ => True) s l = some (s',fs)) :
    .response msg ∈ fs ∨
      (∃ a, a.ofChat = true ∧ ((session moved ndebug echo).step s' a).isSome = true) ∧
      (s.Arrived → l.countP Action.ofChat ≤ 5) ∧
      (s.client.receiver.left = false → .readError ∉ l →
        l.countP (fun a => !a.ofChat) ≤ 13 ∧
        (s'.Arrived ∨ ∃ a, a.ofChat = false ∧ a ≠ .readError ∧
          ((session moved ndebug echo).step s' a).isSome = true)) := by
  have hwaiting : Waiting moved msg s := run_waiting h hpending
  by_cases hanswer : .response msg ∈ fs
  · exact .inl hanswer
  have hwaiting' := (hwaiting.run he).resolve_left hanswer
  refine .inr ⟨hwaiting'.chat_enabled,fun harrived => ?_,fun hleft herror => ?_⟩
  · exact (hwaiting.note_run harrived he).resolve_left hanswer
  · obtain ⟨hleft',hle⟩ := (hwaiting.away_run hleft herror he).resolve_left hanswer
    refine ⟨hle,?_⟩
    by_cases harrived : s'.Arrived
    · exact .inl harrived
    · exact .inr (hwaiting'.away_enabled hleft' harrived)

/-- The first poll after the message `hi` finds the queue empty. -/
theorem spin_returns_polling :
    ∃ tr s, (session id true echo).Run (init none 4096 fun _ => 0) tr s ∧
      s.chat.spins = true ∧ s.client.queued = [] ∧
      ∀ l s' fs, (session id true echo).execWhere (fun _ _ => True) s l = some (s',fs) →
        .readError ∉ l → .response ⟨[104,105],true⟩ ∈ fs ∨
          l.countP (fun a => !a.ofChat) ≤ 13 ∧ (s'.Arrived ∨ ∃ a, a.ofChat = false ∧
            a ≠ .readError ∧ ((session id true echo).step s' a).isSome = true) := by
  have hexec : ((session id true echo).execWhere (fun _ _ => True) (init none 4096 fun _ => 0)
      (System.schedule [(100,[.chat,.consumer 0,.consumer 0]),(2,[.chat]),
        (1,[.line (some (bytes "text")),.line (some [104,105])]),(3,[.chat]),
        (1,[.consumer 0,.consumer 0])])).any
      (fun r => decide (r.1.chat.spins = true ∧ r.1.client.queued = [] ∧
        r.1.chat.pending = some ⟨[104,105],true⟩ ∧ r.1.client.receiver.left = false)) = true := by
    decide +kernel
  obtain ⟨s,tr,hrun,hs⟩ := System.exists_run_of_exec hexec
  obtain ⟨hspins,hqueued,hpending,hleft⟩ : s.chat.spins = true ∧ s.client.queued = [] ∧
    s.chat.pending = some ⟨[104,105],true⟩ ∧ s.client.receiver.left = false :=
      of_decide_eq_true hs
  refine ⟨tr,s,hrun,hspins,hqueued,fun l s' fs he herror => ?_⟩
  exact (spin_returns id true 4096 _ hrun hpending he).imp_right fun hrest =>
    hrest.2.2 hleft herror

end WsClient.Session
