import WsClient.Client.Accounting
import WsClient.Session.Model

/-!
# The threads of a session

What one step of a session can do, said once: the main thread outside an exchange, its calls on
the client, the two ends of an exchange, the `try_pop` it is in, the receiver thread, the server.
-/

namespace WsClient.Session
open WsClient.Lib WsClient.Client

variable {ρ β : Type*} {moved : Message → Message} {ndebug : Bool}
  {server : System (Wire × ρ) β Empty}

theorem filterMap_client (ces : List Client.Event) :
    (ces.map Event.client).filterMap Event.client? = ces := by
  rw [List.filterMap_map]
  exact List.filterMap_some

/-- The echo server moves messages along the wire, in order. -/
theorem echo_order {w w' : Wire} {held held' : Option Message} {fs : List Empty}
    (h : echoStep (w,held) () = some ((w',held'),fs)) :
    w'.toClient++held'.toList++w'.toServer = w.toClient++held.toList++w.toServer := by
  cases held with
  | some m =>
    simp only [echoStep,Option.some.injEq,Prod.mk.injEq] at h
    obtain ⟨⟨rfl,rfl⟩,_⟩ := h
    simp only [Option.toList,List.append_assoc,List.nil_append]
  | none =>
    cases hto : w.toServer with
    | nil => simp [echoStep,hto] at h
    | cons m rest =>
      simp only [echoStep,hto,Option.some.injEq,Prod.mk.injEq] at h
      obtain ⟨⟨rfl,rfl⟩,_⟩ := h
      simp only [Option.toList,List.append_assoc,List.nil_append,List.cons_append]

/-- What the messages on the wire are away from the receiver thread. -/
def Wire.left (wire : Wire) (server : Option Message) : ℕ :=
  9*wire.toClient.length+10*server.toList.length+11*wire.toServer.length

/-- The server passes a message on. -/
theorem server_left {wire wire' : Wire} {held held' : Option Message} {fs : List Empty}
    (h : echoStep (wire,held) () = some ((wire',held'),fs)) :
    Wire.left wire' held' < Wire.left wire held := by
  cases held with
  | some m =>
    simp only [echoStep,Option.some.injEq,Prod.mk.injEq] at h
    obtain ⟨⟨rfl,rfl⟩,_⟩ := h
    simp [Wire.left]
    omega
  | none =>
    cases hto : wire.toServer with
    | nil => simp [echoStep,hto] at h
    | cons m rest =>
      simp only [echoStep,hto,Option.some.injEq,Prod.mk.injEq] at h
      obtain ⟨⟨rfl,rfl⟩,_⟩ := h
      simp [Wire.left,hto]
      omega

theorem State.onClient_some {s s' : State ρ} {a : Client.Action}
    {next : List Client.Event → ChatPc} {es : List Event}
    (h : s.onClient moved a next = some (s',es)) :
    ∃ c ces, (Client.client moved).step s.client a = some (c,ces) ∧ es = ces.map .client ∧
      s' = { s with client := c, chat := next ces } := by
  obtain ⟨⟨c,ces⟩,hc,he⟩ := Option.map_eq_some_iff.mp h
  cases he
  exact ⟨c,ces,hc,rfl,rfl⟩

theorem State.onPool_some {s s' : State ρ} {a : MemoryPool.Action}
    {next : List MemoryPool.Event → ChatPc} {es : List Event}
    (h : s.onPool ndebug a next = some (s',es)) :
    ∃ pool pes, es = [] ∧ s' = { s with pool := pool, chat := next pes } := by
  obtain ⟨⟨pool,pes⟩,_,he⟩ := Option.map_eq_some_iff.mp h
  cases he
  exact ⟨pool,pes,rfl,rfl⟩

namespace ChatPc

/-- The request whose response `chat_session` has yet to take note of. -/
def pending : ChatPc → Option Message
  | .spin req => some req.msg
  | .spinning req => some req.msg
  | .record req _ => some req.msg
  | _ => none

/-- The request whose echo is yet to be delivered. -/
def awaited : ChatPc → Option Message
  | .spin req => some req.msg
  | .spinning req => some req.msg
  | _ => none

/-- Before `ws_.write`, with `spin_receive` to follow. -/
def writes : ChatPc → Bool
  | .write _ => true
  | _ => false

/-- Inside `spin_receive`. -/
def spins : ChatPc → Bool
  | .spin _ | .spinning _ => true
  | _ => false

/-- `close` has stored `false` into `running_`. -/
def closing : ChatPc → Bool
  | .closeStream | .closeJoin | .returned => true
  | _ => false

/-- What `chat_session` relies on where it stands: the kind it has set, the answer it got. -/
def Ready (text : Bool) : ChatPc → Prop
  | .write req => text = req.msg.isText
  | .record req response => response = req.msg
  | _ => True

/-- Outside an exchange. -/
def Idle (text : Bool) (pc : ChatPc) : Prop := pc.pending = none ∧ pc.Ready text

/-- The calls on the client, and where each leaves `chat_session`. -/
inductive Calls : ChatPc → Client.Action → ChatPc → Prop
  | greeting {i} : Calls (.greeting i) .tryReceive (.greetingTry i)
  | spin {req} : Calls (.spin req) .spinReceive (.spinning req)
  | spinning {req} : Calls (.spinning req) .spin (.spinning req)
  | close : Calls .closeStore .close .closeStream

/-- The `try_pop` that `chat_session` is in, and where each of its answers leaves it. -/
inductive Pops : ChatPc → List Client.Event → ChatPc → Prop
  | greetingTry {i} : Pops (.greetingTry i) [] (.greetingTry i)
  | greetingEmpty {i} : Pops (.greetingTry i) [.queue .popEmpty] (.greeting (i+1))
  | greet {i slot msg} : Pops (.greetingTry i) [.queue (.popped slot msg)] .isRunning
  | spinning {req} : Pops (.spinning req) [] (.spinning req)
  | spinningEmpty {req} : Pops (.spinning req) [.queue .popEmpty] (.spinning req)
  | take {req slot msg} : Pops (.spinning req) [.queue (.popped slot msg)] (.record req msg)

variable {pc pc' : ChatPc} {b : Client.Action} {ces : List Client.Event}

theorem awaited_eq_none (h : pc.pending = none) : pc.awaited = none := by
  cases pc <;> first | rfl | cases h

theorem spins_eq (pc : ChatPc) : pc.spins = pc.awaited.isSome := by
  cases pc <;> rfl

theorem command_idle (text : Bool) (input : List UInt8) : (command input).Idle text := by
  unfold command
  repeat' refine iteInduction (motive := Idle text) (fun _ => ?_) fun _ => ?_
  all_goals exact ⟨rfl,trivial⟩

namespace Calls

theorem silent (h : Calls pc b pc') : b.silent = true := by
  cases h <;> rfl

theorem ne_readError (h : Calls pc b pc') : b ≠ .readError := by
  cases h <;> simp

theorem awaited (h : Calls pc b pc') : pc'.awaited = pc.awaited := by
  cases h <;> rfl

theorem pending (h : Calls pc b pc') : pc'.pending = pc.pending := by
  cases h <;> rfl

theorem ready (h : Calls pc b pc') (text : Bool) : pc'.Ready text := by
  cases h <;> trivial

theorem opened (h : Calls pc b pc') : pc.closing = false := by
  cases h <;> rfl

theorem closes (h : Calls pc b pc') (hb : b = .close) : pc'.closing = true := by
  cases h <;> first | rfl | cases hb

end Calls

namespace Pops

theorem opened (h : Pops pc ces pc') : pc.closing = false := by
  cases h <;> rfl

/-- Without a message the exchange is where it was. -/
theorem quiet (h : Pops pc ces pc') (hd : delivered ces = []) :
    pc'.awaited = pc.awaited ∧ pc'.pending = pc.pending := by
  cases h <;> first | exact ⟨rfl,rfl⟩ | cases hd

theorem keeps (h : Pops pc ces pc') (hd : delivered ces = []) (text : Bool) :
    readMessages ces = [] ∧ pc'.Ready text := by
  cases h <;> first | exact ⟨rfl,trivial⟩ | cases hd

end Pops

end ChatPc

/-- The main thread goes on outside an exchange. -/
structure GoesOn (s s' : State ρ) : Prop where
  client : s'.client = s.client
  wire : s'.wire = s.wire
  server : s'.server = s.server
  pending : s.chat.pending = none
  idle : s'.chat.Idle s'.text
  closing : s.chat.closing = true → s'.chat.closing = true
  live : s.chat ≠ .returned

/-- A step of a session by kind. -/
inductive Transition (moved : Message → Message) (server : System (Wire × ρ) β Empty)
    (s : State ρ) : Action β → List Event → State ρ → Prop
  | chat {s'} : GoesOn s s' → Transition moved server s .chat [] s'
  | line {input s'} : GoesOn s s' → Transition moved server s (.line input) [] s'
  | call {b pc' c} : s.chat.Calls b pc' → (client moved).step s.client b = some (c,[]) →
      Transition moved server s .chat [] { s with client := c, chat := pc' }
  | write {req} : s.chat = .write req → Transition moved server s .chat [.request req.msg] { s with
      wire.toServer := s.wire.toServer++[⟨req.msg.payload,s.text⟩], chat := .spin req }
  | note {req response s'} : s.chat = .record req response → s'.client = s.client →
      s'.wire = s.wire → s'.server = s.server → s'.chat.Idle s'.text →
      Transition moved server s .chat [.response response] s'
  | pop {obs ces pc' c} : s.chat.Pops ces pc' →
      (client moved).step s.client (.consumer obs) = some (c,ces) →
      Transition moved server s (.consumer obs) (ces.map .client)
        { s with client := c, chat := pc' }
  | receiver {c} : (client moved).step s.client .receiver = some (c,[]) →
      Transition moved server s .receiver [] { s with client := c }
  | readError {c} : (client moved).step s.client .readError = some (c,[]) →
      Transition moved server s .readError [] { s with client := c }
  | producer {obs c ces} : (client moved).step s.client (.producer obs) = some (c,ces) →
      Transition moved server s (.producer obs) (ces.map .client) { s with client := c }
  | read {msg rest c} : s.wire.toClient = msg :: rest →
      (client moved).step s.client (.read msg.payload msg.isText) = some (c,[.read msg]) →
      Transition moved server s .read [.client (.read msg)]
        { s with client := c, wire.toClient := rest }
  | server {b w srv fs} : server.step (s.wire,s.server) b = some ((w,srv),fs) →
      Transition moved server s (.server b) [] { s with wire := w, server := srv }

variable {s s' : State ρ} {es : List Event} {a : Action β}

theorem Transition.of_call {b : Client.Action} {pc' : ChatPc} (hpc : s.chat.Calls b pc')
    (hs : s.onClient moved b (fun _ => pc') = some (s',es)) :
    Transition moved server s .chat es s' := by
  obtain ⟨c,ces,hc,rfl,rfl⟩ := State.onClient_some hs
  obtain rfl := step_silent hc hpc.silent
  exact .call hpc hc

theorem Transition.of_pop {obs : ℕ} (hpc : (∃ i, s.chat = .greetingTry i) ∨
      ∃ req, s.chat = .spinning req)
    (hs : s.onClient moved (.consumer obs) s.chat.after = some (s',es)) :
    Transition moved server s (.consumer obs) es s' := by
  obtain ⟨c,ces,hc,rfl,rfl⟩ := State.onClient_some hs
  refine .pop ?_ hc
  rcases hpc with ⟨i,hi⟩ | ⟨req,hreq⟩
  · rw [hi]
    rcases step_consumer hc with rfl | ⟨slot,msg,rfl⟩ | rfl
    · exact .greetingTry
    · exact .greet
    · exact .greetingEmpty
  · rw [hreq]
    rcases step_consumer hc with rfl | ⟨slot,msg,rfl⟩ | rfl
    · exact .spinning
    · exact .take
    · exact .spinningEmpty

/-- A call on the pool, from outside an exchange. -/
theorem Transition.of_pool {b : MemoryPool.Action} {next : List MemoryPool.Event → ChatPc}
    (hs : s.onPool ndebug b next = some (s',es)) (hpending : s.chat.pending = none)
    (hclosing : s.chat.closing = false) (hnext : ∀ pes, (next pes).Idle s.text) :
    Transition moved server s .chat es s' := by
  obtain ⟨pool,pes,rfl,rfl⟩ := State.onPool_some hs
  refine .chat ⟨rfl,rfl,rfl,hpending,hnext pes,fun h => ?_,fun h => ?_⟩
  · rw [hclosing] at h
    cases h
  · rw [h] at hclosing
    cases hclosing

theorem chat_transition (hs : chatStep moved ndebug s = some (s',es)) :
    Transition moved server s .chat es s' := by
  obtain ⟨client,text,closed,wire,srv,pc,pool,stats,benchStats⟩ := s
  cases pc with
  | greeting i =>
    simp only [chatStep] at hs
    split at hs
    · exact .of_call .greeting hs
    · cases hs
      exact .chat ⟨rfl,rfl,rfl,rfl,⟨rfl,trivial⟩,id,by simp⟩
  | isRunning =>
    cases hs
    cases hrunning : client.running with
    | true => exact .chat ⟨rfl,rfl,rfl,rfl,⟨rfl,trivial⟩,id,by simp⟩
    | false => exact .chat ⟨rfl,rfl,rfl,rfl,⟨rfl,trivial⟩,id,by simp⟩
  | bench i =>
    simp only [chatStep] at hs
    split at hs
    · refine .of_pool hs rfl rfl fun pes => ?_
      split
      · split <;> exact ⟨rfl,trivial⟩
      · exact ⟨rfl,trivial⟩
    · cases hs
      exact .chat ⟨rfl,rfl,rfl,rfl,⟨rfl,trivial⟩,id,by simp⟩
  | benchCopy i buf off =>
    simp only [chatStep] at hs
    split at hs
    · exact .of_pool hs rfl rfl fun _ => ⟨rfl,trivial⟩
    · cases hs
      exact .chat ⟨rfl,rfl,rfl,rfl,⟨rfl,trivial⟩,id,by simp⟩
  | setKind req =>
    cases hs
    exact .chat ⟨rfl,rfl,rfl,rfl,⟨rfl,rfl⟩,id,by simp⟩
  | write req =>
    cases hs
    exact .write rfl
  | spin req => exact .of_call .spin hs
  | spinning req => exact .of_call .spinning hs
  | record req response =>
    simp only [chatStep] at hs
    split at hs <;> cases hs
    all_goals exact .note rfl rfl rfl rfl ⟨rfl,trivial⟩
  | benchFree i buf =>
    simp only [chatStep] at hs
    exact .of_pool hs rfl rfl fun _ => ⟨rfl,trivial⟩
  | closeStore => exact .of_call .close hs
  | closeStream =>
    cases hs
    exact .chat ⟨rfl,rfl,rfl,rfl,⟨rfl,trivial⟩,id,by simp⟩
  | closeJoin =>
    simp only [chatStep] at hs
    split at hs <;> cases hs
    exact .chat ⟨rfl,rfl,rfl,rfl,⟨rfl,trivial⟩,id,by simp⟩
  | greetingTry i => cases hs
  | prompt => cases hs
  | message text => cases hs
  | returned => cases hs

theorem step_transition (hs : (session moved ndebug server).step s a = some (s',es)) :
    Transition moved server s a es s' := by
  cases a with
  | chat => exact chat_transition hs
  | line input =>
    obtain ⟨client,text,closed,wire,srv,pc,pool,stats,benchStats⟩ := s
    simp only [session,Session.step] at hs
    split at hs
    · cases hs
      exact .line ⟨rfl,rfl,rfl,rfl,ChatPc.command_idle _ _,by simp [ChatPc.closing],by simp⟩
    all_goals cases hs
    all_goals exact .line ⟨rfl,rfl,rfl,rfl,⟨rfl,trivial⟩,id,by simp⟩
  | consumer obs =>
    simp only [session,Session.step] at hs
    split at hs
    · next i hpc => exact .of_pop (.inl ⟨i,hpc⟩) hs
    · next req hpc => exact .of_pop (.inr ⟨req,hpc⟩) hs
    · cases hs
  | receiver =>
    simp only [session,Session.step] at hs
    obtain ⟨c,ces,hc,rfl,rfl⟩ := State.onClient_some hs
    obtain rfl := step_silent hc rfl
    exact .receiver hc
  | readError =>
    simp only [session,Session.step] at hs
    obtain ⟨c,ces,hc,rfl,rfl⟩ := State.onClient_some hs
    obtain rfl := step_silent hc rfl
    exact .readError hc
  | producer obs =>
    simp only [session,Session.step] at hs
    obtain ⟨c,ces,hc,rfl,rfl⟩ := State.onClient_some hs
    exact .producer hc
  | read =>
    simp only [session,Session.step] at hs
    split at hs
    · cases hs
    · next msg rest hwire =>
      obtain ⟨⟨s₁,es₁⟩,h₁,he⟩ := Option.map_eq_some_iff.mp hs
      obtain ⟨c,ces,hc,rfl,rfl⟩ := State.onClient_some h₁
      obtain rfl := step_read hc
      cases he
      exact .read hwire hc
  | server b =>
    obtain ⟨⟨⟨w,srv⟩,fs⟩,hb,he⟩ := Option.map_eq_some_iff.mp hs
    cases he
    exact .server hb

end WsClient.Session
