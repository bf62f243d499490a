import WsClient.Session.Pairing

/-!
# A session as one pipeline

Wire, echo server, receiver and queue make one pipeline of messages: `send_text` and
`send_binary` put a message in at the back, `try_receive` and `spin_receive` take one out at the
front. Every step of a session is one of a few moves on the pipeline and on the main thread's
wait.
-/

namespace WsClient.Session
open WsClient.Lib WsClient.Client

/-- The main thread outside an exchange, waiting for an answer, and with the answer. -/
inductive Phase
  | idle
  | waiting
  | answered (response : Message)
  deriving DecidableEq, Repr

def ChatPc.phase : ChatPc → Phase
  | .spin _ | .spinning _ => .waiting
  | .record _ response => .answered response
  | _ => .idle

/-- What a step does to the wait and the pipeline; `text` is the kind the stream writes. -/
inductive Exchange (text : Bool) : Phase → List Message → List Event → Phase → List Message → Prop
  | quiet {p l} {ces : List Client.Event} : Exchange text p l (ces.map .client) p l
  | drop {p msg l l'} {ces : List Client.Event} :
      Exchange text p (msg :: l) (ces.map .client) p (msg :: l')
  | greet {msg l} {ces : List Client.Event} :
      Exchange text .idle (msg :: l) (ces.map .client) .idle l
  | send {msg l} :
      Exchange text .idle l [.request msg] .waiting (l++[⟨msg.payload,text⟩])
  | take {msg l} {ces : List Client.Event} :
      Exchange text .waiting (msg :: l) (ces.map .client) (.answered msg) l
  | note {msg l} : Exchange text (.answered msg) l [.response msg] .idle l

/-- The messages between the client's socket and the server's answer, oldest first. -/
def State.abroad (s : State (Option Message)) : List Message :=
  s.wire.toClient++s.server.toList++s.wire.toServer

/-- A client that can be reached has read, kept and delivered in order. -/
def Sound (moved : Message → Message) (c : Client.State) : Prop :=
  ∃ tr, (Client.client moved).Run Client.init tr c

variable {moved : Message → Message} {ndebug : Bool} {s s' : State (Option Message)}
  {es : List Event} {c : Client.State} {ces : List Client.Event}

theorem inFlight_eq (s : State (Option Message)) :
    s.inFlight = s.client.queued++s.client.held++s.abroad := by
  simp only [State.inFlight,State.abroad,List.append_assoc]

theorem Sound.step {c' : Client.State} {b : Client.Action} (h : Sound moved c)
    (hs : (Client.client moved).step c b = some (c',ces)) : Sound moved c' := by
  obtain ⟨tr,hrun⟩ := h
  exact ⟨_,hrun.step trivial hs⟩

/-- A step of the session as a move on the pipeline. -/
def Moves (s : State (Option Message)) (es : List Event) (s' : State (Option Message)) : Prop :=
  Exchange s.text s.chat.phase s.inFlight es s'.chat.phase s'.inFlight

/-- A step that touches neither the client nor the wire. -/
theorem moves_main (hclient : s'.client = s.client) (hwire : s'.abroad = s.abroad)
    (hphase : s'.chat.phase = s.chat.phase) : Moves s [] s' := by
  have hflight : s'.inFlight = s.inFlight := by rw [inFlight_eq,inFlight_eq,hclient,hwire]
  rw [Moves,hflight,hphase]
  exact @Exchange.quiet _ _ _ []

/-- A step of the client that neither reads nor delivers. -/
theorem moves_client {b : Client.Action} (hsound : Sound moved s.client)
    (hs : (Client.client moved).step s.client b = some (s'.client,ces))
    (hread : readMessages ces = []) (hdeliver : delivered ces = [])
    (hwire : s'.abroad = s.abroad) (hphase : s'.chat.phase = s.chat.phase) :
    Moves s (ces.map .client) s' := by
  obtain ⟨tr,hrun⟩ := hsound
  rw [Moves,hphase]
  by_cases hdrop : ∃ msg, Client.Event.queue (.pushFull msg) ∈ ces
  · -- the queue is full, so what comes first stays first
    obtain ⟨msg,hmem⟩ := hdrop
    have hfull := run_refused hrun hs hmem
    obtain rfl := step_refused (run_account hrun) hs hmem
    have hqueued : s.client.queued = s'.client.queued := by
      have hkept : kept [.queue (.pushFull msg)] = [] := rfl
      have hstep := queued_step hrun hs
      rwa [hkept,hdeliver,List.append_nil,List.nil_append] at hstep
    have hheld : s.client.held = msg :: s'.client.held := by
      have hverdict : verdicts [.queue (.pushFull msg)] = [(msg,false)] := rfl
      have hstep := held_step hrun hs
      rw [hread,hverdict,List.append_nil] at hstep
      exact hstep
    have hpos : 0 < s.client.queued.length := by
      rw [hfull]
      decide
    obtain ⟨m,q,hq⟩ := List.exists_cons_of_ne_nil (List.ne_nil_of_length_pos hpos)
    rw [inFlight_eq,inFlight_eq,hwire,← hqueued,hheld,hq]
    exact .drop
  · -- nothing is dropped, so a message only moves along the pipe
    have hpipe := pipe_step hrun hs (by simpa using hdrop)
    have hflight : s'.inFlight = s.inFlight := by
      rw [hread,hdeliver,List.append_nil,List.nil_append] at hpipe
      rw [inFlight_eq,inFlight_eq,hwire,← hpipe]
    rw [hflight]
    exact .quiet

/-- A step of the client that emits nothing. -/
theorem moves_silent {b : Client.Action} (hsound : Sound moved s.client)
    (hs : (Client.client moved).step s.client b = some (s'.client,[]))
    (hwire : s'.abroad = s.abroad) (hphase : s'.chat.phase = s.chat.phase) :
    Moves s [] s' ∧ Sound moved s'.client := by
  have hmoves := moves_client hsound hs rfl rfl hwire hphase
  exact ⟨hmoves,hsound.step hs⟩

theorem ChatPc.phase_idle {pc : ChatPc} (h : pc.pending = none) : pc.phase = .idle := by
  cases pc <;> first | rfl | cases h

theorem ChatPc.Calls.phase {pc pc' : ChatPc} {b : Client.Action} (h : pc.Calls b pc') :
    pc'.phase = pc.phase := by
  cases h <;> rfl

theorem ChatPc.Pops.phase {pc pc' : ChatPc} (h : pc.Pops ces pc') (hd : delivered ces = []) :
    pc'.phase = pc.phase := by
  cases h <;> first | rfl | cases hd

/-- A request goes in at the back. -/
theorem chat_write {req : Request} (hpc : s.chat = .write req)
    (hs : chatStep moved ndebug s = some (s',es)) :
    es = [.request req.msg] ∧ s'.chat = .spin req ∧ s'.client = s.client ∧
      s'.inFlight = s.inFlight++[⟨req.msg.payload,s.text⟩] := by
  simp only [chatStep,hpc,Option.some.injEq,Prod.mk.injEq] at hs
  obtain ⟨rfl,rfl⟩ := hs
  refine ⟨rfl,rfl,rfl,?_⟩
  simp only [State.inFlight,List.append_assoc]

/-- What `try_pop` yields is what comes first. -/
theorem first_of_popped {b : Client.Action} {slot : ℕ} {msg : Message} {c' : Client.State}
    (hsound : Sound moved c)
    (hs : (Client.client moved).step c b = some (c',[.queue (.popped slot msg)])) :
    c.queued++c.held = msg :: (c'.queued++c'.held) := by
  obtain ⟨tr,hrun⟩ := hsound
  have hread : readMessages [.queue (.popped slot msg)] = [] := rfl
  have hdeliver : delivered [.queue (.popped slot msg)] = [msg] := rfl
  have hpipe := pipe_step hrun hs (by simp)
  rw [hread,hdeliver,List.append_nil] at hpipe
  exact hpipe

theorem inFlight_of_first {msg : Message} (hfirst : s.client.queued++s.client.held =
    msg :: (s'.client.queued++s'.client.held)) (hwire : s'.abroad = s.abroad) :
    s.inFlight = msg :: s'.inFlight := by
  rw [inFlight_eq,inFlight_eq,hfirst,hwire,List.cons_append]

/-- A step of the `try_pop` that `chat_session` is in. -/
theorem pop_moves {obs : ℕ} {pc : ChatPc} (hsound : Sound moved s.client)
    (hpc : s.chat.Pops ces pc)
    (hc : (Client.client moved).step s.client (.consumer obs) = some (c,ces)) :
    Moves s (ces.map .client) { s with client := c, chat := pc } := by
  by_cases hd : delivered ces = []
  · exact moves_client hsound hc (hpc.keeps hd true).1 hd rfl (hpc.phase hd)
  · generalize hchat : s.chat = start at hpc
    cases hpc with
    | @greet _ _ msg =>
      have hflight : s.inFlight = msg :: State.inFlight { s with
          client := c, chat := .isRunning } :=
        inFlight_of_first (first_of_popped hsound hc) rfl
      rw [Moves,hflight,hchat]
      exact .greet
    | @take req _ msg =>
      have hflight : s.inFlight = msg :: State.inFlight { s with
          client := c, chat := .record req msg } :=
        inFlight_of_first (first_of_popped hsound hc) rfl
      rw [Moves,hflight,hchat]
      exact .take
    | _ => exact absurd rfl hd

/-- The receiver takes the next message off the wire. -/
theorem read_moves {msg : Message} {rest : List Message} (hsound : Sound moved s.client)
    (hwire : s.wire.toClient = msg :: rest)
    (hc : (Client.client moved).step s.client (.read msg.payload msg.isText) = some (c,ces)) :
    Moves s (ces.map .client) { s with client := c, wire.toClient := rest } := by
  obtain ⟨tr,hrun⟩ := hsound
  obtain rfl := step_read hc
  have hread : readMessages [.read msg] = [msg] := rfl
  have hdeliver : delivered [.read msg] = [] := rfl
  have hpipe := pipe_step hrun hc (by simp)
  rw [hread,hdeliver,List.nil_append] at hpipe
  have hflight : State.inFlight { s with client := c, wire.toClient := rest } = s.inFlight := by
    simp only [State.inFlight]
    rw [← hpipe,hwire]
    simp only [List.append_assoc,List.cons_append,List.nil_append]
  rw [Moves,hflight]
  exact .quiet

theorem echo_abroad {w : Wire} {held : Option Message} {fs : List Empty}
    (hb : echo.step (s.wire,s.server) () = some ((w,held),fs)) :
    State.abroad { s with wire := w, server := held } = s.abroad :=
  echo_order hb

/-- Every step of a session with the echo server is a move on the pipeline. -/
theorem step_moves {a : Action Unit} (hsound : Sound moved s.client)
    (hs : (session moved ndebug echo).step s a = some (s',es)) :
    Moves s es s' ∧ Sound moved s'.client := by
  cases step_transition hs with
  | chat hg | line hg =>
    refine ⟨moves_main hg.client ?_ ?_,by rw [hg.client]; exact hsound⟩
    · rw [State.abroad,State.abroad,hg.wire,hg.server]
    · rw [ChatPc.phase_idle hg.pending,ChatPc.phase_idle hg.idle.1]
  | call hpc hc => exact moves_silent hsound hc rfl hpc.phase
  | write hpc =>
    obtain ⟨_,hspin,hclient,hflight⟩ := chat_write hpc hs
    refine ⟨?_,hsound⟩
    rw [Moves,hpc,hflight]
    exact .send
  | note hpc hclient hwire hserver hidle =>
    have hflight : s'.inFlight = s.inFlight := by
      rw [State.inFlight,State.inFlight,hclient,hwire,hserver]
    refine ⟨?_,by rw [hclient]; exact hsound⟩
    rw [Moves,hpc,hflight,ChatPc.phase_idle hidle.1]
    exact .note
  | pop hpc hc => exact ⟨pop_moves hsound hpc hc,hsound.step hc⟩
  | receiver hc => exact moves_silent hsound hc rfl rfl
  | readError hc => exact moves_silent hsound hc rfl rfl
  | producer hc =>
    obtain ⟨tr,hrun⟩ := hsound
    obtain ⟨hread,hdeliver⟩ := step_producer (run_account hrun) hc
    exact ⟨moves_client ⟨tr,hrun⟩ hc hread hdeliver rfl rfl,_,hrun.step trivial hc⟩
  | read hwire hc => exact ⟨read_moves hsound hwire hc,hsound.step hc⟩
  | server hb => exact ⟨moves_main rfl (echo_abroad hb) rfl,hsound⟩

end WsClient.Session
