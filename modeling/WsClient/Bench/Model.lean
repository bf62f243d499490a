import WsClient.Session.Model

/-!
# `benchmark_throughput`

The main thread sends all messages of the burst and then polls until it has received as many; the
receiver thread is the client's own model, and the server is the echo server at the other end of a
connection that neither loses nor reorders messages.
-/

namespace WsClient.Bench
open WsClient.Lib WsClient.Client WsClient.Session

/-- `"burst_" + std::to_string(i)`, as it is sent. -/
def burstMessage (i : ℕ) : Message := ⟨bytes ("burst_"++toString i),true⟩

/-- The messages of a burst, in the order they are sent. -/
def burst (numMessages : ℤ) : List Message := (List.range numMessages.toNat).map burstMessage

/-- Where the main thread stands in `benchmark_throughput`: `send` and `drain` are the conditions
of its two loops, `write` is inside `send_text` and `popping` inside `try_receive`. -/
inductive BenchPc
  | send (i : ℕ)
  | write (i : ℕ)
  | drain (received : ℕ)
  | popping (received : ℕ)
  | done
  deriving DecidableEq, Repr

/-- The client, the kind of message `ws_` writes, the connection, the message the server holds,
and the main thread. -/
structure State where
  client : Client.State
  text : Bool
  wire : Wire
  server : Option Message
  main : BenchPc

/-- `benchmark_throughput` is called with nothing on the wire. -/
def init (client : Client.State) (text : Bool) : State where
  client := client
  text := text
  wire := ⟨[],[]⟩
  server := none
  main := .send 0

inductive Event
  | client (event : Client.Event)
  | sent (msg : Message)
  deriving DecidableEq, Repr

/-- `main` is the next step of `benchmark_throughput`, `consumer` a step of the `try_pop` it is in;
the others are the receiver thread and the server. -/
inductive Action
  | main
  | consumer (obs : ℕ)
  | receiver
  | producer (obs : ℕ)
  | read
  | server
  deriving DecidableEq, Repr

/-- What follows a step of `try_pop`, which has answered when it emits an event. -/
def BenchPc.after (pc : BenchPc) (es : List Client.Event) : BenchPc :=
  match pc, es.filterMap Client.Event.queue? with
  | .popping received, .popped _ _ :: _ => .drain (received+1)
  | .popping received, .popEmpty :: _ => .drain received
  | pc, _ => pc

variable (moved : Message → Message) (numMessages : ℤ)

/-- A step of the client, after which the main thread stands where its events leave it. -/
def State.onClient (s : State) (a : Client.Action) (next : List Client.Event → BenchPc) :
    Option (State × List Event) :=
  (Client.step moved s.client a).map fun (client,es) =>
    ({ s with client := client, main := next es },es.map .client)

/-- `benchmark_throughput` outside `try_pop`. -/
def mainStep (s : State) : Option (State × List Event) :=
  match s.main with
  | .send i =>
    -- `send_text` sets the kind first and writes in a step of its own
    if i < numMessages then some ({ s with text := true, main := .write i },[])
    else some ({ s with main := .drain 0 },[])
  | .write i =>
    let msg : Message := ⟨(burstMessage i).payload,s.text⟩
    some ({ s with wire.toServer := s.wire.toServer++[msg], main := .send (i+1) },[.sent msg])
  | .drain received =>
    if received < numMessages then s.onClient moved .tryReceive fun _ => .popping received
    else some ({ s with main := .done },[])
  | .popping _ | .done => none

def step (s : State) : Action → Option (State × List Event)
  | .main => mainStep moved numMessages s
  | .consumer obs =>
    match s.main with
    | .popping _ => s.onClient moved (.consumer obs) s.main.after
    | _ => none
  | .receiver => s.onClient moved .receiver fun _ => s.main
  | .producer obs => s.onClient moved (.producer obs) fun _ => s.main
  | .read =>
    match s.wire.toClient with
    | [] => none
    | msg :: rest =>
      -- `ws_.read` returns the oldest message on the wire
      (s.onClient moved (.read msg.payload msg.isText) fun _ => s.main).map fun (s,es) =>
        ({ s with wire.toClient := rest },es)
  | .server =>
    (echoStep (s.wire,s.server) ()).map fun ((wire,server),_) =>
      ({ s with wire := wire, server := server },[])

/-- The benchmark, the receiver thread and the echo server. -/
def throughput : System State Action Event := ⟨step moved numMessages⟩

namespace Event

def client? : Event → Option Client.Event
  | .client event => some event
  | _ => none

def sent? : Event → Option Message
  | .sent msg => some msg
  | _ => none

end Event

/-- What the client does during the benchmark. -/
def clientTrace (tr : List Event) : List Client.Event := tr.filterMap Event.client?

/-- The messages sent, in order. -/
def sends (tr : List Event) : List Message := tr.filterMap Event.sent?

/-- The messages the drain loop has popped, in order. -/
def popped (tr : List Event) : List Message := delivered (clientTrace tr)

/-- The messages on the wire or with the server, oldest first. -/
def State.abroad (s : State) : List Message :=
  s.wire.toClient++s.server.toList++s.wire.toServer

/-- Everything sent that neither was dropped nor has been popped, oldest first. -/
def State.inFlight (s : State) : List Message := s.client.queued++s.client.held++s.abroad

/-- A connected client whose receiver thread is in its loop, with nothing queued or read, and which
nobody is receiving from. -/
structure Ready (moved : Message → Message) (c : Client.State) : Prop where
  reached : ∃ tr, (Client.client moved).Run Client.init tr c
  queued : c.queued = []
  held : c.held = []
  running : c.running = true
  receiving : c.receiver ≠ .storeRunning ∧ c.receiver ≠ .exited
  consumer : c.consumer = .idle

end WsClient.Bench
