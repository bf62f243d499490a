import WsClient.Bench.MessageSizes
import WsClient.Bench.Model

/-!
# The benchmark suite

`main` of the benchmark client, from the welcome message to the end of `close`: it runs the four
benchmarks one after the other over one connection. Each is a loop that awaits the answer to a
message before it sends the next, or the burst of `benchmark_throughput`. The server is the echo
server, and the connection neither fails nor loses a message before the client closes it.
-/

namespace WsClient.Bench.Suite
open WsClient.Lib WsClient.Client WsClient.Session

/-- A timed loop of a benchmark: the payloads `send_text` is called with, one `spin_receive` and
one sample after each, or `benchmark_throughput`. -/
inductive Task
  | exchanges (payloads : List (List UInt8))
  | burst (numMessages : ℤ)
  deriving DecidableEq

/-- `prefix + std::to_string(i)` for the rounds of a loop. -/
def numbered (name : String) (count : ℤ) : List (List UInt8) :=
  (List.range count.toNat).map fun i => bytes (name++toString i)

def benchmarkSequentialRtt (numMessages : ℤ) : List Task := [.exchanges (numbered "seq_" numMessages)]

def benchmarkThroughput (numMessages : ℤ) : List Task := [.burst numMessages]

def benchmarkWarmupEffect (warmupCount measureCount : ℤ) : List Task :=
  [.exchanges (numbered "cold_" warmupCount),.exchanges (numbered "warm_" measureCount)]

def benchmarkMessageSizes : List Task :=
  sizes.map fun size => .exchanges (List.replicate kMessagesPerSize (makePayload size))

/-- `ws::config::kBenchmarkMessages`. -/
def kBenchmarkMessages : ℤ := 100

/-- `ws::config::kWarmupMessages`. -/
def kWarmupMessages : ℤ := 10

/-- The benchmarks `main` runs. -/
def program : List Task :=
  benchmarkSequentialRtt kBenchmarkMessages++benchmarkThroughput kBenchmarkMessages++
    benchmarkWarmupEffect kWarmupMessages kBenchmarkMessages++benchmarkMessageSizes

/-- Inside a loop that awaits each answer; `next` is its condition and the `text(true)` of
`send_text`, `record` holds what `spin_receive` has returned. -/
inductive ExchangePc
  | next
  | write (payload : List UInt8)
  | spin (payload : List UInt8)
  | spinning (payload : List UInt8)
  | record (payload : List UInt8) (response : Message)
  deriving DecidableEq

/-- Where the main thread stands; `todo` is what the loop has still to send, `rest` the loops
after it. -/
inductive SuitePc
  | greeting (i : ℕ)
  | greetingTry (i : ℕ)
  | tasks (rest : List Task)
  | exchange (pc : ExchangePc) (todo : List (List UInt8)) (rest : List Task)
  | burst (numMessages : ℤ) (pc : BenchPc) (rest : List Task)
  | closeStore
  | closeStream
  | closeJoin
  | returned
  deriving DecidableEq

/-- The client, the kind of message `ws_` writes, whether `ws_.close` has been called, the
connection, the message the server holds, the main thread, and the samples of its
`LatencyStats`. -/
structure State where
  client : Client.State
  text : Bool
  closed : Bool
  wire : Wire
  server : Option Message
  main : SuitePc
  samples : ℕ

/-- `connect` has returned. -/
def init : State where
  client := Client.init
  text := true
  closed := false
  wire := ⟨[],[]⟩
  server := none
  main := .greeting 0
  samples := 0

/-- `measured` is the end of a loop with the number of its samples. -/
inductive Event
  | client (event : Client.Event)
  | sent (msg : Message)
  | measured (samples : ℕ)
  deriving DecidableEq

/-- `main` is the next step of the main thread, `consumer` a step of the `try_pop` it is in;
`readClosed` is the end of a read once `ws_.close` has been called. -/
inductive Action
  | main
  | consumer (obs : ℕ)
  | receiver
  | producer (obs : ℕ)
  | read
  | readClosed
  | server
  deriving DecidableEq

variable (moved : Message → Message) (tasks : List Task)

/-- What follows a step of `try_pop`, which has answered when it emits an event. -/
def SuitePc.after (pc : SuitePc) (es : List Client.Event) : SuitePc :=
  match pc, es.filterMap Client.Event.queue? with
  | .greetingTry _, .popped _ _ :: _ => .tasks tasks
  | .greetingTry i, .popEmpty :: _ => .greeting (i+1)
  | .exchange (.spinning payload) todo rest, .popped _ msg :: _ =>
    .exchange (.record payload msg) todo rest
  | .burst n pc rest, _ => .burst n (pc.after es) rest
  | pc, _ => pc

/-- A step of the client, after which the main thread stands where its events leave it. -/
def State.onClient (s : State) (a : Client.Action) (next : List Client.Event → SuitePc) :
    Option (State × List Event) :=
  (Client.step moved s.client a).map fun (client,es) =>
    ({ s with client := client, main := next es },es.map .client)

/-- The state of `benchmark_throughput` while the suite is in it. -/
def State.inBurst (s : State) (pc : BenchPc) : Bench.State where
  client := s.client
  text := s.text
  wire := s.wire
  server := s.server
  main := pc

def Event.ofBurst : Bench.Event → Event
  | .client event => .client event
  | .sent msg => .sent msg

/-- The main thread outside `try_pop`. -/
def mainStep (s : State) : Option (State × List Event) :=
  match s.main with
  | .greeting i =>
    if i < 50 then s.onClient moved .tryReceive fun _ => .greetingTry i
    else some ({ s with main := .tasks tasks },[])
  | .tasks [] => some ({ s with main := .closeStore },[])
  | .tasks (.exchanges payloads :: rest) =>
    some ({ s with main := .exchange .next payloads rest, samples := 0 },[])
  | .tasks (.burst n :: rest) => some ({ s with main := .burst n (.send 0) rest },[])
  | .exchange .next [] rest => some ({ s with main := .tasks rest },[.measured s.samples])
  | .exchange .next (payload :: todo) rest =>
    some ({ s with text := true, main := .exchange (.write payload) todo rest },[])
  | .exchange (.write payload) todo rest =>
    let msg : Message := ⟨payload,s.text⟩
    some ({ s with
      wire.toServer := s.wire.toServer++[msg]
      main := .exchange (.spin payload) todo rest },[.sent msg])
  | .exchange (.spin payload) todo rest =>
    s.onClient moved .spinReceive fun _ => .exchange (.spinning payload) todo rest
  | .exchange (.spinning payload) todo rest =>
    s.onClient moved .spin fun _ => .exchange (.spinning payload) todo rest
  -- the response is not looked at
  | .exchange (.record _ _) todo rest =>
    some ({ s with main := .exchange .next todo rest, samples := s.samples+1 },[])
  | .burst _ .done rest => some ({ s with main := .tasks rest },[])
  | .burst n pc rest =>
    (Bench.mainStep moved n (s.inBurst pc)).map fun (b,es) =>
      ({ s with
        client := b.client
        text := b.text
        wire := b.wire
        main := .burst n b.main rest },es.map .ofBurst)
  | .closeStore => s.onClient moved .close fun _ => .closeStream
  | .closeStream => some ({ s with closed := true, main := .closeJoin },[])
  -- `close` joins the receiver thread
  | .closeJoin =>
    match s.client.receiver with
    | .exited => some ({ s with main := .returned },[])
    | _ => none
  | .greetingTry _ | .returned => none

/-- The main thread is in a call of `try_pop`. -/
def SuitePc.pops : SuitePc → Bool
  | .greetingTry _ | .exchange (.spinning _) _ _ | .burst _ (.popping _) _ => true
  | _ => false

def step (s : State) : Action → Option (State × List Event)
  | .main => mainStep moved tasks s
  | .consumer obs =>
    if s.main.pops then s.onClient moved (.consumer obs) (s.main.after tasks) else none
  | .receiver => s.onClient moved .receiver fun _ => s.main
  | .producer obs => s.onClient moved (.producer obs) fun _ => s.main
  | .read =>
    match s.wire.toClient with
    | [] => none
    | msg :: rest =>
      (s.onClient moved (.read msg.payload msg.isText) fun _ => s.main).map fun (s,es) =>
        ({ s with wire.toClient := rest },es)
  | .readClosed => if s.closed then s.onClient moved .readError fun _ => s.main else none
  | .server =>
    (echoStep (s.wire,s.server) ()).map fun ((wire,server),_) =>
      ({ s with wire := wire, server := server },[])

/-- The suite over a list of loops, the receiver thread and the echo server. -/
def suite : System State Action Event := ⟨step moved tasks⟩

/-! ## What the suite is for -/

/-- What the main thread says and hears, and the samples each of its loops ends with. -/
inductive Talk
  | send (msg : Message)
  | receive (msg : Message)
  | measured (samples : ℕ)
  deriving DecidableEq

def Event.talk? : Event → Option Talk
  | .sent msg => some (.send msg)
  | .client (.queue (.popped _ msg)) => some (.receive msg)
  | .measured samples => some (.measured samples)
  | _ => none

/-- The conversation of a run. -/
def talk (tr : List Event) : List Talk := tr.filterMap Event.talk?

/-- A message and its echo. -/
def echoed (payload : List UInt8) : List Talk := [.send ⟨payload,true⟩,.receive ⟨payload,true⟩]

/-- The conversation that the loops are meant to have: each message is answered by its echo before
the next is sent, or all are sent and then received in order. -/
def script : List Task → List Talk
  | [] => []
  | .exchanges payloads :: rest =>
    payloads.flatMap echoed++.measured payloads.length :: script rest
  | .burst n :: rest => (burst n).map .send++(burst n).map .receive++script rest

/-- Everything sent and not yet received, oldest first. -/
def State.inFlight (s : State) : List Message :=
  s.client.queued++s.client.held++s.wire.toClient++s.server.toList++s.wire.toServer

end WsClient.Bench.Suite
