import WsClient.Client.Model
import WsClient.MemoryPool.Model

/-!
# `chat_session` over a direct client

The main thread runs `chat_session` on a connected client: it sends a request, spins until a
message comes in, and takes that message for the answer. The receiver thread is the client's
own model; the server is a machine at the other end of the connection, and `echo` is the one
of `websocket_server.py`.
-/

namespace WsClient.Session
open WsClient.Lib WsClient.Client

/-- The bytes of a string literal of the source. -/
def bytes (s : String) : List UInt8 := s.toUTF8.toList

/-- The messages on their way in either direction, oldest first. -/
structure Wire where
  toServer : List Message
  toClient : List Message
  deriving DecidableEq, Repr

/-- `echo`: `async for` takes a message, `send` mirrors it with the kind it came with. -/
def echoStep : Wire × Option Message → Unit → Option ((Wire × Option Message) × List Empty)
  | (wire,some msg), () => some (({ wire with toClient := wire.toClient++[msg] },none),[])
  | (wire,none), () =>
    match wire.toServer with
    | [] => none
    | msg :: rest => some (({ wire with toServer := rest },some msg),[])

/-- The echo server; it holds a message between `async for` and `send`. -/
def echo : System (Wire × Option Message) Unit Empty := ⟨echoStep⟩

/-- `ws::kPoolBlockSize`. -/
def kPoolBlockSize : ℕ := 4096

/-- `ws::kPoolNumBlocks`. -/
def kPoolNumBlocks : ℕ := 256

/-- `kBenchMessages`. -/
def kBenchMessages : ℕ := 100

/-- `alignof(std::max_align_t)`, as on x86-64. -/
def kMaxAlign : ℕ := 16

/-- The type of `msg_pool`. -/
def msgPool : MemoryPool.Layout where
  blockSize := kPoolBlockSize
  numBlocks := kPoolNumBlocks
  maxAlign := kMaxAlign
  blockSize_fits := by decide
  numBlocks_fits := by decide
  blockSize_ge := by decide
  numBlocks_pos := by decide
  maxAlign_pow := ⟨4,by decide,by decide⟩

/-- `"bench_" + std::to_string(i)`. -/
def benchMessage (i : ℕ) : List UInt8 := bytes ("bench_"++toString i)

/-- A call of `send_text` or `send_binary`, and what the round trip is for: a command, or
message `i` of a benchmark with `buf` allocated. -/
structure Request where
  msg : Message
  bench : Option (ℕ × ℕ)
  deriving DecidableEq, Repr

/-- Where the main thread stands in `chat_session`; `record` holds what `spin_receive` has
returned. -/
inductive ChatPc
  | greeting (i : ℕ)
  | greetingTry (i : ℕ)
  | isRunning
  | prompt
  | message (text : Bool)
  | bench (i : ℕ)
  | benchCopy (i buf off : ℕ)
  | setKind (req : Request)
  | write (req : Request)
  | spin (req : Request)
  | spinning (req : Request)
  | record (req : Request) (response : Message)
  | benchFree (i buf : ℕ)
  | closeStore
  | closeStream
  | closeJoin
  | returned
  deriving DecidableEq, Repr

/-- The client, the kind of message `ws_` writes, whether `ws_.close` has been called, the
connection and the server, and `chat_session` with `msg_pool` and the number of samples in
`stats` and `bench_stats`. -/
structure State (ρ : Type*) where
  client : Client.State
  text : Bool
  closed : Bool
  wire : Wire
  server : ρ
  chat : ChatPc
  pool : MemoryPool.State
  stats : ℕ
  benchStats : ℕ

/-- `chat_session` is called on a connected client. -/
def init {ρ : Type*} (server : ρ) (storage : ℕ) (m : ByteMem) : State ρ where
  client := Client.init
  text := true
  closed := false
  wire := ⟨[],[]⟩
  server := server
  chat := .greeting 0
  pool := MemoryPool.start msgPool storage m
  stats := 0
  benchStats := 0

/-- `request` is the argument of a `send_text` or `send_binary`, `response` what the
`spin_receive` after it has returned. -/
inductive Event
  | client (event : Client.Event)
  | request (msg : Message)
  | response (msg : Message)
  deriving DecidableEq, Repr

/-- `chat` is the next step of `chat_session`, `line` what `std::getline` yields, `consumer` a
step of the `try_pop` it is in; the others are the receiver thread and the server. -/
inductive Action (β : Type*)
  | chat
  | line (input : Option (List UInt8))
  | consumer (obs : ℕ)
  | receiver
  | producer (obs : ℕ)
  | read
  | readError
  | server (b : β)
  deriving DecidableEq, Repr

/-- The body of the command loop up to the first blocking call; `stats`, `pool`, `sysinfo` and
unknown commands only print. -/
def ChatPc.command (input : List UInt8) : ChatPc :=
  if input = bytes "/exit" then .closeStore
  else if input = [] then .isRunning
  else if input = bytes "stats" then .isRunning
  else if input = bytes "pool" then .isRunning
  else if input = bytes "sysinfo" then .isRunning
  else if input = bytes "bench" then .bench 0
  else if input = bytes "text" then .message true
  else if input = bytes "binary" then .message false
  else .isRunning

/-- What follows a step of `try_pop`, which has answered when it emits an event. -/
def ChatPc.after (pc : ChatPc) (es : List Client.Event) : ChatPc :=
  match pc, es.filterMap Client.Event.queue? with
  | .greetingTry _, .popped _ _ :: _ => .isRunning
  | .greetingTry i, .popEmpty :: _ => .greeting (i+1)
  | .spinning req, .popped _ msg :: _ => .record req msg
  | pc, _ => pc

variable {ρ β : Type*} (moved : Message → Message) (ndebug : Bool)
  (server : System (Wire × ρ) β Empty)

/-- A step of the client, after which `chat_session` stands where its events leave it. -/
def State.onClient (s : State ρ) (a : Client.Action) (next : List Client.Event → ChatPc) :
    Option (State ρ × List Event) :=
  (Client.step moved s.client a).map fun (client,es) =>
    ({ s with client := client, chat := next es },es.map .client)

/-- A call on `msg_pool`; a failed assertion ends the program. -/
def State.onPool (s : State ρ) (a : MemoryPool.Action) (next : List MemoryPool.Event → ChatPc) :
    Option (State ρ × List Event) :=
  (MemoryPool.step msgPool ndebug s.pool a).map fun (pool,es) =>
    ({ s with pool := pool, chat := next es },[])

/-- `chat_session` outside `std::getline` and `try_pop`. -/
def chatStep (s : State ρ) : Option (State ρ × List Event) :=
  match s.chat with
  | .greeting i =>
    if i < 100 then s.onClient moved .tryReceive fun _ => .greetingTry i
    else some ({ s with chat := .isRunning },[])
  | .isRunning =>
    some ({ s with chat := if s.client.running then .prompt else .closeStore },[])
  | .bench i =>
    if i < kBenchMessages then
      s.onPool ndebug .allocate fun es =>
        match es with
        | .allocated buf :: _ => if buf = 0 then .isRunning else .benchCopy i buf 0
        | _ => .isRunning
    else some ({ s with chat := .isRunning },[])
  | .benchCopy i buf off =>
    match ((benchMessage i).take kPoolBlockSize)[off]? with
    | some byte => s.onPool ndebug (.write buf off byte) fun _ => .benchCopy i buf (off+1)
    | none => some ({ s with chat := .setKind ⟨⟨benchMessage i,true⟩,some (i,buf)⟩ },[])
  -- `send_text` and `send_binary`: the kind of the stream, then the write
  | .setKind req => some ({ s with text := req.msg.isText, chat := .write req },[])
  | .write req =>
    some ({ s with
      wire.toServer := s.wire.toServer++[⟨req.msg.payload,s.text⟩]
      chat := .spin req },[.request req.msg])
  | .spin req => s.onClient moved .spinReceive fun _ => .spinning req
  | .spinning req => s.onClient moved .spin fun _ => .spinning req
  | .record req response =>
    match req.bench with
    | none => some ({ s with stats := s.stats+1, chat := .isRunning },[.response response])
    | some (i,buf) =>
      some ({ s with benchStats := s.benchStats+1, chat := .benchFree i buf },
        [.response response])
  | .benchFree i buf => s.onPool ndebug (.deallocate buf) fun _ => .bench (i+1)
  | .closeStore => s.onClient moved .close fun _ => .closeStream
  | .closeStream => some ({ s with closed := true, chat := .closeJoin },[])
  -- `close` joins the receiver thread
  | .closeJoin =>
    match s.client.receiver with
    | .exited => some ({ s with chat := .returned },[])
    | _ => none
  | .greetingTry _ | .prompt | .message _ | .returned => none

def step (s : State ρ) : Action β → Option (State ρ × List Event)
  | .chat => chatStep moved ndebug s
  | .line input =>
    match s.chat, input with
    | .prompt, some input =>
      -- `bench_stats` lives for one command
      some ({ s with chat := .command input, benchStats := 0 },[])
    | .message text, some input =>
      some ({ s with chat := .setKind ⟨⟨input,text⟩,none⟩ },[])
    -- end of input ends the session as `/exit` does
    | .prompt, none | .message _, none => some ({ s with chat := .closeStore },[])
    | _, _ => none
  | .consumer obs =>
    match s.chat with
    | .greetingTry _ | .spinning _ => s.onClient moved (.consumer obs) s.chat.after
    | _ => none
  | .receiver => s.onClient moved .receiver fun _ => s.chat
  | .producer obs => s.onClient moved (.producer obs) fun _ => s.chat
  | .read =>
    match s.wire.toClient with
    | [] => none
    | msg :: rest =>
      (s.onClient moved (.read msg.payload msg.isText) fun _ => s.chat).map fun (s,es) =>
        ({ s with wire.toClient := rest },es)
  | .readError => s.onClient moved .readError fun _ => s.chat
  | .server b =>
    (server.step (s.wire,s.server) b).map fun ((wire,srv),_) =>
      ({ s with wire := wire, server := srv },[])

/-- A direct session: `chat_session`, the receiver thread and a server. -/
def session : System (State ρ) (Action β) Event := ⟨step moved ndebug server⟩

namespace Event

def client? : Event → Option Client.Event
  | .client event => some event
  | _ => none

def request? : Event → Option Message
  | .request msg => some msg
  | _ => none

end Event

/-- What the client does in a session. -/
def clientTrace (tr : List Event) : List Client.Event := tr.filterMap Event.client?

/-- The messages the main thread has asked to be sent, in order. -/
def requests (tr : List Event) : List Message := tr.filterMap Event.request?

/-- Everything sent and not yet returned by `try_receive` or `spin_receive`, oldest first. -/
def State.inFlight (s : State (Option Message)) : List Message :=
  s.client.queued++s.client.held++s.wire.toClient++s.server.toList++s.wire.toServer

/-- Requests and responses alternate, each response equal to the request before it. -/
def pairing : Automaton (Option Message) Event where
  next
    | none, .request msg => some (some msg)
    | some msg, .response response => if response = msg then some none else none
    | pending, .client _ => some pending
    | _, _ => none

end WsClient.Session
