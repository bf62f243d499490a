import WsClient.SpscQueue.Model

/-!
# The client's receive pipeline

`receive_loop`, which is the same code in `WebSocketClient` and `SecureWebSocketClient`,
reads messages off the socket into one reused buffer and pushes them into the queue that
`try_receive` and `spin_receive` pop. Every queue access is a step of the queue's own model.
-/

namespace WsClient.Client
open WsClient.Lib

/-- `Message`; the payload as bytes. -/
structure Message where
  payload : List UInt8
  isText : Bool
  deriving DecidableEq, Repr

/-- `Message()`. -/
def Message.empty : Message := ⟨[],true⟩

/-- `ClientConfig`, with its defaults. -/
structure ClientConfig where
  pinReceiverThread : Bool := false
  receiverCoreId : ℤ := -1
  useMemoryPool : Bool := true
  deriving DecidableEq, Repr

/-- `kQueueCapacity`. -/
def kQueueCapacity : SpscQueue.Capacity := ⟨1024,by decide,by decide,by decide⟩

/-- Where the receiver thread stands in `receive_loop`; it holds `msg` until `try_push` has
answered. -/
inductive ReceiverPc
  | loadRunning
  | clearBuffer
  | read
  | construct
  | push (msg : Message)
  | pushing (msg : Message)
  | storeRunning
  | exited
  deriving DecidableEq, Repr

/-- The call the consumer is in; both call `try_pop`, `spin_receive` until it has an item. -/
inductive ConsumerPc
  | idle
  | tryReceive
  | spinReceive
  deriving DecidableEq, Repr

/-- `running_`, `read_buffer`, `ws_.got_text()`, `queue_`, and the two threads. -/
structure State where
  running : Bool
  readBuffer : List UInt8
  gotText : Bool
  queue : SpscQueue.State Message
  receiver : ReceiverPc
  consumer : ConsumerPc

/-- The client when `connect` has spawned the receiver thread. -/
def init : State where
  running := true
  readBuffer := []
  gotText := true
  queue := SpscQueue.init .empty
  receiver := .loadRunning
  consumer := .idle

inductive Event
  | read (msg : Message)
  | queue (event : SpscQueue.Event Message)
  deriving DecidableEq, Repr

/-- `read` and `readError` are the outcomes of `ws_.read`, where an exception counts as an
error; `spin` calls `try_pop` once more; `close` is the store with which `close()` begins. -/
inductive Action
  | receiver
  | read (payload : List UInt8) (text : Bool)
  | readError
  | producer (obs : ℕ)
  | tryReceive
  | spinReceive
  | spin
  | consumer (obs : ℕ)
  | close
  deriving DecidableEq, Repr

/-- The queue between the receiver thread and the consumer. Its loads read the current indices here,
and so they do in every session and benchmark over this client; stale loads are taken up for the
queue alone, in `WsClient.SpscQueue`. -/
abbrev receiveQueue (moved : Message → Message) :
    System (SpscQueue.State Message) (SpscQueue.Action Message) (SpscQueue.Event Message) :=
  SpscQueue.queue kQueueCapacity .current moved

/-- What follows a step of `try_pop`: a call returns with an answer, `spin_receive` only with
an item. -/
def ConsumerPc.after (pc : ConsumerPc) : List (SpscQueue.Event Message) → ConsumerPc
  | [] => pc
  | .popEmpty :: _ => if pc = .spinReceive then .spinReceive else .idle
  | _ :: _ => .idle

variable (moved : Message → Message)

/-- A step of the queue, after which the two threads stand where its events leave them. -/
def State.onQueue (s : State) (b : SpscQueue.Action Message)
    (next : List (SpscQueue.Event Message) → ReceiverPc × ConsumerPc) :
    Option (State × List Event) :=
  ((receiveQueue moved).step s.queue b).map fun (queue,es) =>
    ({ s with queue := queue, receiver := (next es).1, consumer := (next es).2 },es.map .queue)

/-- `receive_loop` outside `ws_.read` and `try_push`. -/
def receiverStep (s : State) : Option (State × List Event) :=
  match s.receiver with
  | .loadRunning =>
    some ({ s with receiver := if s.running then .clearBuffer else .storeRunning },[])
  | .clearBuffer => some ({ s with readBuffer := [], receiver := .read },[])
  | .construct => some ({ s with receiver := .push ⟨s.readBuffer,s.gotText⟩ },[])
  | .push msg => s.onQueue moved (.tryPush msg) fun _ => (.pushing msg,s.consumer)
  | .storeRunning => some ({ s with running := false, receiver := .exited },[])
  | .read | .pushing _ | .exited => none

def step (s : State) : Action → Option (State × List Event)
  | .receiver => receiverStep moved s
  | .read payload text =>
    match s.receiver with
    | .read =>
      -- a read appends to the buffer
      some ({ s with
        readBuffer := s.readBuffer++payload
        gotText := text
        receiver := .construct },[.read ⟨payload,text⟩])
    | _ => none
  | .readError =>
    match s.receiver with
    | .read => some ({ s with receiver := .storeRunning },[])
    | _ => none
  | .producer obs =>
    match s.receiver with
    | .pushing msg => s.onQueue moved (.producer obs) fun es =>
        (if es = [] then .pushing msg else .loadRunning,s.consumer)
    | _ => none
  | .tryReceive =>
    match s.consumer with
    | .idle => s.onQueue moved .tryPop fun _ => (s.receiver,.tryReceive)
    | _ => none
  | .spinReceive =>
    match s.consumer with
    | .idle => s.onQueue moved .tryPop fun _ => (s.receiver,.spinReceive)
    | _ => none
  | .spin =>
    match s.consumer with
    | .spinReceive => s.onQueue moved .tryPop fun _ => (s.receiver,.spinReceive)
    | _ => none
  | .consumer obs => s.onQueue moved (.consumer obs) fun es => (s.receiver,s.consumer.after es)
  | .close => some ({ s with running := false },[])

/-- A connected client: its receiver thread and the thread that receives from it. -/
def client : System State Action Event := ⟨step moved⟩

/-- The messages queued, oldest first. -/
def State.queued (s : State) : List Message := s.queue.contents kQueueCapacity

/-- The message the receiver has read and the queue has not yet answered for. -/
def State.held (s : State) : List Message :=
  match s.receiver with
  | .construct => [⟨s.readBuffer,s.gotText⟩]
  | .push msg => [msg]
  | .pushing msg => [msg]
  | _ => []

namespace Event

def read? : Event → Option Message
  | .read msg => some msg
  | _ => none

def queue? : Event → Option (SpscQueue.Event Message)
  | .queue event => some event
  | _ => none

/-- The answer of `try_push` for a message: `false` drops it. -/
def verdict? : Event → Option (Message × Bool)
  | .queue (.pushed _ msg) => some (msg,true)
  | .queue (.pushFull msg) => some (msg,false)
  | _ => none

def delivered? : Event → Option Message
  | .queue (.popped _ msg) => some msg
  | _ => none

end Event

/-- The messages `ws_.read` has yielded, in order. -/
def readMessages (tr : List Event) : List Message := tr.filterMap Event.read?

/-- The messages offered to the queue, in order, each with the queue's answer. -/
def verdicts (tr : List Event) : List (Message × Bool) := tr.filterMap Event.verdict?

/-- The messages read that were not dropped. -/
def kept (tr : List Event) : List Message :=
  ((verdicts tr).filter Prod.snd).map Prod.fst

/-- The messages the consumer has got, in order. -/
def delivered (tr : List Event) : List Message := tr.filterMap Event.delivered?

end WsClient.Client
