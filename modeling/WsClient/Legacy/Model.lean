import WsClient.Lib.Monitor
import WsClient.Session.Model

/-!
# The client of the root `main.cpp`

The client that the one under `src/` has replaced: `receiveContinuous` hands messages to
`getResponse` through a `std::queue` behind a mutex and a condition variable, and `chatSession`
takes what comes next for the answer. The server is the echo server, which may greet the client
first; the connection may fail at any time.
-/

namespace WsClient.Legacy
open WsClient.Lib WsClient.Client WsClient.Session

inductive Party
  | main
  | receiver
  deriving DecidableEq, Repr

/-- Inside `getResponse`: the lock, the predicate of `cv_.wait`, the sleep, `front` and `pop`, and
the end of the scope of the lock. -/
inductive GetPc
  | lock
  | test
  | asleep
  | take
  | unlock (response : Message)
  deriving DecidableEq, Repr

/-- Where the main thread stands in `chatSession`; `terminated` is the end of the program by
an exception that leaves the receiver thread joinable. -/
inductive ChatPc
  | get (pc : GetPc)
  | prompt
  | message (text : Bool)
  | setKind (msg : Message)
  | write (msg : Message)
  | closeStream
  | closeJoin
  | returned
  | terminated
  deriving DecidableEq, Repr

/-- Where the receiver thread stands in `receiveContinuous`. -/
inductive ReceiverPc
  | isOpen
  | read
  | lock (msg : Message)
  | push (msg : Message)
  | notify
  | unlock
  | exited
  deriving DecidableEq, Repr

/-- `messages_` behind `mutex_` and `cv_`, the kind of message `ws_` writes, `ws_.is_open()`, the
connection and the server, the two threads, `input`, and whether `std::cin` has come to the end
of the input. -/
structure State where
  messages : Monitor Party (List Message)
  text : Bool
  isOpen : Bool
  wire : Wire
  server : Option Message
  chat : ChatPc
  receiver : ReceiverPc
  input : List UInt8
  eof : Bool

/-- `connect` has returned, and `chatSession` is called. -/
def init (greeting : Option Message) : State where
  messages := ⟨none,[],[]⟩
  text := true
  isOpen := true
  wire := ⟨[],greeting.toList⟩
  server := none
  chat := .get .lock
  receiver := .isOpen
  input := []
  eof := false

inductive Event
  | request (msg : Message)
  | response (msg : Message)
  deriving DecidableEq, Repr

/-- `line` is what `std::getline` yields while there is input: a line, or what is left after the
last one. `wake` is a spurious wake-up; `readError` an exception of `ws_.read`, `throws` one of
`ws_.write` or `ws_.close`. -/
inductive Action
  | chat
  | throws
  | line (input : List UInt8) (ended : Bool)
  | wake
  | receiver
  | read
  | readError
  | server
  deriving DecidableEq, Repr

/-- `getResponse`. -/
def getStep (s : State) : GetPc → Option (State × List Event)
  | .lock => (s.messages.lock .main).map fun messages =>
      ({ s with messages := messages, chat := .get .test },[])
  | .test =>
    match s.messages.data with
    | [] => some ({ s with messages := s.messages.wait .main, chat := .get .asleep },[])
    | _ :: _ => some ({ s with chat := .get .take },[])
  | .asleep =>
    -- woken, `wait` takes the mutex again
    if Party.main ∈ s.messages.asleep then none else some ({ s with chat := .get .lock },[])
  | .take =>
    match s.messages.data with
    | [] => none
    | msg :: _ =>
      some ({ s with messages := s.messages.update List.tail, chat := .get (.unlock msg) },[])
  | .unlock response =>
    some ({ s with messages := s.messages.unlock, chat := .prompt },[.response response])

/-- `chatSession` after the first `std::getline` of a round. -/
def ChatPc.command (input : List UInt8) : ChatPc :=
  if input = bytes "/exit" then .closeStream
  else if input = [] then .prompt
  else if input = bytes "text" then .message true
  else if input = bytes "binary" then .message false
  -- an unknown command is not answered with a hint
  else .get .lock

/-- After either `std::getline`, with what is in `input`. -/
def State.onLine (s : State) : Option (State × List Event) :=
  match s.chat with
  | .prompt => some ({ s with chat := .command s.input },[])
  | .message text => some ({ s with chat := .setKind ⟨s.input,text⟩ },[])
  | _ => none

def chatStep (s : State) : Option (State × List Event) :=
  match s.chat with
  | .get pc => getStep s pc
  -- at the end of the input `std::getline` fails and leaves `input` as it is
  | .prompt | .message _ => if s.eof then s.onLine else none
  | .setKind msg => some ({ s with text := msg.isText, chat := .write msg },[])
  | .write msg =>
    if s.isOpen then
      some ({ s with
        wire.toServer := s.wire.toServer++[⟨msg.payload,s.text⟩]
        chat := .get .lock },[.request msg])
    else some ({ s with chat := .terminated },[])
  | .closeStream => some ({ s with isOpen := false, chat := .closeJoin },[])
  | .closeJoin =>
    match s.receiver with
    | .exited => some ({ s with chat := .returned },[])
    | _ => none
  | .returned | .terminated => none

/-- `receiveContinuous` outside `ws_.read`. -/
def receiverStep (s : State) : Option (State × List Event) :=
  match s.receiver with
  | .isOpen => some ({ s with receiver := if s.isOpen then .read else .exited },[])
  | .lock msg => (s.messages.lock .receiver).map fun messages =>
      ({ s with messages := messages, receiver := .push msg },[])
  | .push msg =>
    some ({ s with messages := s.messages.update (·++[msg]), receiver := .notify },[])
  -- the lock is held until the end of the round
  | .notify => some ({ s with messages := s.messages.notifyOne, receiver := .unlock },[])
  | .unlock => some ({ s with messages := s.messages.unlock, receiver := .isOpen },[])
  | .read | .exited => none

/-- A step of the program while it lasts. -/
def liveStep (s : State) : Action → Option (State × List Event)
  | .chat => chatStep s
  | .throws =>
    match s.chat with
    | .write _ => some ({ s with chat := .terminated },[])
    | .closeStream => if s.isOpen then some ({ s with chat := .terminated },[]) else none
    | _ => none
  | .line input ended => if s.eof then none else State.onLine { s with input := input, eof := ended }
  | .wake =>
    if Party.main ∈ s.messages.asleep then
      some ({ s with messages := s.messages.wake .main },[])
    else none
  | .receiver => receiverStep s
  | .read =>
    match s.receiver, s.wire.toClient with
    | .read, msg :: rest => some ({ s with wire.toClient := rest, receiver := .lock msg },[])
    | _, _ => none
  | .readError =>
    match s.receiver with
    | .read => some ({ s with isOpen := false, receiver := .exited },[])
    | _ => none
  | .server =>
    (echoStep (s.wire,s.server) ()).map fun ((wire,server),_) =>
      ({ s with wire := wire, server := server },[])

def step (s : State) (a : Action) : Option (State × List Event) :=
  if s.chat = .terminated then none else liveStep s a

/-- A session of the legacy client with the echo server. -/
def session : System State Action Event := ⟨step⟩

def Event.request? : Event → Option Message
  | .request msg => some msg
  | _ => none

def Event.response? : Event → Option Message
  | .response msg => some msg
  | _ => none

/-- The messages the main thread has sent, in order. -/
def requests (tr : List Event) : List Message := tr.filterMap Event.request?

/-- What `getResponse` has returned, in order. -/
def responses (tr : List Event) : List Message := tr.filterMap Event.response?

/-- The message that `getResponse` has popped and not yet returned. -/
def ChatPc.held : ChatPc → List Message
  | .get (.unlock response) => [response]
  | _ => []

/-- The message the receiver thread has read and not yet pushed. -/
def ReceiverPc.held : ReceiverPc → List Message
  | .lock msg | .push msg => [msg]
  | _ => []

/-- Everything sent and not yet returned by `getResponse`, oldest first. -/
def State.inFlight (s : State) : List Message :=
  s.chat.held++s.messages.data++s.receiver.held++s.wire.toClient++s.server.toList++s.wire.toServer

end WsClient.Legacy
