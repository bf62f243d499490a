import WsClient.Main.Model
import WsClient.Connection.Generation
import WsClient.Session.Pairing
import WsClient.Client.Send

/-!
# `chat_session` over a managed client

`main`, the manager with its threads, and `chat_session` on the client that `client_` pointed to
when it was called. Of that client the session's own model has the receiver thread, the queue and
the connection; when `client_` changes hands they become those of the client it then points to.
A call through the reference `chat_session` was given ends the program once `client_` no longer
points to that client.
-/

namespace WsClient.Session

/-- The next step of `chat_session` calls the client, or is inside a call. -/
def ChatPc.calls : ChatPc → Bool
  | .greeting i => decide (i < 100)
  | .greetingTry _ | .isRunning | .setKind _ | .write _ | .spin _ | .spinning _ => true
  | .closeStore | .closeStream | .closeJoin => true
  | _ => false

/-- A step of the main thread. -/
def Action.onMain {β : Type*} : Action β → Bool
  | .chat | .line _ | .consumer _ => true
  | _ => false

end WsClient.Session

namespace WsClient.Managed
open WsClient.Lib WsClient.Client

/-- `given` is a ghost: the generation of the client that `chat_session` was given. -/
structure State (ρ : Type*) where
  main : Main.State
  given : ℕ
  session : Session.State ρ

inductive Event
  | main (event : Main.Event)
  | session (event : Session.Event)
  deriving DecidableEq, Repr

/-- The next step of `main` outside `chat_session`, a step of the manager and its threads, or a
step of `chat_session`, the receiver thread or the server. -/
inductive Action (β : Type*)
  | main (ok : Bool)
  | manager (a : Connection.Action)
  | session (a : Session.Action β)
  deriving DecidableEq, Repr

/-- No receiver thread. -/
def absent : Client.State := { Client.init with running := false, receiver := .exited }

/-- Before `chat_session`, with no client. -/
def init {ρ : Type*} (srv : ρ) (storage : ℕ) (m : ByteMem) : State ρ where
  main := Main.init
  given := 0
  session := { Session.init srv storage m with client := absent }

/-- What a step of the manager does to the client: the client is destroyed, with its receiver
joined, or created, or `connect` has spawned the receiver, or `close` has stored `false`. -/
def follow {ρ : Type*} (srv : ρ) (m m' : Connection.Members) (t : Session.State ρ) :
    Session.State ρ :=
  match m'.client with
  | none => { t with client := absent }
  | some c =>
    if m.current = some c.generation then
      match m.client.any Connection.ClientObject.running, c.running with
      -- `connect` has spawned the receiver
      | false, true => { t with client := Client.init }
      | true, false => { t with client.running := false }
      | _, _ => t
    else { t with client := absent, text := true, closed := false, wire := ⟨[],[]⟩, server := srv }

/-- A ping goes out. -/
def pinged {ρ : Type*} (es : List Main.Event) (t : Session.State ρ) : Session.State ρ :=
  if .manager .ping ∈ es then
    { t with text := true, wire.toServer := t.wire.toServer++[ping] }
  else t

/-- The receiver's end, or a `close`, as the manager sees it. -/
def lost (m : Connection.Members) : Connection.Members :=
  { m with client := m.client.map fun c => { c with running := false } }

/-- `stop` waits in `close` for the receiver thread. -/
def State.joins {ρ : Type*} (s : State ρ) : Connection.Action → Bool
  | .user _ =>
    match s.main.manager.user with
    | .stop (.closing generation) =>
      decide (s.main.manager.members.current = some generation ∧
        s.session.client.receiver ≠ .exited)
    | _ => false
  | _ => false

variable {ρ β : Type*} (sslEnabled : Bool) (argv : List String) (moved : Message → Message)
  (ndebug : Bool) (server : System (Session.Wire × ρ) β Empty) (srv : ρ)

/-- A step of `main` or of the manager. -/
def State.onMain (s : State ρ) (a : Main.Action) : Option (State ρ × List Event) :=
  (Main.step sslEnabled argv s.main a).map fun (main,es) =>
    ({ s with
      main := main
      session := pinged es (follow srv s.main.manager.members main.manager.members s.session) },
      es.map .main)

/-- A step of the session. -/
def State.onSession (s : State ρ) (a : Session.Action β) : Option (State ρ × List Event) :=
  (Session.step moved ndebug server s.session a).map fun (session,es) =>
    ({ s with
      session := session
      main.manager.members :=
        if session.client.running then s.main.manager.members else lost s.main.manager.members },
      es.map .session)

def step (s : State ρ) : Action β → Option (State ρ × List Event)
  | .main ok =>
    match s.main.pc with
    | .managed .deref =>
      (s.onMain sslEnabled argv srv (.main ok)).map fun (s',es) =>
        ({ s' with given := s.main.manager.members.current.getD 0 },es)
    | .managed .session =>
      -- `chat_session` returns, or an exception of `ws_.write` leaves it
      if (if ok then s.session.chat = .returned else s.session.chat.writes = true) then
        s.onMain sslEnabled argv srv (.main ok)
      else none
    | _ => s.onMain sslEnabled argv srv (.main ok)
  | .manager .loss => none
  | .manager a => if s.joins a then none else s.onMain sslEnabled argv srv (.manager a)
  | .session a =>
    match s.main.pc with
    | .managed pc =>
      if s.main.manager.fault then none
      else if a.onMain then
        if pc ≠ .session then none
        -- a call through the reference to a client that is gone
        else if s.session.chat.calls ∧ s.main.manager.members.current ≠ some s.given then
          some ({ s with main.pc := .terminated },[])
        else s.onSession moved ndebug server a
      else s.onSession moved ndebug server a
    | _ => none

/-- The program run with `argv`, with the session of its managed mode. -/
def program : System (State ρ) (Action β) Event :=
  ⟨step sslEnabled argv moved ndebug server srv⟩

end WsClient.Managed
