import WsClient.Connection.Model
import WsClient.Main.Args

/-!
# `main`

What `main` does with its arguments: a manager with `--reconnect`, a client over TLS with
`--ssl`, a plain client otherwise. `sslEnabled` says whether `WS_ENABLE_SSL` is defined.
-/

namespace WsClient.Main
open WsClient.Lib

/-- `client_config`. -/
def CliArgs.clientConfig (args : CliArgs) : Client.ClientConfig where
  pinReceiverThread := args.pinThread
  receiverCoreId := args.pinCore

/-- `conn_config`. -/
def CliArgs.connConfig (args : CliArgs) : Connection.ConnectionConfig where
  host := args.host
  port := args.port
  autoReconnect := true
  initialBackoffMs := 100
  maxBackoffMs := 30000
  heartbeatEnabled := true
  heartbeatIntervalS := 30
  pinReceiverThread := args.pinThread
  receiverCoreId := args.pinCore

/-- The two client classes: the first speaks plaintext, the second TLS. -/
inductive ClientType
  | webSocketClient
  | secureWebSocketClient
  deriving DecidableEq, Repr

/-- The managed mode; `starting` and `stopping` are inside the manager's `start` and `stop`. -/
inductive ManagedPc
  | start
  | starting
  | poll (i : ℕ)
  | isConnected
  | client
  | deref
  | session
  | stop
  | stopping
  deriving DecidableEq, Repr

/-- The other two modes: constructor, `connect`, `chat_session`. -/
inductive DirectPc
  | create
  | connect
  | session
  deriving DecidableEq, Repr

/-- Where `main` stands; `terminated` is the end by an uncaught exception, by the destructor of
a joinable thread, or in undefined behaviour. -/
inductive Pc
  | parseArgs
  | managed (pc : ManagedPc)
  | direct (type : ClientType) (pc : DirectPc)
  | exited (code : ℕ)
  | terminated
  deriving DecidableEq, Repr

structure State where
  args : CliArgs
  pc : Pc
  manager : Connection.State
  deriving DecidableEq, Repr

def init : State := ⟨{},.parseArgs,Connection.init⟩

inductive Event
  | construct (type : ClientType) (host port : String) (config : Client.ClientConfig)
  | manager (event : Connection.Event)
  deriving DecidableEq, Repr

/-- The next step of `main`, where `ok` says that it throws no exception, or a step of the
manager and its threads. -/
inductive Action
  | main (ok : Bool)
  | manager (a : Connection.Action)
  deriving DecidableEq, Repr

/-- `main` between `parse_args` and the mode it selects. -/
def Pc.dispatch (sslEnabled : Bool) (args : CliArgs) : Pc :=
  if args.autoReconnect then .managed .start
  else if args.useSsl then
    if sslEnabled then .direct .secureWebSocketClient .create else .exited 1
  else .direct .webSocketClient .create

/-- A step of the manager, after which `main` stands at `pc`. -/
def State.onManager (s : State) (a : Connection.Action) (pc : Pc) : Option (State × List Event) :=
  (Connection.step s.args.connConfig s.manager a).map fun (manager,es) =>
    ({ s with manager := manager, pc := pc },es.map .manager)

def managedStep (s : State) (ok : Bool) : ManagedPc → Option (State × List Event)
  | .start => s.onManager .start (.managed .starting)
  | .starting =>
    match s.manager.user with
    | .started => some ({ s with pc := .managed (.poll 0) },[])
    | _ => none
  | .poll i => some ({ s with
      pc := .managed (if i < 100 ∧ s.manager.members.state ≠ .connected then .poll (i+1)
        else .isConnected) },[])
  | .isConnected => some ({ s with
      pc := .managed (if s.manager.members.state = .connected then .client else .stop) },[])
  | .client => some ({ s with
      pc := .managed (if s.manager.members.client.isSome then .deref else .stop) },[])
  | .deref => some ({ s with
      pc := if s.manager.members.client.isSome then .managed .session else .terminated },[])
  | .session => some ({ s with pc := if ok then .managed .stop else .terminated },[])
  | .stop => s.onManager .stop (.managed .stopping)
  | .stopping =>
    match s.manager.user with
    | .stopped =>
      -- the destructor calls `stop` again, which returns at once, and destroys the handles
      some ({ s with
        pc := if s.manager.members.heartbeatThread ∨ s.manager.members.monitorThread ∨
          s.manager.members.reconnectThread then .terminated else .exited 0 },[])
    | _ => none

def directStep (s : State) (type : ClientType) (ok : Bool) : DirectPc → State × List Event
  | .create =>
    if ok then ({ s with pc := .direct type .connect },
      [.construct type s.args.host s.args.port s.args.clientConfig])
    else ({ s with pc := .exited 1 },[])
  | .connect => ({ s with pc := if ok then .direct type .session else .exited 1 },[])
  | .session => ({ s with pc := .exited (if ok then 0 else 1) },[])

def step (sslEnabled : Bool) (argv : List String) (s : State) (a : Action) :
    Option (State × List Event) :=
  if s.manager.fault then none
  else match s.pc, a with
    | .parseArgs, .main _ =>
      match Main.parseArgs argv with
      | .error code => some ({ s with pc := .exited code },[])
      | .ok args => some ({ s with args := args, pc := .dispatch sslEnabled args },[])
    | .managed pc, .main ok => managedStep s ok pc
    -- only `main` itself calls `start` and `stop`
    | .managed _, .manager .start | .managed _, .manager .stop => none
    | .managed pc, .manager a => s.onManager a (.managed pc)
    | .direct type pc, .main ok => some (directStep s type ok pc)
    | _, _ => none

/-- The program run with `argv`. -/
def main (sslEnabled : Bool) (argv : List String) : System State Action Event :=
  ⟨step sslEnabled argv⟩

/-- The step has created a `WebSocketClient`; the manager creates no other. -/
def Event.plaintext : Event → Bool
  | .construct .webSocketClient _ _ _ => true
  | .manager (.construct _ _ _) => true
  | _ => false

end WsClient.Main
