import WsClient.Client.Model
import Mathlib.Data.Rat.Defs

/-!
# `ConnectionManager`

The user thread in `start` or `stop`, the reconnect, monitor and heartbeat threads, and the
members they share. Each read or write of a member, each thread spawn or exit and each call
through `client_` is a step. `int` is `ℤ` and `double` is `ℚ`; a step whose behaviour C++ leaves
undefined, or that terminates the program, ends the run in a state marked `fault`.
-/

namespace WsClient.Connection
open WsClient.Lib

inductive ConnectionState
  | disconnected
  | connecting
  | connected
  | reconnecting
  | closing
  | closed
  deriving DecidableEq, Repr

/-- `ConnectionConfig`, with its defaults. -/
structure ConnectionConfig where
  host : String
  port : String
  autoReconnect : Bool := true
  maxReconnectTries : ℤ := 10
  initialBackoffMs : UInt32 := 100
  maxBackoffMs : UInt32 := 30000
  backoffMultiplier : ℚ := 2
  heartbeatEnabled : Bool := true
  heartbeatIntervalS : UInt32 := 30
  heartbeatTimeoutS : UInt32 := 10
  pinReceiverThread : Bool := false
  receiverCoreId : ℤ := -1

/-- `static_cast<uint32_t>` of a `double`: truncation, undefined out of range. -/
def toUint32? (x : ℚ) : Option UInt32 :=
  let n := x.num.tdiv x.den
  if 0 ≤ n ∧ n < 2^32 then some (UInt32.ofNat n.toNat) else none

/-- The backoff after a failed attempt. -/
def ConnectionConfig.nextBackoff (cfg : ConnectionConfig) (backoffMs : UInt32) : Option UInt32 :=
  (toUint32? (backoffMs.toNat*cfg.backoffMultiplier)).map fun scaled =>
    min scaled cfg.maxBackoffMs

/-- The two reasons `on_disconnect_` is called with. -/
inductive DisconnectReason
  | connectionLost
  | maxRetriesExceeded
  deriving DecidableEq, Repr

/-- The object `client_` points to. `pingFailed` is a ghost: a ping on it has thrown. -/
structure ClientObject where
  generation : ℕ
  running : Bool
  pingFailed : Bool
  deriving DecidableEq, Repr

/-- The members; of a `std::thread` only whether it is joinable. `generation` is a ghost that
numbers the clients. -/
structure Members where
  state : ConnectionState
  shouldRun : Bool
  reconnectCount : ℤ
  client : Option ClientObject
  generation : ℕ
  heartbeatThread : Bool
  monitorThread : Bool
  reconnectThread : Bool
  deriving DecidableEq, Repr

/-- Inside `try_connect`. -/
inductive ConnectPc
  | create
  | connect
  | onConnect
  | reset
  deriving DecidableEq, Repr

/-- Inside `reconnect_loop`, with the local `backoff_ms`. -/
inductive LoopPc
  | loadRun (backoffMs : UInt32)
  | readCount (backoffMs : UInt32)
  | writeCount (backoffMs : UInt32) (count : ℤ)
  | checkLimit (backoffMs : UInt32)
  | storeDisconnected
  | onDisconnect
  | onReconnect (backoffMs : UInt32)
  | sleep (backoffMs : UInt32)
  | tryConnect (backoffMs : UInt32) (pc : ConnectPc)
  | scaleBackoff (backoffMs : UInt32)
  | storeConnected
  | resetCount
  | checkHeartbeat
  | spawnHeartbeat
  | checkMonitor
  | spawnMonitor
  | ret
  deriving DecidableEq, Repr

/-- Inside `monitor_loop`. -/
inductive MonitorPc
  | loadRun
  | sleep
  | recheckRun
  | readClient
  | isRunning
  | storeReconnecting
  | onDisconnect
  | resetClient
  | reconnectLoop (pc : LoopPc)
  | storeDisconnected
  | ret
  deriving DecidableEq, Repr

/-- Inside `heartbeat_loop`. -/
inductive HeartbeatPc
  | loadRun
  | loadState
  | sleep
  | recheckRun
  | readClient
  | isRunning
  | sendPing
  | ret
  deriving DecidableEq, Repr

/-- Inside `start`. -/
inductive StartPc
  | storeRun
  | storeConnecting
  | tryConnect (pc : ConnectPc)
  | storeConnected
  | resetCount
  | spawnHeartbeat
  | spawnMonitor
  | storeReconnecting
  | spawnReconnect
  | storeDisconnected
  deriving DecidableEq, Repr

/-- Inside `stop`; `closing` is the rest of `close()` on the client it was called on. -/
inductive StopPc
  | loadRun
  | storeClosing
  | clearRun
  | readClient
  | close
  | closing (generation : ℕ)
  | checkHeartbeat
  | joinHeartbeat
  | checkMonitor
  | joinMonitor
  | checkReconnect
  | joinReconnect
  | storeClosed
  deriving DecidableEq, Repr

/-- The user thread: before, inside and after `start`, inside and after `stop`. -/
inductive UserPc
  | fresh
  | start (pc : StartPc)
  | started
  | stop (pc : StopPc)
  | stopped
  deriving DecidableEq, Repr

/-- Members, the user thread, the live threads behind the three handles. -/
structure State where
  members : Members
  user : UserPc
  heartbeat : Option HeartbeatPc
  monitor : Option MonitorPc
  reconnect : Option LoopPc
  fault : Bool
  deriving DecidableEq, Repr

def State.putUser (pc : UserPc) (s : State) : State := { s with user := pc }

def State.putHeartbeat (pc : Option HeartbeatPc) (s : State) : State := { s with heartbeat := pc }

def State.putMonitor (pc : Option MonitorPc) (s : State) : State := { s with monitor := pc }

def State.putReconnect (pc : Option LoopPc) (s : State) : State := { s with reconnect := pc }

/-- The constructor. -/
def init : State where
  members := {
    state := .disconnected
    shouldRun := false
    reconnectCount := 0
    client := none
    generation := 0
    heartbeatThread := false
    monitorThread := false
    reconnectThread := false }
  user := .fresh
  heartbeat := none
  monitor := none
  reconnect := none
  fault := false

/-- Stores into `state_`, calls of the callbacks, and what an attempt or a sleep does. -/
inductive Event
  | setState (state : ConnectionState)
  | construct (host port : String) (config : Client.ClientConfig)
  | connectFailed
  | onConnect
  | onDisconnect (reason : DisconnectReason)
  | onReconnect (attempt : ℤ) (backoffMs : UInt32)
  | slept (ms : UInt32)
  | ping
  deriving DecidableEq, Repr

/-- A call by the user thread, the next step of a thread, or the receiver's end. `ok` is what a
step depends on besides the state: whether `connect()` or `send_text` throws, or `on_connect_`. -/
inductive Action
  | start
  | stop
  | user (ok : Bool)
  | reconnect (ok : Bool)
  | monitor (ok : Bool)
  | heartbeat (ok : Bool)
  | loss
  deriving DecidableEq, Repr

/-- The thread handles. -/
inductive Handle
  | heartbeat
  | monitor
  | reconnect
  deriving DecidableEq, Repr

/-- What a step of a thread does: to the members, to its own position, and a thread it spawns. -/
structure Effect (π : Type) where
  members : Members
  pc : π
  events : List Event := []
  spawn : Option Handle := none

def Effect.map {π ρ : Type} (f : π → ρ) (e : Effect π) : Effect ρ :=
  { members := e.members, pc := f e.pc, events := e.events, spawn := e.spawn }

variable (cfg : ConnectionConfig)

/-- `try_connect`; `.inr` is its result. -/
def tryConnectStep (m : Members) : ConnectPc → Bool → Option (Effect (ConnectPc ⊕ Bool))
  | .create, _ => some {
      members := { m with
        client := some ⟨m.generation,false,false⟩
        generation := m.generation+1 }
      pc := .inl .connect
      events := [.construct cfg.host cfg.port {}] }
  | .connect, ok =>
    m.client.map fun c =>
      if ok then { members := { m with client := some { c with running := true } }
                   pc := .inl .onConnect }
      else { members := m, pc := .inl .reset }
  | .onConnect, ok =>
    some { members := m, pc := if ok then .inr true else .inl .reset, events := [.onConnect] }
  -- `connect` or `on_connect_` has thrown, and the handler drops the client
  | .reset, _ =>
    some { members := { m with client := none }, pc := .inr false, events := [.connectFailed] }

/-- `set_state`. -/
def Members.setState (m : Members) (state : ConnectionState) : Members := { m with state := state }

def startStep (m : Members) : StartPc → Bool → Option (Effect UserPc)
  | .storeRun, _ =>
    some { members := { m with shouldRun := true }, pc := .start .storeConnecting }
  | .storeConnecting, _ => some {
      members := m.setState .connecting
      pc := .start (.tryConnect .create)
      events := [.setState .connecting] }
  | .tryConnect pc, ok =>
    (tryConnectStep cfg m pc ok).map <| Effect.map fun
      | .inl pc => .start (.tryConnect pc)
      | .inr true => .start .storeConnected
      | .inr false => .start (if cfg.autoReconnect then .storeReconnecting else .storeDisconnected)
  | .storeConnected, _ => some {
      members := m.setState .connected
      pc := .start .resetCount
      events := [.setState .connected] }
  | .resetCount, _ => some {
      members := { m with reconnectCount := 0 }
      pc := .start (if cfg.heartbeatEnabled then .spawnHeartbeat else .spawnMonitor) }
  | .spawnHeartbeat, _ =>
    some { members := m, pc := .start .spawnMonitor, spawn := some .heartbeat }
  | .spawnMonitor, _ => some { members := m, pc := .started, spawn := some .monitor }
  | .storeReconnecting, _ => some {
      members := m.setState .reconnecting
      pc := .start .spawnReconnect
      events := [.setState .reconnecting] }
  -- `start` returns here: the other two threads are left to `reconnect_loop`
  | .spawnReconnect, _ => some { members := m, pc := .started, spawn := some .reconnect }
  | .storeDisconnected, _ => some {
      members := m.setState .disconnected
      pc := .started
      events := [.setState .disconnected] }

/-- `reconnect_loop`. -/
def loopStep (m : Members) : LoopPc → Bool → Option (Effect LoopPc)
  | .loadRun backoffMs, _ =>
    some { members := m, pc := if m.shouldRun then .readCount backoffMs else .ret }
  -- `++reconnect_count_` on a plain `int` is a read and a write
  | .readCount backoffMs, _ =>
    some { members := m, pc := .writeCount backoffMs m.reconnectCount }
  | .writeCount backoffMs count, _ =>
    -- `++reconnect_count_` overflows at `INT_MAX`
    if count < 2^31-1 then
      some { members := { m with reconnectCount := count+1 }, pc := .checkLimit backoffMs }
    else none
  | .checkLimit backoffMs, _ => some {
      members := m
      pc := if cfg.maxReconnectTries > 0 ∧ m.reconnectCount > cfg.maxReconnectTries then
        .storeDisconnected else .onReconnect backoffMs }
  | .storeDisconnected, _ => some {
      members := m.setState .disconnected
      pc := .onDisconnect
      events := [.setState .disconnected] }
  | .onDisconnect, _ =>
    some { members := m, pc := .ret, events := [.onDisconnect .maxRetriesExceeded] }
  | .onReconnect backoffMs, _ => some {
      members := m
      pc := .sleep backoffMs
      events := [.onReconnect m.reconnectCount backoffMs] }
  | .sleep backoffMs, _ =>
    some { members := m, pc := .tryConnect backoffMs .create, events := [.slept backoffMs] }
  | .tryConnect backoffMs pc, ok =>
    (tryConnectStep cfg m pc ok).map <| Effect.map fun
      | .inl pc => .tryConnect backoffMs pc
      | .inr true => .storeConnected
      | .inr false => .scaleBackoff backoffMs
  | .scaleBackoff backoffMs, _ =>
    (cfg.nextBackoff backoffMs).map fun backoffMs => { members := m, pc := .loadRun backoffMs }
  | .storeConnected, _ => some {
      members := m.setState .connected
      pc := .resetCount
      events := [.setState .connected] }
  | .resetCount, _ => some {
      members := { m with reconnectCount := 0 }
      pc := if cfg.heartbeatEnabled then .checkHeartbeat else .checkMonitor }
  -- a thread that has finished but was not joined is joinable, and is not replaced
  | .checkHeartbeat, _ =>
    some { members := m, pc := if m.heartbeatThread then .checkMonitor else .spawnHeartbeat }
  | .spawnHeartbeat, _ => some { members := m, pc := .checkMonitor, spawn := some .heartbeat }
  | .checkMonitor, _ =>
    some { members := m, pc := if m.monitorThread then .ret else .spawnMonitor }
  | .spawnMonitor, _ => some { members := m, pc := .ret, spawn := some .monitor }
  | .ret, _ => some { members := m, pc := .ret }

/-- The reconnect thread; `none` is a thread that has finished. -/
def reconnectStep (m : Members) : LoopPc → Bool → Option (Effect (Option LoopPc))
  | .ret, _ => some { members := m, pc := none }
  | pc, ok => (loopStep cfg m pc ok).map (Effect.map some)

/-- `monitor_loop`. -/
def monitorStep (m : Members) : MonitorPc → Bool → Option (Effect (Option MonitorPc))
  | .loadRun, _ => some { members := m, pc := some (if m.shouldRun then .sleep else .ret) }
  | .sleep, _ => some { members := m, pc := some .recheckRun }
  -- `should_run_` may have been cleared during the sleep
  | .recheckRun, _ =>
    some { members := m, pc := some (if m.shouldRun then .readClient else .ret) }
  | .readClient, _ =>
    some { members := m, pc := some (if m.client.isSome then .isRunning else .loadRun) }
  | .isRunning, _ =>
    m.client.map fun c =>
      { members := m, pc := some (if c.running then .loadRun else .storeReconnecting) }
  | .storeReconnecting, _ => some {
      members := m.setState .reconnecting
      pc := some .onDisconnect
      events := [.setState .reconnecting] }
  | .onDisconnect, _ =>
    some { members := m, pc := some .resetClient, events := [.onDisconnect .connectionLost] }
  | .resetClient, _ => some {
      members := { m with client := none }
      pc := some (if cfg.autoReconnect then .reconnectLoop (.loadRun cfg.initialBackoffMs)
        else .storeDisconnected) }
  | .reconnectLoop .ret, _ => some { members := m, pc := none }
  | .reconnectLoop pc, ok =>
    (loopStep cfg m pc ok).map (Effect.map fun pc => some (.reconnectLoop pc))
  | .storeDisconnected, _ => some {
      members := m.setState .disconnected
      pc := some .ret
      events := [.setState .disconnected] }
  | .ret, _ => some { members := m, pc := none }

/-- `heartbeat_loop`. -/
def heartbeatStep (m : Members) : HeartbeatPc → Bool → Option (Effect (Option HeartbeatPc))
  | .loadRun, _ => some { members := m, pc := some (if m.shouldRun then .loadState else .ret) }
  | .loadState, _ =>
    some { members := m, pc := some (if m.state = .connected then .sleep else .ret) }
  | .sleep, _ => some { members := m, pc := some .recheckRun }
  | .recheckRun, _ =>
    some { members := m, pc := some (if m.shouldRun then .readClient else .ret) }
  | .readClient, _ =>
    some { members := m, pc := some (if m.client.isSome then .isRunning else .ret) }
  | .isRunning, _ =>
    m.client.map fun c => { members := m, pc := some (if c.running then .sendPing else .ret) }
  -- an exception ends the loop, and `state_` stays as it is
  | .sendPing, ok =>
    m.client.map fun c =>
      if ok then { members := m, pc := some .loadRun, events := [.ping] }
      else { members := { m with client := some { c with pingFailed := true } }, pc := some .ret }
  | .ret, _ => some { members := m, pc := none }

/-- A handle that has got a thread. -/
def Members.hold (m : Members) : Option Handle → Members
  | none => m
  | some .heartbeat => { m with heartbeatThread := true }
  | some .monitor => { m with monitorThread := true }
  | some .reconnect => { m with reconnectThread := true }

/-- Assigning a new thread to a handle; a joinable handle terminates the program. -/
def State.spawn (s : State) : Option Handle → Option State
  | none => some s
  | some .heartbeat =>
    if s.members.heartbeatThread ∨ s.heartbeat ≠ none then none
    else some { s with members := s.members.hold (some .heartbeat), heartbeat := some .loadRun }
  | some .monitor =>
    if s.members.monitorThread ∨ s.monitor ≠ none then none
    else some { s with members := s.members.hold (some .monitor), monitor := some .loadRun }
  | some .reconnect =>
    if s.members.reconnectThread ∨ s.reconnect ≠ none then none
    else some { s with
      members := s.members.hold (some .reconnect)
      reconnect := some (.loadRun cfg.initialBackoffMs) }

/-- The state after a thread's step, with the thread where `put` puts it. -/
def State.after {π : Type} (s : State) (put : π → State → State) (o : Option (Effect π)) :
    State × List Event :=
  match o with
  | none => ({ s with fault := true },[])
  | some e =>
    match (put e.pc { s with members := e.members }).spawn cfg e.spawn with
    | none => ({ s with fault := true },[])
    | some s' => (s',e.events)

/-- `stop`; a join waits until the thread has finished. -/
def stopStep (s : State) : StopPc → Option (State × List Event)
  | .loadRun => some ({ s with
      user := if s.members.shouldRun then .stop .storeClosing else .stopped },[])
  | .storeClosing => some ({ s with
      members := s.members.setState .closing
      user := .stop .clearRun },[.setState .closing])
  | .clearRun => some ({ s with
      members := { s.members with shouldRun := false }
      user := .stop .readClient },[])
  | .readClient => some ({ s with
      user := .stop (if s.members.client.isSome then .close else .checkHeartbeat) },[])
  | .close =>
    match s.members.client with
    | none => some ({ s with fault := true },[])
    | some c => some ({ s with
        members := { s.members with client := some { c with running := false } }
        user := .stop (.closing c.generation) },[])
  | .closing generation =>
    -- the receiver's end has no other effect on the members than that of `close`
    if s.members.client.map ClientObject.generation = some generation then
      some ({ s with user := .stop .checkHeartbeat },[])
    else some ({ s with fault := true },[])
  | .checkHeartbeat => some ({ s with
      user := .stop (if s.members.heartbeatThread then .joinHeartbeat else .checkMonitor) },[])
  | .joinHeartbeat =>
    if s.heartbeat = none then some ({ s with
      members := { s.members with heartbeatThread := false }
      user := .stop .checkMonitor },[])
    else none
  | .checkMonitor => some ({ s with
      user := .stop (if s.members.monitorThread then .joinMonitor else .checkReconnect) },[])
  | .joinMonitor =>
    if s.monitor = none then some ({ s with
      members := { s.members with monitorThread := false }
      user := .stop .checkReconnect },[])
    else none
  | .checkReconnect => some ({ s with
      user := .stop (if s.members.reconnectThread then .joinReconnect else .storeClosed) },[])
  | .joinReconnect =>
    if s.reconnect = none then some ({ s with
      members := { s.members with reconnectThread := false }
      user := .stop .storeClosed },[])
    else none
  | .storeClosed => some ({ s with
      members := s.members.setState .closed
      user := .stopped },[.setState .closed])

def step (s : State) (a : Action) : Option (State × List Event) :=
  if s.fault then none
  else match a with
    | .start =>
      if s.user = .fresh ∨ s.user = .stopped then
        some ({ s with user := .start .storeRun },[])
      else none
    | .stop => if s.user = .started then some ({ s with user := .stop .loadRun },[]) else none
    | .user ok =>
      match s.user with
      | .start pc => some (s.after cfg State.putUser (startStep cfg s.members pc ok))
      | .stop pc => stopStep s pc
      | _ => none
    | .reconnect ok =>
      s.reconnect.map fun pc =>
        s.after cfg State.putReconnect (reconnectStep cfg s.members pc ok)
    | .monitor ok =>
      s.monitor.map fun pc => s.after cfg State.putMonitor (monitorStep cfg s.members pc ok)
    | .heartbeat ok =>
      s.heartbeat.map fun pc => s.after cfg State.putHeartbeat (heartbeatStep s.members pc ok)
    | .loss =>
      s.members.client.map fun c => ({ s with
        members := { s.members with client := some { c with running := false } } },[])

/-- A manager, its threads and the thread that calls `start` and `stop`. -/
def manager : System State Action Event := ⟨step cfg⟩

/-- Runs that call `start` once. -/
def Once (s : State) (a : Action) : Prop := a = .start → s.user = .fresh

instance : ∀ s a, Decidable (Once s a) := fun _ _ => inferInstanceAs (Decidable (_ → _))

end WsClient.Connection
