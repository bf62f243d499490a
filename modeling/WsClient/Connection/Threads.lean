import WsClient.Connection.Model

/-!
# The manager's threads

What one step of the manager can do, said once: by kind of step, and for each thread's
function what it leaves alone and where it spawns. The invariant `Solo` says which threads can
live together.
-/

namespace WsClient.Connection
open WsClient.Lib

/-- A step of the manager by kind. -/
inductive Transition (cfg : ConnectionConfig) (s : State) : Action → List Event → State → Prop
  | fault {a} : Transition cfg s a [] { s with fault := true }
  | startCall : s.user = .fresh ∨ s.user = .stopped →
      Transition cfg s .start [] { s with user := .start .storeRun }
  | stopCall : s.user = .started → Transition cfg s .stop [] { s with user := .stop .loadRun }
  | start {pc ok e s'} : s.user = .start pc → startStep cfg s.members pc ok = some e →
      (State.putUser e.pc { s with members := e.members }).spawn cfg e.spawn = some s' →
      Transition cfg s (.user ok) e.events s'
  | stop {pc ok es s'} : s.user = .stop pc → stopStep s pc = some (s',es) →
      Transition cfg s (.user ok) es s'
  | reconnect {pc ok e s'} : s.reconnect = some pc → reconnectStep cfg s.members pc ok = some e →
      (State.putReconnect e.pc { s with members := e.members }).spawn cfg e.spawn = some s' →
      Transition cfg s (.reconnect ok) e.events s'
  | monitor {pc ok e s'} : s.monitor = some pc → monitorStep cfg s.members pc ok = some e →
      (State.putMonitor e.pc { s with members := e.members }).spawn cfg e.spawn = some s' →
      Transition cfg s (.monitor ok) e.events s'
  | heartbeat {pc ok e s'} : s.heartbeat = some pc → heartbeatStep s.members pc ok = some e →
      (State.putHeartbeat e.pc { s with members := e.members }).spawn cfg e.spawn = some s' →
      Transition cfg s (.heartbeat ok) e.events s'
  | loss {c} : s.members.client = some c → Transition cfg s .loss [] { s with
      members := { s.members with client := some { c with running := false } } }

variable {cfg : ConnectionConfig} {m : Members} {ok : Bool} {s s' : State} {a : Action}
  {es : List Event}

/-- A thread's step faults or lands. -/
theorem after_cases {π : Type} {put : π → State → State} {o : Option (Effect π)}
    (h : s.after cfg put o = (s',es)) :
    (s' = { s with fault := true } ∧ es = []) ∨
      ∃ e, o = some e ∧ es = e.events ∧
        (put e.pc { s with members := e.members }).spawn cfg e.spawn = some s' := by
  cases o with
  | none =>
    cases h
    exact .inl ⟨rfl,rfl⟩
  | some e =>
    simp only [State.after] at h
    split at h
    · cases h
      exact .inl ⟨rfl,rfl⟩
    · next hland =>
      cases h
      exact .inr ⟨e,rfl,rfl,hland⟩

theorem step_transition (hs : (manager cfg).step s a = some (s',es)) :
    Transition cfg s a es s' := by
  simp only [manager,step] at hs
  split at hs
  · cases hs
  cases a with
  | start =>
    simp only at hs
    split at hs <;> cases hs
    exact .startCall ‹_›
  | stop =>
    simp only at hs
    split at hs <;> cases hs
    exact .stopCall ‹_›
  | user ok =>
    simp only at hs
    split at hs
    · next pc hpc =>
      rcases after_cases (Option.some.inj hs) with ⟨rfl,rfl⟩ | ⟨e,he,rfl,hland⟩
      · exact .fault
      · exact .start hpc he hland
    · next pc hpc => exact .stop hpc hs
    · cases hs
  | reconnect ok =>
    obtain ⟨pc,hpc,hs⟩ := Option.map_eq_some_iff.mp hs
    rcases after_cases hs with ⟨rfl,rfl⟩ | ⟨e,he,rfl,hland⟩
    · exact .fault
    · exact .reconnect hpc he hland
  | monitor ok =>
    obtain ⟨pc,hpc,hs⟩ := Option.map_eq_some_iff.mp hs
    rcases after_cases hs with ⟨rfl,rfl⟩ | ⟨e,he,rfl,hland⟩
    · exact .fault
    · exact .monitor hpc he hland
  | heartbeat ok =>
    obtain ⟨pc,hpc,hs⟩ := Option.map_eq_some_iff.mp hs
    rcases after_cases hs with ⟨rfl,rfl⟩ | ⟨e,he,rfl,hland⟩
    · exact .fault
    · exact .heartbeat hpc he hland
  | loss =>
    obtain ⟨c,hc,hs⟩ := Option.map_eq_some_iff.mp hs
    cases hs
    exact .loss hc

/-- The three handles' `joinable()`. -/
def Members.handles (m : Members) : Bool × Bool × Bool :=
  (m.heartbeatThread,m.monitorThread,m.reconnectThread)

/-- `try_connect` touches `client_` only, and spawns no thread of the manager's. -/
theorem tryConnectStep_frame {pc : ConnectPc} {e : Effect (ConnectPc ⊕ Bool)}
    (h : tryConnectStep cfg m pc ok = some e) :
    e.spawn = none ∧ e.members = { m with
      client := e.members.client, generation := e.members.generation } := by
  cases pc with
  | create =>
    cases h
    exact ⟨rfl,rfl⟩
  | connect =>
    obtain ⟨c,_,rfl⟩ := Option.map_eq_some_iff.mp h
    cases ok <;> exact ⟨rfl,rfl⟩
  | onConnect =>
    cases h
    exact ⟨rfl,rfl⟩
  | reset =>
    cases h
    exact ⟨rfl,rfl⟩

/-- What `reconnect_loop` does to the handles: it spawns at two places, the monitor thread only
after it has found that handle free. -/
structure LoopFrame (m : Members) (pc : LoopPc) (e : Effect LoopPc) : Prop where
  handles : e.members.handles = m.handles
  shouldRun : e.members.shouldRun = m.shouldRun
  spawn : e.spawn = none ∨ (pc = .spawnHeartbeat ∧ e.spawn = some .heartbeat ∧ e.pc = .checkMonitor) ∨
    (pc = .spawnMonitor ∧ e.spawn = some .monitor ∧ e.pc = .ret)
  spawnMonitor : e.pc = .spawnMonitor → m.monitorThread = false

theorem loopStep_frame {pc : LoopPc} {e : Effect LoopPc} (h : loopStep cfg m pc ok = some e) :
    LoopFrame m pc e := by
  cases pc with
  | tryConnect b pc =>
    obtain ⟨e₀,he₀,rfl⟩ := Option.map_eq_some_iff.mp h
    obtain ⟨hspawn,hmem⟩ := tryConnectStep_frame he₀
    refine ⟨?_,?_,.inl hspawn,?_⟩
    · rw [Effect.map,hmem]
      rfl
    · rw [Effect.map,hmem]
    · simp only [Effect.map]
      split <;> simp
  | writeCount b count =>
    simp only [loopStep] at h
    split at h <;> cases h
    exact ⟨rfl,rfl,.inl rfl,by simp⟩
  | scaleBackoff b =>
    obtain ⟨b',_,rfl⟩ := Option.map_eq_some_iff.mp h
    exact ⟨rfl,rfl,.inl rfl,by simp⟩
  | spawnHeartbeat =>
    cases h
    exact ⟨rfl,rfl,.inr (.inl ⟨rfl,rfl,rfl⟩),by simp⟩
  | spawnMonitor =>
    cases h
    exact ⟨rfl,rfl,.inr (.inr ⟨rfl,rfl,rfl⟩),by simp⟩
  | _ =>
    cases h
    exact ⟨rfl,rfl,.inl rfl,by grind⟩

/-- What `start` does to the handles. -/
structure StartFrame (m : Members) (pc : StartPc) (e : Effect UserPc) : Prop where
  handles : e.members.handles = m.handles
  spawn : (e.spawn = none ∧ ((∃ pc, e.pc = .start pc) ∨ e.pc = .started)) ∨
    (pc = .spawnHeartbeat ∧ e.spawn = some .heartbeat ∧ e.pc = .start .spawnMonitor) ∨
    (pc = .spawnMonitor ∧ e.spawn = some .monitor ∧ e.pc = .started) ∨
    (pc = .spawnReconnect ∧ e.spawn = some .reconnect ∧ e.pc = .started)

theorem startStep_frame {pc : StartPc} {e : Effect UserPc} (h : startStep cfg m pc ok = some e) :
    StartFrame m pc e := by
  cases pc with
  | tryConnect pc =>
    obtain ⟨e₀,he₀,rfl⟩ := Option.map_eq_some_iff.mp h
    obtain ⟨hspawn,hmem⟩ := tryConnectStep_frame he₀
    refine ⟨?_,.inl ⟨hspawn,.inl ?_⟩⟩
    · rw [Effect.map,hmem]
      rfl
    · simp only [Effect.map]
      split <;> exact ⟨_,rfl⟩
  | spawnHeartbeat =>
    cases h
    exact ⟨rfl,.inr (.inl ⟨rfl,rfl,rfl⟩)⟩
  | spawnMonitor =>
    cases h
    exact ⟨rfl,.inr (.inr (.inl ⟨rfl,rfl,rfl⟩))⟩
  | spawnReconnect =>
    cases h
    exact ⟨rfl,.inr (.inr (.inr ⟨rfl,rfl,rfl⟩))⟩
  | storeDisconnected =>
    cases h
    exact ⟨rfl,.inl ⟨rfl,.inr rfl⟩⟩
  | _ =>
    cases h
    exact ⟨rfl,.inl ⟨rfl,.inl ⟨_,rfl⟩⟩⟩

theorem reconnectStep_loop {pc : LoopPc} (hpc : pc ≠ .ret) :
    reconnectStep cfg m pc ok = (loopStep cfg m pc ok).map (Effect.map some) := by
  cases pc <;> first | rfl | exact absurd rfl hpc

theorem monitorStep_loop {pc : LoopPc} (hpc : pc ≠ .ret) :
    monitorStep cfg m (.reconnectLoop pc) ok =
      (loopStep cfg m pc ok).map (Effect.map fun pc => some (.reconnectLoop pc)) := by
  cases pc <;> first | rfl | exact absurd rfl hpc

theorem monitorStep_of_loop {pc : LoopPc} {e : Effect LoopPc} (hpc : pc ≠ .ret)
    (h : loopStep cfg m pc ok = some e) :
    monitorStep cfg m (.reconnectLoop pc) ok = some (e.map fun pc => some (.reconnectLoop pc)) := by
  rw [monitorStep_loop hpc,h]
  rfl

theorem reconnectStep_cases {pc : LoopPc} {e : Effect (Option LoopPc)}
    (h : reconnectStep cfg m pc ok = some e) :
    (pc = .ret ∧ e = { members := m, pc := none }) ∨
      (pc ≠ .ret ∧ ∃ e₀, loopStep cfg m pc ok = some e₀ ∧ e = e₀.map some) := by
  by_cases hpc : pc = .ret
  · subst hpc
    cases h
    exact .inl ⟨rfl,rfl⟩
  · refine .inr ⟨hpc,?_⟩
    rw [reconnectStep_loop hpc] at h
    obtain ⟨e₀,he₀,rfl⟩ := Option.map_eq_some_iff.mp h
    exact ⟨e₀,he₀,rfl⟩

/-- `monitor_loop` is in `reconnect_loop`, or spawns nothing. -/
theorem monitorStep_cases {pc : MonitorPc} {e : Effect (Option MonitorPc)}
    (h : monitorStep cfg m pc ok = some e) :
    (∃ p e₀, pc = .reconnectLoop p ∧ p ≠ .ret ∧ loopStep cfg m p ok = some e₀ ∧
        e = e₀.map fun p => some (.reconnectLoop p)) ∨
      (e.spawn = none ∧ e.members.handles = m.handles ∧ e.members.shouldRun = m.shouldRun ∧
        e.pc ≠ some (.reconnectLoop .spawnMonitor)) := by
  cases pc with
  | reconnectLoop p =>
    by_cases hp : p = .ret
    · subst hp
      cases h
      exact .inr ⟨rfl,rfl,rfl,by simp⟩
    · rw [monitorStep_loop hp] at h
      obtain ⟨e₀,he₀,rfl⟩ := Option.map_eq_some_iff.mp h
      exact .inl ⟨p,e₀,rfl,hp,he₀,rfl⟩
  | isRunning =>
    obtain ⟨c,_,rfl⟩ := Option.map_eq_some_iff.mp h
    exact .inr ⟨rfl,rfl,rfl,by grind⟩
  | _ =>
    cases h
    exact .inr ⟨rfl,rfl,rfl,by grind⟩

/-- Neither `client_` nor the count of clients created has changed. -/
structure KeepsClient (m m' : Members) : Prop where
  client : m'.client = m.client
  generation : m'.generation = m.generation

theorem KeepsClient.refl (m : Members) : KeepsClient m m := ⟨rfl,rfl⟩

/-- Outside `try_connect` `start` leaves `client_` alone; `Closing` it never stores. -/
theorem startStep_connects {pc : StartPc} {e : Effect UserPc}
    (h : startStep cfg m pc ok = some e) :
    (∃ p e₀, pc = .tryConnect p ∧ tryConnectStep cfg m p ok = some e₀ ∧
        e.members = e₀.members ∧ e.events = e₀.events) ∨
      (KeepsClient m e.members ∧ .setState .closing ∉ e.events) := by
  cases pc with
  | tryConnect p =>
    obtain ⟨e₀,he₀,rfl⟩ := Option.map_eq_some_iff.mp h
    exact .inl ⟨p,e₀,rfl,he₀,rfl,rfl⟩
  | _ =>
    cases h
    exact .inr ⟨⟨rfl,rfl⟩,by simp⟩

/-- Outside `try_connect` `reconnect_loop` leaves `client_` alone; `Closing` it never stores. -/
theorem loopStep_connects {pc : LoopPc} {e : Effect LoopPc} (h : loopStep cfg m pc ok = some e) :
    (∃ b p e₀, pc = .tryConnect b p ∧ tryConnectStep cfg m p ok = some e₀ ∧
        e.members = e₀.members ∧ e.events = e₀.events) ∨
      (KeepsClient m e.members ∧ .setState .closing ∉ e.events) := by
  cases pc with
  | tryConnect b p =>
    obtain ⟨e₀,he₀,rfl⟩ := Option.map_eq_some_iff.mp h
    exact .inl ⟨b,p,e₀,rfl,he₀,rfl,rfl⟩
  | scaleBackoff b =>
    obtain ⟨b',_,rfl⟩ := Option.map_eq_some_iff.mp h
    exact .inr ⟨.refl m,by simp⟩
  | writeCount b count =>
    simp only [loopStep] at h
    split at h <;> cases h
    exact .inr ⟨⟨rfl,rfl⟩,by simp⟩
  | _ =>
    cases h
    exact .inr ⟨⟨rfl,rfl⟩,by simp⟩

/-- Outside `reconnect_loop` `monitor_loop` resets `client_` at one place. -/
theorem monitorStep_connects {pc : MonitorPc} {e : Effect (Option MonitorPc)}
    (h : monitorStep cfg m pc ok = some e) :
    (∃ p e₀, pc = .reconnectLoop p ∧ loopStep cfg m p ok = some e₀ ∧
        e.members = e₀.members ∧ e.events = e₀.events) ∨
      (((pc = .resetClient ∧ e.members = { m with client := none }) ∨ KeepsClient m e.members) ∧
        .setState .closing ∉ e.events) := by
  cases pc with
  | reconnectLoop p =>
    by_cases hp : p = .ret
    · subst hp
      cases h
      exact .inr ⟨.inr (.refl m),by simp⟩
    · rw [monitorStep_loop hp] at h
      obtain ⟨e₀,he₀,rfl⟩ := Option.map_eq_some_iff.mp h
      exact .inl ⟨p,e₀,rfl,he₀,rfl,rfl⟩
  | isRunning =>
    obtain ⟨c,_,rfl⟩ := Option.map_eq_some_iff.mp h
    exact .inr ⟨.inr (.refl m),by simp⟩
  | resetClient =>
    cases h
    exact .inr ⟨.inl ⟨rfl,rfl⟩,by simp⟩
  | _ =>
    cases h
    exact .inr ⟨.inr ⟨rfl,rfl⟩,by simp⟩

theorem heartbeatStep_frame {pc : HeartbeatPc} {e : Effect (Option HeartbeatPc)}
    (h : heartbeatStep m pc ok = some e) :
    e.spawn = none ∧ (e.events = [] ∨ e.events = [.ping]) ∧
      e.members = { m with client := e.members.client } ∧
      e.members.client.map ClientObject.generation = m.client.map ClientObject.generation := by
  cases pc with
  | isRunning =>
    obtain ⟨c,_,rfl⟩ := Option.map_eq_some_iff.mp h
    exact ⟨rfl,.inl rfl,rfl,rfl⟩
  | sendPing =>
    obtain ⟨c,hc,rfl⟩ := Option.map_eq_some_iff.mp h
    cases ok
    · exact ⟨rfl,.inl rfl,rfl,by simp [hc]⟩
    · exact ⟨rfl,.inr rfl,rfl,rfl⟩
  | _ =>
    cases h
    exact ⟨rfl,.inl rfl,rfl,rfl⟩

theorem spawn_none {s s' : State} : s.spawn cfg none = some s' ↔ s' = s := by
  simp [State.spawn,eq_comm]

theorem spawn_heartbeat {s s' : State} (h : s.spawn cfg (some .heartbeat) = some s') :
    s.members.heartbeatThread = false ∧ s.heartbeat = none ∧
      s' = { s with members := s.members.hold (some .heartbeat), heartbeat := some .loadRun } := by
  simp only [State.spawn] at h
  split at h <;> cases h
  next hfree => simpa using hfree

theorem spawn_monitor {s s' : State} (h : s.spawn cfg (some .monitor) = some s') :
    s.members.monitorThread = false ∧ s.monitor = none ∧
      s' = { s with members := s.members.hold (some .monitor), monitor := some .loadRun } := by
  simp only [State.spawn] at h
  split at h <;> cases h
  next hfree => simpa using hfree

theorem spawn_reconnect {s s' : State} (h : s.spawn cfg (some .reconnect) = some s') :
    s.members.reconnectThread = false ∧ s.reconnect = none ∧
      s' = { s with
        members := s.members.hold (some .reconnect)
        reconnect := some (.loadRun cfg.initialBackoffMs) } := by
  simp only [State.spawn] at h
  split at h <;> cases h
  next hfree => simpa using hfree

/-- `start` has not returned. -/
def UserPc.Starting : UserPc → Prop
  | .fresh | .start _ => True
  | _ => False

/-- What the other threads do to the members while one drives the connection. -/
structure Rely (m m' : Members) : Prop where
  count : m'.reconnectCount = m.reconnectCount
  client : m'.client.map ClientObject.generation = m.client.map ClientObject.generation
  state : m'.state = m.state ∨ m'.state = .closing ∨ m'.state = .closed

theorem Rely.refl (m : Members) : Rely m m := ⟨rfl,rfl,.inl rfl⟩

/-- Events of the threads that do not drive the connection. -/
def Quiet (es : List Event) : Prop :=
  ∀ e ∈ es, e = .ping ∨ e = .setState .closing ∨ e = .setState .closed

/-- What `stop` does: it clears a handle only when the thread behind it has finished. -/
structure StopFrame (s s' : State) (es : List Event) : Prop where
  user : ¬s'.user.Starting
  threads : s'.heartbeat = s.heartbeat ∧ s'.monitor = s.monitor ∧ s'.reconnect = s.reconnect
  heartbeatThread : s'.members.heartbeatThread = s.members.heartbeatThread ∨
    s.heartbeat = none ∧ s'.members.heartbeatThread = false
  monitorThread : s'.members.monitorThread = s.members.monitorThread ∨
    s.monitor = none ∧ s'.members.monitorThread = false
  reconnectThread : s'.members.reconnectThread = s.members.reconnectThread ∨
    s.reconnect = none ∧ s'.members.reconnectThread = false
  rely : Rely s.members s'.members
  quiet : Quiet es

/-- The heartbeat thread once a spawn has been made. -/
def heartbeatAfter (heartbeat : Option HeartbeatPc) : Option Handle → Option HeartbeatPc
  | some .heartbeat => some .loadRun
  | _ => heartbeat

/-- What a spawn does besides starting the thread. -/
structure SpawnFrame (o : Option Handle) (s s' : State) : Prop where
  user : s'.user = s.user
  members : s'.members = s.members.hold o
  heartbeat : s'.heartbeat = heartbeatAfter s.heartbeat o
  monitor : o ≠ some .monitor → s'.monitor = s.monitor
  reconnect : o ≠ some .reconnect → s'.reconnect = s.reconnect

theorem spawn_frame {o : Option Handle} {s s' : State} (h : s.spawn cfg o = some s') :
    SpawnFrame o s s' := by
  cases o with
  | none =>
    obtain rfl := spawn_none.mp h
    exact ⟨rfl,rfl,rfl,fun _ => rfl,fun _ => rfl⟩
  | some handle =>
    cases handle with
    | heartbeat =>
      obtain ⟨_,_,rfl⟩ := spawn_heartbeat h
      exact ⟨rfl,rfl,rfl,fun _ => rfl,fun _ => rfl⟩
    | monitor =>
      obtain ⟨_,_,rfl⟩ := spawn_monitor h
      exact ⟨rfl,rfl,rfl,fun hne => absurd rfl hne,fun _ => rfl⟩
    | reconnect =>
      obtain ⟨_,_,rfl⟩ := spawn_reconnect h
      exact ⟨rfl,rfl,rfl,fun _ => rfl,fun hne => absurd rfl hne⟩

/-- One thread at a time: `start` runs alone, `reconnect_loop` on its own thread runs before
the monitor thread exists, and a thread lives only behind a joinable handle. -/
structure Solo (s : State) : Prop where
  starting : s.user.Starting →
    s.reconnect = none ∧ s.monitor = none ∧ s.members.monitorThread = false
  looping : ∀ pc, s.reconnect = some pc → pc ≠ .ret →
    s.monitor = none ∧ s.members.monitorThread = false
  reconnectHeld : s.reconnect ≠ none → s.members.reconnectThread = true
  monitorHeld : s.monitor ≠ none → s.members.monitorThread = true
  heartbeatHeld : s.heartbeat ≠ none → s.members.heartbeatThread = true
  spawned : s.monitor ≠ some (.reconnectLoop .spawnMonitor)

theorem stopStep_frame {pc : StopPc} (hu : s.user = .stop pc) (h : stopStep s pc = some (s',es)) :
    StopFrame s s' es := by
  have hfault : ¬s.user.Starting := by
    rw [hu]
    exact id
  cases pc with
  | close =>
    simp only [stopStep] at h
    split at h <;> cases h
    · exact ⟨hfault,⟨rfl,rfl,rfl⟩,.inl rfl,.inl rfl,.inl rfl,.refl _,by simp [Quiet]⟩
    · next c hc =>
      exact ⟨id,⟨rfl,rfl,rfl⟩,.inl rfl,.inl rfl,.inl rfl,
        ⟨rfl,by simp [hc],.inl rfl⟩,by simp [Quiet]⟩
  | closing generation =>
    simp only [stopStep] at h
    split at h <;> cases h
    · exact ⟨id,⟨rfl,rfl,rfl⟩,.inl rfl,.inl rfl,.inl rfl,.refl _,
        by simp [Quiet]⟩
    · exact ⟨hfault,⟨rfl,rfl,rfl⟩,.inl rfl,.inl rfl,.inl rfl,.refl _,by simp [Quiet]⟩
  | joinHeartbeat =>
    simp only [stopStep] at h
    split at h <;> cases h
    next hdone =>
      exact ⟨id,⟨rfl,rfl,rfl⟩,.inr ⟨hdone,rfl⟩,.inl rfl,.inl rfl,
        ⟨rfl,rfl,.inl rfl⟩,by simp [Quiet]⟩
  | joinMonitor =>
    simp only [stopStep] at h
    split at h <;> cases h
    next hdone =>
      exact ⟨id,⟨rfl,rfl,rfl⟩,.inl rfl,.inr ⟨hdone,rfl⟩,.inl rfl,
        ⟨rfl,rfl,.inl rfl⟩,by simp [Quiet]⟩
  | joinReconnect =>
    simp only [stopStep] at h
    split at h <;> cases h
    next hdone =>
      exact ⟨id,⟨rfl,rfl,rfl⟩,.inl rfl,.inl rfl,.inr ⟨hdone,rfl⟩,
        ⟨rfl,rfl,.inl rfl⟩,by simp [Quiet]⟩
  | storeClosing =>
    cases h
    exact ⟨id,⟨rfl,rfl,rfl⟩,.inl rfl,.inl rfl,.inl rfl,
      ⟨rfl,rfl,.inr (.inl rfl)⟩,by simp [Quiet]⟩
  | storeClosed =>
    cases h
    exact ⟨id,⟨rfl,rfl,rfl⟩,.inl rfl,.inl rfl,.inl rfl,
      ⟨rfl,rfl,.inr (.inr rfl)⟩,by simp [Quiet]⟩
  | clearRun =>
    cases h
    exact ⟨id,⟨rfl,rfl,rfl⟩,.inl rfl,.inl rfl,.inl rfl,⟨rfl,rfl,.inl rfl⟩,by simp [Quiet]⟩
  | _ =>
    cases h
    refine ⟨?_,⟨rfl,rfl,rfl⟩,.inl rfl,.inl rfl,.inl rfl,.refl _,by simp [Quiet]⟩
    dsimp only
    split <;> exact id

theorem Members.handles_eq {m m' : Members} (h : m'.handles = m.handles) :
    m'.heartbeatThread = m.heartbeatThread ∧ m'.monitorThread = m.monitorThread ∧
      m'.reconnectThread = m.reconnectThread := by
  simpa [Members.handles] using h

/-- A join of `stop` clears a handle, but only once the thread behind it is gone. -/
theorem Solo.stop (h : Solo s) {pc : StopPc} (hu : s.user = .stop pc)
    (hs : stopStep s pc = some (s',es)) : Solo s' := by
  have hf := stopStep_frame hu hs
  obtain ⟨hh,hm,hr⟩ := hf.threads
  refine ⟨fun hst => absurd hst hf.user,?_,?_,?_,?_,?_⟩
  · intro pc hpc hne
    rw [hr] at hpc
    obtain ⟨hnone,hfree⟩ := h.looping pc hpc hne
    refine ⟨hm.trans hnone,?_⟩
    rcases hf.monitorThread with he | ⟨_,he⟩
    · exact he.trans hfree
    · exact he
  · intro hlive
    rw [hr] at hlive
    rcases hf.reconnectThread with he | ⟨hnone,_⟩
    · exact he.trans (h.reconnectHeld hlive)
    · exact absurd hnone hlive
  · intro hlive
    rw [hm] at hlive
    rcases hf.monitorThread with he | ⟨hnone,_⟩
    · exact he.trans (h.monitorHeld hlive)
    · exact absurd hnone hlive
  · intro hlive
    rw [hh] at hlive
    rcases hf.heartbeatThread with he | ⟨hnone,_⟩
    · exact he.trans (h.heartbeatHeld hlive)
    · exact absurd hnone hlive
  · rw [hm]
    exact h.spawned

/-- `start` makes at most one of the two other drivers, and returns with it. -/
theorem Solo.start (h : Solo s) {pc : StartPc} {e : Effect UserPc} (hu : s.user = .start pc)
    (he : startStep cfg s.members pc ok = some e)
    (hland : (State.putUser e.pc { s with members := e.members }).spawn cfg e.spawn = some s') :
    Solo s' := by
  obtain ⟨hr,hm,hfree⟩ := h.starting (by rw [hu]; trivial)
  have hf := startStep_frame he
  obtain ⟨hhb,hmt,hrt⟩ := Members.handles_eq hf.handles
  have hbeat := h.heartbeatHeld
  rcases hf.spawn with ⟨hs,_⟩ | ⟨_,hs,hpc⟩ | ⟨_,hs,hpc⟩ | ⟨_,hs,hpc⟩ <;> rw [hs] at hland
  · obtain rfl := spawn_none.mp hland
    constructor <;> simp_all [State.putUser]
  · obtain ⟨_,_,rfl⟩ := spawn_heartbeat hland
    constructor <;> simp_all [State.putUser,Members.hold]
  · obtain ⟨_,_,rfl⟩ := spawn_monitor hland
    constructor <;> simp_all [State.putUser,Members.hold,UserPc.Starting]
  · obtain ⟨_,_,rfl⟩ := spawn_reconnect hland
    constructor <;> simp_all [State.putUser,Members.hold,UserPc.Starting]

theorem Solo.reconnect (h : Solo s) {pc : LoopPc} {e : Effect (Option LoopPc)}
    (hr : s.reconnect = some pc) (he : reconnectStep cfg s.members pc ok = some e)
    (hland : (State.putReconnect e.pc { s with members := e.members }).spawn cfg e.spawn =
      some s') : Solo s' := by
  have huser : ¬s.user.Starting := fun hst => by simp [(h.starting hst).1] at hr
  have hbeat := h.heartbeatHeld
  have hheld := h.reconnectHeld (by simp [hr])
  rcases reconnectStep_cases he with ⟨_,rfl⟩ | ⟨hne,e,hloop,rfl⟩
  · obtain rfl := spawn_none.mp hland
    exact ⟨fun hst => absurd hst huser,by simp [State.putReconnect],by simp [State.putReconnect],
      h.monitorHeld,hbeat,h.spawned⟩
  · obtain ⟨hm,hfree⟩ := h.looping _ hr hne
    have hf := loopStep_frame hloop
    obtain ⟨hhb,hmt,hrt⟩ := Members.handles_eq hf.handles
    rcases hf.spawn with hs | ⟨_,hs,hpc⟩ | ⟨_,hs,hpc⟩ <;> simp only [Effect.map,hs] at hland
    · obtain rfl := spawn_none.mp hland
      constructor <;> simp_all [State.putReconnect]
    · obtain ⟨_,_,rfl⟩ := spawn_heartbeat hland
      constructor <;> simp_all [State.putReconnect,Members.hold]
    · obtain ⟨_,_,rfl⟩ := spawn_monitor hland
      constructor <;> simp_all [State.putReconnect,Members.hold]

theorem Solo.monitor (h : Solo s) {pc : MonitorPc} {e : Effect (Option MonitorPc)}
    (hm : s.monitor = some pc) (he : monitorStep cfg s.members pc ok = some e)
    (hland : (State.putMonitor e.pc { s with members := e.members }).spawn cfg e.spawn = some s') :
    Solo s' := by
  have huser : ¬s.user.Starting := fun hst => by simp [(h.starting hst).2.1] at hm
  have hloop : ∀ pc, s.reconnect = some pc → pc = .ret := fun pc hpc => by
    by_contra hne
    simp [(h.looping pc hpc hne).1] at hm
  have hbeat := h.heartbeatHeld
  have hrec := h.reconnectHeld
  have hheld := h.monitorHeld (by simp [hm])
  have hspawned := h.spawned
  rcases monitorStep_cases he with ⟨p,e,rfl,hne,hp,rfl⟩ | ⟨hs,hhand,_,hpc⟩
  · have hf := loopStep_frame hp
    obtain ⟨hhb,hmt,hrt⟩ := Members.handles_eq hf.handles
    -- the monitor thread's own handle is joinable, so it never spawns a second one
    have hnot : e.pc ≠ .spawnMonitor := fun hpc => by simp [hf.spawnMonitor hpc] at hheld
    rcases hf.spawn with hs | ⟨_,hs,hpc⟩ | ⟨rfl,_,_⟩
    · simp only [Effect.map,hs] at hland
      obtain rfl := spawn_none.mp hland
      constructor <;> simp_all [State.putMonitor]
    · simp only [Effect.map,hs] at hland
      obtain ⟨_,_,rfl⟩ := spawn_heartbeat hland
      constructor <;> simp_all [State.putMonitor,Members.hold]
    · exact absurd hm hspawned
  · rw [hs] at hland
    obtain rfl := spawn_none.mp hland
    obtain ⟨hhb,hmt,hrt⟩ := Members.handles_eq hhand
    constructor <;> simp_all [State.putMonitor]

theorem Solo.step (h : Solo s) (ho : Once s a) (ht : Transition cfg s a es s') : Solo s' := by
  cases ht with
  | fault => exact ⟨h.starting,h.looping,h.reconnectHeld,h.monitorHeld,h.heartbeatHeld,h.spawned⟩
  | loss _ => exact ⟨h.starting,h.looping,h.reconnectHeld,h.monitorHeld,h.heartbeatHeld,h.spawned⟩
  | startCall _ =>
    have hfresh := h.starting (by rw [ho rfl]; trivial)
    exact ⟨fun _ => hfresh,h.looping,h.reconnectHeld,h.monitorHeld,h.heartbeatHeld,h.spawned⟩
  | stopCall _ =>
    exact ⟨False.elim,h.looping,h.reconnectHeld,h.monitorHeld,h.heartbeatHeld,
      h.spawned⟩
  | stop hu hs => exact h.stop hu hs
  | start hu he hland => exact h.start hu he hland
  | reconnect hr he hland => exact h.reconnect hr he hland
  | monitor hm he hland => exact h.monitor hm he hland
  | heartbeat hh he hland =>
    obtain ⟨hs,_,hmem,_⟩ := heartbeatStep_frame he
    rw [hs] at hland
    obtain rfl := spawn_none.mp hland
    have hheld := h.heartbeatHeld (by simp [hh])
    rw [hmem]
    exact ⟨h.starting,h.looping,h.reconnectHeld,h.monitorHeld,fun _ => hheld,h.spawned⟩

end WsClient.Connection
