import WsClient.Connection.Generation
import WsClient.Connection.Shutdown

/-!
# The handling of a loss

Which steps of the driver belong to it, what leads into it, and that a driver that is in it goes
on. A driver that stays out of it keeps the client as well, unless it is in an attempt of its own.
-/

namespace WsClient.Connection
open WsClient.Lib

/-- A loss is stored or reported, or an attempt begins. -/
def Event.recovery : Event → Bool
  | .setState .reconnecting | .onDisconnect .connectionLost | .construct _ _ _ => true
  | _ => false

/-- Past the limit check of `reconnect_loop`, and not yet in `try_connect`. -/
def LoopPc.recovering : LoopPc → Bool
  | .onReconnect _ | .sleep _ | .tryConnect _ .create => true
  | _ => false

/-- Nothing keeps the driver from such an event. -/
def Driver.recovering : Driver → Bool
  | .thread .storeReconnecting | .thread .onDisconnect => true
  | .thread (.reconnectLoop pc) => pc.recovering
  | _ => false

/-- In `try_connect`, before `connect` has returned. -/
def Driver.connecting : Driver → Bool
  | .thread (.reconnectLoop (.tryConnect _ .connect)) => true
  | _ => false

/-- The driver's step stays out of the handling of a loss, and does not lead to a reset of the
client of generation `given`: the monitor finds the client running, the loop the limit exceeded,
and `on_connect` does not throw. -/
def Driver.spares (cfg : ConnectionConfig) (given : ℕ) (m : Members) (ok : Bool) : Driver → Bool
  | .thread .isRunning => m.client.all ClientObject.running
  | .thread (.reconnectLoop (.checkLimit _)) =>
    decide (cfg.maxReconnectTries > 0 ∧ m.reconnectCount > cfg.maxReconnectTries)
  | .thread (.reconnectLoop (.tryConnect _ .onConnect)) => ok || decide (m.current ≠ some given)
  | _ => true

/-- The driver is not in the handling of a loss, and will not reset the client of generation
`given` by itself. -/
structure Driver.Calm (given : ℕ) (d : Driver) (m : Members) : Prop where
  recovering : d.recovering = false
  connecting : d.connecting = true → m.current ≠ some given
  resets : d.resets = true → m.current ≠ some given

variable {cfg : ConnectionConfig} {m m' : Members} {ok : Bool} {s s' : State} {a : Action}
  {es : List Event} {d d' : Driver} {o : Option Handle} {given : ℕ}

theorem Driver.Calm.of_quiet (hr : d.recovering = false) (hc : d.connecting = false)
    (hd : d.resets = false) : d.Calm given m := by
  refine ⟨hr,fun h => ?_,fun h => ?_⟩
  · rw [hc] at h
    cases h
  · rw [hd] at h
    cases h

theorem Driver.Calm.rely (h : d.Calm given m) (hm : m'.current = m.current) : d.Calm given m' := by
  refine ⟨h.recovering,?_,?_⟩
  · rw [hm]
    exact h.connecting
  · rw [hm]
    exact h.resets

theorem Driver.Calm.next (h : d.Calm given m) (o : Option Handle) :
    (d.next cfg o).Calm given (m.hold o) := by
  cases o with
  | none => exact h
  | some handle =>
    cases handle with
    | heartbeat => exact h.rely (hold_current _ _)
    | monitor => exact .of_quiet rfl rfl rfl
    | reconnect => exact .of_quiet rfl rfl rfl

theorem loopDriver_calm {pc : LoopPc} (h : (Driver.thread (.reconnectLoop pc)).Calm given m) :
    (loopDriver .gone (some pc)).Calm given m := by
  by_cases hret : pc = .ret
  · rw [hret]
    exact .of_quiet rfl rfl rfl
  · rw [loopDriver_loop _ hret]
    exact h

/-- An attempt under way that leads nowhere near the client given. -/
theorem tryConnectStep_spares {b : UInt32} {pc : ConnectPc} {e : Effect (ConnectPc ⊕ Bool)}
    (h : tryConnectStep cfg m pc ok = some e)
    (hcalm : (Driver.thread (.reconnectLoop (.tryConnect b pc))).Calm given m)
    (hspares : (Driver.thread (.reconnectLoop (.tryConnect b pc))).spares cfg given m ok = true) :
    (∀ e' ∈ e.events, e'.recovery = false) ∧
      (e.pc = .inl .onConnect ∨ (∃ success, e.pc = .inr success) ∨
        (e.pc = .inl .reset ∧ e.members.current ≠ some given)) := by
  cases pc with
  | create => cases hcalm.recovering
  | connect =>
    obtain ⟨c,_,rfl⟩ := Option.map_eq_some_iff.mp h
    cases ok with
    | false => exact ⟨by simp,.inr (.inr ⟨rfl,hcalm.connecting rfl⟩)⟩
    | true => exact ⟨by simp,.inl rfl⟩
  | onConnect =>
    cases h
    refine ⟨by simp [Event.recovery],?_⟩
    cases ok with
    | false =>
      change decide (m.current ≠ some given) = true at hspares
      exact .inr (.inr ⟨rfl,of_decide_eq_true hspares⟩)
    | true => exact .inr (.inl ⟨true,rfl⟩)
  | reset =>
    cases h
    exact ⟨by simp [Event.recovery],.inr (.inl ⟨false,rfl⟩)⟩

theorem loopStep_spares {pc : LoopPc} {e : Effect LoopPc} (h : loopStep cfg m pc ok = some e)
    (hcalm : (Driver.thread (.reconnectLoop pc)).Calm given m)
    (hspares : (Driver.thread (.reconnectLoop pc)).spares cfg given m ok = true) :
    (∀ e' ∈ e.events, e'.recovery = false) ∧
      (Driver.thread (.reconnectLoop e.pc)).Calm given e.members := by
  cases pc with
  | loadRun b =>
    cases h
    refine ⟨by simp,?_⟩
    dsimp only
    cases m.shouldRun <;> exact .of_quiet rfl rfl rfl
  | writeCount b count =>
    simp only [loopStep] at h
    split at h <;> cases h
    exact ⟨by simp,.of_quiet rfl rfl rfl⟩
  | checkLimit b =>
    -- the limit is passed, so the loop announces no attempt
    cases h
    have hlimit : cfg.maxReconnectTries > 0 ∧ m.reconnectCount > cfg.maxReconnectTries :=
      of_decide_eq_true hspares
    refine ⟨by simp,?_⟩
    dsimp only
    rw [if_pos hlimit]
    exact .of_quiet rfl rfl rfl
  | onReconnect b => cases hcalm.recovering
  | sleep b => cases hcalm.recovering
  | tryConnect b pc =>
    obtain ⟨e₀,he₀,rfl⟩ := Option.map_eq_some_iff.mp h
    obtain ⟨hes,hnext⟩ := tryConnectStep_spares he₀ hcalm hspares
    refine ⟨hes,?_⟩
    rw [Effect.map]
    rcases hnext with hnext | ⟨success,hnext⟩ | ⟨hnext,hne⟩ <;> rw [hnext]
    · exact .of_quiet rfl rfl rfl
    · cases success <;> exact .of_quiet rfl rfl rfl
    · exact ⟨rfl,by simp [Driver.connecting],fun _ => hne⟩
  | scaleBackoff b =>
    obtain ⟨b',_,rfl⟩ := Option.map_eq_some_iff.mp h
    exact ⟨by simp,.of_quiet rfl rfl rfl⟩
  | resetCount =>
    cases h
    refine ⟨by simp,?_⟩
    dsimp only
    cases cfg.heartbeatEnabled <;> exact .of_quiet rfl rfl rfl
  | checkHeartbeat =>
    cases h
    refine ⟨by simp,?_⟩
    dsimp only
    cases m.heartbeatThread <;> exact .of_quiet rfl rfl rfl
  | checkMonitor =>
    cases h
    refine ⟨by simp,?_⟩
    dsimp only
    cases m.monitorThread <;> exact .of_quiet rfl rfl rfl
  | _ =>
    cases h
    exact ⟨by simp [Event.recovery],.of_quiet rfl rfl rfl⟩

theorem monitorStep_spares {pc : MonitorPc} {e : Effect (Option MonitorPc)}
    (h : monitorStep cfg m pc ok = some e) (hcalm : (Driver.thread pc).Calm given m)
    (hspares : (Driver.thread pc).spares cfg given m ok = true) :
    (∀ e' ∈ e.events, e'.recovery = false) ∧ (monitorDriver e.pc).Calm given e.members := by
  cases pc with
  | reconnectLoop p =>
    by_cases hp : p = .ret
    · subst hp
      cases h
      exact ⟨by simp,.of_quiet rfl rfl rfl⟩
    · rw [monitorStep_loop hp] at h
      obtain ⟨e₀,he₀,rfl⟩ := Option.map_eq_some_iff.mp h
      obtain ⟨hes,hnext⟩ := loopStep_spares he₀ hcalm hspares
      refine ⟨hes,?_⟩
      have hd : monitorDriver (some (.reconnectLoop e₀.pc)) = loopDriver .gone (some e₀.pc) :=
        monitorDriver_loop _
      rw [Effect.map,hd]
      exact loopDriver_calm hnext
  | loadRun =>
    cases h
    refine ⟨by simp,?_⟩
    dsimp only
    cases m.shouldRun <;> exact .of_quiet rfl rfl rfl
  | recheckRun =>
    cases h
    refine ⟨by simp,?_⟩
    dsimp only
    cases m.shouldRun <;> exact .of_quiet rfl rfl rfl
  | readClient =>
    cases h
    refine ⟨by simp,?_⟩
    dsimp only
    cases m.client <;> exact .of_quiet rfl rfl rfl
  | isRunning =>
    -- the client is found running, so there is no loss to report
    obtain ⟨c,hm,rfl⟩ := Option.map_eq_some_iff.mp h
    change m.client.all ClientObject.running = true at hspares
    rw [hm] at hspares
    have hrun : c.running = true := hspares
    refine ⟨by simp,?_⟩
    dsimp only
    rw [hrun]
    exact .of_quiet rfl rfl rfl
  | resetClient =>
    cases h
    refine ⟨by simp,?_⟩
    dsimp only
    cases cfg.autoReconnect <;> exact .of_quiet rfl rfl rfl
  | storeReconnecting => cases hcalm.recovering
  | onDisconnect => cases hcalm.recovering
  | _ =>
    cases h
    exact ⟨by simp [Event.recovery],.of_quiet rfl rfl rfl⟩

/-- A calm driver whose step spares the client shows nothing of a loss, and stays calm. -/
theorem Driver.Step.spares (h : Driver.Step cfg ok d m es o d' m') (hd : ∃ pc, d = .thread pc)
    (hcalm : d.Calm given m) (hspares : d.spares cfg given m ok = true) :
    (∀ e ∈ es, e.recovery = false) ∧ d'.Calm given m' := by
  obtain ⟨pc,rfl⟩ := hd
  cases h with
  | thread he =>
    obtain ⟨hes,hnext⟩ := monitorStep_spares he hcalm hspares
    exact ⟨hes,hnext.next _⟩

/-! ## The manager as a whole -/

theorem Quiet.not_recovery (h : Quiet es) : ∀ e ∈ es, e.recovery = false := by
  intro e he
  rcases h e he with rfl | rfl | rfl <;> rfl

/-- After `start` the driver is a thread. -/
theorem position_thread (hst : ¬s.user.Starting) (ho : Once s a) (hpos : a.position s = some d) :
    ∃ pc, d = .thread pc := by
  cases a with
  | start =>
    rw [ho rfl] at hst
    exact absurd trivial hst
  | user ok =>
    cases hu : s.user with
    | start pc =>
      rw [hu] at hst
      exact absurd trivial hst
    | _ =>
      rw [Action.position,hu] at hpos
      cases hpos
  | monitor ok =>
    obtain ⟨pc,_,rfl⟩ := Option.map_eq_some_iff.mp hpos
    exact ⟨pc,rfl⟩
  | reconnect ok =>
    obtain ⟨pc,_,rfl⟩ := Option.map_eq_some_iff.mp hpos
    exact ⟨.reconnectLoop pc,rfl⟩
  | _ => cases hpos

theorem Transition.calm (ht : Transition cfg s a es s') (hsolo : Solo s) (ho : Once s a)
    (hst : ¬s.user.Starting) (hcalm : s.driver.Calm given s.members)
    (hspares : ∀ d, a.position s = some d → d.spares cfg given s.members a.ok = true) :
    (∀ e ∈ es, e.recovery = false) ∧ s'.driver.Calm given s'.members := by
  rcases hsolo.step_driver ho ht with hpassive | ⟨hpos,o,hstep,_⟩
  · rw [hpassive.driver]
    exact ⟨hpassive.quiet.not_recovery,hcalm.rely hpassive.rely.client⟩
  · exact hstep.spares (position_thread hst ho hpos) hcalm (hspares _ hpos)

/-- The call of `stop` alone touches no member. -/
theorem stop_members (hs : (manager cfg).step s .stop = some (s',es)) : s'.members = s.members := by
  cases step_transition hs with
  | fault => rfl
  | stopCall _ => rfl

/-- `start` is called once. -/
theorem Transition.begun (ht : Transition cfg s a es s') (ha : a ≠ .start)
    (hst : ¬s.user.Starting) : ¬s'.user.Starting := by
  cases ht with
  | startCall _ => exact absurd rfl ha
  | stopCall _ => exact id
  | stop hu hs => exact (stopStep_frame hu hs).user
  | start hu _ _ =>
    rw [hu] at hst
    exact absurd trivial hst
  | monitor _ _ hland =>
    rw [(spawn_frame hland).user]
    exact hst
  | reconnect _ _ hland =>
    rw [(spawn_frame hland).user]
    exact hst
  | heartbeat _ _ hland =>
    rw [(spawn_frame hland).user]
    exact hst
  | _ => exact hst

theorem stopStep_running {pc : StopPc} (h : stopStep s pc = some (s',es))
    (hm : ∀ c, s.members.client = some c → c.running = false) :
    ∀ c, s'.members.client = some c → c.running = false := by
  cases pc with
  | close =>
    simp only [stopStep] at h
    split at h <;> cases h
    · exact hm
    · intro c hc
      obtain rfl := Option.some.inj hc
      rfl
  | closing generation =>
    simp only [stopStep] at h
    split at h <;> cases h <;> exact hm
  | joinHeartbeat =>
    simp only [stopStep] at h
    split at h <;> cases h
    exact hm
  | joinMonitor =>
    simp only [stopStep] at h
    split at h <;> cases h
    exact hm
  | joinReconnect =>
    simp only [stopStep] at h
    split at h <;> cases h
    exact hm
  | _ =>
    cases h
    exact hm

/-- None of the other threads makes a client run. -/
theorem Transition.running (ht : Transition cfg s a es s') (hpos : a.position s = none)
    (hm : ∀ c, s.members.client = some c → c.running = false) :
    ∀ c, s'.members.client = some c → c.running = false := by
  cases ht with
  | startCall _ => cases hpos
  | stop _ hs => exact stopStep_running hs hm
  | loss _ =>
    intro c hc
    obtain rfl := Option.some.inj hc
    rfl
  | heartbeat _ he hland =>
    rw [(spawn_frame hland).members,hold_client]
    exact heartbeatStep_running he hm
  | start hu _ _ =>
    rw [Action.position,hu] at hpos
    cases hpos
  | monitor hpc _ _ =>
    rw [Action.position,hpc] at hpos
    cases hpos
  | reconnect hpc _ _ =>
    rw [Action.position,hpc] at hpos
    cases hpos
  | _ => exact hm

/-- Until `connect` returns, the client it is called on does not run. -/
def Unconnected (s : State) : Prop :=
  s.driver.connecting = true → ∀ c, s.members.client = some c → c.running = false

theorem tryConnectStep_connecting {pc : ConnectPc} {e : Effect (ConnectPc ⊕ Bool)}
    (h : tryConnectStep cfg m pc ok = some e) (hpc : e.pc = .inl .connect) :
    e.members.client = some ⟨m.generation,false,false⟩ := by
  cases pc with
  | create =>
    cases h
    rfl
  | connect =>
    obtain ⟨c,_,rfl⟩ := Option.map_eq_some_iff.mp h
    cases ok <;> cases hpc
  | onConnect =>
    cases h
    cases ok <;> cases hpc
  | reset =>
    cases h
    cases hpc

theorem loopStep_connecting {pc : LoopPc} {e : Effect LoopPc} (h : loopStep cfg m pc ok = some e)
    (hd : (Driver.thread (.reconnectLoop e.pc)).connecting = true) :
    e.members.client = some ⟨m.generation,false,false⟩ := by
  cases pc with
  | tryConnect b pc =>
    obtain ⟨e₀,he₀,rfl⟩ := Option.map_eq_some_iff.mp h
    refine tryConnectStep_connecting he₀ ?_
    rw [Effect.map] at hd
    cases hpc : e₀.pc with
    | inl p =>
      rw [hpc] at hd
      cases p <;> first | rfl | cases hd
    | inr success =>
      rw [hpc] at hd
      cases success <;> cases hd
  | writeCount b count =>
    simp only [loopStep] at h
    split at h <;> cases h
    cases hd
  | scaleBackoff b =>
    obtain ⟨b',_,rfl⟩ := Option.map_eq_some_iff.mp h
    cases hd
  | loadRun b =>
    cases h
    cases hrun : m.shouldRun <;> simp [hrun,Driver.connecting] at hd
  | checkLimit b =>
    cases h
    dsimp only at hd
    split at hd <;> cases hd
  | resetCount =>
    cases h
    dsimp only at hd
    split at hd <;> cases hd
  | checkHeartbeat =>
    cases h
    dsimp only at hd
    split at hd <;> cases hd
  | checkMonitor =>
    cases h
    dsimp only at hd
    split at hd <;> cases hd
  | _ =>
    cases h
    cases hd

theorem monitorStep_connecting {pc : MonitorPc} {e : Effect (Option MonitorPc)}
    (h : monitorStep cfg m pc ok = some e) (hd : (monitorDriver e.pc).connecting = true) :
    e.members.client = some ⟨m.generation,false,false⟩ := by
  cases pc with
  | reconnectLoop p =>
    by_cases hp : p = .ret
    · subst hp
      cases h
      cases hd
    · rw [monitorStep_loop hp] at h
      obtain ⟨e₀,he₀,rfl⟩ := Option.map_eq_some_iff.mp h
      refine loopStep_connecting he₀ ?_
      rw [Effect.map,monitorDriver_loop] at hd
      by_cases hret : e₀.pc = .ret
      · rw [hret] at hd
        cases hd
      · rwa [loopDriver_loop _ hret] at hd
  | isRunning =>
    obtain ⟨c,_,rfl⟩ := Option.map_eq_some_iff.mp h
    cases hrun : c.running <;> simp [hrun,monitorDriver,Driver.connecting] at hd
  | loadRun =>
    cases h
    cases hrun : m.shouldRun <;> simp [hrun,monitorDriver,Driver.connecting] at hd
  | recheckRun =>
    cases h
    cases hrun : m.shouldRun <;> simp [hrun,monitorDriver,Driver.connecting] at hd
  | readClient =>
    cases h
    cases hc : m.client <;> simp [hc,monitorDriver,Driver.connecting] at hd
  | resetClient =>
    cases h
    cases hauto : cfg.autoReconnect <;> simp [hauto,monitorDriver,Driver.connecting] at hd
  | _ =>
    cases h
    cases hd

theorem next_connecting (h : (d.next cfg o).connecting = true) : d.connecting = true := by
  cases o with
  | none => exact h
  | some handle =>
    cases handle with
    | heartbeat => exact h
    | _ => cases h

/-- The client of an attempt is a new one. -/
theorem Driver.Step.connecting (h : Driver.Step cfg ok d m es o d' m')
    (hd : d'.connecting = true) : m'.client = some ⟨m.generation,false,false⟩ := by
  cases h with
  | call => cases hd
  | @start pc _ e he =>
    have hpc := next_connecting hd
    cases hu : e.pc <;> rw [hu] at hpc <;> cases hpc
  | thread he =>
    rw [hold_client]
    exact monitorStep_connecting he (next_connecting hd)

theorem Unconnected.step (h : Unconnected s) (hsolo : Solo s) (ho : Once s a)
    (ht : Transition cfg s a es s') : Unconnected s' := by
  intro hd
  rcases hsolo.step_driver ho ht with hpassive | ⟨_,o,hstep,_⟩
  · rw [hpassive.driver] at hd
    rcases hpassive.still with hpos | ⟨hmem,_⟩
    · exact ht.running hpos (h hd)
    · rw [hmem]
      exact h hd
  · intro c hc
    rw [hstep.connecting hd] at hc
    obtain rfl := Option.some.inj hc
    rfl

theorem unconnected_init : Unconnected init := by
  intro hd
  cases hd

/-- A step of a thread that drives, where it spawns nothing. -/
theorem Lone.step_thread (h : Lone s) (hf : s.fault = false) {pc : MonitorPc}
    (hpos : a.position s = some (.thread pc)) (hloop : pc ≠ .reconnectLoop .ret)
    {e : Effect (Option MonitorPc)} (he : monitorStep cfg s.members pc a.ok = some e)
    (hspawn : e.spawn = none) :
    ∃ s', (manager cfg).step s a = some (s',e.events) ∧ s'.driver = monitorDriver e.pc ∧
      s'.members = e.members ∧ s'.fault = false := by
  cases a with
  | monitor ok =>
    obtain ⟨p,hm,hp⟩ := Option.map_eq_some_iff.mp hpos
    cases hp
    have hs : (manager cfg).step s (.monitor ok) =
        some (State.putMonitor e.pc { s with members := e.members },e.events) := by
      have he : monitorStep cfg s.members pc ok = some e := he
      simp [manager,Connection.step,hf,hm,State.after,he,hspawn,State.spawn]
    refine ⟨_,hs,?_,rfl,hf⟩
    have hd : (State.putMonitor e.pc { s with members := e.members }).driver =
        loopDriver (monitorDriver e.pc) s.reconnect :=
      driver_eq (h.not_starting_of_monitor hm)
    rw [hd]
    exact h.loopDriver_of_monitor hm _
  | reconnect ok =>
    obtain ⟨p,hr,hp⟩ := Option.map_eq_some_iff.mp hpos
    cases hp
    have hne : p ≠ .ret := fun hp => hloop (by rw [hp])
    have he : monitorStep cfg s.members (.reconnectLoop p) ok = some e := he
    rw [monitorStep_loop hne] at he
    obtain ⟨e₀,he₀,rfl⟩ := Option.map_eq_some_iff.mp he
    have hs : (manager cfg).step s (.reconnect ok) =
        some (State.putReconnect (some e₀.pc) { s with members := e₀.members },e₀.events) := by
      have hspawn : e₀.spawn = none := hspawn
      simp [manager,Connection.step,hf,hr,State.after,reconnectStep_loop hne,he₀,Effect.map,hspawn,
        State.spawn]
    refine ⟨_,hs,?_,rfl,hf⟩
    have hd : (State.putReconnect (some e₀.pc) { s with members := e₀.members }).driver =
        loopDriver (monitorDriver s.monitor) (some e₀.pc) :=
      driver_eq (h.not_starting_of_reconnect hr)
    rw [hd,h.looping p hr hne]
    exact (monitorDriver_loop _).symm
  | user ok =>
    simp only [Action.position] at hpos
    split at hpos <;> cases hpos
  | _ => cases hpos

theorem monitorDriver_eq_thread {o : Option MonitorPc} {pc : MonitorPc}
    (h : monitorDriver o = .thread pc) : o = some pc ∧ pc ≠ .reconnectLoop .ret := by
  cases o with
  | none => cases h
  | some p =>
    cases p with
    | reconnectLoop q => cases q <;> cases h <;> exact ⟨rfl,by simp⟩
    | _ => cases h <;> exact ⟨rfl,by simp⟩

/-- After `start` the driver is a thread, or there is none. -/
theorem driver_cases (hst : ¬s.user.Starting) : s.driver = .gone ∨ ∃ pc, s.driver = .thread pc := by
  have hmonitor : monitorDriver s.monitor = .gone ∨ ∃ pc, monitorDriver s.monitor = .thread pc := by
    cases s.monitor with
    | none => exact .inl rfl
    | some pc =>
      cases pc with
      | ret => exact .inl rfl
      | reconnectLoop p => cases p <;> first | exact .inr ⟨_,rfl⟩ | exact .inl rfl
      | _ => exact .inr ⟨_,rfl⟩
  rw [driver_eq hst]
  cases s.reconnect with
  | none => exact hmonitor
  | some p =>
    by_cases hp : p = .ret
    · rw [hp]
      exact hmonitor
    · exact .inr ⟨_,loopDriver_loop _ hp⟩

/-- The thread behind the driver, about to take a step on which all goes well. -/
theorem exists_position (hst : ¬s.user.Starting) {pc : MonitorPc}
    (hd : s.driver = .thread pc) :
    pc ≠ .reconnectLoop .ret ∧ ∃ a : Action, a.ok = true ∧ a.position s = some (.thread pc) := by
  rw [driver_eq hst] at hd
  cases hr : s.reconnect with
  | none =>
    rw [hr] at hd
    obtain ⟨hm,hne⟩ := monitorDriver_eq_thread hd
    exact ⟨hne,.monitor true,rfl,by rw [Action.position,hm]; rfl⟩
  | some p =>
    by_cases hp : p = .ret
    · rw [hr,hp] at hd
      obtain ⟨hm,hne⟩ := monitorDriver_eq_thread hd
      exact ⟨hne,.monitor true,rfl,by rw [Action.position,hm]; rfl⟩
    · rw [hr,loopDriver_loop _ hp] at hd
      cases hd
      exact ⟨fun hret => hp (MonitorPc.reconnectLoop.inj hret),.reconnect true,rfl,
        by rw [Action.position,hr]; rfl⟩

/-- A step that does not spare the client leads into the handling of a loss, or to a reset. -/
theorem monitorStep_disturbs {pc : MonitorPc}
    (h : (Driver.thread pc).spares cfg given m ok = false) :
    pc ≠ .reconnectLoop .ret ∧ ∃ e, monitorStep cfg m pc ok = some e ∧ e.spawn = none ∧
      ((monitorDriver e.pc).recovering = true ∨
        ((monitorDriver e.pc).resets = true ∧ e.members.current = some given)) := by
  cases pc with
  | isRunning =>
    change m.client.all ClientObject.running = false at h
    cases hc : m.client with
    | none => simp [hc] at h
    | some c =>
      have hrun : c.running = false := by simpa [hc] using h
      refine ⟨by simp,_,by rw [monitorStep,hc]; rfl,rfl,.inl ?_⟩
      dsimp only
      rw [hrun]
      rfl
  | reconnectLoop p =>
    cases p with
    | checkLimit b =>
      refine ⟨by simp,_,rfl,rfl,.inl ?_⟩
      have hlimit : ¬(cfg.maxReconnectTries > 0 ∧ m.reconnectCount > cfg.maxReconnectTries) :=
        of_decide_eq_false h
      rw [Effect.map,if_neg hlimit]
      rfl
    | tryConnect b pc =>
      cases pc with
      | onConnect =>
        change (ok || decide (m.current ≠ some given)) = false at h
        rw [Bool.or_eq_false_iff] at h
        obtain ⟨rfl,hne⟩ := h
        exact ⟨by simp,_,rfl,rfl,.inr ⟨rfl,Classical.not_not.mp (of_decide_eq_false hne)⟩⟩
      | _ => cases h
    | _ => cases h
  | _ => cases h

/-- The steps of the driver until the handling of a loss shows. -/
def Driver.lag : Driver → ℕ
  | .thread (.reconnectLoop (.onReconnect _)) => 2
  | .thread (.reconnectLoop (.sleep _)) => 1
  | _ => 0

theorem monitorStep_recovers (cfg : ConnectionConfig) (m : Members) {pc : MonitorPc}
    (h : (Driver.thread pc).recovering = true) :
    ∃ e, monitorStep cfg m pc true = some e ∧ e.spawn = none ∧
      ((∃ e' ∈ e.events, e'.recovery = true) ∨
        ((monitorDriver e.pc).recovering = true ∧
          (monitorDriver e.pc).lag < (Driver.thread pc).lag)) := by
  cases pc with
  | storeReconnecting => exact ⟨_,rfl,rfl,.inl ⟨_,List.mem_singleton_self _,rfl⟩⟩
  | onDisconnect => exact ⟨_,rfl,rfl,.inl ⟨_,List.mem_singleton_self _,rfl⟩⟩
  | reconnectLoop p =>
    cases p with
    | onReconnect b => exact ⟨_,rfl,rfl,.inr ⟨rfl,Nat.lt_succ_self 1⟩⟩
    | sleep b => exact ⟨_,rfl,rfl,.inr ⟨rfl,Nat.lt_succ_self 0⟩⟩
    | tryConnect b pc =>
      cases pc with
      | create => exact ⟨_,rfl,rfl,.inl ⟨_,List.mem_singleton_self _,rfl⟩⟩
      | _ => cases h
    | _ => cases h
  | _ => cases h

theorem monitorStep_resets (cfg : ConnectionConfig) (m : Members) {pc : MonitorPc}
    (h : (Driver.thread pc).resets = true) :
    ∃ e, monitorStep cfg m pc true = some e ∧ e.spawn = none ∧ e.members.client = none := by
  cases pc with
  | resetClient => exact ⟨_,rfl,rfl,rfl⟩
  | reconnectLoop p =>
    cases p with
    | tryConnect b pc =>
      cases pc with
      | reset => exact ⟨_,rfl,rfl,rfl⟩
      | _ => cases h
    | _ => cases h
  | _ => cases h

end WsClient.Connection
