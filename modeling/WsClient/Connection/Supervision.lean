import WsClient.Connection.Ownership

/-!
# Who watches the connection

After a connection is made, a monitor thread polls it and a heartbeat thread pings it. That
lasts until `heartbeat_loop` finds the connection down, or until an attempt made by the monitor
thread itself succeeds: `joinable()` is true of the thread that asks, and of one that has
finished, so neither is replaced.
-/

namespace WsClient.Connection
open WsClient.Lib

/-- Inside `monitor_loop`'s while loop: going to poll, or with a loss just found. -/
def MonitorPc.watching : MonitorPc → Bool
  | .loadRun | .sleep | .recheckRun | .readClient | .isRunning | .storeReconnecting => true
  | _ => false

/-- Some thread is inside `start` or `reconnect_loop`. -/
def State.Connecting (s : State) : Prop :=
  (∃ pc, s.user = .start pc) ∨ (∃ pc, s.reconnect = some pc ∧ pc ≠ .ret) ∨
    ∃ pc, s.monitor = some (.reconnectLoop pc) ∧ pc ≠ .ret

/-- A connected manager has a thread in `monitor_loop`'s while loop and, if enabled and as long
as no ping on the connection has failed, one in `heartbeat_loop`'s. -/
def Supervised (cfg : ConnectionConfig) (s : State) : Prop :=
  s.members.state = .connected → ¬s.Connecting →
    (∃ pc, s.monitor = some pc ∧ pc.watching = true) ∧
      (cfg.heartbeatEnabled = true → (∀ c, s.members.client = some c → c.pingFailed = false) →
        ∃ pc, s.heartbeat = some pc ∧ pc ≠ .ret)

/-- Runs that call `start` once and `stop` never. -/
def NoStop (s : State) (a : Action) : Prop := Once s a ∧ a ≠ .stop

instance : ∀ s a, Decidable (NoStop s a) := fun _ _ => inferInstanceAs (Decidable (_ ∧ _))

/-- The step does not end the supervision: the monitor thread does not store `Connected`, and
`heartbeat_loop` does not find a connected client down. -/
def Action.keepsWatch (s : State) : Action → Bool
  | .monitor _ => decide (s.monitor ≠ some (.reconnectLoop .storeConnected))
  | .heartbeat _ => decide (s.heartbeat = some .isRunning → s.members.state = .connected →
      s.members.client.all ClientObject.running)
  | _ => true

def Watching (s : State) (a : Action) : Prop := NoStop s a ∧ a.keepsWatch s = true

instance : ∀ s a, Decidable (Watching s a) := fun _ _ => inferInstanceAs (Decidable (_ ∧ _))

/-- The heartbeat thread is in its loop, or a ping on this connection has failed. -/
def Beating (cfg : ConnectionConfig) (m : Members) (heartbeat : Option HeartbeatPc) : Prop :=
  cfg.heartbeatEnabled = true →
    (∃ pc, heartbeat = some pc ∧ pc ≠ .ret) ∨ ∃ c, m.client = some c ∧ c.pingFailed = true

/-- How far the driver has got with a connection. -/
inductive Stage
  | fresh
  | trying
  | online
  | beating
  | down

def StartPc.stage : StartPc → Stage
  | .storeRun => .fresh
  | .resetCount | .spawnHeartbeat => .online
  | .spawnMonitor => .beating
  | _ => .trying

def LoopPc.stage : LoopPc → Stage
  | .resetCount | .checkHeartbeat | .spawnHeartbeat => .online
  | .checkMonitor | .spawnMonitor => .beating
  | .ret => .down
  | _ => .trying

def MonitorPc.stage : MonitorPc → Stage
  | .reconnectLoop pc => pc.stage
  | .onDisconnect | .resetClient | .storeDisconnected => .trying
  | .ret => .down
  | _ => .beating

def Driver.stage : Driver → Stage
  | .fresh => .fresh
  | .start pc => pc.stage
  | .thread pc => pc.stage
  | .gone => .down

def Stage.Holds (cfg : ConnectionConfig) (m : Members) (heartbeat : Option HeartbeatPc) :
    Stage → Prop
  | .fresh => True
  | .trying => m.shouldRun = true
  | .online => m.shouldRun = true ∧ m.state = .connected
  | .beating => m.shouldRun = true ∧ m.state = .connected ∧ Beating cfg m heartbeat
  | .down => m.state ≠ .connected

variable {cfg : ConnectionConfig} {m : Members} {ok : Bool} {s s' : State} {a : Action}
  {es : List Event} {heartbeat : Option HeartbeatPc}

@[simp] theorem hold_shouldRun (m : Members) (o : Option Handle) :
    (m.hold o).shouldRun = m.shouldRun := by
  cases o with
  | none => rfl
  | some handle => cases handle <;> rfl

theorem startStep_stage {pc : StartPc} {e : Effect UserPc} (h : pc.stage.Holds cfg m heartbeat)
    (hs : startStep cfg m pc ok = some e) :
    ((e.pc.driver .gone).next cfg e.spawn).stage.Holds cfg (e.members.hold e.spawn)
      (heartbeatAfter heartbeat e.spawn) := by
  cases pc with
  | storeRun =>
    cases hs
    rfl
  | tryConnect pc =>
    obtain ⟨e₀,he₀,rfl⟩ := Option.map_eq_some_iff.mp hs
    obtain ⟨hspawn,hmem⟩ := tryConnectStep_frame he₀
    have hrun : (e₀.members.hold e₀.spawn).shouldRun = true := by
      rw [hold_shouldRun,hmem]
      exact h
    simp only [Effect.map,hspawn] at hrun ⊢
    split
    · exact hrun
    · exact hrun
    · cases cfg.autoReconnect <;> exact hrun
  | storeConnected =>
    cases hs
    exact ⟨h,rfl⟩
  | resetCount =>
    cases hs
    cases hb : cfg.heartbeatEnabled with
    | false => exact ⟨h.1,h.2,fun hen => by simp [hb] at hen⟩
    | true => exact h
  | spawnHeartbeat =>
    cases hs
    exact ⟨h.1,h.2,fun _ => .inl ⟨_,rfl,by simp⟩⟩
  | storeDisconnected =>
    cases hs
    exact ConnectionState.noConfusion
  | _ =>
    cases hs
    exact h

theorem loopStep_stage {pc : LoopPc} {e : Effect LoopPc} (h : pc.stage.Holds cfg m heartbeat)
    (howned : Owned (.thread (.reconnectLoop pc)) m)
    (hbeat : pc = .checkHeartbeat → m.heartbeatThread = false)
    (hmon : pc = .checkMonitor → m.monitorThread = false) (hs : loopStep cfg m pc ok = some e) :
    ((loopDriver .gone (some e.pc)).next cfg e.spawn).stage.Holds cfg (e.members.hold e.spawn)
      (heartbeatAfter heartbeat e.spawn) := by
  cases pc with
  | loadRun b =>
    cases hs
    have hrun : m.shouldRun = true := h
    simp only [hrun]
    exact hrun
  | checkLimit b =>
    cases hs
    dsimp only
    split <;> exact h
  | writeCount b count =>
    simp only [loopStep] at hs
    split at hs <;> cases hs
    exact h
  | tryConnect b pc =>
    obtain ⟨e₀,he₀,rfl⟩ := Option.map_eq_some_iff.mp hs
    obtain ⟨hspawn,hmem⟩ := tryConnectStep_frame he₀
    have hrun : (e₀.members.hold e₀.spawn).shouldRun = true := by
      rw [hold_shouldRun,hmem]
      exact h
    simp only [Effect.map,hspawn] at hrun ⊢
    split <;> exact hrun
  | scaleBackoff b =>
    obtain ⟨b',_,rfl⟩ := Option.map_eq_some_iff.mp hs
    exact h
  | onDisconnect =>
    cases hs
    exact howned.offline rfl
  | storeConnected =>
    cases hs
    exact ⟨h,rfl⟩
  | resetCount =>
    -- without a heartbeat to start, none is owed
    cases hs
    cases hb : cfg.heartbeatEnabled with
    | false => exact ⟨h.1,h.2,fun hen => by simp [hb] at hen⟩
    | true => exact h
  | checkHeartbeat =>
    cases hs
    rw [hbeat rfl]
    exact h
  | spawnHeartbeat =>
    cases hs
    exact ⟨h.1,h.2,fun _ => .inl ⟨_,rfl,by simp⟩⟩
  | checkMonitor =>
    cases hs
    rw [hmon rfl]
    exact h
  | _ =>
    cases hs
    exact h

theorem monitorStep_stage {pc : MonitorPc} {e : Effect (Option MonitorPc)}
    (h : pc.stage.Holds cfg m heartbeat) (howned : Owned (.thread pc) m)
    (hbeat : pc = .reconnectLoop .checkHeartbeat → m.heartbeatThread = false)
    (hmon : pc = .reconnectLoop .checkMonitor → m.monitorThread = false)
    (hs : monitorStep cfg m pc ok = some e) :
    ((monitorDriver e.pc).next cfg e.spawn).stage.Holds cfg (e.members.hold e.spawn)
      (heartbeatAfter heartbeat e.spawn) := by
  cases pc with
  | reconnectLoop p =>
    by_cases hp : p = .ret
    · subst hp
      cases hs
      exact h
    · rw [monitorStep_loop hp] at hs
      obtain ⟨e₀,he₀,rfl⟩ := Option.map_eq_some_iff.mp hs
      simp only [Effect.map,monitorDriver_loop]
      exact loopStep_stage h howned (fun hb => hbeat (by rw [hb])) (fun hm => hmon (by rw [hm])) he₀
  | loadRun =>
    cases hs
    rw [h.1]
    exact h
  | recheckRun =>
    cases hs
    rw [h.1]
    exact h
  | readClient =>
    cases hs
    cases m.client.isSome <;> exact h
  | isRunning =>
    obtain ⟨c,_,rfl⟩ := Option.map_eq_some_iff.mp hs
    cases c.running <;> exact h
  | storeReconnecting =>
    cases hs
    exact h.1
  | resetClient =>
    cases hs
    cases cfg.autoReconnect <;> exact h
  | storeDisconnected =>
    cases hs
    exact ConnectionState.noConfusion
  | _ =>
    cases hs
    exact h

/-- The driver's steps keep what its stage says. -/
theorem Driver.Step.stage {d d' : Driver} {m' : Members} {o : Option Handle}
    (h : d.stage.Holds cfg m heartbeat) (howned : Owned d m)
    (hbeat : d = .thread (.reconnectLoop .checkHeartbeat) → m.heartbeatThread = false)
    (hmon : d = .thread (.reconnectLoop .checkMonitor) → m.monitorThread = false)
    (hs : Driver.Step cfg ok d m es o d' m') :
    d'.stage.Holds cfg m' (heartbeatAfter heartbeat o) := by
  cases hs with
  | call => trivial
  | start he => exact startStep_stage h he
  | thread he =>
    exact monitorStep_stage h howned (fun hb => hbeat (by rw [hb])) (fun hm => hmon (by rw [hm])) he

/-- A change that keeps `should_run_`, `state_` and the heartbeat keeps every stage. -/
theorem Stage.Holds.mono {g : Stage} {m' : Members} {heartbeat' : Option HeartbeatPc}
    (h : g.Holds cfg m heartbeat) (hr : m'.shouldRun = m.shouldRun) (hst : m'.state = m.state)
    (hb : m.shouldRun = true → m.state = .connected → Beating cfg m heartbeat →
      Beating cfg m' heartbeat') : g.Holds cfg m' heartbeat' := by
  cases g with
  | fresh => trivial
  | trying => exact hr.trans h
  | online => exact ⟨hr.trans h.1,hst.trans h.2⟩
  | beating => exact ⟨hr.trans h.1,hst.trans h.2.1,hb h.1 h.2.1 h.2.2⟩
  | down => exact fun hc => h (hst.symm.trans hc)

/-- A step of `heartbeat_loop` on a connection it does not find down leaves it in its loop, or
is a failed ping. -/
theorem heartbeatStep_beating {pc : HeartbeatPc} {e : Effect (Option HeartbeatPc)}
    (hrun : m.shouldRun = true) (hst : m.state = .connected) (hc : m.client.isSome = true)
    (hup : pc = .isRunning → m.client.all ClientObject.running = true)
    (h : Beating cfg m (some pc)) (hs : heartbeatStep m pc ok = some e) :
    Beating cfg e.members e.pc := by
  intro hen
  rcases h hen with ⟨p,hp,hne⟩ | ⟨c,hc',hfail⟩
  · obtain rfl := Option.some.inj hp
    cases pc with
    | loadRun =>
      cases hs
      exact .inl ⟨_,rfl,by simp [hrun]⟩
    | loadState =>
      cases hs
      exact .inl ⟨_,rfl,by simp [hst]⟩
    | recheckRun =>
      cases hs
      exact .inl ⟨_,rfl,by simp [hrun]⟩
    | readClient =>
      cases hs
      exact .inl ⟨_,rfl,by simp [hc]⟩
    | isRunning =>
      obtain ⟨c,hc',rfl⟩ := Option.map_eq_some_iff.mp hs
      have hrunning : c.running = true := by simpa [hc'] using hup rfl
      exact .inl ⟨_,rfl,by simp [hrunning]⟩
    | sendPing =>
      obtain ⟨c,_,rfl⟩ := Option.map_eq_some_iff.mp hs
      cases ok with
      | true => exact .inl ⟨_,rfl,by simp⟩
      | false => exact .inr ⟨_,rfl,rfl⟩
    | sleep =>
      cases hs
      exact .inl ⟨_,rfl,by simp⟩
    | ret => exact absurd rfl hne
  · -- a failed ping stays failed
    cases pc with
    | isRunning =>
      obtain ⟨_,_,rfl⟩ := Option.map_eq_some_iff.mp hs
      exact .inr ⟨c,hc',hfail⟩
    | sendPing =>
      obtain ⟨_,_,rfl⟩ := Option.map_eq_some_iff.mp hs
      cases ok with
      | true => exact .inr ⟨c,hc',hfail⟩
      | false => exact .inr ⟨_,rfl,rfl⟩
    | _ =>
      cases hs
      exact .inr ⟨c,hc',hfail⟩

/-- `reconnect_loop` has not yet spawned a heartbeat thread. -/
def LoopPc.beforeHeartbeat : LoopPc → Bool
  | .checkMonitor | .spawnMonitor | .ret => false
  | _ => true

/-- Where the heartbeat thread does not exist yet, and how far the monitor thread gets in
`reconnect_loop`. -/
structure Early (s : State) : Prop where
  user : s.user = .fresh ∨ (∃ pc, s.user = .start pc) ∨ s.user = .started
  fresh : s.user = .fresh → s.members.heartbeatThread = false
  starting : ∀ pc, s.user = .start pc → pc ≠ .spawnMonitor → s.members.heartbeatThread = false
  looping : ∀ pc, s.reconnect = some pc → pc.beforeHeartbeat = true →
    s.members.heartbeatThread = false
  monitor : ∀ pc, s.monitor = some (.reconnectLoop pc) →
    pc.stage = .trying ∨ pc = .ret

theorem loopStep_before {pc : LoopPc} {e : Effect LoopPc} (h : loopStep cfg m pc ok = some e)
    (hb : e.pc.beforeHeartbeat = true) : pc.beforeHeartbeat = true ∧ e.spawn = none := by
  have hspawn := (loopStep_frame h).spawn
  cases pc with
  | checkMonitor =>
    cases h
    revert hb
    cases m.monitorThread <;> intro hb <;> cases hb
  | spawnMonitor =>
    cases h
    cases hb
  | spawnHeartbeat =>
    cases h
    cases hb
  | ret =>
    cases h
    cases hb
  | _ => simpa [LoopPc.beforeHeartbeat] using hspawn

/-- An attempt of the monitor thread that does not store `Connected` goes on or ends. -/
theorem loopStep_trying {pc : LoopPc} {e : Effect LoopPc} (h : loopStep cfg m pc ok = some e)
    (hpc : pc.stage = .trying) (hne : pc ≠ .storeConnected) :
    e.pc.stage = .trying ∨ e.pc = .ret := by
  cases pc with
  | loadRun b =>
    cases h
    dsimp only
    split
    · exact .inl rfl
    · exact .inr rfl
  | checkLimit b =>
    cases h
    dsimp only
    split <;> exact .inl rfl
  | writeCount b count =>
    simp only [loopStep] at h
    split at h <;> cases h
    exact .inl rfl
  | tryConnect b pc =>
    obtain ⟨e₀,_,rfl⟩ := Option.map_eq_some_iff.mp h
    simp only [Effect.map]
    split <;> exact .inl rfl
  | scaleBackoff b =>
    obtain ⟨b',_,rfl⟩ := Option.map_eq_some_iff.mp h
    exact .inl rfl
  | storeConnected => exact absurd rfl hne
  | onDisconnect =>
    cases h
    exact .inr rfl
  | resetCount => cases hpc
  | checkHeartbeat => cases hpc
  | spawnHeartbeat => cases hpc
  | checkMonitor => cases hpc
  | spawnMonitor => cases hpc
  | ret => cases hpc
  | _ =>
    cases h
    exact .inl rfl

theorem monitorStep_trying {pc : MonitorPc} {e : Effect (Option MonitorPc)}
    (h : monitorStep cfg m pc ok = some e)
    (hpc : ∀ p, pc = .reconnectLoop p → p.stage = .trying ∨ p = .ret)
    (hne : pc ≠ .reconnectLoop .storeConnected) :
    e.spawn = none ∧ ∀ p, e.pc = some (.reconnectLoop p) → p.stage = .trying ∨ p = .ret := by
  cases pc with
  | reconnectLoop p =>
    by_cases hp : p = .ret
    · subst hp
      cases h
      exact ⟨rfl,by simp⟩
    · rw [monitorStep_loop hp] at h
      obtain ⟨e₀,he₀,rfl⟩ := Option.map_eq_some_iff.mp h
      have hst := (hpc p rfl).resolve_right hp
      refine ⟨?_,fun q hq => ?_⟩
      · rcases (loopStep_frame he₀).spawn with hs | ⟨rfl,_,_⟩ | ⟨rfl,_,_⟩
        · exact hs
        · cases hst
        · cases hst
      · cases hq
        exact loopStep_trying he₀ hst fun hq => hne (by rw [hq])
  | isRunning =>
    obtain ⟨c,_,rfl⟩ := Option.map_eq_some_iff.mp h
    cases c.running <;> simp
  | resetClient =>
    cases h
    cases cfg.autoReconnect
    · simp
    · refine ⟨rfl,fun p hp => .inl ?_⟩
      cases hp
      rfl
  | loadRun =>
    cases h
    cases m.shouldRun <;> simp
  | recheckRun =>
    cases h
    cases m.shouldRun <;> simp
  | readClient =>
    cases h
    cases m.client.isSome <;> simp
  | _ =>
    cases h
    simp

theorem Early.started (h : Early s) (hst : ¬s.user.Starting) : s.user = .started := by
  rcases h.user with hu | ⟨p,hu⟩ | hu
  · exact absurd (by rw [hu]; trivial) hst
  · exact absurd (by rw [hu]; trivial) hst
  · exact hu

theorem Early.step (h : Early s) (hsolo : Solo s) (hp : Watching s a)
    (ht : Transition cfg s a es s') : Early s' := by
  obtain ⟨⟨honce,hnostop⟩,hkeep⟩ := hp
  have huser := h.user
  cases ht with
  | fault => exact ⟨h.user,h.fresh,h.starting,h.looping,h.monitor⟩
  | loss _ => exact ⟨h.user,h.fresh,h.starting,h.looping,h.monitor⟩
  | startCall _ =>
    have hfree := h.fresh (honce rfl)
    exact ⟨.inr (.inl ⟨_,rfl⟩),fun _ => hfree,fun _ _ _ => hfree,h.looping,h.monitor⟩
  | stopCall _ => exact absurd rfl hnostop
  | stop hu _ => simp [hu] at huser
  | heartbeat hh he hland =>
    obtain ⟨hs,_,hmem,_⟩ := heartbeatStep_frame he
    rw [hs] at hland
    obtain rfl := spawn_none.mp hland
    rw [State.putHeartbeat,hmem]
    exact ⟨h.user,h.fresh,h.starting,h.looping,h.monitor⟩
  | @start pc _ e _ hu he hland =>
    have hf := spawn_frame hland
    have hu' : s'.user = e.pc := hf.user
    obtain ⟨hr,hm,_⟩ := hsolo.starting (by rw [hu]; trivial)
    have hsf := startStep_frame he
    obtain ⟨hhb,_,_⟩ := Members.handles_eq hsf.handles
    have hfree := h.starting pc hu
    -- what `start` spawns decides which thread may be the next to spawn
    rcases hsf.spawn with ⟨hs,hpc⟩ | ⟨_,hs,hpc⟩ | ⟨_,hs,hpc⟩ | ⟨rfl,hs,hpc⟩ <;> rw [hs] at hland
    · obtain rfl := spawn_none.mp hland
      have hne : pc ≠ .spawnMonitor := by
        rintro rfl
        cases he
        cases hs
      refine ⟨?_,fun _ => hhb.trans (hfree hne),fun _ _ _ => hhb.trans (hfree hne),?_,?_⟩
      · rw [hu']
        exact .inr hpc
      · simp [State.putUser,hr]
      · simp [State.putUser,hm]
    · obtain ⟨_,_,rfl⟩ := spawn_heartbeat hland
      refine ⟨.inr (.inl ⟨_,hpc⟩),?_,?_,?_,?_⟩ <;> simp [State.putUser,hpc,hr,hm]
    · obtain ⟨_,_,rfl⟩ := spawn_monitor hland
      refine ⟨.inr (.inr hpc),?_,?_,?_,?_⟩ <;> simp [State.putUser,hpc,hr]
    · obtain ⟨_,_,rfl⟩ := spawn_reconnect hland
      have hfree' := hhb.trans (hfree (by simp))
      refine ⟨.inr (.inr hpc),?_,?_,fun _ _ _ => hfree',?_⟩ <;> simp [State.putUser,hpc,hm]
  | @reconnect pc _ e _ hr he hland =>
    have hf := spawn_frame hland
    have hu' : s'.user = .started :=
      hf.user.trans (h.started (hsolo.lone.not_starting_of_reconnect hr))
    refine ⟨.inr (.inr hu'),by simp [hu'],by simp [hu'],?_,?_⟩
    · intro p hp hb
      rcases reconnectStep_cases he with ⟨rfl,rfl⟩ | ⟨hne,e,hloop,rfl⟩
      · rw [hf.reconnect (by simp)] at hp
        cases hp
      · have hlf := loopStep_frame hloop
        rw [hf.reconnect (by rcases hlf.spawn with hs | ⟨_,hs,_⟩ | ⟨_,hs,_⟩ <;> simp [Effect.map,hs])]
          at hp
        cases hp
        obtain ⟨hb',hs⟩ := loopStep_before hloop hb
        rw [hf.members,Effect.map,hs]
        exact (Members.handles_eq hlf.handles).1.trans (h.looping pc hr hb')
    · intro p hp
      rcases reconnectStep_cases he with ⟨rfl,rfl⟩ | ⟨hne,e,hloop,rfl⟩
      · rw [hf.monitor (by simp)] at hp
        exact h.monitor p hp
      · rcases (loopStep_frame hloop).spawn with hs | ⟨_,hs,_⟩ | ⟨_,hs,_⟩
        · rw [hf.monitor (by simp [Effect.map,hs])] at hp
          exact h.monitor p hp
        · rw [hf.monitor (by simp [Effect.map,hs])] at hp
          exact h.monitor p hp
        · simp only [Effect.map,hs] at hland
          obtain ⟨_,_,rfl⟩ := spawn_monitor hland
          cases hp
  | @monitor pc _ e _ hm he hland =>
    have hf := spawn_frame hland
    have hu' : s'.user = .started :=
      hf.user.trans (h.started (hsolo.lone.not_starting_of_monitor hm))
    obtain ⟨hs,htry⟩ := monitorStep_trying he (fun p hp => h.monitor p (by rw [hm,hp])) (by
      rintro rfl
      simp [Action.keepsWatch,hm] at hkeep)
    refine ⟨.inr (.inr hu'),by simp [hu'],by simp [hu'],?_,?_⟩
    · intro p hp hb
      rw [hf.reconnect (by simp [hs])] at hp
      have hne : p ≠ .ret := by
        rintro rfl
        cases hb
      simp [(hsolo.looping p hp hne).1] at hm
    · intro p hp
      rw [hf.monitor (by simp [hs])] at hp
      exact htry p hp

/-- The stage the driver has reached tells the truth. -/
def Watched (cfg : ConnectionConfig) (s : State) : Prop :=
  s.driver.stage.Holds cfg s.members s.heartbeat

/-- A driver in `reconnect_loop` is on one of the two threads. -/
theorem driver_reconnectLoop {pc : LoopPc} (hd : s.driver = .thread (.reconnectLoop pc)) :
    s.reconnect = some pc ∨ s.monitor = some (.reconnectLoop pc) := by
  have hst : ¬s.user.Starting := by
    intro hst
    rw [State.driver] at hd
    cases hu : s.user <;> rw [hu] at hd hst <;> first | cases hd | cases hst
  have hmon : monitorDriver s.monitor = .thread (.reconnectLoop pc) →
      s.monitor = some (.reconnectLoop pc) := by
    cases s.monitor with
    | none =>
      intro h
      cases h
    | some p =>
      cases p with
      | reconnectLoop q =>
        intro h
        cases q <;> cases h <;> rfl
      | _ =>
        intro h
        cases h
  rw [driver_eq hst] at hd
  cases hr : s.reconnect with
  | none =>
    rw [hr] at hd
    exact .inr (hmon hd)
  | some p =>
    rw [hr] at hd
    by_cases hp : p = .ret
    · subst hp
      exact .inr (hmon hd)
    · rw [loopDriver_loop _ hp] at hd
      cases hd
      exact .inl rfl

theorem Watched.step (h : Watched cfg s) (hsolo : Solo s) (howned : Owned s.driver s.members)
    (hearly : Early s) (hp : Watching s a) (ht : Transition cfg s a es s') : Watched cfg s' := by
  rcases hsolo.step_driver hp.1.1 ht with hpassive | ⟨_,o,hstep,hbeat⟩
  · rw [Watched,hpassive.driver]
    rcases hpassive.still with hpos | ⟨hm,hh⟩
    · cases ht with
      | fault => exact h
      | startCall _ => cases hpos
      | stopCall _ => exact absurd rfl hp.1.2
      | stop hu _ => simpa [hu] using hearly.user
      | start hu _ _ => simp [Action.position,hu] at hpos
      | reconnect hr _ _ => simp [Action.position,hr] at hpos
      | monitor hm _ _ => simp [Action.position,hm] at hpos
      | loss hc =>
        -- the object is the same one, with what has happened to its pings
        refine Stage.Holds.mono h rfl rfl fun _ _ hb hen => ?_
        rcases hb hen with hlive | ⟨c,hc',hfail⟩
        · exact .inl hlive
        · obtain rfl := Option.some.inj (hc.symm.trans hc')
          exact .inr ⟨_,rfl,hfail⟩
      | heartbeat hh he hland =>
        obtain ⟨hs,_,hmem,_⟩ := heartbeatStep_frame he
        rw [hs] at hland
        obtain rfl := spawn_none.mp hland
        refine Stage.Holds.mono h ?_ ?_ fun hrun hst hb => ?_
        · rw [State.putHeartbeat,hmem]
        · rw [State.putHeartbeat,hmem]
        · rw [hh] at hb
          refine heartbeatStep_beating hrun hst (howned.connected hst) (fun hpc => ?_) hb he
          have hkeep := hp.2
          simp only [Action.keepsWatch,decide_eq_true_eq] at hkeep
          exact hkeep (by rw [hh,hpc]) hst
    · rw [hm,hh]
      exact h
  · rw [Watched,hbeat]
    -- a driver about to spawn is on the reconnect thread, where the handles are still free
    refine Driver.Step.stage h howned ?_ ?_ hstep
    · intro hd
      rcases driver_reconnectLoop hd with hr | hm
      · exact hearly.looping _ hr rfl
      · rcases hearly.monitor _ hm with hst | hst <;> cases hst
    · intro hd
      rcases driver_reconnectLoop hd with hr | hm
      · exact (hsolo.looping _ hr (by simp)).2
      · rcases hearly.monitor _ hm with hst | hst <;> cases hst

/-- Where a connected manager with no thread in `start` or `reconnect_loop` stands. -/
theorem Watched.supervised (h : Watched cfg s) (howned : Owned s.driver s.members)
    (hearly : Early s) : Supervised cfg s := by
  intro hst hidle
  have hwatching : ∃ pc, s.monitor = some pc ∧ pc.watching = true ∧ s.driver = .thread pc := by
    have hstarting : ¬s.user.Starting := by
      intro hstart
      rcases hearly.user with hu | ⟨p,hu⟩ | hu
      · refine howned.offline ?_ hst
        rw [State.driver,hu]
        rfl
      · exact hidle (.inl ⟨p,hu⟩)
      · simp [hu,UserPc.Starting] at hstart
    -- neither `start` nor the reconnect thread drives, so the monitor thread does
    have hd : s.driver = monitorDriver s.monitor := by
      rw [driver_eq hstarting]
      cases hr : s.reconnect with
      | none => rfl
      | some p =>
        by_cases hp : p = .ret
        · rw [hp]
          rfl
        · exact absurd (.inr (.inl ⟨p,hr,hp⟩)) hidle
    have hoff := howned.offline
    rw [Watched] at h
    rw [hd] at h hoff ⊢
    cases hm : s.monitor with
    | none =>
      rw [hm] at h
      exact absurd hst h
    | some pc =>
      rw [hm] at h hoff
      cases pc with
      | reconnectLoop p =>
        by_cases hp : p = .ret
        · rw [hp] at h
          exact absurd hst h
        · exact absurd (.inr (.inr ⟨p,hm,hp⟩)) hidle
      | ret => exact absurd hst h
      | onDisconnect => exact absurd hst (hoff rfl)
      | resetClient => exact absurd hst (hoff rfl)
      | storeDisconnected => exact absurd hst (hoff rfl)
      | _ => exact ⟨_,rfl,rfl,rfl⟩
  obtain ⟨pc,hm,hw,hd⟩ := hwatching
  refine ⟨⟨pc,hm,hw⟩,fun hen hping => ?_⟩
  have hbeat : Beating cfg s.members s.heartbeat := by
    rw [Watched,hd] at h
    cases pc <;> first | exact h.2.2 | cases hw
  rcases hbeat hen with hlive | ⟨c,hc,hfail⟩
  · exact hlive
  · simp [hping c hc] at hfail

/-- A connected manager stays supervised as long as `heartbeat_loop` finds no connection down
and no attempt of the monitor thread stores `Connected`. -/
theorem supervised_while_watching (cfg : ConnectionConfig) {tr : List Event} {s : State}
    (h : (manager cfg).RunWhere Watching init tr s) : Supervised cfg s := by
  obtain ⟨_,howned⟩ := run_owned (h.mono fun _ _ hp => hp.1.1)
  suffices hinv : (Solo s ∧ Owned s.driver s.members) ∧ Early s ∧ Watched cfg s from
    hinv.2.2.supervised howned hinv.2.1
  refine h.invariant (I := fun _ s => (Solo s ∧ Owned s.driver s.members) ∧ Early s ∧
    Watched cfg s) ⟨⟨solo_init,.of_offline rfl rfl (by simp [init])⟩,?_,trivial⟩ ?_
  · constructor <;> simp [init]
  · rintro _ s a s' es ⟨⟨hsolo,howned⟩,hearly,hw⟩ hp hstep
    have ht := step_transition hstep
    exact ⟨⟨hsolo.step hp.1.1 ht,howned.transition hsolo hp.1.1 ht⟩,hearly.step hsolo hp ht,
      hw.step hsolo howned hearly hp ht⟩

/-- The connection is lost and the monitor thread has just found out. -/
theorem supervised_while_watching_loss :
    ∃ tr s, (manager defaultConfig).RunWhere Watching init tr s ∧ s.members.state = .connected ∧
      (∃ pc, s.monitor = some pc ∧ pc.watching = true) ∧ ∃ pc, s.heartbeat = some pc ∧ pc ≠ .ret := by
  have hexec : ((manager defaultConfig).execWhere Watching init
      (System.schedule [(1,[.start]),(9,[.user true]),(6,[.heartbeat true]),(1,[.loss]),
        (5,[.monitor true])])).any
      (fun r => decide (r.1.members.state = .connected ∧ r.1.user = .started ∧
        r.1.reconnect = none ∧ r.1.monitor = some .storeReconnecting ∧
        r.1.members.client = some ⟨0,false,false⟩)) = true := by
    decide +kernel
  obtain ⟨s,tr,hrun,hs⟩ := System.exists_run_of_exec hexec
  obtain ⟨hst,hu,hr,hm,hc⟩ : s.members.state = .connected ∧ s.user = .started ∧
      s.reconnect = none ∧ s.monitor = some .storeReconnecting ∧
      s.members.client = some ⟨0,false,false⟩ := of_decide_eq_true hs
  have hsup := supervised_while_watching defaultConfig hrun hst (by simp [State.Connecting,hu,hr,hm])
  exact ⟨tr,s,hrun,hst,hsup.1,hsup.2 rfl (by simp [hc])⟩

/-- The connection is lost, the monitor thread makes a new one itself, and returns: the manager
is connected and no thread polls the connection. -/
theorem supervision_ends :
    ¬∀ cfg tr s, cfg.autoReconnect = true → (manager cfg).RunWhere NoStop init tr s →
      Supervised cfg s := by
  intro hall
  have hexec : ((manager defaultConfig).execWhere NoStop init
      (System.schedule [(1,[.start]),(9,[.user true]),(1,[.loss]),(22,[.monitor true])])).any
      (fun r => decide (r.1.members.state = .connected ∧ r.1.user = .started ∧
        r.1.reconnect = none ∧ r.1.monitor = none)) = true := by
    decide +kernel
  obtain ⟨s,tr,hrun,hs⟩ := System.exists_run_of_exec hexec
  obtain ⟨hst,hu,hr,hm⟩ : s.members.state = .connected ∧ s.user = .started ∧
      s.reconnect = none ∧ s.monitor = none := of_decide_eq_true hs
  obtain ⟨⟨pc,hpc,_⟩,_⟩ := hall defaultConfig tr s rfl hrun hst
    (by simp [State.Connecting,hu,hr,hm])
  rw [hm] at hpc
  cases hpc

end WsClient.Connection
