import WsClient.Connection.Driver

/-!
# Who may write `client_` and `reconnect_count_`

Neither member is atomic. Each is written only by a thread in the middle of a connection
attempt or of handling a loss, and there is never more than one such thread.
-/

namespace WsClient.Connection
open WsClient.Lib

inductive Thread
  | user
  | reconnect
  | monitor
  | heartbeat
  deriving DecidableEq, Repr

def Action.thread : Action → Option Thread
  | .start | .stop | .user _ => some .user
  | .reconnect _ => some .reconnect
  | .monitor _ => some .monitor
  | .heartbeat _ => some .heartbeat
  | .loss => none

/-- `start`'s own attempt, through its reset of `reconnect_count_`. -/
def StartPc.attempting : StartPc → Bool
  | .tryConnect _ | .storeConnected | .resetCount => true
  | _ => false

/-- `reconnect_loop` up to its exit, on success up to its reset of `reconnect_count_`. -/
def LoopPc.attempting : LoopPc → Bool
  | .checkHeartbeat | .spawnHeartbeat | .checkMonitor | .spawnMonitor | .ret => false
  | _ => true

/-- `monitor_loop`'s handling of a loss, from its store of `Reconnecting` on. -/
def MonitorPc.attempting : MonitorPc → Bool
  | .storeReconnecting | .onDisconnect | .resetClient => true
  | .reconnectLoop pc => pc.attempting
  | _ => false

/-- The thread is where it may write `client_` and `reconnect_count_`. -/
def State.attempting (s : State) : Thread → Bool
  | .user =>
    match s.user with
    | .start pc => pc.attempting
    | _ => false
  | .reconnect => s.reconnect.any LoopPc.attempting
  | .monitor => s.monitor.any MonitorPc.attempting
  | .heartbeat => false

def ConnectPc.writes : ConnectPc → Bool
  | .create | .reset => true
  | _ => false

def StartPc.writes : StartPc → Bool
  | .tryConnect pc => pc.writes
  | .resetCount => true
  | _ => false

def LoopPc.writes : LoopPc → Bool
  | .tryConnect _ pc => pc.writes
  | .writeCount _ _ | .resetCount => true
  | _ => false

def MonitorPc.writes : MonitorPc → Bool
  | .resetClient => true
  | .reconnectLoop pc => pc.writes
  | _ => false

/-- The thread's next step writes `client_` or `reconnect_count_`. -/
def State.writes (s : State) : Thread → Bool
  | .user =>
    match s.user with
    | .start pc => pc.writes
    | _ => false
  | .reconnect => s.reconnect.any LoopPc.writes
  | .monitor => s.monitor.any MonitorPc.writes
  | .heartbeat => false

/-- The pointer `client_` and `reconnect_count_`. -/
def Members.shared (m : Members) : Option ℕ × ℤ :=
  (m.client.map ClientObject.generation,m.reconnectCount)

variable {cfg : ConnectionConfig} {m : Members} {ok : Bool} {s s' : State} {a : Action}
  {es : List Event}

theorem LoopPc.attempting_of_writes {pc : LoopPc} (h : pc.writes = true) :
    pc.attempting = true := by
  cases pc <;> first | rfl | simp [LoopPc.writes] at h

theorem State.attempting_of_writes {t : Thread} (h : s.writes t = true) :
    s.attempting t = true := by
  cases t with
  | user =>
    simp only [State.writes,State.attempting] at h ⊢
    split at h
    · next pc _ => cases pc <;> first | rfl | simp [StartPc.writes] at h
    · cases h
  | reconnect =>
    obtain ⟨pc,hpc,hw⟩ := (Option.any_eq_true _ _).mp h
    exact (Option.any_eq_true _ _).mpr ⟨pc,hpc,LoopPc.attempting_of_writes hw⟩
  | monitor =>
    obtain ⟨pc,hpc,hw⟩ := (Option.any_eq_true _ _).mp h
    refine (Option.any_eq_true _ _).mpr ⟨pc,hpc,?_⟩
    cases pc with
    | reconnectLoop p => exact LoopPc.attempting_of_writes hw
    | resetClient => rfl
    | _ => cases hw
  | heartbeat => cases h

@[simp] theorem hold_shared (m : Members) (o : Option Handle) : (m.hold o).shared = m.shared := by
  cases o with
  | none => rfl
  | some handle => cases handle <;> rfl

theorem tryConnectStep_shared {pc : ConnectPc} {e : Effect (ConnectPc ⊕ Bool)}
    (h : tryConnectStep cfg m pc ok = some e) (hw : pc.writes = false) :
    e.members.shared = m.shared := by
  cases pc with
  | create => cases hw
  | reset => cases hw
  | connect =>
    obtain ⟨c,hc,rfl⟩ := Option.map_eq_some_iff.mp h
    cases ok <;> simp [Members.shared,hc]
  | onConnect =>
    cases h
    rfl

theorem startStep_shared {pc : StartPc} {e : Effect UserPc} (h : startStep cfg m pc ok = some e)
    (hw : pc.writes = false) : e.members.shared = m.shared := by
  cases pc with
  | tryConnect pc =>
    obtain ⟨e₀,he₀,rfl⟩ := Option.map_eq_some_iff.mp h
    exact tryConnectStep_shared he₀ hw
  | resetCount => cases hw
  | _ =>
    cases h
    rfl

theorem loopStep_shared {pc : LoopPc} {e : Effect LoopPc} (h : loopStep cfg m pc ok = some e)
    (hw : pc.writes = false) : e.members.shared = m.shared := by
  cases pc with
  | tryConnect b pc =>
    obtain ⟨e₀,he₀,rfl⟩ := Option.map_eq_some_iff.mp h
    exact tryConnectStep_shared he₀ hw
  | scaleBackoff b =>
    obtain ⟨b',_,rfl⟩ := Option.map_eq_some_iff.mp h
    rfl
  | writeCount b count => cases hw
  | resetCount => cases hw
  | _ =>
    cases h
    rfl

theorem monitorStep_shared {pc : MonitorPc} {e : Effect (Option MonitorPc)}
    (h : monitorStep cfg m pc ok = some e) (hw : pc.writes = false) :
    e.members.shared = m.shared := by
  cases pc with
  | reconnectLoop p =>
    by_cases hp : p = .ret
    · subst hp
      cases h
      rfl
    · rw [monitorStep_loop hp] at h
      obtain ⟨e₀,he₀,rfl⟩ := Option.map_eq_some_iff.mp h
      exact loopStep_shared he₀ hw
  | isRunning =>
    obtain ⟨c,_,rfl⟩ := Option.map_eq_some_iff.mp h
    rfl
  | resetClient => cases hw
  | _ =>
    cases h
    rfl

theorem Rely.shared {m m' : Members} (h : Rely m m') : m'.shared = m.shared := by
  rw [Members.shared,h.client,h.count]
  rfl

/-- A step that changes either member is a write of the thread that takes it. -/
theorem Transition.writes (ht : Transition cfg s a es s')
    (hne : s'.members.shared ≠ s.members.shared) :
    ∃ t, a.thread = some t ∧ s.writes t = true := by
  cases ht with
  | fault => exact absurd rfl hne
  | startCall _ => exact absurd rfl hne
  | stopCall _ => exact absurd rfl hne
  | loss hc => exact absurd (by simp [Members.shared,hc]) hne
  | stop hu hs => exact absurd (stopStep_frame hu hs).rely.shared hne
  | heartbeat hh he hland =>
    obtain ⟨_,_,hmem,hgen⟩ := heartbeatStep_frame he
    rw [(spawn_frame hland).members,hold_shared] at hne
    refine absurd ?_ hne
    rw [State.putHeartbeat,Members.shared,hgen,hmem]
    rfl
  | start hu he hland =>
    rw [(spawn_frame hland).members,hold_shared] at hne
    refine ⟨.user,rfl,?_⟩
    rw [State.writes,hu]
    by_contra hw
    exact hne (startStep_shared he (by simpa using hw))
  | reconnect hr he hland =>
    rw [(spawn_frame hland).members,hold_shared] at hne
    refine ⟨.reconnect,rfl,?_⟩
    rw [State.writes,hr]
    by_contra hw
    rcases reconnectStep_cases he with ⟨rfl,rfl⟩ | ⟨_,e,hloop,rfl⟩
    · exact hne rfl
    · exact hne (loopStep_shared hloop (by simpa using hw))
  | monitor hm he hland =>
    rw [(spawn_frame hland).members,hold_shared] at hne
    refine ⟨.monitor,rfl,?_⟩
    rw [State.writes,hm]
    by_contra hw
    exact hne (monitorStep_shared he (by simpa using hw))

/-- At most one thread at a time is where it may write. -/
theorem Solo.attempting_unique (h : Solo s) {t u : Thread} (ht : s.attempting t = true)
    (hu : s.attempting u = true) : t = u := by
  have huser : s.attempting .user = true → s.reconnect = none ∧ s.monitor = none := by
    intro hs
    refine ⟨(h.starting ?_).1,(h.starting ?_).2.1⟩
    all_goals
      simp only [State.attempting] at hs
      split at hs
      · next hpc =>
        rw [hpc]
        trivial
      · cases hs
  have hrec : s.attempting .reconnect = true → s.monitor = none := by
    intro hs
    obtain ⟨pc,hpc,ha⟩ := (Option.any_eq_true _ _).mp hs
    refine (h.looping pc hpc ?_).1
    rintro rfl
    cases ha
  cases t <;> cases u <;> simp_all [State.attempting]

/-! ## What the driver knows of `client_` -/

def ConnectPc.client? : ConnectPc → Bool
  | .create => false
  | _ => true

def StartPc.client? : StartPc → Bool
  | .tryConnect pc => pc.client?
  | .storeConnected | .resetCount | .spawnHeartbeat | .spawnMonitor => true
  | _ => false

def LoopPc.client? : LoopPc → Bool
  | .tryConnect _ pc => pc.client?
  | .storeConnected | .resetCount | .checkHeartbeat | .spawnHeartbeat | .checkMonitor
  | .spawnMonitor => true
  | _ => false

/-- Whether `client_` is non-null, where the driver's position tells. -/
def Driver.client? : Driver → Option Bool
  | .fresh => some false
  | .start pc => some pc.client?
  | .thread (.reconnectLoop pc) => some pc.client?
  | .thread .storeDisconnected => some false
  | .thread _ => some true
  | .gone => none

/-- The driver has not stored `Connected` for the connection it works on. -/
def Driver.offline : Driver → Bool
  | .fresh => true
  | .start .resetCount | .start .spawnHeartbeat | .start .spawnMonitor => false
  | .start _ => true
  | .thread (.reconnectLoop pc) => pc.attempting && decide (pc ≠ .resetCount)
  | .thread .onDisconnect | .thread .resetClient | .thread .storeDisconnected => true
  | _ => false

/-- `client_` and `state_` agree with where the driver stands. -/
structure Owned (d : Driver) (m : Members) : Prop where
  client : ∀ b, d.client? = some b → m.client.isSome = b
  offline : d.offline = true → m.state ≠ .connected
  connected : m.state = .connected → m.client.isSome = true

theorem isSome_of_generation {o o' : Option ClientObject}
    (h : o'.map ClientObject.generation = o.map ClientObject.generation) :
    o'.isSome = o.isSome := by
  rw [← Option.isSome_map,h,Option.isSome_map]

theorem Owned.rely {d : Driver} {m' : Members} (h : Owned d m) (hr : Rely m m') : Owned d m' := by
  have hc := isSome_of_generation hr.client
  refine ⟨fun b hb => hc.trans (h.client b hb),fun ho hm => ?_,fun hm => ?_⟩
  · rcases hr.state with he | he | he
    · exact h.offline ho (he.symm.trans hm)
    · simp [hm] at he
    · simp [hm] at he
  · rcases hr.state with he | he | he
    · exact hc.trans (h.connected (he.symm.trans hm))
    · simp [hm] at he
    · simp [hm] at he

@[simp] theorem hold_client (m : Members) (o : Option Handle) : (m.hold o).client = m.client := by
  cases o with
  | none => rfl
  | some handle => cases handle <;> rfl

@[simp] theorem hold_state (m : Members) (o : Option Handle) : (m.hold o).state = m.state := by
  cases o with
  | none => rfl
  | some handle => cases handle <;> rfl

theorem Owned.of_offline {d : Driver} {b : Bool} (hd : d.client? = some b)
    (hc : m.client.isSome = b) (hs : m.state ≠ .connected) : Owned d m := by
  refine ⟨fun c hb => ?_,fun _ => hs,fun hm => absurd hm hs⟩
  rw [hc]
  exact Option.some.inj (hd.symm.trans hb)

/-- A driver that is gone owns what the members say. -/
theorem Owned.of_gone (h : m.state = .connected → m.client.isSome = true) : Owned .gone m := by
  refine ⟨?_,?_,h⟩
  · intro _ hb
    cases hb
  · intro ho
    cases ho

theorem Owned.gone {d : Driver} (h : Owned d m) : Owned .gone m := .of_gone h.connected

theorem Owned.of_online {d : Driver} (hd : d.client? = some true) (ho : d.offline = false)
    (hc : m.client.isSome = true) : Owned d m := by
  refine ⟨fun b hb => ?_,fun h => by simp [ho] at h,fun _ => hc⟩
  rw [hc]
  exact Option.some.inj (hd.symm.trans hb)

/-- `try_connect` returns `true` with a client and `false` without, and stores no state. -/
theorem tryConnectStep_client {pc : ConnectPc} {e : Effect (ConnectPc ⊕ Bool)}
    (h : tryConnectStep cfg m pc ok = some e) (hc : m.client.isSome = pc.client?) :
    e.members.client.isSome = e.pc.elim ConnectPc.client? id := by
  cases pc with
  | create =>
    cases h
    rfl
  | connect =>
    obtain ⟨c,hc',rfl⟩ := Option.map_eq_some_iff.mp h
    cases ok <;> simp [ConnectPc.client?,hc']
  | onConnect =>
    cases h
    cases ok <;> exact hc
  | reset =>
    cases h
    rfl

theorem tryConnectStep_state {pc : ConnectPc} {e : Effect (ConnectPc ⊕ Bool)}
    (h : tryConnectStep cfg m pc ok = some e) : e.members.state = m.state := by
  rw [(tryConnectStep_frame h).2]

theorem Owned.startStep {pc : StartPc} {e : Effect UserPc} (h : Owned (.start pc) m)
    (hs : startStep cfg m pc ok = some e) :
    Owned ((e.pc.driver .gone).next cfg e.spawn) (e.members.hold e.spawn) := by
  have hc := h.client _ rfl
  cases pc with
  | tryConnect pc =>
    obtain ⟨e₀,he₀,rfl⟩ := Option.map_eq_some_iff.mp hs
    have hc' := tryConnectStep_client he₀ hc
    have hst : e₀.members.state ≠ .connected := by
      rw [tryConnectStep_state he₀]
      exact h.offline rfl
    obtain ⟨hspawn,_⟩ := tryConnectStep_frame he₀
    simp only [Effect.map,hspawn]
    split
    · next hpc =>
      rw [hpc] at hc'
      exact .of_offline rfl hc' hst
    · next hpc =>
      rw [hpc] at hc'
      exact .of_offline rfl hc' hst
    · next hpc =>
      rw [hpc] at hc'
      cases cfg.autoReconnect
      · exact .of_offline rfl hc' hst
      · exact .of_offline rfl hc' hst
  | storeConnected =>
    cases hs
    exact .of_online rfl rfl hc
  | resetCount =>
    cases hs
    cases cfg.heartbeatEnabled
    · exact .of_online rfl rfl hc
    · exact .of_online rfl rfl hc
  | spawnHeartbeat =>
    cases hs
    exact .of_online rfl rfl hc
  | spawnMonitor =>
    cases hs
    exact .of_online rfl rfl hc
  | storeDisconnected =>
    cases hs
    exact .of_gone (by simp [Members.setState])
  | storeRun =>
    cases hs
    exact .of_offline rfl hc (h.offline rfl)
  | storeConnecting =>
    cases hs
    exact .of_offline rfl hc (by simp [Members.setState])
  | storeReconnecting =>
    cases hs
    exact .of_offline rfl hc (by simp [Members.setState])
  | spawnReconnect =>
    cases hs
    exact .of_offline rfl hc (h.offline rfl)

theorem Owned.loopStep {pc : LoopPc} {e : Effect LoopPc}
    (h : Owned (.thread (.reconnectLoop pc)) m) (hs : loopStep cfg m pc ok = some e) :
    Owned ((loopDriver .gone (some e.pc)).next cfg e.spawn) (e.members.hold e.spawn) := by
  have hc := h.client _ rfl
  cases pc with
  | tryConnect b pc =>
    obtain ⟨e₀,he₀,rfl⟩ := Option.map_eq_some_iff.mp hs
    have hc' := tryConnectStep_client he₀ hc
    have hst : e₀.members.state ≠ .connected := by
      rw [tryConnectStep_state he₀]
      exact h.offline rfl
    obtain ⟨hspawn,_⟩ := tryConnectStep_frame he₀
    simp only [Effect.map,hspawn]
    split
    all_goals
      next hpc =>
      rw [hpc] at hc'
      exact .of_offline rfl hc' hst
  | loadRun b =>
    cases hs
    cases m.shouldRun
    · exact h.gone
    · exact .of_offline rfl hc (h.offline rfl)
  | writeCount b count =>
    simp only [Connection.loopStep] at hs
    split at hs <;> cases hs
    exact .of_offline rfl hc (h.offline rfl)
  | checkLimit b =>
    cases hs
    dsimp only
    split
    · exact .of_offline rfl hc (h.offline rfl)
    · exact .of_offline rfl hc (h.offline rfl)
  | storeDisconnected =>
    cases hs
    exact .of_offline rfl hc (by simp [Members.setState])
  | onDisconnect =>
    -- the loop returns without a client, and `state_` says so
    cases hs
    exact h.gone
  | scaleBackoff b =>
    obtain ⟨b',_,rfl⟩ := Option.map_eq_some_iff.mp hs
    exact .of_offline rfl hc (h.offline rfl)
  | storeConnected =>
    cases hs
    exact .of_online rfl rfl hc
  | resetCount =>
    cases hs
    cases cfg.heartbeatEnabled
    · exact .of_online rfl rfl hc
    · exact .of_online rfl rfl hc
  | checkHeartbeat =>
    cases hs
    cases m.heartbeatThread
    · exact .of_online rfl rfl hc
    · exact .of_online rfl rfl hc
  | checkMonitor =>
    cases hs
    cases m.monitorThread
    · exact .of_online rfl rfl hc
    · exact h.gone
  | ret =>
    cases hs
    exact h.gone
  | spawnHeartbeat =>
    cases hs
    exact .of_online rfl rfl hc
  | spawnMonitor =>
    cases hs
    exact .of_online rfl rfl hc
  | _ =>
    cases hs
    exact .of_offline rfl hc (h.offline rfl)

theorem Owned.monitorStep {pc : MonitorPc} {e : Effect (Option MonitorPc)}
    (h : Owned (.thread pc) m) (hs : monitorStep cfg m pc ok = some e) :
    Owned ((monitorDriver e.pc).next cfg e.spawn) (e.members.hold e.spawn) := by
  cases pc with
  | reconnectLoop p =>
    by_cases hp : p = .ret
    · subst hp
      cases hs
      exact h.gone
    · rw [monitorStep_loop hp] at hs
      obtain ⟨e₀,he₀,rfl⟩ := Option.map_eq_some_iff.mp hs
      simp only [Effect.map,monitorDriver_loop]
      exact h.loopStep he₀
  | loadRun =>
    cases hs
    cases m.shouldRun
    · exact h.gone
    · exact .of_online rfl rfl (h.client _ rfl)
  | recheckRun =>
    cases hs
    cases m.shouldRun
    · exact h.gone
    · exact .of_online rfl rfl (h.client _ rfl)
  | readClient =>
    cases hs
    cases m.client.isSome
    · exact .of_online rfl rfl (h.client _ rfl)
    · exact .of_online rfl rfl (h.client _ rfl)
  | isRunning =>
    -- a loss is found, but nothing is stored yet
    obtain ⟨c,_,rfl⟩ := Option.map_eq_some_iff.mp hs
    cases c.running
    · exact .of_online rfl rfl (h.client _ rfl)
    · exact .of_online rfl rfl (h.client _ rfl)
  | resetClient =>
    cases hs
    have hst := h.offline rfl
    cases cfg.autoReconnect
    · exact .of_offline rfl rfl hst
    · exact .of_offline rfl rfl hst
  | storeReconnecting =>
    cases hs
    exact .of_offline rfl (h.client _ rfl) (by simp [Members.setState])
  | onDisconnect =>
    cases hs
    exact .of_offline rfl (h.client _ rfl) (h.offline rfl)
  | storeDisconnected =>
    cases hs
    exact .of_gone (by simp [Members.setState])
  | ret =>
    cases hs
    exact h.gone
  | sleep =>
    cases hs
    exact .of_online rfl rfl (h.client _ rfl)

/-- One step of the driver keeps its knowledge. -/
theorem Owned.step {d d' : Driver} {m' : Members} {o : Option Handle} (h : Owned d m)
    (hs : Driver.Step cfg ok d m es o d' m') : Owned d' m' := by
  cases hs with
  | call => exact .of_offline rfl (h.client _ rfl) (h.offline rfl)
  | start he => exact h.startStep he
  | thread he => exact h.monitorStep he

theorem Owned.transition (h : Owned s.driver s.members) (hsolo : Solo s) (ho : Once s a)
    (ht : Transition cfg s a es s') : Owned s'.driver s'.members := by
  rcases hsolo.step_driver ho ht with hpassive | ⟨_,o,hd,_⟩
  · rw [hpassive.driver]
    exact h.rely hpassive.rely
  · exact h.step hd

theorem run_owned {tr : List Event} (h : (manager cfg).RunWhere Once init tr s) :
    Solo s ∧ Owned s.driver s.members :=
  run_driver (Q := fun _ _ => True) (I := fun _ d m => Owned d m)
    (fun _ _ ho => ⟨ho,fun _ _ => trivial⟩)
    (.of_offline rfl rfl (by simp [init]))
    (fun _ _ _ _ _ hi hr _ => hi.rely hr)
    (fun _ _ _ _ _ _ _ _ hi _ hs => hi.step hs) h

/-- `ConnectionManager` has a single writer: at most one thread at a time is in the middle of
a connection attempt or of handling a loss, every write of `client_` and `reconnect_count_` is
by such a thread, and `client_` is non-null whenever `state_` is `Connected`. -/
theorem single_client_writer (cfg : ConnectionConfig) {tr : List Event} {s : State}
    (h : (manager cfg).RunWhere Once init tr s) :
    (∀ t u, s.attempting t = true → s.attempting u = true → t = u) ∧
      (∀ t, s.writes t = true → s.attempting t = true) ∧
      (∀ a s' es, (manager cfg).step s a = some (s',es) →
        s'.members.shared ≠ s.members.shared →
        ∃ t, a.thread = some t ∧ s.writes t = true) ∧
      (s.members.state = .connected → s.members.client ≠ none) := by
  obtain ⟨hsolo,howned⟩ := run_owned h
  refine ⟨fun t u => hsolo.attempting_unique,fun t => State.attempting_of_writes,?_,?_⟩
  · intro a s' es hs hne
    exact (step_transition hs).writes hne
  · intro hst hnone
    have hsome := howned.connected hst
    rw [hnone] at hsome
    cases hsome

/-- A configuration with every default. -/
def defaultConfig : ConnectionConfig := { host := "localhost", port := "8765" }

/-- The first attempt fails; the reconnect thread is inside its own while `stop` runs. -/
theorem single_client_writer_reconnect :
    ∃ tr s, (manager defaultConfig).RunWhere Once init tr s ∧ s.user = .stop .clearRun ∧
      s.writes .reconnect = true ∧ ∀ t, s.writes t = true → t = .reconnect := by
  have hexec : ((manager defaultConfig).execWhere Once init
      (System.schedule [(1,[.start]),(3,[.user true]),(1,[.user false]),(3,[.user true]),
        (1,[.reconnect true,.stop]),(2,[.user true]),(5,[.reconnect true])])).any
      (fun r => decide (r.1.user = .stop .clearRun ∧ r.1.writes .reconnect = true)) = true := by
    decide +kernel
  obtain ⟨s,tr,hrun,hs⟩ := System.exists_run_of_exec hexec
  obtain ⟨hu,hw⟩ := of_decide_eq_true hs
  obtain ⟨hone,hwrites,_⟩ := single_client_writer defaultConfig hrun
  exact ⟨tr,s,hrun,hu,hw,fun t ht => hone t .reconnect (hwrites t ht) (hwrites _ hw)⟩

end WsClient.Connection
