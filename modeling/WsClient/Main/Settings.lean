import WsClient.Main.Encryption
import WsClient.Connection.Threads

/-!
# The receiver's settings in the two modes

`main` puts the pinning options into a `ClientConfig` and into a `ConnectionConfig`; the manager
constructs its clients with neither.
-/

namespace WsClient.Main
open WsClient.Lib

/-- The core that `receive_loop` pins itself to. -/
def pinnedCore (cpuCount : ℤ) (config : Client.ClientConfig) : Option ℤ :=
  if config.pinReceiverThread then
    some (if config.receiverCoreId < 0 then cpuCount-1 else config.receiverCoreId)
  else none

/-- The arguments of the constructor, where a client is constructed. -/
def Event.created : Event → Option (String × String × Client.ClientConfig)
  | .construct _ host port config => some (host,port,config)
  | .manager (.construct host port config) => some (host,port,config)
  | _ => none

/-- A client constructed with what the arguments say. -/
structure Settings (args : CliArgs) (host port : String) (config : Client.ClientConfig) : Prop where
  host : host = args.host
  port : port = args.port
  pinThread : config.pinReceiverThread = args.pinThread
  coreId : config.receiverCoreId = args.pinCore
  core : ∀ cpuCount, pinnedCore cpuCount config = pinnedCore cpuCount args.clientConfig

variable {sslEnabled : Bool} {argv : List String} {args : CliArgs} {host port : String}
  {config : Client.ClientConfig} {s s' : State} {a : Action} {es : List Event}

theorem settings_clientConfig (args : CliArgs) :
    Settings args args.host args.port args.clientConfig :=
  ⟨rfl,rfl,rfl,rfl,fun _ => rfl⟩

/-- The defaults are what was asked for when nothing was. -/
theorem settings_default (hpin : args.pinThread = false) (hcore : args.pinCore = -1) :
    Settings args args.host args.port {} := by
  refine ⟨rfl,rfl,hpin.symm,hcore.symm,fun _ => ?_⟩
  rw [pinnedCore,pinnedCore,CliArgs.clientConfig,hpin]
  rfl

section Manager
open Connection

variable {cfg : ConnectionConfig} {m : Members} {ok : Bool}

/-- What the manager constructs its clients with. -/
def Constructs (cfg : ConnectionConfig) (es : List Connection.Event) : Prop :=
  ∀ host port config, .construct host port config ∈ es →
    host = cfg.host ∧ port = cfg.port ∧ config = {}

theorem tryConnectStep_constructs {pc : ConnectPc} {e : Effect (ConnectPc ⊕ Bool)}
    (h : tryConnectStep cfg m pc ok = some e) : Constructs cfg e.events := by
  intro host port config hmem
  cases pc with
  | connect =>
    obtain ⟨c,_,rfl⟩ := Option.map_eq_some_iff.mp h
    cases ok <;> cases hmem
  | create =>
    cases h
    cases List.mem_singleton.mp hmem
    exact ⟨rfl,rfl,rfl⟩
  | _ =>
    cases h
    cases List.mem_singleton.mp hmem

theorem startStep_constructs {pc : StartPc} {e : Effect UserPc}
    (h : startStep cfg m pc ok = some e) : Constructs cfg e.events := by
  cases pc with
  | tryConnect pc =>
    obtain ⟨e₀,he₀,rfl⟩ := Option.map_eq_some_iff.mp h
    exact tryConnectStep_constructs he₀
  | _ =>
    cases h
    simp [Constructs]

theorem loopStep_constructs {pc : LoopPc} {e : Effect LoopPc}
    (h : loopStep cfg m pc ok = some e) : Constructs cfg e.events := by
  cases pc with
  | tryConnect b pc =>
    obtain ⟨e₀,he₀,rfl⟩ := Option.map_eq_some_iff.mp h
    exact tryConnectStep_constructs he₀
  | scaleBackoff b =>
    obtain ⟨b',_,rfl⟩ := Option.map_eq_some_iff.mp h
    simp [Constructs]
  | writeCount b count =>
    simp only [loopStep] at h
    split at h <;> cases h
    simp [Constructs]
  | _ =>
    cases h
    simp [Constructs]

theorem monitorStep_constructs {pc : MonitorPc} {e : Effect (Option MonitorPc)}
    (h : monitorStep cfg m pc ok = some e) : Constructs cfg e.events := by
  cases pc with
  | reconnectLoop p =>
    by_cases hp : p = .ret
    · subst hp
      cases h
      simp [Constructs]
    · rw [monitorStep_loop hp] at h
      obtain ⟨e₀,he₀,rfl⟩ := Option.map_eq_some_iff.mp h
      exact loopStep_constructs he₀
  | isRunning =>
    obtain ⟨c,_,rfl⟩ := Option.map_eq_some_iff.mp h
    simp [Constructs]
  | _ =>
    cases h
    simp [Constructs]

/-- Whichever thread constructs a client, it does so with the defaults of `ClientConfig`. -/
theorem step_constructs {s s' : Connection.State} {a : Connection.Action}
    {es : List Connection.Event} (hs : (manager cfg).step s a = some (s',es)) :
    Constructs cfg es := by
  cases step_transition hs with
  | start _ he _ => exact startStep_constructs he
  | monitor _ he _ => exact monitorStep_constructs he
  | reconnect _ he _ =>
    rcases reconnectStep_cases he with ⟨_,rfl⟩ | ⟨_,e₀,he₀,rfl⟩
    · simp [Constructs]
    · exact loopStep_constructs he₀
  | stop hu he =>
    intro host port config hmem
    rcases (stopStep_frame hu he).quiet _ hmem with h | h | h <;> cases h
  | heartbeat _ he _ =>
    rcases (heartbeatStep_frame he).2.1 with hes | hes <;> simp [Constructs,hes]
  | _ => simp [Constructs]

end Manager

/-- What has been constructed, and which mode may construct more. -/
structure Settled (args : CliArgs) (tr : List Event) (s : State) : Prop where
  parsed : s.pc = .parseArgs ∨ s.args = args
  managed : ∀ pc, s.pc = .managed pc → args.autoReconnect = true
  created : ∀ e ∈ tr, ∀ host port config, e.created = some (host,port,config) →
    host = args.host ∧ port = args.port ∧
      (config = args.clientConfig ∨ (args.autoReconnect = true ∧ config = {}))

variable {tr : List Event}

theorem Settled.silent (h : Settled args tr s) (hargs : s'.args = args)
    (hmanaged : ∀ pc, s'.pc = .managed pc → args.autoReconnect = true) :
    Settled args (tr++[]) s' := by
  rw [List.append_nil]
  exact ⟨.inr hargs,hmanaged,h.created⟩

theorem Settled.onManager {b : Connection.Action} {pc : Pc} (h : Settled args tr s)
    (hargs : s.args = args) (hauto : args.autoReconnect = true)
    (hs : s.onManager b pc = some (s',es)) : Settled args (tr++es) s' := by
  obtain ⟨⟨manager,fs⟩,hstep,heq⟩ := Option.map_eq_some_iff.mp hs
  cases heq
  have hcon := step_constructs (show (Connection.manager s.args.connConfig).step _ _ = _ from hstep)
  refine ⟨.inr hargs,fun _ _ => hauto,?_⟩
  intro e he host port config hc
  rcases List.mem_append.mp he with he | he
  · exact h.created e he host port config hc
  · obtain ⟨e,hmem,rfl⟩ := List.mem_map.mp he
    cases e with
    | construct host' port' config' =>
      cases hc
      obtain ⟨rfl,rfl,rfl⟩ := hcon _ _ _ hmem
      rw [hargs]
      exact ⟨rfl,rfl,.inr ⟨hauto,rfl⟩⟩
    | _ => cases hc

/-- In the managed mode only the manager constructs clients. -/
theorem Settled.managedStep {ok : Bool} {pc : ManagedPc} (h : Settled args tr s)
    (hargs : s.args = args) (hauto : args.autoReconnect = true)
    (hs : managedStep s ok pc = some (s',es)) : Settled args (tr++es) s' := by
  cases pc with
  | start => exact h.onManager hargs hauto hs
  | stop => exact h.onManager hargs hauto hs
  | starting =>
    simp only [Main.managedStep] at hs
    split at hs <;> cases hs
    exact h.silent hargs fun _ _ => hauto
  | stopping =>
    simp only [Main.managedStep] at hs
    split at hs <;> cases hs
    exact h.silent hargs fun _ _ => hauto
  | _ =>
    cases hs
    exact h.silent hargs fun _ _ => hauto

/-- The other modes construct one client, with `client_config`. -/
theorem Settled.directStep {type : ClientType} {ok : Bool} {pc : DirectPc}
    (h : Settled args tr s) (hargs : s.args = args) (hs : directStep s type ok pc = (s',es)) :
    Settled args (tr++es) s' := by
  cases pc with
  | create =>
    cases ok <;> cases hs
    · exact h.silent hargs fun pc hpc => by cases hpc
    · refine ⟨.inr hargs,by simp,?_⟩
      intro e he host port config hc
      rcases List.mem_append.mp he with he | he
      · exact h.created e he host port config hc
      · cases List.mem_singleton.mp he
        cases hc
        rw [hargs]
        exact ⟨rfl,rfl,.inl rfl⟩
  | connect =>
    cases ok <;> cases hs <;> exact h.silent hargs fun pc hpc => by cases hpc
  | session =>
    cases hs
    exact h.silent hargs fun pc hpc => by cases hpc

theorem Settled.step (h : Settled args tr s) (hparse : parseArgs argv = .ok args)
    (hs : (main sslEnabled argv).step s a = some (s',es)) : Settled args (tr++es) s' := by
  simp only [main,Main.step] at hs
  split at hs
  · cases hs
  split at hs
  · rw [hparse] at hs
    cases hs
    refine h.silent rfl ?_
    intro pc hpc
    simp only [Pc.dispatch] at hpc
    split at hpc
    · assumption
    · split at hpc
      · split at hpc <;> cases hpc
      · cases hpc
  · next hpc => exact h.managedStep (h.parsed.resolve_left (by simp [hpc])) (h.managed _ hpc) hs
  · cases hs
  · cases hs
  · next hpc => exact h.onManager (h.parsed.resolve_left (by simp [hpc])) (h.managed _ hpc) hs
  · next hpc =>
    exact h.directStep (h.parsed.resolve_left (by simp [hpc])) (Option.some.inj hs)
  · cases hs

theorem run_settled (hparse : parseArgs argv = .ok args)
    (h : (main sslEnabled argv).Run init tr s) : Settled args tr s := by
  refine h.invariant ⟨.inl rfl,by simp [init],by simp⟩ ?_
  intro tr s a s' es hi _ hs
  exact hi.step hparse hs

/-- When `parse_args` exits, nothing is constructed. -/
theorem run_exited {code : ℕ} (hparse : parseArgs argv = .error code)
    (h : (main sslEnabled argv).Run init tr s) :
    tr = [] ∧ (s.pc = .parseArgs ∨ s.pc = .exited code) := by
  refine h.invariant (I := fun tr s => tr = [] ∧ (s.pc = .parseArgs ∨ s.pc = .exited code))
    ⟨rfl,.inl rfl⟩ ?_
  rintro tr s a s' es ⟨rfl,hpc⟩ _ hs
  simp only [main,Main.step] at hs
  split at hs
  · cases hs
  · rcases hpc with hpc | hpc <;> simp only [hpc] at hs
    · split at hs
      · rw [hparse] at hs
        cases hs
        exact ⟨rfl,.inr rfl⟩
      all_goals simp_all
    · cases hs

/-- Every client is constructed with the settings of the arguments, in a build with TLS and in one
without, exactly when `--pin` and `--reconnect` are not both processed. -/
theorem same_settings_iff (sslEnabled : Bool) (argv : List String) :
    (∀ tr s, (main sslEnabled argv).Run init tr s → ∀ e ∈ tr, ∀ host port config,
      e.created = some (host,port,config) →
        ∃ args, parseArgs argv = .ok args ∧ Settings args host port config) ↔
      (∃ code, parseArgs argv = .error code) ∨ "--pin" ∉ processed argv ∨
        "--reconnect" ∉ processed argv := by
  cases hparse : parseArgs argv with
  | error code =>
    refine ⟨fun _ => .inl ⟨code,rfl⟩,?_⟩
    intro _ tr s hrun e he
    rw [(run_exited hparse hrun).1] at he
    cases he
  | ok args =>
    obtain ⟨hreconnect,_,hpin,hcore⟩ := parseArgs_flags hparse
    rw [← hreconnect,← hpin]
    constructor
    · intro hall
      refine .inr ?_
      by_contra hboth
      rw [not_or,not_not,not_not] at hboth
      obtain ⟨tr,s,hrun,he⟩ := construct_of_reconnect sslEnabled hparse hboth.2
      obtain ⟨args',hargs,hset⟩ := hall tr s hrun _ he _ _ _ rfl
      cases hargs
      -- the client's `pin_receiver_thread` is the default
      have hoff := hset.pinThread
      rw [hboth.1] at hoff
      cases hoff
    · intro h tr s hrun e he host port config hc
      obtain ⟨rfl,rfl,hconfig⟩ := (run_settled hparse hrun).created e he host port config hc
      refine ⟨args,rfl,?_⟩
      rcases hconfig with rfl | ⟨hauto,rfl⟩
      · exact settings_clientConfig args
      · rcases h with ⟨code,hcode⟩ | h | h
        · cases hcode
        · have hoff := Bool.eq_false_iff.mpr h
          exact settings_default hoff (hcore hoff)
        · exact absurd hauto h

/-- `--pin 3 --reconnect` constructs a client that pins nothing. -/
theorem reconnect_loses_pin :
    ∃ tr s, (main false ["websocket_client","--pin","3","--reconnect"]).Run init tr s ∧
      ∃ e ∈ tr, ∃ host port config, e.created = some (host,port,config) ∧
        pinnedCore 8 config = none ∧
        ∀ args, parseArgs ["websocket_client","--pin","3","--reconnect"] = .ok args →
          pinnedCore 8 args.clientConfig = some 3 ∧ ¬Settings args host port config := by
  have hparse : parseArgs ["websocket_client","--pin","3","--reconnect"] =
      .ok { pinThread := true, pinCore := 3, autoReconnect := true } := by decide +kernel
  obtain ⟨tr,s,hrun,he⟩ := construct_of_reconnect false hparse rfl
  refine ⟨tr,s,hrun,_,he,_,_,_,rfl,rfl,?_⟩
  intro args hargs
  rw [hparse] at hargs
  cases hargs
  refine ⟨rfl,?_⟩
  intro h
  have hoff := h.pinThread
  cases hoff

end WsClient.Main
