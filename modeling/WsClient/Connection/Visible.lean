import WsClient.Connection.Callbacks

/-!
# What `state()` tells

`Connected` is only ever seen while the last thing announced is a connection, and `Disconnected`,
once stored, is for good: the manager never makes another client.
-/

namespace WsClient.Connection
open WsClient.Lib

/-- The driver has stored `Disconnected`, or is gone. -/
def Driver.settled : Driver → Bool
  | .gone | .thread .ret | .thread (.reconnectLoop .onDisconnect)
  | .thread (.reconnectLoop .ret) => true
  | _ => false

/-- Without a client, and with none to come. -/
structure Ended (d : Driver) (m : Members) : Prop where
  settled : d.settled = true
  client : m.client = none
  state : m.state = .disconnected ∨ m.state = .closing ∨ m.state = .closed

variable {cfg : ConnectionConfig} {m : Members} {ok : Bool} {s : State} {es : List Event}
  {t u : Phase} {d d' : Driver} {m' : Members} {o : Option Handle}

/-- A step by which `state_` can come to say `Connected`, or to stay so: it sends no signal. -/
def SilentUp (m m' : Members) (es : List Event) (up : Prop) : Prop :=
  m'.state = .connected → signals es = [] ∧ (m.state = .connected ∨ up)

theorem SilentUp.of_state {up : Prop} (h : m'.state = m.state) (hs : m.state ≠ .connected) :
    SilentUp m m' es up := fun hc => absurd (h ▸ hc) hs

theorem startStep_up {pc : StartPc} {e : Effect UserPc} (h : Owned (.start pc) m)
    (hs : startStep cfg m pc ok = some e) :
    SilentUp m (e.members.hold e.spawn) e.events (pc = .storeConnected) := by
  have hoff := h.offline
  cases pc with
  | tryConnect pc =>
    obtain ⟨e₀,he₀,rfl⟩ := Option.map_eq_some_iff.mp hs
    exact .of_state (by simp [Effect.map,tryConnectStep_state he₀]) (hoff rfl)
  | storeConnected =>
    cases hs
    exact fun _ => ⟨rfl,.inr rfl⟩
  | resetCount | spawnHeartbeat | spawnMonitor =>
    cases hs
    exact fun hc => ⟨rfl,.inl hc⟩
  | storeRun | spawnReconnect =>
    cases hs
    exact .of_state rfl (hoff rfl)
  | storeConnecting | storeReconnecting | storeDisconnected =>
    cases hs
    intro hc
    cases hc

theorem loopStep_up {pc : LoopPc} {e : Effect LoopPc} (h : Owned (.thread (.reconnectLoop pc)) m)
    (hs : loopStep cfg m pc ok = some e) :
    SilentUp m (e.members.hold e.spawn) e.events (pc = .storeConnected) := by
  have hoff := h.offline
  cases pc with
  | tryConnect b pc =>
    obtain ⟨e₀,he₀,rfl⟩ := Option.map_eq_some_iff.mp hs
    exact .of_state (by simp [Effect.map,tryConnectStep_state he₀]) (hoff rfl)
  | storeConnected =>
    cases hs
    exact fun _ => ⟨rfl,.inr rfl⟩
  | resetCount | checkHeartbeat | spawnHeartbeat | checkMonitor | spawnMonitor | ret =>
    cases hs
    exact fun hc => ⟨rfl,.inl hc⟩
  | scaleBackoff b =>
    obtain ⟨b',_,rfl⟩ := Option.map_eq_some_iff.mp hs
    exact .of_state rfl (hoff rfl)
  | writeCount b count =>
    simp only [loopStep] at hs
    split at hs <;> cases hs
    exact .of_state rfl (hoff rfl)
  | storeDisconnected =>
    cases hs
    intro hc
    cases hc
  | _ =>
    cases hs
    exact .of_state rfl (hoff rfl)

theorem monitorStep_up {pc : MonitorPc} {e : Effect (Option MonitorPc)}
    (h : Owned (.thread pc) m) (hs : monitorStep cfg m pc ok = some e) :
    SilentUp m (e.members.hold e.spawn) e.events (pc = .reconnectLoop .storeConnected) := by
  have hoff := h.offline
  cases pc with
  | reconnectLoop p =>
    by_cases hp : p = .ret
    · subst hp
      cases hs
      exact fun hc => ⟨rfl,.inl hc⟩
    · rw [monitorStep_loop hp] at hs
      obtain ⟨e₀,he₀,rfl⟩ := Option.map_eq_some_iff.mp hs
      intro hc
      obtain ⟨hes,hup⟩ := loopStep_up h he₀ hc
      exact ⟨hes,hup.imp_right fun hp => by rw [hp]⟩
  | isRunning =>
    obtain ⟨c,_,rfl⟩ := Option.map_eq_some_iff.mp hs
    exact fun hc => ⟨rfl,.inl hc⟩
  | storeReconnecting | storeDisconnected =>
    cases hs
    intro hc
    cases hc
  | onDisconnect | resetClient =>
    cases hs
    exact .of_state rfl (hoff rfl)
  | loadRun | sleep | recheckRun | readClient | ret =>
    cases hs
    exact fun hc => ⟨rfl,.inl hc⟩

/-- `Connected` goes with a connection that has been announced. -/
theorem Driver.Step.up (hs : Driver.Step cfg ok d m es o d' m') (howned : Owned d m)
    (hd : d.Expects cfg.maxReconnectTries m.reconnectCount t)
    (hup : m.state = .connected → t = .up)
    (hrun : (protocol cfg.maxReconnectTries).run t (signals es) = some u)
    (hc : m'.state = .connected) : u = .up := by
  have hsilent : signals es = [] ∧ (m.state = .connected ∨ t = .up) := by
    cases hs with
    | call => exact ⟨rfl,.inl hc⟩
    | start he =>
      obtain ⟨hes,hor⟩ := startStep_up howned he hc
      exact ⟨hes,hor.imp_right fun hpc => by subst hpc; exact hd⟩
    | thread he =>
      obtain ⟨hes,hor⟩ := monitorStep_up howned he hc
      exact ⟨hes,hor.imp_right fun hpc => by subst hpc; exact hd⟩
  obtain ⟨hes,hor⟩ := hsilent
  rw [hes] at hrun
  cases hrun
  exact hor.elim hup id

theorem Ended.rely (h : Ended d m) (hr : Rely m m') : Ended d m' := by
  refine ⟨h.settled,?_,?_⟩
  · have hclient := hr.client
    rw [h.client] at hclient
    exact Option.map_eq_none_iff.mp hclient
  · rcases hr.state with he | he | he
    · rw [he]
      exact h.state
    · exact .inr (.inl he)
    · exact .inr (.inr he)

/-- What is left to do is to call `on_disconnect` and to return. -/
theorem Ended.step (h : Ended d m) (hs : Driver.Step cfg ok d m es o d' m') : Ended d' m' := by
  have hsettled := h.settled
  cases hs with
  | call => cases hsettled
  | start => cases hsettled
  | @thread pc _ e he =>
    cases pc with
    | ret =>
      cases he
      exact ⟨rfl,h.client,h.state⟩
    | reconnectLoop p =>
      cases p with
      | ret | onDisconnect =>
        cases he
        exact ⟨rfl,h.client,h.state⟩
      | _ => cases hsettled
    | _ => cases hsettled

theorem tryConnectStep_stores {pc : ConnectPc} {e : Effect (ConnectPc ⊕ Bool)}
    {state : ConnectionState} (h : tryConnectStep cfg m pc ok = some e) :
    .setState state ∉ e.events := by
  cases pc with
  | connect =>
    obtain ⟨c,_,rfl⟩ := Option.map_eq_some_iff.mp h
    cases ok <;> simp
  | _ =>
    cases h
    simp

/-- `Disconnected` is stored where `client_` is null and no attempt is to follow. -/
theorem Driver.Step.ends (hs : Driver.Step cfg ok d m es o d' m') (howned : Owned d m)
    (hm : .setState .disconnected ∈ es) : Ended d' m' := by
  have hnone : d.client? = some false → m.client = none := by
    intro hd
    have hc := howned.client false hd
    exact Option.isNone_iff_eq_none.mp (by simpa using hc)
  cases hs with
  | call => cases hm
  | @start pc _ e he =>
    cases pc with
    | storeDisconnected =>
      cases he
      exact ⟨rfl,hnone rfl,.inl rfl⟩
    | tryConnect pc =>
      obtain ⟨e₀,he₀,rfl⟩ := Option.map_eq_some_iff.mp he
      exact absurd hm (tryConnectStep_stores he₀)
    | _ =>
      cases he
      simp at hm
  | @thread pc _ e he =>
    cases pc with
    | storeDisconnected =>
      cases he
      exact ⟨rfl,hnone rfl,.inl rfl⟩
    | isRunning =>
      obtain ⟨c,_,rfl⟩ := Option.map_eq_some_iff.mp he
      cases hm
    | reconnectLoop p =>
      by_cases hp : p = .ret
      · subst hp
        cases he
        cases hm
      rw [monitorStep_loop hp] at he
      obtain ⟨e₀,he₀,rfl⟩ := Option.map_eq_some_iff.mp he
      cases p with
      | storeDisconnected =>
        cases he₀
        exact ⟨rfl,hnone rfl,.inl rfl⟩
      | tryConnect b pc =>
        obtain ⟨e₁,he₁,rfl⟩ := Option.map_eq_some_iff.mp he₀
        exact absurd hm (tryConnectStep_stores he₁)
      | scaleBackoff b =>
        obtain ⟨b',_,rfl⟩ := Option.map_eq_some_iff.mp he₀
        cases hm
      | writeCount b count =>
        simp only [loopStep] at he₀
        split at he₀ <;> cases he₀
        cases hm
      | _ =>
        cases he₀
        simp [Effect.map] at hm
    | _ =>
      cases he
      simp at hm

/-- What is known of a run: the protocol's phase, who owns what, and whether it has ended. -/
structure Known (cfg : ConnectionConfig) (tr : List Event) (d : Driver) (m : Members) : Prop where
  owned : Owned d m
  phase : ∃ t, (protocol cfg.maxReconnectTries).run .first (signals tr) = some t ∧
    d.Expects cfg.maxReconnectTries m.reconnectCount t ∧ (m.state = .connected → t = .up)
  ended : .setState .disconnected ∈ tr → Ended d m

theorem Known.rely {tr : List Event} (h : Known cfg tr d m) (hr : Rely m m') (hq : Quiet es) :
    Known cfg (tr++es) d m' := by
  obtain ⟨t,ht,hd,hup⟩ := h.phase
  refine ⟨h.owned.rely hr,⟨t,?_,?_,fun hc => ?_⟩,fun hm => ?_⟩
  · rw [signals_append,hq.signals,List.append_nil]
    exact ht
  · rw [hr.count]
    exact hd
  · rcases hr.state with he | he | he
    · exact hup (he.symm.trans hc)
    · simp [hc] at he
    · simp [hc] at he
  · rcases List.mem_append.mp hm with hm | hm
    · exact (h.ended hm).rely hr
    · rcases hq _ hm with he | he | he <;> cases he

theorem Known.step {tr : List Event} (h : Known cfg tr d m)
    (hok : d.atOnConnect = true → ok = true) (hs : Driver.Step cfg ok d m es o d' m') :
    Known cfg (tr++es) d' m' := by
  obtain ⟨t,ht,hd,hup⟩ := h.phase
  obtain ⟨u,hu,hd'⟩ := driver_follows hd hok hs
  refine ⟨h.owned.step hs,⟨u,?_,hd',hs.up h.owned hd hup hu⟩,fun hm => ?_⟩
  · rw [signals_append,Automaton.run_append_of_eq _ ht]
    exact hu
  · rcases List.mem_append.mp hm with hm | hm
    · exact (h.ended hm).step hs
    · exact hs.ends h.owned hm

theorem run_known {tr : List Event} (h : (manager cfg).RunWhere OnceReturning init tr s) :
    Known cfg tr s.driver s.members := by
  refine (run_driver (Q := fun d ok => d.atOnConnect = true → ok = true) (I := Known cfg) ?_ ?_
    (fun _ _ _ _ _ hi hr hq => hi.rely hr hq) (fun _ _ _ _ _ _ _ _ hi hok hs => hi.step hok hs)
    h).2
  · rintro s a ⟨honce,hret⟩
    refine ⟨honce,fun d hd hat => ?_⟩
    rw [hd] at hret
    simpa [hat] using hret
  · refine ⟨.of_offline rfl rfl (by simp [init]),⟨.first,rfl,⟨rfl,rfl⟩,?_⟩,?_⟩
    · simp [init]
    · simp

/-- What a caller may take from `state()`: while it is `Connected` the last thing that was
announced is a connection, with neither a loss nor a giving up after it; and once `Disconnected`
has been stored there is no client and never will be, whatever the threads and `stop` still do. -/
theorem state_agrees (cfg : ConnectionConfig) {tr : List Event} {s : State}
    (h : (manager cfg).RunWhere OnceReturning init tr s) :
    (s.members.state = .connected → ∃ p, signals tr = p++[.connect]) ∧
      (.setState .disconnected ∈ tr → s.members.client = none ∧
        (s.members.state = .disconnected ∨ s.members.state = .closing ∨
          s.members.state = .closed)) := by
  have hknown := run_known h
  refine ⟨fun hc => ?_,fun hm => ⟨(hknown.ended hm).client,(hknown.ended hm).state⟩⟩
  obtain ⟨t,ht,_,hup⟩ := hknown.phase
  obtain rfl := hup hc
  exact protocol_shape ht

/-- A connection is lost, and the one attempt that is allowed succeeds. -/
theorem state_agrees_reconnected :
    ∃ tr s, (manager { defaultConfig with maxReconnectTries := 1 }).RunWhere OnceReturning init
        tr s ∧ .lost ∈ signals tr ∧ s.members.state = .connected ∧
      ∃ p, signals tr = p++[.connect] := by
  have hexec : ((manager { defaultConfig with maxReconnectTries := 1 }).execWhere OnceReturning init
      (System.schedule [(1,[.start]),(9,[.user true]),(1,[.loss]),(19,[.monitor true])])).any
      (fun r => decide (.lost ∈ signals r.2 ∧ r.1.members.state = .connected)) = true := by
    decide +kernel
  obtain ⟨s,tr,hrun,hs⟩ := System.exists_run_of_exec hexec
  obtain ⟨hlost,hc⟩ : .lost ∈ signals tr ∧ s.members.state = .connected := of_decide_eq_true hs
  exact ⟨tr,s,hrun,hlost,hc,(state_agrees _ hrun).1 hc⟩

end WsClient.Connection
