import WsClient.Connection.Ownership

/-!
# Null checks and the calls they guard

`heartbeat_loop`, `monitor_loop` and `stop` test `client_` in one step and call through it in a
later one. The monitor thread is the driver when it calls, so nobody resets `client_` under it;
the other two are safe as long as the driver does not reset `client_` between the test and the
call.
-/

namespace WsClient.Connection
open WsClient.Lib

/-- The next step of the driver resets `client_`. -/
def Driver.resets : Driver → Bool
  | .start (.tryConnect .reset) | .thread .resetClient
  | .thread (.reconnectLoop (.tryConnect _ .reset)) => true
  | _ => false

def HeartbeatPc.uses : HeartbeatPc → Bool
  | .isRunning | .sendPing => true
  | _ => false

/-- The thread has found `client_` non-null, and its next step calls through it. -/
def State.uses (s : State) : Thread → Bool
  | .user => decide (s.user = .stop .close)
  | .heartbeat => s.heartbeat.any HeartbeatPc.uses
  | .monitor => decide (s.monitor = some .isRunning)
  | .reconnect => false

/-- Runs that call `start` once, in which `client_` is not reset while `heartbeat_loop` or
`stop` is between its null check and its call. -/
def Unhurried (s : State) (a : Action) : Prop :=
  Once s a ∧ ((a.position s).any Driver.resets = true →
    s.uses .heartbeat = false ∧ s.uses .user = false)

instance : ∀ s a, Decidable (Unhurried s a) := fun _ _ => inferInstanceAs (Decidable (_ ∧ _))

variable {cfg : ConnectionConfig} {m : Members} {ok : Bool} {s s' : State} {a : Action}
  {es : List Event}

theorem tryConnectStep_isSome {pc : ConnectPc} {e : Effect (ConnectPc ⊕ Bool)}
    (h : tryConnectStep cfg m pc ok = some e) (hpc : pc ≠ .reset)
    (hm : m.client.isSome = true) : e.members.client.isSome = true := by
  cases pc with
  | create =>
    cases h
    rfl
  | connect =>
    obtain ⟨c,_,rfl⟩ := Option.map_eq_some_iff.mp h
    cases ok
    · exact hm
    · rfl
  | onConnect =>
    cases h
    exact hm
  | reset => exact absurd rfl hpc

theorem startStep_isSome {pc : StartPc} {e : Effect UserPc} (h : startStep cfg m pc ok = some e)
    (hpc : (Driver.start pc).resets = false) (hm : m.client.isSome = true) :
    e.members.client.isSome = true := by
  rcases startStep_connects h with ⟨p,e₀,rfl,he₀,hmem,_⟩ | ⟨hkeep,_⟩
  · rw [hmem]
    exact tryConnectStep_isSome he₀ (fun hp => by simp [hp,Driver.resets] at hpc) hm
  · rw [hkeep.client]
    exact hm

theorem loopStep_isSome {pc : LoopPc} {e : Effect LoopPc} (h : loopStep cfg m pc ok = some e)
    (hpc : (Driver.thread (.reconnectLoop pc)).resets = false) (hm : m.client.isSome = true) :
    e.members.client.isSome = true := by
  rcases loopStep_connects h with ⟨b,p,e₀,rfl,he₀,hmem,_⟩ | ⟨hkeep,_⟩
  · rw [hmem]
    exact tryConnectStep_isSome he₀ (fun hp => by simp [hp,Driver.resets] at hpc) hm
  · rw [hkeep.client]
    exact hm

/-- A driver that does not reset `client_` leaves a client there. -/
theorem monitorStep_isSome {pc : MonitorPc} {e : Effect (Option MonitorPc)}
    (h : monitorStep cfg m pc ok = some e) (hpc : (Driver.thread pc).resets = false)
    (hm : m.client.isSome = true) : e.members.client.isSome = true := by
  rcases monitorStep_connects h with ⟨p,e₀,rfl,he₀,hmem,_⟩ | ⟨⟨rfl,_⟩ | hkeep,_⟩
  · rw [hmem]
    exact loopStep_isSome he₀ hpc hm
  · cases hpc
  · rw [hkeep.client]
    exact hm

/-- `heartbeat_loop` goes on to a call only with a client there. -/
theorem heartbeatStep_uses {pc : HeartbeatPc} {e : Effect (Option HeartbeatPc)}
    (h : heartbeatStep m pc ok = some e) (he : e.pc.any HeartbeatPc.uses = true) :
    e.members.client.isSome = true := by
  cases pc with
  | readClient =>
    cases h
    cases hc : m.client with
    | none => simp [hc,HeartbeatPc.uses] at he
    | some c => rfl
  | isRunning =>
    obtain ⟨c,hc,rfl⟩ := Option.map_eq_some_iff.mp h
    exact Option.isSome_iff_exists.mpr ⟨c,hc⟩
  | sendPing =>
    obtain ⟨c,hc,rfl⟩ := Option.map_eq_some_iff.mp h
    cases ok <;> simp [HeartbeatPc.uses] at he
  | loadRun =>
    cases h
    cases hr : m.shouldRun <;> simp [hr,HeartbeatPc.uses] at he
  | loadState =>
    cases h
    dsimp only at he
    split at he <;> simp [HeartbeatPc.uses] at he
  | recheckRun =>
    cases h
    cases hr : m.shouldRun <;> simp [hr,HeartbeatPc.uses] at he
  | _ =>
    cases h
    simp [HeartbeatPc.uses] at he

/-- The calls of the heartbeat thread and of `stop` find a client. -/
structure Guarded (s : State) : Prop where
  heartbeat : s.uses .heartbeat = true → s.members.client.isSome = true
  user : s.uses .user = true → s.members.client.isSome = true

/-- `stop` goes on to `close` only with a client there. -/
theorem Guarded.stop (h : Guarded s) {pc : StopPc} (hu : s.user = .stop pc)
    (hs : stopStep s pc = some (s',es)) : Guarded s' := by
  have hf := stopStep_frame hu hs
  have hc := isSome_of_generation hf.rely.client
  refine ⟨fun hb => ?_,fun hclose => ?_⟩
  · rw [State.uses,hf.threads.1] at hb
    exact hc.trans (h.heartbeat hb)
  · have hclose : s'.user = .stop .close := of_decide_eq_true hclose
    cases pc with
    | readClient =>
      cases hs
      cases hm : s.members.client with
      | none => simp [hm] at hclose
      | some c => simp
    | close =>
      simp only [stopStep] at hs
      split at hs <;> cases hs
      · exact h.user (by simp [State.uses,hu])
      · cases hclose
    | _ =>
      simp only [stopStep] at hs
      grind

/-- A spawned heartbeat thread is not about to call. -/
theorem uses_of_heartbeatAfter {o : Option Handle}
    (hh : s'.heartbeat = heartbeatAfter s.heartbeat o) (h : s'.uses .heartbeat = true) :
    s.uses .heartbeat = true := by
  rw [State.uses,hh] at h
  cases o with
  | none => exact h
  | some handle =>
    cases handle with
    | heartbeat => cases h
    | _ => exact h

/-- A step of the reconnect or the monitor thread that comes in time. -/
theorem Guarded.thread (h : Guarded s) {o : Option Handle}
    (hh : s'.heartbeat = heartbeatAfter s.heartbeat o) (hu : s'.user = s.user) {d : Driver}
    (hreset : d.resets = true → s.uses .heartbeat = false ∧ s.uses .user = false)
    (hkeep : d.resets = false → s.members.client.isSome = true →
      s'.members.client.isSome = true) : Guarded s' := by
  refine ⟨fun hb => ?_,fun hb => ?_⟩
  · have hb := uses_of_heartbeatAfter hh hb
    refine hkeep ?_ (h.heartbeat hb)
    by_contra hr
    simp [(hreset (by simpa using hr)).1] at hb
  · have hb : s.uses .user = true := by rwa [State.uses,hu] at hb
    refine hkeep ?_ (h.user hb)
    by_contra hr
    simp [(hreset (by simpa using hr)).2] at hb

theorem Guarded.step (h : Guarded s) (hp : Unhurried s a) (ht : Transition cfg s a es s') :
    Guarded s' := by
  obtain ⟨_,hreset⟩ := hp
  cases ht with
  | fault => exact ⟨h.heartbeat,h.user⟩
  | startCall _ => exact ⟨h.heartbeat,by simp [State.uses]⟩
  | stopCall _ => exact ⟨h.heartbeat,by simp [State.uses]⟩
  | loss hc => exact ⟨fun _ => rfl,fun _ => rfl⟩
  | stop hu hs => exact h.stop hu hs
  | heartbeat hh he hland =>
    have huses := heartbeatStep_uses he
    obtain ⟨hs,_,_,hgen⟩ := heartbeatStep_frame he
    rw [hs] at hland
    obtain rfl := spawn_none.mp hland
    exact ⟨huses,fun hu => (isSome_of_generation hgen).trans (h.user hu)⟩
  | @start pc _ e _ hu he hland =>
    have hf := spawn_frame hland
    rw [Action.position,hu] at hreset
    have hnot : s'.uses .user = false := by
      have hpc : s'.user = e.pc := hf.user
      rw [State.uses,hpc]
      rcases (startStep_frame he).spawn with ⟨_,⟨p,hp⟩ | hp⟩ | ⟨_,_,hp⟩ | ⟨_,_,hp⟩ | ⟨_,_,hp⟩ <;>
        simp [hp]
    refine ⟨fun hb => ?_,fun hu => by simp [hnot] at hu⟩
    have hb : s.uses .heartbeat = true := uses_of_heartbeatAfter hf.heartbeat hb
    rw [hf.members,hold_client]
    refine startStep_isSome he ?_ (h.heartbeat hb)
    -- a thread that would reset it waits until the heartbeat is past its null check
    by_contra hr
    simp [(hreset (by simpa using hr)).1] at hb
  | @reconnect pc _ e _ hr he hland =>
    have hf := spawn_frame hland
    rw [Action.position,hr] at hreset
    refine h.thread hf.heartbeat hf.user hreset fun hkeep hm => ?_
    rw [hf.members,hold_client]
    rcases reconnectStep_cases he with ⟨rfl,rfl⟩ | ⟨hne,e,hloop,rfl⟩
    · exact hm
    · exact loopStep_isSome hloop hkeep hm
  | @monitor pc _ e _ hm he hland =>
    have hf := spawn_frame hland
    rw [Action.position,hm] at hreset
    refine h.thread hf.heartbeat hf.user hreset fun hkeep hm => ?_
    rw [hf.members,hold_client]
    exact monitorStep_isSome he hkeep hm

/-- The monitor thread drives when it calls, so the client is its own. -/
theorem Solo.monitor_client (h : Solo s) (howned : Owned s.driver s.members)
    (hm : s.uses .monitor = true) : s.members.client.isSome = true := by
  have hpc : s.monitor = some .isRunning := of_decide_eq_true hm
  have hd : s.driver = .thread .isRunning := by
    rw [driver_eq (h.lone.not_starting_of_monitor hpc),h.lone.loopDriver_of_monitor hpc,hpc]
    rfl
  rw [hd] at howned
  exact howned.client true rfl

/-- What a step that resets `client_` does. -/
theorem step_resets (hs : (manager cfg).step s a = some (s',es))
    (hr : (a.position s).any Driver.resets = true) :
    s'.members.client = none ∧ s'.heartbeat = s.heartbeat ∧
      (s'.user = s.user ∨ ∃ pc, s.user = .start pc) := by
  simp only [manager,Connection.step] at hs
  split at hs
  · cases hs
  cases a with
  | start => cases hr
  | stop => cases hr
  | heartbeat ok => cases hr
  | loss => cases hr
  | user ok =>
    cases hu : s.user with
    | start pc =>
      simp only [Action.position,hu] at hr
      simp only [hu] at hs
      cases pc with
      | tryConnect pc =>
        cases pc with
        | reset =>
          cases hs
          exact ⟨rfl,rfl,.inr ⟨_,rfl⟩⟩
        | _ => cases hr
      | _ => cases hr
    | _ =>
      simp only [Action.position,hu] at hr
      cases hr
  | reconnect ok =>
    obtain ⟨pc,hpc,hs⟩ := Option.map_eq_some_iff.mp hs
    rw [Action.position,hpc] at hr
    cases pc with
    | tryConnect b pc =>
      cases pc with
      | reset =>
        cases hs
        exact ⟨rfl,rfl,.inl rfl⟩
      | _ => cases hr
    | _ => cases hr
  | monitor ok =>
    obtain ⟨pc,hpc,hs⟩ := Option.map_eq_some_iff.mp hs
    rw [Action.position,hpc] at hr
    cases pc with
    | resetClient =>
      cases hs
      exact ⟨rfl,rfl,.inl rfl⟩
    | reconnectLoop pc =>
      cases pc with
      | tryConnect b pc =>
        cases pc with
        | reset =>
          cases hs
          exact ⟨rfl,rfl,.inl rfl⟩
        | _ => cases hr
      | _ => cases hr
    | _ => cases hr

/-- As long as `client_` is not reset between a null check of `heartbeat_loop` or `stop` and
the call it guards, every call of `heartbeat_loop`, `monitor_loop` and `stop` through `client_`
finds it non-null; and a reset that does come in between leaves the call to be made on null. -/
theorem client_alive_at_use (cfg : ConnectionConfig) {tr : List Event} {s : State}
    (h : (manager cfg).RunWhere Unhurried init tr s) :
    (∀ t, s.uses t = true → s.members.client ≠ none) ∧
      ∀ a s' es, (manager cfg).step s a = some (s',es) → Once s a → ¬Unhurried s a →
        ∃ t, s'.uses t = true ∧ s'.members.client = none := by
  obtain ⟨hsolo,howned⟩ := run_owned (h.mono fun _ _ hp => hp.1)
  have hguarded : Guarded s := by
    refine h.invariant (I := fun _ s => Guarded s) ⟨by simp [State.uses,init],by simp [State.uses,init]⟩ ?_
    exact fun _ _ _ _ _ hg hp hs => hg.step hp (step_transition hs)
  refine ⟨fun t ht hnone => ?_,fun a s' es hs hone hnot => ?_⟩
  · have hsome : s.members.client.isSome = true := by
      cases t with
      | user => exact hguarded.user ht
      | heartbeat => exact hguarded.heartbeat ht
      | monitor => exact hsolo.monitor_client howned ht
      | reconnect => cases ht
    rw [hnone] at hsome
    cases hsome
  · have hr : (a.position s).any Driver.resets = true := by
      by_contra hr
      exact hnot ⟨hone,fun hc => absurd hc hr⟩
    obtain ⟨hnone,hbeat,huser⟩ := step_resets hs hr
    by_cases hb : s.uses .heartbeat = true
    · exact ⟨.heartbeat,by rwa [State.uses,hbeat],hnone⟩
    · have hu : s.uses .user = true := by
        by_contra hu
        exact hnot ⟨hone,fun _ => ⟨by simpa using hb,by simpa using hu⟩⟩
      refine ⟨.user,?_,hnone⟩
      rcases huser with he | ⟨pc,hpc⟩
      · rwa [State.uses,he]
      · simp [State.uses,hpc] at hu

/-- The connection is lost and the client reset while the heartbeat thread is outside its window;
the thread then passes its null check on the next client. -/
theorem client_alive_at_use_loss :
    ∃ tr s, (manager defaultConfig).RunWhere Unhurried init tr s ∧
      .onDisconnect .connectionLost ∈ tr ∧ s.members.generation = 2 ∧
      s.uses .heartbeat = true ∧ s.members.client ≠ none := by
  have hexec : ((manager defaultConfig).execWhere Unhurried init
      (System.schedule [(1,[.start]),(9,[.user true]),(1,[.loss]),(18,[.monitor true]),
        (5,[.heartbeat true])])).any
      (fun r => decide (.onDisconnect .connectionLost ∈ r.2 ∧ r.1.members.generation = 2 ∧
        r.1.uses .heartbeat = true)) = true := by
    decide +kernel
  obtain ⟨s,tr,hrun,hs⟩ := System.exists_run_of_exec hexec
  obtain ⟨hlost,hgen,huse⟩ : .onDisconnect .connectionLost ∈ tr ∧ s.members.generation = 2 ∧
      s.uses .heartbeat = true := of_decide_eq_true hs
  exact ⟨tr,s,hrun,hlost,hgen,huse,(client_alive_at_use defaultConfig hrun).1 .heartbeat huse⟩

/-- The connection is lost right after the heartbeat thread's null check, and the monitor thread
resets `client_` before the heartbeat thread calls `is_running`. -/
theorem heartbeat_calls_null :
    ¬∀ cfg tr s, (manager cfg).RunWhere Once init tr s →
      ∀ t, s.uses t = true → s.members.client ≠ none := by
  intro hall
  have hexec : ((manager defaultConfig).execWhere Once init
      (System.schedule [(1,[.start]),(9,[.user true]),(5,[.heartbeat true]),(1,[.loss]),
        (8,[.monitor true])])).any
      (fun r => decide (r.1.uses .heartbeat = true ∧ r.1.members.client = none)) = true := by
    decide +kernel
  obtain ⟨s,tr,hrun,hs⟩ := System.exists_run_of_exec hexec
  obtain ⟨huse,hnone⟩ := of_decide_eq_true hs
  exact hall defaultConfig tr s hrun .heartbeat huse hnone

end WsClient.Connection
