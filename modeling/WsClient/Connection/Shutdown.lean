import WsClient.Connection.Ownership

/-!
# What `stop` leaves behind

`stop` closes the client and joins the heartbeat, monitor and reconnect threads in that order,
looking at each once. `reconnect_loop` does not look at `should_run_` between its sleep and the
spawns that follow a successful attempt, so an attempt under way can undo what `stop` has
done; in a run where it does not, nothing is left.
-/

namespace WsClient.Connection
open WsClient.Lib

/-- `stop` has closed `client_`, or found it null. -/
def UserPc.pastClient : UserPc → Bool
  | .stop .loadRun | .stop .storeClosing | .stop .clearRun | .stop .readClient | .stop .close => false
  | .stop _ | .stopped => true
  | _ => false

/-- `stop` is done with `heartbeat_thread_`. -/
def UserPc.pastHeartbeat : UserPc → Bool
  | .stop .checkMonitor | .stop .joinMonitor | .stop .checkReconnect | .stop .joinReconnect
  | .stop .storeClosed | .stopped => true
  | _ => false

/-- `stop` is done with `monitor_thread_`. -/
def UserPc.pastMonitor : UserPc → Bool
  | .stop .checkReconnect | .stop .joinReconnect | .stop .storeClosed | .stopped => true
  | _ => false

/-- `stop` is done with `reconnect_thread_`. -/
def UserPc.pastReconnect : UserPc → Bool
  | .stop .storeClosed | .stopped => true
  | _ => false

/-- The step of `reconnect_loop` comes before `stop` has looked at what the step changes: a
client that connects, a heartbeat thread or a monitor thread that is spawned. -/
def Driver.inTime (user : UserPc) (ok : Bool) : Driver → Bool
  | .thread (.reconnectLoop (.tryConnect _ .connect)) => !(ok && user.pastClient)
  | .thread (.reconnectLoop .spawnHeartbeat) => !user.pastHeartbeat
  | .thread (.reconnectLoop .spawnMonitor) => !user.pastMonitor
  | _ => true

/-- Runs that call `start` once, in which no step of `reconnect_loop` comes too late for
`stop`. -/
def InTime (s : State) (a : Action) : Prop :=
  Once s a ∧ ((a.position s).all fun d => d.inTime s.user a.ok) = true

instance : ∀ s a, Decidable (InTime s a) := fun _ _ => inferInstanceAs (Decidable (_ ∧ _))

/-- Nothing of the manager is left to run or to join. -/
def Members.AtRest (m : Members) : Prop :=
  m.state = .closed ∧ m.heartbeatThread = false ∧ m.monitorThread = false ∧
    m.reconnectThread = false ∧ ∀ c, m.client = some c → c.running = false

/-- `start` has stored `true` into `should_run_`, and `stop` has not stored `false`. -/
def UserPc.running : UserPc → Bool
  | .start .storeRun => false
  | .start _ | .started | .stop .loadRun | .stop .storeClosing | .stop .clearRun => true
  | _ => false

/-- What `stop` has dealt with stays dealt with. -/
structure WindingDown (s : State) : Prop where
  run : s.user.running = true → s.members.shouldRun = true
  client : s.user.pastClient = true → ∀ c, s.members.client = some c → c.running = false
  heartbeat : s.user.pastHeartbeat = true → s.members.heartbeatThread = false
  monitor : s.user.pastMonitor = true → s.members.monitorThread = false
  reconnect : s.user.pastReconnect = true → s.members.reconnectThread = false
  closed : s.user = .stopped → s.members.state = .closed

variable {cfg : ConnectionConfig} {m : Members} {ok : Bool} {s s' : State} {a : Action}
  {es : List Event}

theorem tryConnectStep_running {pc : ConnectPc} {e : Effect (ConnectPc ⊕ Bool)}
    (h : tryConnectStep cfg m pc ok = some e) (hm : ∀ c, m.client = some c → c.running = false)
    (hpc : pc = .connect → ok = false) :
    ∀ c, e.members.client = some c → c.running = false := by
  cases pc with
  | create =>
    cases h
    intro c hc
    cases hc
    rfl
  | connect =>
    obtain ⟨c,_,rfl⟩ := Option.map_eq_some_iff.mp h
    rw [hpc rfl]
    exact hm
  | onConnect =>
    cases h
    exact hm
  | reset =>
    cases h
    intro c hc
    cases hc

theorem loopStep_running {pc : LoopPc} {e : Effect LoopPc} (h : loopStep cfg m pc ok = some e)
    (hm : ∀ c, m.client = some c → c.running = false)
    (hpc : ∀ b, pc = .tryConnect b .connect → ok = false) :
    ∀ c, e.members.client = some c → c.running = false := by
  rcases loopStep_connects h with ⟨b,p,e₀,rfl,he₀,hmem,_⟩ | ⟨hkeep,_⟩
  · rw [hmem]
    exact tryConnectStep_running he₀ hm fun hp => hpc b (by rw [hp])
  · rw [hkeep.client]
    exact hm

theorem monitorStep_running {pc : MonitorPc} {e : Effect (Option MonitorPc)}
    (h : monitorStep cfg m pc ok = some e) (hm : ∀ c, m.client = some c → c.running = false)
    (hpc : ∀ b, pc = .reconnectLoop (.tryConnect b .connect) → ok = false) :
    ∀ c, e.members.client = some c → c.running = false := by
  rcases monitorStep_connects h with ⟨p,e₀,rfl,he₀,hmem,_⟩ | ⟨⟨_,hmem⟩ | hkeep,_⟩
  · rw [hmem]
    exact loopStep_running he₀ hm fun b hb => hpc b (by rw [hb])
  · rw [hmem]
    intro c hc
    cases hc
  · rw [hkeep.client]
    exact hm

/-- What the driver of either thread spawns, and when. -/
theorem monitorStep_spawn {pc : MonitorPc} {e : Effect (Option MonitorPc)}
    (h : monitorStep cfg m pc ok = some e) :
    e.members.handles = m.handles ∧ e.members.shouldRun = m.shouldRun ∧
      (e.spawn = none ∨ (pc = .reconnectLoop .spawnHeartbeat ∧ e.spawn = some .heartbeat) ∨
        (pc = .reconnectLoop .spawnMonitor ∧ e.spawn = some .monitor)) := by
  rcases monitorStep_cases h with ⟨p,e,rfl,_,he,rfl⟩ | ⟨hs,hh,hr,_⟩
  · have hf := loopStep_frame he
    refine ⟨hf.handles,hf.shouldRun,?_⟩
    rcases hf.spawn with hs | ⟨rfl,hs,_⟩ | ⟨rfl,hs,_⟩
    · exact .inl hs
    · exact .inr (.inl ⟨rfl,hs⟩)
    · exact .inr (.inr ⟨rfl,hs⟩)
  · exact ⟨hh,hr,.inl hs⟩

/-- A timely step of the reconnect or the monitor thread undoes nothing. -/
theorem WindingDown.thread (h : WindingDown s) (hsolo : Solo s)
    (hlive : s.reconnect ≠ none ∨ s.monitor ≠ none) {pc : MonitorPc} {e : Effect (Option MonitorPc)}
    (hin : (Driver.thread pc).inTime s.user ok = true)
    (he : monitorStep cfg s.members pc ok = some e) (hu : s'.user = s.user)
    (hm : s'.members = e.members.hold e.spawn) : WindingDown s' := by
  obtain ⟨hh,hr,hspawn⟩ := monitorStep_spawn he
  obtain ⟨hhb,hmt,hrt⟩ := Members.handles_eq hh
  -- a live thread sits behind a joinable handle, so `stop` has not returned
  have hnot : s.user ≠ .stopped := by
    intro hst
    rcases hlive with hlive | hlive
    · simpa [hsolo.reconnectHeld hlive] using h.reconnect (by rw [hst]; rfl)
    · simpa [hsolo.monitorHeld hlive] using h.monitor (by rw [hst]; rfl)
  refine ⟨?_,?_,?_,?_,?_,fun hst => absurd (hu.symm.trans hst) hnot⟩
  all_goals
    intro hp
    rw [hu] at hp
    rw [hm]
  · rcases hspawn with hs | ⟨_,hs⟩ | ⟨_,hs⟩ <;> rw [hs] <;> exact hr.trans (h.run hp)
  · rw [hold_client]
    refine monitorStep_running he (h.client hp) ?_
    rintro b rfl
    change (!(ok && s.user.pastClient)) = true at hin
    simpa [hp] using hin
  · rcases hspawn with hs | ⟨rfl,hs⟩ | ⟨_,hs⟩
    · rw [hs]
      exact hhb.trans (h.heartbeat hp)
    · change (!s.user.pastHeartbeat) = true at hin
      rw [hp] at hin
      cases hin
    · rw [hs]
      exact hhb.trans (h.heartbeat hp)
  · rcases hspawn with hs | ⟨_,hs⟩ | ⟨rfl,hs⟩
    · rw [hs]
      exact hmt.trans (h.monitor hp)
    · rw [hs]
      exact hmt.trans (h.monitor hp)
    · change (!s.user.pastMonitor) = true at hin
      rw [hp] at hin
      cases hin
  · rcases hspawn with hs | ⟨_,hs⟩ | ⟨_,hs⟩ <;> rw [hs] <;> exact hrt.trans (h.reconnect hp)

theorem heartbeatStep_running {pc : HeartbeatPc} {e : Effect (Option HeartbeatPc)}
    (h : heartbeatStep m pc ok = some e) (hm : ∀ c, m.client = some c → c.running = false) :
    ∀ c, e.members.client = some c → c.running = false := by
  cases pc with
  | isRunning =>
    obtain ⟨c,_,rfl⟩ := Option.map_eq_some_iff.mp h
    exact hm
  | sendPing =>
    obtain ⟨c,hc,rfl⟩ := Option.map_eq_some_iff.mp h
    cases ok with
    | true => exact hm
    | false =>
      intro c' hc'
      obtain rfl := Option.some.inj hc'
      exact hm c hc
  | _ =>
    cases h
    exact hm

/-- Once past its first store, `start` runs with `should_run_` set. -/
theorem startStep_run {pc : StartPc} {e : Effect UserPc} (h : startStep cfg m pc ok = some e)
    (hm : (UserPc.start pc).running = true → m.shouldRun = true) :
    e.members.shouldRun = true := by
  cases pc with
  | storeRun =>
    cases h
    rfl
  | tryConnect pc =>
    obtain ⟨e₀,he₀,rfl⟩ := Option.map_eq_some_iff.mp h
    rw [Effect.map,(tryConnectStep_frame he₀).2]
    exact hm rfl
  | _ =>
    cases h
    exact hm rfl

/-- A step of `stop` deals with one thing more. -/
theorem WindingDown.stop (h : WindingDown s) {pc : StopPc}
    (hu : s.user = .stop pc) (hs : stopStep s pc = some (s',es)) : WindingDown s' := by
  have hclient := h.client
  have hbeat := h.heartbeat
  have hmon := h.monitor
  have hrec := h.reconnect
  have hrun := h.run
  rw [hu] at hclient hbeat hmon hrec hrun
  cases pc with
  | loadRun =>
    cases hs
    rw [hrun rfl]
    exact ⟨fun _ => hrun rfl,by simp [UserPc.pastClient],by simp [UserPc.pastHeartbeat],
      by simp [UserPc.pastMonitor],by simp [UserPc.pastReconnect],by simp⟩
  | storeClosing =>
    cases hs
    exact ⟨fun _ => hrun rfl,hclient,hbeat,hmon,hrec,by simp⟩
  | clearRun =>
    cases hs
    exact ⟨by simp [UserPc.running],hclient,hbeat,hmon,hrec,by simp⟩
  | readClient =>
    cases hs
    cases hc : s.members.client with
    | none =>
      -- nothing to close, and nothing running
      refine ⟨by simp [UserPc.running],fun _ c hc' => ?_,by simp [UserPc.pastHeartbeat],
        by simp [UserPc.pastMonitor],by simp [UserPc.pastReconnect],by simp⟩
      simp [hc] at hc'
    | some c =>
      exact ⟨by simp [UserPc.running],by simp [UserPc.pastClient],by simp [UserPc.pastHeartbeat],
        by simp [UserPc.pastMonitor],by simp [UserPc.pastReconnect],by simp⟩
  | close =>
    simp only [stopStep] at hs
    split at hs <;> cases hs
    · exact ⟨h.run,h.client,h.heartbeat,h.monitor,h.reconnect,h.closed⟩
    · refine ⟨by simp [UserPc.running],fun _ c hc => ?_,hbeat,hmon,hrec,by simp⟩
      obtain rfl := Option.some.inj hc
      rfl
  | closing generation =>
    simp only [stopStep] at hs
    split at hs <;> cases hs
    · exact ⟨hrun,fun _ => hclient rfl,by simp [UserPc.pastHeartbeat],hmon,hrec,by simp⟩
    · exact ⟨h.run,h.client,h.heartbeat,h.monitor,h.reconnect,h.closed⟩
  | checkHeartbeat =>
    cases hs
    cases hh : s.members.heartbeatThread with
    | false => exact ⟨hrun,fun _ => hclient rfl,fun _ => hh,hmon,hrec,by simp⟩
    | true => exact ⟨hrun,fun _ => hclient rfl,hbeat,hmon,hrec,by simp⟩
  | joinHeartbeat =>
    simp only [stopStep] at hs
    split at hs <;> cases hs
    exact ⟨hrun,fun _ => hclient rfl,fun _ => rfl,hmon,hrec,by simp⟩
  | checkMonitor =>
    cases hs
    cases hm : s.members.monitorThread with
    | false => exact ⟨hrun,fun _ => hclient rfl,fun _ => hbeat rfl,fun _ => hm,hrec,by simp⟩
    | true => exact ⟨hrun,fun _ => hclient rfl,fun _ => hbeat rfl,hmon,hrec,by simp⟩
  | joinMonitor =>
    simp only [stopStep] at hs
    split at hs <;> cases hs
    exact ⟨hrun,fun _ => hclient rfl,fun _ => hbeat rfl,fun _ => rfl,hrec,by simp⟩
  | checkReconnect =>
    cases hs
    cases hr : s.members.reconnectThread with
    | false =>
      exact ⟨hrun,fun _ => hclient rfl,fun _ => hbeat rfl,fun _ => hmon rfl,fun _ => hr,by simp⟩
    | true =>
      exact ⟨hrun,fun _ => hclient rfl,fun _ => hbeat rfl,fun _ => hmon rfl,hrec,by simp⟩
  | joinReconnect =>
    simp only [stopStep] at hs
    split at hs <;> cases hs
    exact ⟨hrun,fun _ => hclient rfl,fun _ => hbeat rfl,fun _ => hmon rfl,fun _ => rfl,by simp⟩
  | storeClosed =>
    cases hs
    exact ⟨hrun,fun _ => hclient rfl,fun _ => hbeat rfl,fun _ => hmon rfl,fun _ => hrec rfl,
      fun _ => rfl⟩

/-- Every timely step keeps what `stop` has dealt with. -/
theorem WindingDown.step (h : WindingDown s) (hsolo : Solo s) (hp : InTime s a)
    (ht : Transition cfg s a es s') : WindingDown s' := by
  obtain ⟨honce,hin⟩ := hp
  cases ht with
  | fault => exact ⟨h.run,h.client,h.heartbeat,h.monitor,h.reconnect,h.closed⟩
  | startCall _ =>
    refine ⟨by simp [UserPc.running],by simp [UserPc.pastClient],by simp [UserPc.pastHeartbeat],
      by simp [UserPc.pastMonitor],by simp [UserPc.pastReconnect],by simp⟩
  | stopCall hu =>
    have hrun := h.run (by rw [hu]; rfl)
    exact ⟨fun _ => hrun,by simp [UserPc.pastClient],by simp [UserPc.pastHeartbeat],
      by simp [UserPc.pastMonitor],by simp [UserPc.pastReconnect],by simp⟩
  | stop hu hs => exact h.stop hu hs
  | loss hc =>
    refine ⟨h.run,fun _ c hc' => ?_,h.heartbeat,h.monitor,h.reconnect,h.closed⟩
    obtain rfl := Option.some.inj hc'
    rfl
  | heartbeat hh he hland =>
    obtain ⟨hs,_,hmem,_⟩ := heartbeatStep_frame he
    rw [hs] at hland
    obtain rfl := spawn_none.mp hland
    refine ⟨?_,fun hp => heartbeatStep_running he (h.client hp),?_,?_,?_,?_⟩
    all_goals rw [State.putHeartbeat,hmem]
    · exact h.run
    · exact h.heartbeat
    · exact h.monitor
    · exact h.reconnect
    · exact h.closed
  | @start pc _ e _ hu he hland =>
    have hf := spawn_frame hland
    have hrun : s'.members.shouldRun = true := by
      have hrun := startStep_run he (by rw [← hu]; exact h.run)
      rw [hf.members]
      cases e.spawn with
      | none => exact hrun
      | some handle => cases handle <;> exact hrun
    -- the thread has not come to `stop`, so nothing has been dealt with
    have hu' : (∃ p, s'.user = .start p) ∨ s'.user = .started := by
      have hpc : s'.user = e.pc := hf.user
      rw [hpc]
      rcases (startStep_frame he).spawn with ⟨_,hp⟩ | ⟨_,_,hp⟩ | ⟨_,_,hp⟩ | ⟨_,_,hp⟩
      · exact hp
      · exact .inl ⟨_,hp⟩
      · exact .inr hp
      · exact .inr hp
    refine ⟨fun _ => hrun,?_,?_,?_,?_,?_⟩ <;> rcases hu' with ⟨p,hp⟩ | hp <;> rw [hp]
    all_goals
      intro hpast
      cases hpast
  | @reconnect pc _ e _ hr he hland =>
    have hf := spawn_frame hland
    rcases reconnectStep_cases he with ⟨rfl,rfl⟩ | ⟨hne,e,hloop,rfl⟩
    · obtain rfl := spawn_none.mp hland
      exact ⟨h.run,h.client,h.heartbeat,h.monitor,h.reconnect,h.closed⟩
    · rw [Action.position,hr] at hin
      exact h.thread hsolo (.inl (by simp [hr])) hin (monitorStep_of_loop hne hloop) hf.user
        hf.members
  | @monitor pc _ e _ hm he hland =>
    have hf := spawn_frame hland
    rw [Action.position,hm] at hin
    exact h.thread hsolo (.inr (by simp [hm])) hin he hf.user hf.members

/-- In a run whose steps are all in time, `stop` leaves nothing behind: when it has returned,
`state_` is `Closed`, no handle is joinable and `client_` is null or not running. -/
theorem stop_leaves_nothing (cfg : ConnectionConfig) {tr : List Event} {s : State}
    (h : (manager cfg).RunWhere InTime init tr s) (hs : s.user = .stopped) : s.members.AtRest := by
  have hinv : Solo s ∧ WindingDown s := by
    refine h.invariant (I := fun _ s => Solo s ∧ WindingDown s) ⟨solo_init,?_⟩ ?_
    · constructor <;> simp [init,UserPc.running,UserPc.pastClient]
    · rintro _ s a s' es ⟨hsolo,hw⟩ hp hstep
      have ht := step_transition hstep
      exact ⟨hsolo.step hp.1 ht,hw.step hsolo hp ht⟩
  obtain ⟨_,hw⟩ := hinv
  exact ⟨hw.closed hs,hw.heartbeat (by rw [hs]; rfl),hw.monitor (by rw [hs]; rfl),
    hw.reconnect (by rw [hs]; rfl),hw.client (by rw [hs]; rfl)⟩

/-- A connected manager is stopped. -/
theorem stop_leaves_nothing_connected :
    ∃ tr s, (manager defaultConfig).RunWhere InTime init tr s ∧ s.user = .stopped ∧
      s.members.AtRest := by
  have hexec : ((manager defaultConfig).execWhere InTime init
      (System.schedule [(1,[.start]),(9,[.user true]),(1,[.stop]),(6,[.user true]),
        (2,[.heartbeat true]),(2,[.monitor true]),(6,[.user true])])).any
      (fun r => decide (r.1.user = .stopped)) = true := by
    decide +kernel
  obtain ⟨s,tr,hrun,hs⟩ := System.exists_run_of_exec hexec
  have hstopped := of_decide_eq_true hs
  exact ⟨tr,s,hrun,hstopped,stop_leaves_nothing defaultConfig hrun hstopped⟩

/-- An attempt under way when `stop` is called connects after `stop` has found `client_` null
and the two handles free: a running client and two joinable handles are left. -/
theorem stop_leaves_threads :
    ¬∀ cfg tr s, (manager cfg).RunWhere Once init tr s → s.user = .stopped →
      s.members.AtRest := by
  intro hall
  have hexec : ((manager defaultConfig).execWhere Once init
      (System.schedule [(1,[.start]),(3,[.user true]),(1,[.user false]),(3,[.user true]),
        (5,[.reconnect true]),(1,[.stop]),(7,[.user true]),(11,[.reconnect true]),
        (2,[.user true])])).any
      (fun r => decide (r.1.user = .stopped ∧ r.1.members.heartbeatThread = true ∧
        r.1.members.monitorThread = true ∧ r.1.members.client = some ⟨1,true,false⟩)) = true := by
    decide +kernel
  obtain ⟨s,tr,hrun,hs⟩ := System.exists_run_of_exec hexec
  obtain ⟨hstopped,hbeat,_⟩ := of_decide_eq_true hs
  have hrest := hall defaultConfig tr s hrun hstopped
  rw [hrest.2.1] at hbeat
  cases hbeat

end WsClient.Connection
