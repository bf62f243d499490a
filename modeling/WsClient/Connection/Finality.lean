import WsClient.Connection.Ownership

/-!
# Whether a shutdown is final

`stop` stores `Closing`, clears `should_run_` and closes the client in three steps. The driver
looks at `should_run_` now and then, and goes on from there to its stores, its callbacks and the
next attempt. A shutdown is final when the driver is not on such a way as `Closing` is stored, and
does not set out on one afterwards.
-/

namespace WsClient.Connection
open WsClient.Lib

/-- `stop` has stored `Closing`. -/
def UserPc.closing : UserPc → Bool
  | .stop .loadRun | .stop .storeClosing => false
  | .stop _ | .stopped => true
  | _ => false

/-- What may still be seen once `stop` has stored `Closing`. -/
def Event.final : Event → Bool
  | .setState state => decide (state = .closed)
  | .onDisconnect reason => decide (reason ≠ .connectionLost)
  | .onConnect | .construct _ _ _ => false
  | _ => true

/-- Between `reconnect_loop`'s check of `should_run_` and the store, callback or attempt it leads
to. -/
def LoopPc.committed : LoopPc → Bool
  | .readCount _ | .writeCount _ _ | .checkLimit _ | .storeDisconnected | .onReconnect _ | .sleep _
  | .tryConnect _ .create | .tryConnect _ .onConnect | .storeConnected => true
  | _ => false

/-- Nothing but an answer of the environment keeps the driver from a step that is not final. -/
def Driver.committed (cfg : ConnectionConfig) : Driver → Bool
  | .fresh | .start _ => true
  | .thread .storeReconnecting | .thread .onDisconnect | .thread .storeDisconnected => true
  | .thread .resetClient => !cfg.autoReconnect
  | .thread (.reconnectLoop pc) => pc.committed
  | _ => false

/-- The driver's step sees the shutdown: the monitor finds the client running, the loop finds
`should_run_` cleared, the attempt under way fails. -/
def Driver.heeds (m : Members) (ok : Bool) : Driver → Bool
  | .thread .isRunning => m.client.all ClientObject.running
  | .thread (.reconnectLoop (.loadRun _)) => !m.shouldRun
  | .thread (.reconnectLoop (.tryConnect _ .connect)) => !ok
  | _ => true

/-- Runs that call `start` once, in which the driver is not committed when `stop` stores
`Closing`, and heeds the shutdown from then on. -/
def Undisturbed (cfg : ConnectionConfig) (s : State) (a : Action) : Prop :=
  Once s a ∧ (a = .user a.ok → s.user = .stop .storeClosing → s.driver.committed cfg = false) ∧
    (s.user.closing = true → ((a.position s).all (Driver.heeds s.members a.ok)) = true)

instance (cfg : ConnectionConfig) : ∀ s a, Decidable (Undisturbed cfg s a) :=
  fun _ _ => inferInstanceAs (Decidable (_ ∧ _))

/-- Once `Closing` has been stored, only final events. -/
def shutdown : Automaton Bool Event where
  next closing e :=
    if closing then if e.final then some true else none
    else some (decide (e = .setState .closing))

variable {cfg : ConnectionConfig} {m m' : Members} {ok : Bool} {s s' : State} {a : Action}
  {es : List Event} {d d' : Driver} {o : Option Handle}

theorem shutdown_run {t : Bool} (h : shutdown.run true es = some t) :
    t = true ∧ ∀ e ∈ es, e.final = true := by
  induction es with
  | nil => exact ⟨(Option.some.inj h).symm,by simp⟩
  | cons e es ih =>
    cases he : e.final with
    | false => simp [shutdown,he] at h
    | true =>
      have hnext : shutdown.next true e = some true := by simp [shutdown,he]
      rw [Automaton.run_cons,hnext] at h
      obtain ⟨ht,hall⟩ := ih h
      refine ⟨ht,fun e' he' => ?_⟩
      rcases List.mem_cons.mp he' with rfl | hmem
      · exact he
      · exact hall e' hmem

theorem shutdown_final (h : ∀ e ∈ es, e.final = true) : shutdown.run true es = some true := by
  induction es with
  | nil => rfl
  | cons e es ih =>
    have hnext : shutdown.next true e = some true := by simp [shutdown,h e (by simp)]
    rw [Automaton.run_cons,hnext]
    exact ih fun e' he' => h e' (by simp [he'])

theorem shutdown_open (h : ∀ e ∈ es, e ≠ .setState .closing) :
    shutdown.run false es = some false := by
  induction es with
  | nil => rfl
  | cons e es ih =>
    have hnext : shutdown.next false e = some false := by simp [shutdown,h e (by simp)]
    rw [Automaton.run_cons,hnext]
    exact ih fun e' he' => h e' (by simp [he'])

/-- An attempt that fails is over, and nobody has heard of it. -/
theorem tryConnectStep_final {pc : ConnectPc} {e : Effect (ConnectPc ⊕ Bool)}
    (h : tryConnectStep cfg m pc ok = some e) (hpc : pc ≠ .create ∧ pc ≠ .onConnect)
    (hok : pc = .connect → ok = false) :
    (∀ e' ∈ e.events, e'.final = true) ∧ (e.pc = .inl .reset ∨ e.pc = .inr false) := by
  cases pc with
  | create => exact absurd rfl hpc.1
  | onConnect => exact absurd rfl hpc.2
  | connect =>
    obtain ⟨c,_,rfl⟩ := Option.map_eq_some_iff.mp h
    rw [hok rfl]
    exact ⟨by simp,.inl rfl⟩
  | reset =>
    cases h
    exact ⟨by simp [Event.final],.inr rfl⟩

theorem loopStep_final {pc : LoopPc} {e : Effect LoopPc} (h : loopStep cfg m pc ok = some e)
    (hc : pc.committed = false)
    (hheed : (Driver.thread (.reconnectLoop pc)).heeds m ok = true) :
    (∀ e' ∈ e.events, e'.final = true) ∧ e.pc.committed = false := by
  cases pc with
  | loadRun b =>
    -- heeding is to find `should_run_` cleared
    cases h
    change (!m.shouldRun) = true at hheed
    have hrun : m.shouldRun = false := by simpa using hheed
    rw [hrun]
    exact ⟨by simp,rfl⟩
  | tryConnect b pc =>
    -- heeding is to fail in `connect`, so what remains is to drop the client
    obtain ⟨e₀,he₀,rfl⟩ := Option.map_eq_some_iff.mp h
    have hpc : pc ≠ .create ∧ pc ≠ .onConnect := by
      constructor
      all_goals
        rintro rfl
        cases hc
    have hok : pc = .connect → ok = false := by
      rintro rfl
      change (!ok) = true at hheed
      simpa using hheed
    obtain ⟨hfinal,hnext⟩ := tryConnectStep_final he₀ hpc hok
    refine ⟨hfinal,?_⟩
    rw [Effect.map]
    rcases hnext with hnext | hnext <;> rw [hnext] <;> rfl
  | scaleBackoff b =>
    obtain ⟨b',_,rfl⟩ := Option.map_eq_some_iff.mp h
    exact ⟨by simp,rfl⟩
  | resetCount =>
    cases h
    refine ⟨by simp,?_⟩
    cases cfg.heartbeatEnabled <;> rfl
  | checkHeartbeat =>
    cases h
    refine ⟨by simp,?_⟩
    cases m.heartbeatThread <;> rfl
  | checkMonitor =>
    cases h
    refine ⟨by simp,?_⟩
    cases m.monitorThread <;> rfl
  | onDisconnect =>
    cases h
    exact ⟨by simp [Event.final],rfl⟩
  | spawnHeartbeat =>
    cases h
    exact ⟨by simp,rfl⟩
  | spawnMonitor =>
    cases h
    exact ⟨by simp,rfl⟩
  | ret =>
    cases h
    exact ⟨by simp,rfl⟩
  | _ => cases hc

theorem loopDriver_committed {pc : LoopPc} (h : pc.committed = false) :
    (loopDriver .gone (some pc)).committed cfg = false := by
  by_cases hret : pc = .ret
  · rw [hret]
    rfl
  · rw [loopDriver_loop _ hret]
    exact h

/-- A thread that has just been spawned has looked at nothing yet. -/
theorem next_committed (h : d.committed cfg = false) (o : Option Handle) :
    (d.next cfg o).committed cfg = false := by
  cases o with
  | none => exact h
  | some handle =>
    cases handle with
    | heartbeat => exact h
    | monitor => rfl
    | reconnect => rfl

theorem monitorStep_final {pc : MonitorPc} {e : Effect (Option MonitorPc)}
    (h : monitorStep cfg m pc ok = some e) (hc : (Driver.thread pc).committed cfg = false)
    (hheed : (Driver.thread pc).heeds m ok = true) :
    (∀ e' ∈ e.events, e'.final = true) ∧ (monitorDriver e.pc).committed cfg = false := by
  cases pc with
  | reconnectLoop p =>
    by_cases hp : p = .ret
    · subst hp
      cases h
      exact ⟨by simp,rfl⟩
    · rw [monitorStep_loop hp] at h
      obtain ⟨e₀,he₀,rfl⟩ := Option.map_eq_some_iff.mp h
      obtain ⟨hfinal,hnext⟩ := loopStep_final he₀ hc hheed
      refine ⟨hfinal,?_⟩
      have hd : monitorDriver (some (.reconnectLoop e₀.pc)) = loopDriver .gone (some e₀.pc) :=
        monitorDriver_loop _
      rw [Effect.map,hd]
      exact loopDriver_committed hnext
  | loadRun =>
    cases h
    refine ⟨by simp,?_⟩
    cases m.shouldRun <;> rfl
  | recheckRun =>
    cases h
    refine ⟨by simp,?_⟩
    cases m.shouldRun <;> rfl
  | readClient =>
    cases h
    refine ⟨by simp,?_⟩
    cases m.client <;> rfl
  | isRunning =>
    -- heeding is to find the client running, or the loss would be reported
    obtain ⟨c,hm,rfl⟩ := Option.map_eq_some_iff.mp h
    change m.client.all ClientObject.running = true at hheed
    rw [hm] at hheed
    have hrun : c.running = true := hheed
    rw [hrun]
    exact ⟨by simp,rfl⟩
  | resetClient =>
    cases h
    change (!cfg.autoReconnect) = false at hc
    have hauto : cfg.autoReconnect = true := by simpa using hc
    rw [hauto]
    exact ⟨by simp,rfl⟩
  | sleep =>
    cases h
    exact ⟨by simp,rfl⟩
  | ret =>
    cases h
    exact ⟨by simp,rfl⟩
  | _ => cases hc

/-- A driver that is not committed and heeds the shutdown shows nothing that is not final, and
does not commit itself. -/
theorem Driver.Step.final (h : Driver.Step cfg ok d m es o d' m') (hc : d.committed cfg = false)
    (hheed : d.heeds m ok = true) : (∀ e ∈ es, e.final = true) ∧ d'.committed cfg = false := by
  cases h with
  | call => cases hc
  | start _ => cases hc
  | thread he =>
    obtain ⟨hfinal,hnext⟩ := monitorStep_final he hc hheed
    exact ⟨hfinal,next_committed hnext _⟩

/-- A driver that does not heed the shutdown is committed by its step. -/
theorem Driver.Step.disturbs (h : Driver.Step cfg ok d m es o d' m')
    (hheed : d.heeds m ok = false) : d'.committed cfg = true := by
  cases h with
  | call => cases hheed
  | start _ => cases hheed
  | @thread pc _ e he =>
    cases pc with
    | isRunning =>
      obtain ⟨c,hm,rfl⟩ := Option.map_eq_some_iff.mp he
      change m.client.all ClientObject.running = false at hheed
      rw [hm] at hheed
      have hrun : c.running = false := hheed
      rw [hrun]
      rfl
    | reconnectLoop p =>
      cases p with
      | loadRun b =>
        cases he
        change (!m.shouldRun) = false at hheed
        have hrun : m.shouldRun = true := by simpa using hheed
        rw [hrun]
        rfl
      | tryConnect b pc =>
        cases pc with
        | connect =>
          change (!ok) = false at hheed
          have hok : ok = true := by simpa using hheed
          subst hok
          obtain ⟨e₀,he₀,rfl⟩ := Option.map_eq_some_iff.mp he
          obtain ⟨e₁,he₁,rfl⟩ := Option.map_eq_some_iff.mp he₀
          obtain ⟨c,_,rfl⟩ := Option.map_eq_some_iff.mp he₁
          rfl
        | _ => cases hheed
      | _ => cases hheed
    | _ => cases hheed

theorem tryConnectStep_not_closing {pc : ConnectPc} {e : Effect (ConnectPc ⊕ Bool)}
    (h : tryConnectStep cfg m pc ok = some e) : .setState .closing ∉ e.events := by
  cases pc with
  | connect =>
    obtain ⟨c,_,rfl⟩ := Option.map_eq_some_iff.mp h
    cases ok <;> simp
  | _ =>
    cases h
    simp

theorem startStep_not_closing {pc : StartPc} {e : Effect UserPc}
    (h : startStep cfg m pc ok = some e) : .setState .closing ∉ e.events := by
  rcases startStep_connects h with ⟨p,e₀,_,he₀,_,hev⟩ | ⟨_,hnot⟩
  · rw [hev]
    exact tryConnectStep_not_closing he₀
  · exact hnot

theorem loopStep_not_closing {pc : LoopPc} {e : Effect LoopPc}
    (h : loopStep cfg m pc ok = some e) : .setState .closing ∉ e.events := by
  rcases loopStep_connects h with ⟨b,p,e₀,_,he₀,_,hev⟩ | ⟨_,hnot⟩
  · rw [hev]
    exact tryConnectStep_not_closing he₀
  · exact hnot

theorem monitorStep_not_closing {pc : MonitorPc} {e : Effect (Option MonitorPc)}
    (h : monitorStep cfg m pc ok = some e) : .setState .closing ∉ e.events := by
  rcases monitorStep_connects h with ⟨p,e₀,_,he₀,_,hev⟩ | ⟨_,hnot⟩
  · rw [hev]
    exact loopStep_not_closing he₀
  · exact hnot

/-- The store of `Closing` is `stop`'s, and its first. -/
theorem Transition.stores_closing (h : Transition cfg s a es s') (hmem : .setState .closing ∈ es) :
    a = .user a.ok ∧ s.user = .stop .storeClosing ∧ es = [.setState .closing] ∧
      s'.user = .stop .clearRun := by
  cases h with
  | fault => cases hmem
  | startCall _ => cases hmem
  | stopCall _ => cases hmem
  | loss _ => cases hmem
  | start _ he _ => exact absurd hmem (startStep_not_closing he)
  | monitor _ he _ => exact absurd hmem (monitorStep_not_closing he)
  | reconnect _ he _ =>
    rcases reconnectStep_cases he with ⟨_,rfl⟩ | ⟨_,e₀,he₀,rfl⟩
    · cases hmem
    · exact absurd hmem (loopStep_not_closing he₀)
  | heartbeat _ he _ =>
    rcases (heartbeatStep_frame he).2.1 with hes | hes <;> simp [hes] at hmem
  | @stop pc _ _ _ hu hs =>
    cases pc with
    | storeClosing =>
      cases hs
      exact ⟨rfl,hu,rfl,rfl⟩
    | storeClosed =>
      cases hs
      simp at hmem
    | _ =>
      simp only [stopStep] at hs
      grind

/-- `stop` goes on from there to its end. -/
theorem stopStep_closing {pc : StopPc} (hu : s.user = .stop pc) (h : stopStep s pc = some (s',es))
    (hc : s.user.closing = true) : s'.user.closing = true := by
  rw [hu] at hc
  cases pc with
  | loadRun => cases hc
  | storeClosing => cases hc
  | close =>
    simp only [stopStep] at h
    split at h <;> cases h
    · rw [hu]
      rfl
    · rfl
  | closing generation =>
    simp only [stopStep] at h
    split at h <;> cases h
    · rfl
    · rw [hu]
      rfl
  | joinHeartbeat =>
    simp only [stopStep] at h
    split at h <;> cases h
    rfl
  | joinMonitor =>
    simp only [stopStep] at h
    split at h <;> cases h
    rfl
  | joinReconnect =>
    simp only [stopStep] at h
    split at h <;> cases h
    rfl
  | storeClosed =>
    cases h
    rfl
  | clearRun =>
    cases h
    rfl
  | readClient =>
    cases h
    cases s.members.client <;> rfl
  | checkHeartbeat =>
    cases h
    cases s.members.heartbeatThread <;> rfl
  | checkMonitor =>
    cases h
    cases s.members.monitorThread <;> rfl
  | checkReconnect =>
    cases h
    cases s.members.reconnectThread <;> rfl

theorem Transition.closing (h : Transition cfg s a es s') (ho : Once s a)
    (hc : s.user.closing = true) : s'.user.closing = true := by
  cases h with
  | fault => exact hc
  | loss _ => exact hc
  | startCall _ =>
    rw [ho rfl] at hc
    cases hc
  | stopCall hu =>
    rw [hu] at hc
    cases hc
  | start hu _ _ =>
    rw [hu] at hc
    cases hc
  | stop hu hs => exact stopStep_closing hu hs hc
  | reconnect _ _ hland =>
    rw [(spawn_frame hland).user]
    exact hc
  | monitor _ _ hland =>
    rw [(spawn_frame hland).user]
    exact hc
  | heartbeat _ _ hland =>
    rw [(spawn_frame hland).user]
    exact hc

/-- `Closing` has been stored, and nothing that is not final is on its way. -/
structure Settling (cfg : ConnectionConfig) (s : State) : Prop where
  closing : s.user.closing = true
  uncommitted : s.driver.committed cfg = false

/-- What a step after the store shows is final, and the next step's will be. -/
theorem Settling.step (h : Settling cfg s) (hsolo : Solo s) (hp : Undisturbed cfg s a)
    (ht : Transition cfg s a es s') : (∀ e ∈ es, e.final = true) ∧ Settling cfg s' := by
  obtain ⟨honce,_,hheed⟩ := hp
  have hclosing := ht.closing honce h.closing
  rcases hsolo.step_driver honce ht with hpassive | ⟨hpos,o,hstep,_⟩
  · refine ⟨fun e he => ?_,hclosing,by rw [hpassive.driver]; exact h.uncommitted⟩
    rcases hpassive.quiet e he with rfl | rfl | rfl
    · rfl
    · -- the store has been made
      have hstore := (ht.stores_closing he).2.1
      have hc := h.closing
      rw [hstore] at hc
      cases hc
    · rfl
  · have hd : s.driver.heeds s.members a.ok = true := by
      have hall := hheed h.closing
      rw [hpos] at hall
      exact hall
    obtain ⟨hfinal,hnext⟩ := hstep.final h.uncommitted hd
    exact ⟨hfinal,hclosing,hnext⟩

/-- The store of `Closing` finds the driver uncommitted. -/
theorem settling_of_store (hsolo : Solo s) (hp : Undisturbed cfg s a)
    (ht : Transition cfg s a es s') (hmem : .setState .closing ∈ es) : Settling cfg s' := by
  obtain ⟨honce,hcommitted,_⟩ := hp
  obtain ⟨ha,hu,_,hu'⟩ := ht.stores_closing hmem
  refine ⟨by rw [hu']; rfl,?_⟩
  rcases hsolo.step_driver honce ht with hpassive | ⟨hpos,_⟩
  · rw [hpassive.driver]
    exact hcommitted ha hu
  · rw [ha,Action.position,hu] at hpos
    cases hpos

/-- Every undisturbed run is one of the automaton. -/
theorem run_shutdown {tr : List Event} (h : (manager cfg).RunWhere (Undisturbed cfg) init tr s) :
    ∃ t, shutdown.run false tr = some t ∧ Solo s ∧ (t = true → Settling cfg s) := by
  rw [← List.filterMap_some (l := tr)]
  refine h.refines (R := fun s t => Solo s ∧ (t = true → Settling cfg s)) ⟨solo_init,by simp⟩ ?_
  rintro s t a s' es ⟨hsolo,hset⟩ hp hs
  have ht := step_transition hs
  have hsolo' := hsolo.step hp.1 ht
  rw [List.filterMap_some]
  cases t with
  | true =>
    obtain ⟨hfinal,hset'⟩ := (hset rfl).step hsolo hp ht
    exact ⟨true,shutdown_final hfinal,hsolo',fun _ => hset'⟩
  | false =>
    by_cases hmem : .setState .closing ∈ es
    · have hes := (ht.stores_closing hmem).2.2.1
      refine ⟨true,?_,hsolo',fun _ => settling_of_store hsolo hp ht hmem⟩
      rw [hes]
      rfl
    · refine ⟨false,shutdown_open fun e he hclosing => hmem ?_,hsolo',by simp⟩
      rwa [hclosing] at he

theorem next_of_committed (h : (d.next cfg o).committed cfg = true) :
    o ≠ some .monitor ∧ o ≠ some .reconnect ∧ d.next cfg o = d := by
  cases o with
  | none => exact ⟨by simp,by simp,rfl⟩
  | some handle =>
    cases handle with
    | heartbeat => exact ⟨by simp,by simp,rfl⟩
    | monitor => cases h
    | reconnect => cases h

/-- A thread that does not heed the shutdown is the driver, and commits itself. -/
theorem Solo.disturbed (h : Solo s) (ht : Transition cfg s a es s') (hc : s.user.closing = true)
    (ho : Once s a) (hpos : a.position s = some d) (hheed : d.heeds s.members a.ok = false) :
    s'.fault = true ∨ s'.driver.committed cfg = true := by
  cases ht with
  | fault => exact .inl rfl
  | stopCall _ => cases hpos
  | loss _ => cases hpos
  | heartbeat _ _ _ => cases hpos
  | startCall _ =>
    rw [ho rfl] at hc
    cases hc
  | start hu _ _ =>
    rw [hu] at hc
    cases hc
  | stop hu _ =>
    rw [Action.position,hu] at hpos
    cases hpos
  | @monitor pc _ e _ hm he hland =>
    rw [Action.position,hm] at hpos
    obtain rfl := Option.some.inj hpos
    have hf := spawn_frame hland
    have hnext := (Driver.Step.thread he).disturbs hheed
    obtain ⟨hmon,hrec,hd⟩ := next_of_committed hnext
    have hst : ¬s'.user.Starting := by
      rw [hf.user]
      exact h.lone.not_starting_of_monitor hm
    -- it spawns nothing, so it is still the driver
    rw [hd] at hnext
    rw [driver_eq hst,hf.monitor hmon,hf.reconnect hrec]
    refine .inr ?_
    change (loopDriver (monitorDriver e.pc) s.reconnect).committed cfg = true
    rw [h.lone.loopDriver_of_monitor hm]
    exact hnext
  | @reconnect pc _ e _ hr he hland =>
    rw [Action.position,hr] at hpos
    obtain rfl := Option.some.inj hpos
    have hf := spawn_frame hland
    rcases reconnectStep_cases he with ⟨rfl,_⟩ | ⟨hne,e,hloop,rfl⟩
    · cases hheed
    · have hnext := (Driver.Step.loop hne hloop).disturbs hheed
      obtain ⟨hmon,hrec,hd⟩ := next_of_committed hnext
      have hst : ¬s'.user.Starting := by
        rw [hf.user]
        exact h.lone.not_starting_of_reconnect hr
      rw [hd] at hnext
      rw [driver_eq hst,hf.monitor hmon,hf.reconnect hrec]
      refine .inr ?_
      change (loopDriver (monitorDriver s.monitor) (some e.pc)).committed cfg = true
      rw [(h.looping pc hr hne).1]
      exact hnext

/-- In an undisturbed run nothing but `Closed` is stored into `state_` after `Closing`, no loss
and no connection is reported and no attempt begins; a step that disturbs the run leaves the
driver on its way to one of these. -/
theorem shutdown_is_final (cfg : ConnectionConfig) {tr : List Event} {s : State}
    (h : (manager cfg).RunWhere (Undisturbed cfg) init tr s) :
    (∀ pre post, tr = pre++.setState .closing :: post → ∀ e ∈ post, e.final = true) ∧
      ∀ a s' es, (manager cfg).step s a = some (s',es) → Once s a → ¬Undisturbed cfg s a →
        s'.user.closing = true ∧ (s'.fault = true ∨ s'.driver.committed cfg = true) := by
  obtain ⟨t,hacc,hsolo,_⟩ := run_shutdown h
  refine ⟨?_,fun a s' es hs hone hnot => ?_⟩
  · rintro pre post rfl
    obtain ⟨u,_,hrest⟩ := shutdown.run_append_some hacc
    cases u with
    | true =>
      -- a second store of `Closing` is not final
      cases hrest
    | false => exact (shutdown_run hrest).2
  · have ht := step_transition hs
    by_cases hstore : a = .user a.ok ∧ s.user = .stop .storeClosing ∧ s.driver.committed cfg = true
    · obtain ⟨ha,hu,hd⟩ := hstore
      rcases hsolo.step_driver hone ht with hpassive | ⟨hpos,_⟩
      · rw [hpassive.driver]
        refine ⟨?_,.inr hd⟩
        rw [ha] at hs
        simp only [manager,Connection.step,hu,stopStep] at hs
        split at hs <;> cases hs
        rfl
      · rw [ha,Action.position,hu] at hpos
        cases hpos
    · have hheed : s.user.closing = true ∧ ∃ d, a.position s = some d ∧
          d.heeds s.members a.ok = false := by
        by_contra hnone
        refine hnot ⟨hone,fun ha hu => ?_,fun hc => ?_⟩
        · simpa [hu] using fun hd => hstore ⟨ha,hu,hd⟩
        · cases hpos : a.position s with
          | none => rfl
          | some d =>
            by_contra hd
            exact hnone ⟨hc,d,hpos,by simpa using hd⟩
      obtain ⟨hc,d,hpos,hd⟩ := hheed
      exact ⟨ht.closing hone hc,hsolo.disturbed ht hc hone hpos hd⟩

/-- A connected manager is stopped while the monitor thread sleeps. -/
theorem shutdown_is_final_connected :
    ∃ tr s, (manager defaultConfig).RunWhere (Undisturbed defaultConfig) init tr s ∧
      s.user = .stopped ∧ ∀ pre post, tr = pre++.setState .closing :: post →
        ∀ e ∈ post, e.final = true := by
  have hexec : ((manager defaultConfig).execWhere (Undisturbed defaultConfig) init
      (System.schedule [(1,[.start]),(9,[.user true]),(1,[.monitor true]),(1,[.stop]),
        (6,[.user true]),(2,[.heartbeat true]),(3,[.monitor true]),(6,[.user true])])).any
      (fun r => decide (r.1.user = .stopped)) = true := by
    decide +kernel
  obtain ⟨s,tr,hrun,hs⟩ := System.exists_run_of_exec hexec
  have hstopped := of_decide_eq_true hs
  exact ⟨tr,s,hrun,hstopped,(shutdown_is_final defaultConfig hrun).1⟩

/-- The monitor thread has looked at `should_run_` for the last time when `stop` begins, and
takes the client that `stop` closes for a lost one. -/
theorem shutdown_reported_as_loss :
    ¬∀ cfg tr s, (manager cfg).RunWhere Once init tr s →
      ∀ pre post, tr = pre++.setState .closing :: post → ∀ e ∈ post, e.final = true := by
  intro hall
  have hexec : ((manager defaultConfig).execWhere Once init
      (System.schedule [(1,[.start]),(9,[.user true]),(4,[.monitor true]),(1,[.stop]),
        (5,[.user true]),(3,[.monitor true])])).any
      (fun r => decide (r.2 = r.2.take 4++.setState .closing :: r.2.drop 5 ∧
        .onDisconnect .connectionLost ∈ r.2.drop 5)) = true := by
    decide +kernel
  obtain ⟨s,tr,hrun,hs⟩ := System.exists_run_of_exec hexec
  have hlost : tr = tr.take 4++.setState .closing :: tr.drop 5 ∧
      .onDisconnect .connectionLost ∈ tr.drop 5 := of_decide_eq_true hs
  cases hall defaultConfig tr s hrun _ _ hlost.1 _ hlost.2

end WsClient.Connection
