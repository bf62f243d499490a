import WsClient.Managed.Quit

/-!
# The client handed to the session

Why the client that `chat_session` was given is reset under it: `main` hands it over while a thread
is about to reset it, a poll of the monitor finds it stopped, or the attempt that made it throws.
Where none of these happens every call is on that client; after any of them the manager's threads
alone can come to a reset.
-/

namespace WsClient.Connection
open WsClient.Lib

/-- Nothing keeps the driver from resetting the client. -/
def Driver.doomed : Driver → Bool
  | .thread .storeReconnecting | .thread .onDisconnect | .thread .resetClient
  | .thread (.reconnectLoop (.tryConnect _ .reset)) => true
  | _ => false

/-- The driver's step leads there: its poll finds the client stopped, or `connect` or `on_connect_`
throws. -/
def Driver.dooms (m : Members) (ok : Bool) : Driver → Bool
  | .thread .isRunning => m.client.any fun c => !c.running
  | .thread (.reconnectLoop (.tryConnect _ .connect)) => m.client.isSome && !ok
  | .thread (.reconnectLoop (.tryConnect _ .onConnect)) => !ok
  | _ => false

/-- The steps of the driver until the reset. -/
def Driver.respite : Driver → ℕ
  | .thread .storeReconnecting => 2
  | .thread .onDisconnect => 1
  | _ => 0

variable {cfg : ConnectionConfig} {m m' : Members} {ok : Bool} {s s' : State} {a : Action}
  {es : List Event} {d d' : Driver} {o : Option Handle}

theorem Driver.resets_of_not_doomed (hd : ∃ pc, d = .thread pc) (h : d.doomed = false) :
    d.resets = false := by
  obtain ⟨pc,rfl⟩ := hd
  by_contra hr
  rw [Bool.not_eq_false] at hr
  cases pc with
  | resetClient => cases h
  | reconnectLoop p =>
    cases p with
    | tryConnect b pc =>
      cases pc with
      | reset => cases h
      | _ => cases hr
    | _ => cases hr
  | _ => cases hr

theorem Driver.doomed_next (h : d.doomed = false) (o : Option Handle) :
    (d.next cfg o).doomed = false := by
  cases o with
  | none => exact h
  | some handle => cases handle <;> first | exact h | rfl

theorem loopDriver_doomed {pc : LoopPc} (h : (Driver.thread (.reconnectLoop pc)).doomed = false) :
    (loopDriver .gone (some pc)).doomed = false := by
  by_cases hret : pc = .ret
  · rw [hret]
    rfl
  · rw [loopDriver_loop _ hret]
    exact h

theorem loopStep_doomed {pc : LoopPc} {e : Effect LoopPc} (h : loopStep cfg m pc ok = some e)
    (hdoomed : (Driver.thread (.reconnectLoop pc)).doomed = false)
    (hdooms : (Driver.thread (.reconnectLoop pc)).dooms m ok = false) :
    (Driver.thread (.reconnectLoop e.pc)).doomed = false := by
  cases pc with
  | loadRun b =>
    cases h
    dsimp only
    cases m.shouldRun <;> rfl
  | writeCount b count =>
    simp only [loopStep] at h
    split at h <;> cases h
    rfl
  | checkLimit b =>
    cases h
    dsimp only
    split <;> rfl
  | tryConnect b pc =>
    obtain ⟨e₀,he₀,rfl⟩ := Option.map_eq_some_iff.mp h
    cases pc with
    | create =>
      cases he₀
      rfl
    | connect =>
      -- `connect` returns
      obtain ⟨c,hc,rfl⟩ := Option.map_eq_some_iff.mp he₀
      change (m.client.isSome && !ok) = false at hdooms
      rw [hc] at hdooms
      cases ok with
      | true => rfl
      | false => cases hdooms
    | onConnect =>
      cases he₀
      cases ok with
      | true => rfl
      | false => cases hdooms
    | reset => cases hdoomed
  | scaleBackoff b =>
    obtain ⟨b',_,rfl⟩ := Option.map_eq_some_iff.mp h
    rfl
  | resetCount =>
    cases h
    dsimp only
    cases cfg.heartbeatEnabled <;> rfl
  | checkHeartbeat =>
    cases h
    dsimp only
    cases m.heartbeatThread <;> rfl
  | checkMonitor =>
    cases h
    dsimp only
    cases m.monitorThread <;> rfl
  | _ =>
    cases h
    rfl

theorem monitorStep_doomed {pc : MonitorPc} {e : Effect (Option MonitorPc)}
    (h : monitorStep cfg m pc ok = some e) (hdoomed : (Driver.thread pc).doomed = false)
    (hdooms : (Driver.thread pc).dooms m ok = false) : (monitorDriver e.pc).doomed = false := by
  cases pc with
  | reconnectLoop p =>
    by_cases hp : p = .ret
    · subst hp
      cases h
      rfl
    · rw [monitorStep_loop hp] at h
      obtain ⟨e₀,he₀,rfl⟩ := Option.map_eq_some_iff.mp h
      have hd : monitorDriver (some (.reconnectLoop e₀.pc)) = loopDriver .gone (some e₀.pc) :=
        monitorDriver_loop _
      rw [Effect.map,hd]
      exact loopDriver_doomed (loopStep_doomed he₀ hdoomed hdooms)
  | loadRun =>
    cases h
    dsimp only
    cases m.shouldRun <;> rfl
  | recheckRun =>
    cases h
    dsimp only
    cases m.shouldRun <;> rfl
  | readClient =>
    cases h
    dsimp only
    cases m.client <;> rfl
  | isRunning =>
    -- the poll finds the client running
    obtain ⟨c,hc,rfl⟩ := Option.map_eq_some_iff.mp h
    change (m.client.any fun c => !c.running) = false at hdooms
    rw [hc] at hdooms
    have hrun : c.running = true := by simpa using hdooms
    dsimp only
    rw [hrun]
    rfl
  | storeReconnecting => cases hdoomed
  | onDisconnect => cases hdoomed
  | resetClient => cases hdoomed
  | _ =>
    cases h
    rfl

theorem Driver.Step.doomed (h : Driver.Step cfg ok d m es o d' m') (hd : ∃ pc, d = .thread pc)
    (hdoomed : d.doomed = false) (hdooms : d.dooms m ok = false) : d'.doomed = false := by
  obtain ⟨pc,rfl⟩ := hd
  cases h with
  | thread he => exact Driver.doomed_next (monitorStep_doomed he hdoomed hdooms) _

/-- A manager past `start` whose driver is not about to reset the client, and whose next step does
not lead there. -/
theorem Transition.spares (ht : Transition cfg s a es s') (hsolo : Solo s) (ho : Once s a)
    (howned : Owned s.driver s.members) (hst : ¬s.user.Starting) (hdoomed : s.driver.doomed = false)
    (hdooms : ∀ d, a.position s = some d → d.dooms s.members a.ok = false) :
    s'.driver.doomed = false ∧
      ∀ g, s.members.current = some g → s'.members.current = some g := by
  rcases hsolo.step_driver ho ht with hpassive | ⟨hpos,o,hstep,_⟩
  · rw [hpassive.driver]
    exact ⟨hdoomed,fun g hg => hpassive.rely.client.trans hg⟩
  · have hthread := position_thread hst ho hpos
    exact ⟨hstep.doomed hthread hdoomed (hdooms _ hpos),
      fun g hg => hstep.keeps (Driver.resets_of_not_doomed hthread hdoomed) howned hg⟩

/-- A step that leads to a reset does so at once. -/
theorem monitorStep_dooms (cfg : ConnectionConfig) {pc : MonitorPc}
    (h : (Driver.thread pc).dooms m ok = true) :
    pc ≠ .reconnectLoop .ret ∧ ∃ e, monitorStep cfg m pc ok = some e ∧ e.spawn = none ∧
      (monitorDriver e.pc).doomed = true := by
  cases pc with
  | isRunning =>
    obtain ⟨c,hc,hrun⟩ := (Option.any_eq_true _ _).mp h
    refine ⟨by simp,_,by rw [monitorStep,hc]; rfl,rfl,?_⟩
    dsimp only
    rw [Bool.not_eq_true'] at hrun
    rw [hrun]
    rfl
  | reconnectLoop p =>
    cases p with
    | tryConnect b pc =>
      cases pc with
      | connect =>
        obtain ⟨hsome,hok⟩ := Bool.and_eq_true_iff.mp h
        obtain ⟨c,hc⟩ := Option.isSome_iff_exists.mp hsome
        cases ok with
        | true => cases hok
        | false =>
          refine ⟨by simp,{ members := m, pc := some (.reconnectLoop (.tryConnect b .reset)) },?_,
            rfl,rfl⟩
          simp [monitorStep,loopStep,tryConnectStep,hc,Effect.map]
      | onConnect =>
        cases ok with
        | true => cases h
        | false => exact ⟨by simp,_,rfl,rfl,rfl⟩
      | _ => cases h
    | _ => cases h
  | _ => cases h

/-- A driver that cannot be kept from the reset comes one step closer to it. -/
theorem monitorStep_falls (cfg : ConnectionConfig) (m : Members) {pc : MonitorPc}
    (h : (Driver.thread pc).doomed = true) :
    ∃ e, monitorStep cfg m pc true = some e ∧ e.spawn = none ∧ (e.members.client = none ∨
      ((monitorDriver e.pc).doomed = true ∧
        (monitorDriver e.pc).respite < (Driver.thread pc).respite)) := by
  cases pc with
  | storeReconnecting => exact ⟨_,rfl,rfl,.inr ⟨rfl,Nat.lt_succ_self 1⟩⟩
  | onDisconnect => exact ⟨_,rfl,rfl,.inr ⟨rfl,Nat.lt_succ_self 0⟩⟩
  | resetClient => exact ⟨_,rfl,rfl,.inl rfl⟩
  | reconnectLoop p =>
    cases p with
    | tryConnect b pc =>
      cases pc with
      | reset => exact ⟨_,rfl,rfl,.inl rfl⟩
      | _ => cases h
    | _ => cases h
  | _ => cases h

end WsClient.Connection

namespace WsClient.Managed
open WsClient.Lib WsClient.Client

/-- Runs in which `chat_session` is given a client that no thread is about to reset, and in which,
while it runs, no poll finds the client stopped and no attempt throws. -/
def Unlost {ρ β : Type*} (s : State ρ) : Action β → Prop
  | .main _ => s.main.pc = .managed .deref → s.main.manager.members.client.isSome = true →
      s.main.manager.driver.doomed = false
  | .manager a => s.main.pc = .managed .session → s.session.chat ≠ .returned →
      (a.position s.main.manager).any (fun d => d.dooms s.main.manager.members a.ok) = false
  | .session _ => True

instance {ρ β : Type*} : ∀ (s : State ρ) (a : Action β), Decidable (Unlost s a)
  | _, .main _ => inferInstanceAs (Decidable (_ → _ → _ = _))
  | _, .manager _ => inferInstanceAs (Decidable (_ → _ → _ = _))
  | _, .session _ => .isTrue trivial

/-- A step of the manager's threads. -/
def Action.onManager {β : Type*} : Action β → Bool
  | .manager _ => true
  | _ => false

/-- Until `chat_session` has returned, the client it was given is the manager's, and nothing leads
to its reset. -/
def Sheltered {ρ : Type*} (s : State ρ) : Prop :=
  s.main.pc = .managed .session → s.session.chat ≠ .returned →
    s.main.manager.members.current = some s.given ∧ s.main.manager.driver.doomed = false

variable {ρ β : Type*} {sslEnabled : Bool} {argv : List String} {moved : Message → Message}
  {ndebug : Bool} {server : System (Session.Wire × ρ) β Empty} {srv : ρ} {s s' : State ρ}
  {a : Action β} {es : List Event}

theorem Sheltered.step (h : Sheltered s) (hprompting : Prompting s) (hp : Unlost s a)
    (hs : (program sslEnabled argv moved ndebug server srv).step s a = some (s',es)) :
    Sheltered s' := by
  have htr := hprompting.tracked
  intro hpc' hchat'
  cases step_transition hs with
  | main hne hmain => exact absurd ((htr.onMain hmain).2.2 hpc').1 hne
  | deref hpc hmain =>
    obtain ⟨_,hm,hsome⟩ := (htr.onMain hmain).2.2 hpc'
    obtain ⟨g,hcur⟩ := exists_current hsome
    rw [hm,hcur]
    exact ⟨rfl,hp hpc hsome⟩
  | manager hmgr =>
    obtain ⟨_,hgiven,hpc,ces,ht⟩ := htr.onManager hmgr
    obtain ⟨t,mes,hmain,_,rfl⟩ := onMain_some hmgr
    have hin : s.main.pc = .managed .session := hpc.symm.trans hpc'
    have hchat : s.session.chat ≠ .returned := by simpa using hchat'
    obtain ⟨hcur,hdoomed⟩ := h hin hchat
    have hb := (main_manager hmain).2.2.1
    have hdooms := hp hin hchat
    obtain ⟨hdoomed',hkeep⟩ := ht.spares htr.manager.solo (fun hcall => absurd hcall hb)
      htr.manager.owned (hprompting.begun .session hin (by simp) (by simp)) hdoomed
      fun d hd => by rwa [hd,Option.any_some] at hdooms
    exact ⟨hkeep _ hcur,hdoomed'⟩
  | session hsession =>
    obtain ⟨_,hgiven,hpc,hcur,_⟩ := htr.onSession hsession
    obtain ⟨t,tes,hstep,_,rfl⟩ := onSession_some hsession
    have hchat : s.session.chat ≠ .returned := fun hret => hchat' (returned_step hstep hret)
    obtain ⟨hcur',hdoomed⟩ := h hpc' hchat
    exact ⟨hcur.trans hcur',hdoomed⟩
  | dangling => cases hpc'

section live

variable (sslEnabled : Bool) (argv : List String) (moved : Message → Message) (ndebug : Bool)
  (server : System (Session.Wire × ρ) β Empty) (srv : ρ)

/-- A driver that cannot be kept from the reset comes to it, whatever the others do. -/
theorem Live.falls (h : Live s) (hd : s.main.manager.driver.doomed = true) :
    ∃ tr s', (program sslEnabled argv moved ndebug server srv).RunWhere
        (fun _ a => a.onManager = true) s tr s' ∧
      s'.main.pc = s.main.pc ∧ s'.session.chat = s.session.chat ∧
      s'.main.manager.members.client = none := by
  -- by the steps left until the reset
  induction hn : s.main.manager.driver.respite using Nat.strongRecOn generalizing s with
  | ind n ih =>
    obtain ⟨d,hthread⟩ := h.driver_thread fun hgone => by
      rw [hgone] at hd
      cases hd
    rw [hthread] at hd hn
    obtain ⟨e,he,hspawn,hnext⟩ := Connection.monitorStep_falls s.main.args.connConfig
      s.main.manager.members hd
    obtain ⟨b,s',hs,hlive,hdriver,hmem,hpc,hchat⟩ :=
      h.drive sslEnabled argv moved ndebug server srv hthread he hspawn
    have hfirst := System.RunWhere.step (P := fun _ a => a.onManager = true) .start rfl hs
    rcases hnext with hnone | ⟨hdoomed,hlt⟩
    · exact ⟨_,s',hfirst,hpc,hchat,by rw [hmem,hnone]⟩
    · rw [← hdriver] at hdoomed hlt
      obtain ⟨tr,s'',hrest,hpc',hchat',hnone⟩ := ih _ (hn ▸ hlt) hlive hdoomed rfl
      exact ⟨_,s'',hfirst.append hrest,hpc'.trans hpc,hchat'.trans hchat,hnone⟩

end live

/-- A step that loses the client: `main` is in `chat_session`, and the driver will reset it. -/
theorem Prompting.loses (h : Prompting s)
    (hs : (program sslEnabled argv moved ndebug server srv).step s a = some (s',es))
    (hp : ¬Unlost s a) : s'.main.pc = .managed .session ∧ s'.session.chat ≠ .returned ∧
      Live s' ∧ s'.main.manager.driver.doomed = true := by
  have hprompting := h.step hs
  cases a with
  | session b => exact absurd trivial hp
  | main ok =>
    simp only [Unlost,Classical.not_imp,Bool.not_eq_false] at hp
    obtain ⟨hpc,hsome,hdoomed⟩ := hp
    cases step_transition hs with
    | main hne _ => exact absurd hpc hne
    | deref _ hmain =>
      have hf := fault_of_onMain hmain
      obtain ⟨t,mes,ht,_,rfl⟩ := onMain_some hmain
      have hgreeting := h.greeting (by rw [hpc]; rfl)
      obtain rfl : { s.main with pc := .managed .session } = t := by
        simp [Main.step,hf,hpc,Main.managedStep,hsome] at ht
        exact ht.1
      exact ⟨rfl,by simp [hgreeting],⟨hprompting,⟨.session,rfl,by simp,by simp⟩,hf⟩,hdoomed⟩
  | manager b =>
    simp only [Unlost,Classical.not_imp,Bool.not_eq_false] at hp
    obtain ⟨hpc,hchat,hdooms⟩ := hp
    cases step_transition hs with
    | manager hmgr =>
      have hf := fault_of_onMain hmgr
      obtain ⟨t,mes,hmain,_,rfl⟩ := onMain_some hmgr
      obtain ⟨hpc',_,hb,_,ces,hstep,_⟩ := main_manager hmain
      have hst := h.begun .session hpc (by simp) (by simp)
      obtain ⟨d,hpos,hd⟩ := (Option.any_eq_true _ _).mp hdooms
      obtain ⟨d,rfl⟩ := Connection.position_thread hst (fun hcall => absurd hcall hb) hpos
      obtain ⟨hloop,e,he,hspawn,hdoomed⟩ :=
        Connection.monitorStep_dooms s.main.args.connConfig hd
      obtain ⟨mgr,hstep',hdriver,_,hf'⟩ :=
        h.tracked.manager.solo.lone.step_thread hf hpos hloop he hspawn
      rw [hstep] at hstep'
      obtain ⟨rfl,_⟩ := Prod.mk.inj (Option.some.inj hstep')
      rw [← hdriver] at hdoomed
      have hin : t.pc = .managed .session := hpc'.trans hpc
      exact ⟨hin,by simpa using hchat,⟨hprompting,⟨.session,hin,by simp,by simp⟩,hf'⟩,hdoomed⟩

/-- As long as `chat_session` is given a client that no thread is about to reset, and no poll finds
it stopped and no attempt throws while it runs, every call it makes is on that client; after a step
that breaks this the manager's threads alone can come to a reset under it. -/
theorem session_client_kept (sslEnabled : Bool) (argv : List String)
    (moved : Message → Message) (ndebug : Bool) (server : System (Session.Wire × ρ) β Empty)
    (srv : ρ) (storage : ℕ) (m : ByteMem) {tr : List Event} {s : State ρ}
    (h : (program sslEnabled argv moved ndebug server srv).RunWhere Unlost
      (init srv storage m) tr s) :
    (s.main.pc = .managed .session → s.session.chat.calls = true →
        s.main.manager.members.current = some s.given) ∧
      ∀ a s' es, (program sslEnabled argv moved ndebug server srv).step s a = some (s',es) →
        ¬Unlost s a → ∃ tr' s'', (program sslEnabled argv moved ndebug server srv).RunWhere
          (fun _ a => a.onManager = true) s' tr' s'' ∧
          s''.main.pc = .managed .session ∧ s''.session.chat = s'.session.chat ∧
          s'.session.chat ≠ .returned ∧ s''.main.manager.members.client = none := by
  have hinv : Prompting s ∧ Sheltered s := by
    refine h.invariant (I := fun _ s => Prompting s ∧ Sheltered s) ⟨prompting_init,?_⟩ ?_
    · intro hpc
      cases hpc
    · rintro tr s a s' es ⟨hprompting,hsheltered⟩ hp hs
      exact ⟨hprompting.step hs,hsheltered.step hprompting hp hs⟩
  obtain ⟨hprompting,hsheltered⟩ := hinv
  refine ⟨fun hpc hcalls => (hsheltered hpc fun hret => ?_).1,fun a s' es hs hp => ?_⟩
  · rw [hret] at hcalls
    cases hcalls
  · obtain ⟨hpc,hchat,hlive,hdoomed⟩ := hprompting.loses hs hp
    obtain ⟨tr',s'',hrun,hpc',hchat',hnone⟩ :=
      hlive.falls sslEnabled argv moved ndebug server srv hdoomed
    exact ⟨tr',s'',hrun,hpc'.trans hpc,hchat',hchat,hnone⟩

/-- The first attempt fails and the second one makes the client that is handed over; the monitor
polls it while `chat_session` runs. -/
theorem session_client_kept_second_try :
    ∃ tr s, (program false ["websocket_client","--reconnect"] id true Session.echo none).RunWhere
        Unlost (init none 4096 fun _ => 0) tr s ∧ s.main.pc = .managed .session ∧
      s.session.chat.calls = true ∧ s.given = 1 ∧ s.main.manager.monitor = some .loadRun ∧
      s.main.manager.members.current = some s.given := by
  have hexec : ((program false ["websocket_client","--reconnect"] id true Session.echo
      none).execWhere Unlost (init none 4096 fun _ => 0)
      (System.schedule [(2,[.main true]),(3,[.manager (.user true)]),(1,[.manager (.user false)]),
        (3,[.manager (.user true)]),(15,[.manager (.reconnect true)]),(5,[.main true]),
        (5,[.manager (.monitor true)]),(1,[.session .chat])])).any
      (fun r => decide (r.1.main.pc = .managed .session ∧ r.1.session.chat.calls = true ∧
        r.1.given = 1 ∧ r.1.main.manager.monitor = some .loadRun)) = true := by
    decide +kernel
  obtain ⟨s,tr,hrun,hs⟩ := System.exists_run_of_exec hexec
  obtain ⟨hin,hcalls,hgiven,hmonitor⟩ : s.main.pc = .managed .session ∧
      s.session.chat.calls = true ∧ s.given = 1 ∧ s.main.manager.monitor = some .loadRun :=
    of_decide_eq_true hs
  exact ⟨tr,s,hrun,hin,hcalls,hgiven,hmonitor,
    (session_client_kept _ _ _ _ _ _ _ _ hrun).1 hin hcalls⟩

end WsClient.Managed
