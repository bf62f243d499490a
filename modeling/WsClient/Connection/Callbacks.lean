import WsClient.Connection.Ownership
import WsClient.Connection.Protocol

/-!
# The callbacks follow the protocol

The driver's position and `reconnect_count_` say which phase of the callback protocol the
manager is in, so every run of the manager is a run of the protocol.
-/

namespace WsClient.Connection
open WsClient.Lib

def Event.signal? : Event → Option Signal
  | .onConnect => some .connect
  | .connectFailed => some .failed
  | .onDisconnect .connectionLost => some .lost
  | .onDisconnect .maxRetriesExceeded => some .gaveUp
  | .onReconnect attempt _ => some (.reconnect attempt)
  | _ => none

/-- Callbacks and failed attempts of a run, in order. -/
def signals (tr : List Event) : List Signal := tr.filterMap Event.signal?

def Driver.atOnConnect : Driver → Bool
  | .start (.tryConnect .onConnect) => true
  | .thread (.reconnectLoop (.tryConnect _ .onConnect)) => true
  | _ => false

/-- Runs that call `start` once and whose `on_connect` does not throw. -/
def OnceReturning (s : State) (a : Action) : Prop :=
  Once s a ∧ ((a.position s).all fun d => !d.atOnConnect || a.ok) = true

instance : ∀ s a, Decidable (OnceReturning s a) := fun _ _ => inferInstanceAs (Decidable (_ ∧ _))

/-- The phase of the protocol while `start` stands at `pc`. -/
def StartPc.Expects (count : ℤ) (t : Phase) : StartPc → Prop
  | .storeRun | .storeConnecting | .tryConnect _ => t = .first ∧ count = 0
  | .storeConnected | .resetCount => t = .up
  | .spawnHeartbeat | .spawnMonitor => t = .up ∧ count = 0
  | .storeReconnecting | .spawnReconnect | .storeDisconnected => t = .down 0 0 ∧ count = 0

/-- The phase of the protocol while `reconnect_loop` stands at `pc`; `k` attempts of the outage
have failed. -/
def LoopPc.Expects (maxTries count : ℤ) (t : Phase) : LoopPc → Prop
  | .loadRun _ | .readCount _ | .scaleBackoff _ =>
    ∃ k : ℕ, t = .down k k ∧ count = k ∧ (0 < maxTries → (k : ℤ) ≤ maxTries)
  | .writeCount _ read =>
    ∃ k : ℕ, t = .down k k ∧ read = k ∧ (0 < maxTries → (k : ℤ) ≤ maxTries)
  | .checkLimit _ =>
    ∃ k : ℕ, t = .down k k ∧ count = k+1 ∧ (0 < maxTries → (k : ℤ) ≤ maxTries)
  | .storeDisconnected | .onDisconnect => ∃ k : ℕ, t = .down k k ∧ maxTries = k ∧ 0 < maxTries
  | .onReconnect _ =>
    ∃ k : ℕ, t = .down k k ∧ count = k+1 ∧ (0 < maxTries → (k : ℤ)+1 ≤ maxTries)
  | .sleep _ | .tryConnect _ _ =>
    ∃ k : ℕ, t = .down (k+1) k ∧ count = k+1 ∧ (0 < maxTries → (k : ℤ)+1 ≤ maxTries)
  | .storeConnected | .resetCount => t = .up
  | .checkHeartbeat | .spawnHeartbeat | .checkMonitor | .spawnMonitor => t = .up ∧ count = 0
  | .ret => True

/-- The phase of the protocol, from where the driver stands. -/
def Driver.Expects (maxTries count : ℤ) (t : Phase) : Driver → Prop
  | .fresh => t = .first ∧ count = 0
  | .start pc => pc.Expects count t
  | .thread (.reconnectLoop pc) => pc.Expects maxTries count t
  | .thread .resetClient | .thread .storeDisconnected => t = .down 0 0 ∧ count = 0
  | .thread .ret => True
  | .thread _ => t = .up ∧ count = 0
  | .gone => True

variable {cfg : ConnectionConfig} {m : Members} {ok : Bool} {s s' : State} {a : Action}
  {es : List Event} {t : Phase}

theorem signals_append (es fs : List Event) : signals (es++fs) = signals es++signals fs :=
  List.filterMap_append

theorem Quiet.signals (h : Quiet es) : signals es = [] := by
  rw [Connection.signals,List.filterMap_eq_nil_iff]
  intro e he
  rcases h e he with rfl | rfl | rfl <;> rfl

@[simp] theorem hold_count (m : Members) (o : Option Handle) :
    (m.hold o).reconnectCount = m.reconnectCount := by
  cases o with
  | none => rfl
  | some handle => cases handle <;> rfl

/-- The events of a step of the driver, accepted from phase `t` into one that fits. -/
def Follows (cfg : ConnectionConfig) (t : Phase) (es : List Event) (d : Driver) (m : Members) :
    Prop :=
  ∃ u, (protocol cfg.maxReconnectTries).run t (signals es) = some u ∧
    d.Expects cfg.maxReconnectTries m.reconnectCount u

theorem startStep_follows {pc : StartPc} {e : Effect UserPc} (h : pc.Expects m.reconnectCount t)
    (hok : pc = .tryConnect .onConnect → ok = true) (hs : startStep cfg m pc ok = some e) :
    Follows cfg t e.events ((e.pc.driver .gone).next cfg e.spawn) (e.members.hold e.spawn) := by
  cases pc with
  | tryConnect pc =>
    obtain ⟨rfl,hc⟩ := h
    obtain ⟨e₀,he₀,rfl⟩ := Option.map_eq_some_iff.mp hs
    cases pc with
    | create =>
      cases he₀
      exact ⟨.first,rfl,rfl,hc⟩
    | connect =>
      obtain ⟨c,_,rfl⟩ := Option.map_eq_some_iff.mp he₀
      cases ok
      · exact ⟨.first,rfl,rfl,hc⟩
      · exact ⟨.first,rfl,rfl,hc⟩
    | onConnect =>
      obtain rfl := hok rfl
      cases he₀
      exact ⟨.up,rfl,rfl⟩
    | reset =>
      cases he₀
      refine ⟨.down 0 0,rfl,?_⟩
      simp only [Effect.map]
      cases cfg.autoReconnect
      · exact ⟨rfl,hc⟩
      · exact ⟨rfl,hc⟩
  | storeConnected =>
    cases hs
    exact ⟨t,rfl,h⟩
  | resetCount =>
    cases hs
    refine ⟨t,rfl,?_⟩
    cases cfg.heartbeatEnabled
    · exact ⟨h,rfl⟩
    · exact ⟨h,rfl⟩
  | spawnReconnect =>
    cases hs
    exact ⟨t,rfl,0,h.1,by simpa using h.2,fun hN => by omega⟩
  | storeDisconnected =>
    cases hs
    exact ⟨t,rfl,trivial⟩
  | _ =>
    cases hs
    exact ⟨t,rfl,h⟩

theorem loopStep_follows {pc : LoopPc} {e : Effect LoopPc}
    (h : pc.Expects cfg.maxReconnectTries m.reconnectCount t)
    (hok : (∃ b, pc = .tryConnect b .onConnect) → ok = true)
    (hs : loopStep cfg m pc ok = some e) :
    Follows cfg t e.events ((loopDriver .gone (some e.pc)).next cfg e.spawn)
      (e.members.hold e.spawn) := by
  cases pc with
  | loadRun b =>
    cases hs
    refine ⟨t,rfl,?_⟩
    cases m.shouldRun
    · trivial
    · exact h
  | readCount b =>
    obtain ⟨k,rfl,hc,hN⟩ := h
    cases hs
    exact ⟨_,rfl,k,rfl,hc,hN⟩
  | writeCount b read =>
    obtain ⟨k,rfl,rfl,hN⟩ := h
    simp only [loopStep] at hs
    split at hs <;> cases hs
    exact ⟨_,rfl,k,rfl,rfl,hN⟩
  | checkLimit b =>
    obtain ⟨k,rfl,hc,hN⟩ := h
    cases hs
    refine ⟨_,rfl,?_⟩
    dsimp only
    split
    · next hlimit =>
      -- the count is one past the attempts made, so all `maxTries` of them have failed
      have hle := hN hlimit.1
      exact ⟨k,rfl,by omega,hlimit.1⟩
    · next hlimit =>
      refine ⟨k,rfl,hc,fun hpos => ?_⟩
      have hle := hN hpos
      omega
  | storeDisconnected =>
    cases hs
    exact ⟨t,rfl,h⟩
  | onDisconnect =>
    obtain ⟨k,rfl,hk,hN⟩ := h
    cases hs
    exact ⟨.ended,run_gaveUp hk hN,trivial⟩
  | onReconnect b =>
    obtain ⟨k,rfl,hc,hN⟩ := h
    cases hs
    refine ⟨.down (k+1) k,?_,k,rfl,hc,hN⟩
    rw [hc]
    exact run_reconnect k
  | sleep b =>
    cases hs
    exact ⟨t,rfl,h⟩
  | tryConnect b pc =>
    obtain ⟨k,rfl,hc,hN⟩ := h
    obtain ⟨e₀,he₀,rfl⟩ := Option.map_eq_some_iff.mp hs
    cases pc with
    | create =>
      cases he₀
      exact ⟨_,rfl,k,rfl,hc,hN⟩
    | connect =>
      obtain ⟨c,_,rfl⟩ := Option.map_eq_some_iff.mp he₀
      cases ok
      · exact ⟨_,rfl,k,rfl,hc,hN⟩
      · exact ⟨_,rfl,k,rfl,hc,hN⟩
    | onConnect =>
      -- `on_connect_` returns, so the connection is up
      obtain rfl := hok ⟨b,rfl⟩
      cases he₀
      exact ⟨.up,run_connect k,rfl⟩
    | reset =>
      cases he₀
      exact ⟨.down (k+1) (k+1),run_failed k,k+1,rfl,hc,hN⟩
  | scaleBackoff b =>
    obtain ⟨b',_,rfl⟩ := Option.map_eq_some_iff.mp hs
    exact ⟨t,rfl,h⟩
  | storeConnected =>
    cases hs
    exact ⟨t,rfl,h⟩
  | resetCount =>
    -- the next outage counts from 1 again
    cases hs
    refine ⟨t,rfl,?_⟩
    cases cfg.heartbeatEnabled
    · exact ⟨h,rfl⟩
    · exact ⟨h,rfl⟩
  | checkHeartbeat =>
    cases hs
    refine ⟨t,rfl,?_⟩
    cases m.heartbeatThread
    · exact h
    · exact h
  | checkMonitor =>
    cases hs
    refine ⟨t,rfl,?_⟩
    cases m.monitorThread
    · exact h
    · trivial
  | ret =>
    cases hs
    exact ⟨t,rfl,trivial⟩
  | spawnHeartbeat =>
    cases hs
    exact ⟨t,rfl,h⟩
  | spawnMonitor =>
    cases hs
    exact ⟨t,rfl,h⟩

theorem monitorStep_follows {pc : MonitorPc} {e : Effect (Option MonitorPc)}
    (h : (Driver.thread pc).Expects cfg.maxReconnectTries m.reconnectCount t)
    (hok : (Driver.thread pc).atOnConnect = true → ok = true)
    (hs : monitorStep cfg m pc ok = some e) :
    Follows cfg t e.events ((monitorDriver e.pc).next cfg e.spawn) (e.members.hold e.spawn) := by
  cases pc with
  | reconnectLoop p =>
    by_cases hp : p = .ret
    · subst hp
      cases hs
      exact ⟨t,rfl,trivial⟩
    · rw [monitorStep_loop hp] at hs
      obtain ⟨e₀,he₀,rfl⟩ := Option.map_eq_some_iff.mp hs
      simp only [Effect.map,monitorDriver_loop]
      exact loopStep_follows h (by rintro ⟨b,rfl⟩; exact hok rfl) he₀
  | loadRun =>
    cases hs
    refine ⟨t,rfl,?_⟩
    cases m.shouldRun
    · trivial
    · exact h
  | recheckRun =>
    cases hs
    refine ⟨t,rfl,?_⟩
    cases m.shouldRun
    · trivial
    · exact h
  | readClient =>
    cases hs
    refine ⟨t,rfl,?_⟩
    cases m.client.isSome
    · exact h
    · exact h
  | isRunning =>
    obtain ⟨c,_,rfl⟩ := Option.map_eq_some_iff.mp hs
    refine ⟨t,rfl,?_⟩
    cases c.running
    · exact h
    · exact h
  | onDisconnect =>
    obtain ⟨rfl,hc⟩ := h
    cases hs
    exact ⟨.down 0 0,rfl,rfl,hc⟩
  | resetClient =>
    -- the outage has been reported, and the loop starts counting from here
    obtain ⟨rfl,hc⟩ := h
    cases hs
    refine ⟨_,rfl,?_⟩
    cases cfg.autoReconnect
    · exact ⟨rfl,hc⟩
    · exact ⟨0,rfl,by simpa using hc,fun hN => by simpa using Int.le_of_lt hN⟩
  | storeDisconnected =>
    cases hs
    exact ⟨t,rfl,trivial⟩
  | ret =>
    cases hs
    exact ⟨t,rfl,trivial⟩
  | sleep =>
    cases hs
    exact ⟨t,rfl,h⟩
  | storeReconnecting =>
    cases hs
    exact ⟨t,rfl,h⟩

/-- One step of the driver is a piece of the protocol. -/
theorem driver_follows {d d' : Driver} {m' : Members} {o : Option Handle}
    (h : d.Expects cfg.maxReconnectTries m.reconnectCount t)
    (hok : d.atOnConnect = true → ok = true) (hs : Driver.Step cfg ok d m es o d' m') :
    Follows cfg t es d' m' := by
  cases hs with
  | call => exact ⟨t,rfl,h⟩
  | start he => exact startStep_follows h (by rintro rfl; exact hok rfl) he
  | thread he => exact monitorStep_follows h hok he

/-- Every run of the manager is a run of the protocol. -/
theorem run_protocol {tr : List Event} (h : (manager cfg).RunWhere OnceReturning init tr s) :
    ∃ t, (protocol cfg.maxReconnectTries).run .first (signals tr) = some t ∧
      s.driver.Expects cfg.maxReconnectTries s.members.reconnectCount t := by
  refine (run_driver (Q := fun d ok => d.atOnConnect = true → ok = true)
    (I := fun tr d m => Follows cfg .first tr d m) ?_ ⟨.first,rfl,rfl,rfl⟩ ?_ ?_ h).2
  · rintro s a ⟨honce,hret⟩
    refine ⟨honce,fun d hd hat => ?_⟩
    rw [hd] at hret
    simpa [hat] using hret
  · rintro tr d m es m' ⟨t,ht,hd⟩ hr hq
    refine ⟨t,?_,?_⟩
    · rw [signals_append,hq.signals,List.append_nil]
      exact ht
    · rw [hr.count]
      exact hd
  · rintro tr d m ok es o d' m' ⟨t,ht,hd⟩ hok hs
    obtain ⟨u,hu,hd'⟩ := driver_follows hd hok hs
    refine ⟨u,?_,hd'⟩
    rw [signals_append,Automaton.run_append_of_eq _ ht]
    exact hu

theorem tryConnectStep_silent {pc : ConnectPc} {e : Effect (ConnectPc ⊕ Bool)} {attempt : ℤ}
    {backoffMs : UInt32} (h : tryConnectStep cfg m pc ok = some e) :
    .onReconnect attempt backoffMs ∉ e.events := by
  cases pc with
  | connect =>
    obtain ⟨c,_,rfl⟩ := Option.map_eq_some_iff.mp h
    cases ok <;> simp
  | _ =>
    cases h
    simp

/-- `on_reconnect` is called at one place. -/
theorem loopStep_onReconnect {pc : LoopPc} {e : Effect LoopPc} {attempt : ℤ} {backoffMs : UInt32}
    (h : loopStep cfg m pc ok = some e) (hm : .onReconnect attempt backoffMs ∈ e.events) :
    ∃ b, pc = .onReconnect b := by
  cases pc with
  | onReconnect b => exact ⟨b,rfl⟩
  | tryConnect b pc =>
    obtain ⟨e₀,he₀,rfl⟩ := Option.map_eq_some_iff.mp h
    exact absurd hm (tryConnectStep_silent he₀)
  | scaleBackoff b =>
    obtain ⟨b',_,rfl⟩ := Option.map_eq_some_iff.mp h
    cases hm
  | writeCount b count =>
    simp only [loopStep] at h
    split at h <;> cases h
    cases hm
  | _ =>
    cases h
    simp at hm

theorem driver_onReconnect {d d' : Driver} {m' : Members} {o : Option Handle} {attempt : ℤ}
    {backoffMs : UInt32} (hs : Driver.Step cfg ok d m es o d' m') (hm : .onReconnect attempt backoffMs ∈ es) :
    d.client? = some false := by
  cases hs with
  | call => cases hm
  | @start pc _ e he =>
    cases pc with
    | tryConnect pc =>
      obtain ⟨e₀,he₀,rfl⟩ := Option.map_eq_some_iff.mp he
      exact absurd hm (tryConnectStep_silent he₀)
    | _ =>
      cases he
      simp at hm
  | @thread pc _ e he =>
    cases pc with
    | reconnectLoop p =>
      by_cases hp : p = .ret
      · subst hp
        cases he
        cases hm
      · rw [monitorStep_loop hp] at he
        obtain ⟨e₀,he₀,rfl⟩ := Option.map_eq_some_iff.mp he
        obtain ⟨b,rfl⟩ := loopStep_onReconnect he₀ hm
        rfl
    | isRunning =>
      obtain ⟨c,_,rfl⟩ := Option.map_eq_some_iff.mp he
      cases hm
    | _ =>
      cases he
      simp at hm

/-- The callbacks of a managed connection: exactly one loss between two announced
connections; the attempts of an outage are announced as 1, 2, 3, ..., each after the failure of
the one before and while `client_` is null; giving up only after the failure of attempts 1 to
`max_reconnect_tries`, and nothing after it. -/
theorem callback_protocol (cfg : ConnectionConfig) {tr : List Event} {s : State}
    (h : (manager cfg).RunWhere OnceReturning init tr s) :
    (∀ pre mid post, signals tr = pre++.connect :: (mid++.connect :: post) → .connect ∉ mid →
        mid.count .lost = 1) ∧
      (∀ pre (attempt : ℤ) post, signals tr = pre++.reconnect attempt :: post →
        ∃ q k, OutageStart q ∧ attempt = (k : ℕ)+1 ∧ pre = q++rounds k) ∧
      (∀ pre post, signals tr = pre++.gaveUp :: post →
        post = [] ∧ 0 < cfg.maxReconnectTries ∧
          ∃ q k, OutageStart q ∧ cfg.maxReconnectTries = (k : ℕ) ∧ pre = q++rounds k) ∧
      ∀ a s' es attempt backoffMs, (manager cfg).step s a = some (s',es) →
        .onReconnect attempt backoffMs ∈ es → s.members.client = none := by
  obtain ⟨t,ht,_⟩ := run_protocol h
  refine ⟨fun pre mid post he hc => ?_,fun pre attempt post he => ?_,fun pre post he => ?_,?_⟩
  · rw [he] at ht
    exact protocol_between ht hc
  · rw [he] at ht
    exact protocol_reconnect ht
  · rw [he] at ht
    exact protocol_gaveUp ht
  · intro a s' es attempt backoffMs hs hm
    obtain ⟨hsolo,howned⟩ := run_owned (h.mono fun _ _ hp => hp.1)
    have ht := step_transition hs
    by_cases ha : a = .start
    · subst ha
      cases ht <;> cases hm
    · rcases hsolo.step_driver (fun he => absurd he ha) ht with hp | ⟨_,o,hd,_⟩
      · rcases hp.quiet _ hm with he | he | he <;> cases he
      · simpa using howned.client _ (driver_onReconnect hd hm)

/-- One attempt is allowed: the connection is lost, the attempt fails, the manager gives up. -/
theorem callback_protocol_gives_up :
    ∃ tr s, (manager { defaultConfig with maxReconnectTries := 1 }).RunWhere OnceReturning init
        tr s ∧ signals tr = [.connect,.lost,.reconnect 1,.failed,.gaveUp] ∧
      ∃ q k, OutageStart q ∧ (1 : ℤ) = (k : ℕ) ∧
        [.connect,.lost,.reconnect 1,.failed] = q++rounds k := by
  have hexec : ((manager { defaultConfig with maxReconnectTries := 1 }).execWhere OnceReturning init
      (System.schedule [(1,[.start]),(9,[.user true]),(1,[.loss]),(15,[.monitor true]),
        (9,[.monitor false])])).any
      (fun r => decide (signals r.2 = [.connect,.lost,.reconnect 1,.failed,.gaveUp])) = true := by
    decide +kernel
  obtain ⟨s,tr,hrun,hs⟩ := System.exists_run_of_exec hexec
  have hsig := of_decide_eq_true hs
  refine ⟨tr,s,hrun,hsig,?_⟩
  exact ((callback_protocol _ hrun).2.2.1 [.connect,.lost,.reconnect 1,.failed] [] hsig).2.2

end WsClient.Connection
