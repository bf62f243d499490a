import WsClient.Connection.Cycles

/-!
# The retry budget of an outage

`reconnect_count_` is a member: what an earlier cycle has left in it, a later outage starts from.
-/

namespace WsClient.Connection
open WsClient.Lib

/-- How an outage stands: no outage, `tried` attempts made and failed, an attempt announced, an
attempt made. -/
inductive Outage
  | calm
  | down (tried : ℕ)
  | announced (attempt : ℕ)
  | trying (attempt : ℕ)
  | gaveUp
  deriving DecidableEq, Repr

/-- An outage begins when `Reconnecting` is stored. It gets the attempts 1 to `maxTries`, each
announced and then made, and is given up after the last; the attempt of `start` belongs to none. -/
def budget (maxTries : ℤ) : Automaton Outage Event where
  next
    | _, .setState .reconnecting => some (.down 0)
    | _, .setState .connecting => some .calm
    | t, .setState .closing | t, .setState .closed | t, .onDisconnect .connectionLost
    | t, .slept _ | t, .ping => some t
    | .calm, .construct .. | .calm, .connectFailed | .calm, .onConnect
    | .calm, .setState .connected => some .calm
    | .down tried, .onReconnect attempt _ =>
      if attempt = tried+1 ∧ attempt ≤ maxTries then some (.announced (tried+1)) else none
    | .announced attempt, .construct .. => some (.trying attempt)
    | .trying attempt, .onConnect => some (.trying attempt)
    | .trying attempt, .connectFailed => some (.down attempt)
    | .trying _, .setState .connected => some .calm
    | .down tried, .setState .disconnected => if maxTries = tried then some .gaveUp else none
    | .gaveUp, .onDisconnect .maxRetriesExceeded => some .calm
    | _, _ => none

theorem budget_announce (maxTries attempt : ℤ) (tried : ℕ) (backoffMs : UInt32) :
    (budget maxTries).next (.down tried) (.onReconnect attempt backoffMs) =
      if attempt = tried+1 ∧ attempt ≤ maxTries then some (.announced (tried+1)) else none := rfl

theorem budget_giveUp (maxTries : ℤ) (tried : ℕ) :
    (budget maxTries).next (.down tried) (.setState .disconnected) =
      if maxTries = tried then some .gaveUp else none := rfl

/-- Runs of several cycles in which `start` hands over to the reconnect thread with
`reconnect_count_` at 0. -/
def HandsOverFresh (s : State) (a : Action) : Prop :=
  Cycles s a ∧ (a.position s = some (.start .spawnReconnect) → s.members.reconnectCount = 0)

instance : ∀ s a, Decidable (HandsOverFresh s a) := fun _ _ => inferInstanceAs (Decidable (_ ∧ _))

/-- Where the outage is while `start` stands at `pc`. -/
def StartPc.Owes (m : Members) (t : Outage) : StartPc → Prop
  | .storeRun | .storeConnecting => True
  | .spawnHeartbeat | .spawnMonitor => t = .calm ∧ m.reconnectCount = 0
  | .spawnReconnect => t = .down 0
  | .storeDisconnected => False
  | _ => t = .calm

/-- An outage ends early only when `should_run_` has become false. -/
def Members.Settles (m : Members) (t : Outage) : Prop := m.shouldRun = true → t = .calm

/-- Where the outage is while `reconnect_loop` stands at `pc`. -/
def LoopPc.Owes (maxTries : ℤ) (m : Members) (t : Outage) : LoopPc → Prop
  | .loadRun _ | .readCount _ | .scaleBackoff _ =>
    ∃ k : ℕ, t = .down k ∧ m.reconnectCount = k ∧ k ≤ maxTries
  | .writeCount _ read => ∃ k : ℕ, t = .down k ∧ read = k ∧ k ≤ maxTries
  | .checkLimit _ => ∃ k : ℕ, t = .down k ∧ m.reconnectCount = k+1 ∧ k ≤ maxTries
  | .storeDisconnected => ∃ k : ℕ, t = .down k ∧ maxTries = k
  | .onDisconnect => t = .gaveUp
  | .onReconnect _ => ∃ k : ℕ, t = .down k ∧ m.reconnectCount = k+1 ∧ k+1 ≤ maxTries
  | .sleep _ | .tryConnect _ .create =>
    ∃ k : ℕ, t = .announced k ∧ m.reconnectCount = k ∧ k ≤ maxTries
  | .tryConnect _ _ => ∃ k : ℕ, t = .trying k ∧ m.reconnectCount = k ∧ k ≤ maxTries
  | .storeConnected => ∃ k : ℕ, t = .trying k
  | .resetCount => t = .calm
  | .ret => m.Settles t
  | _ => t = .calm ∧ m.reconnectCount = 0

/-- Where the outage is, from where the driver stands. -/
def Driver.Owes (maxTries : ℤ) (m : Members) (t : Outage) : Driver → Prop
  | .fresh => t = .calm
  | .start pc => pc.Owes m t
  | .thread (.reconnectLoop pc) => pc.Owes maxTries m t
  | .thread .onDisconnect | .thread .resetClient => t = .down 0 ∧ m.reconnectCount = 0
  | .thread .storeDisconnected => False
  | .thread .ret | .gone => m.Settles t
  | .thread _ => t = .calm ∧ m.reconnectCount = 0

variable {cfg : ConnectionConfig} {m : Members} {ok : Bool} {s s' : State} {a : Action}
  {es : List Event} {t : Outage}

/-- The events of a step of the driver, accepted from `t` to where the driver then stands. -/
def Spends (cfg : ConnectionConfig) (t : Outage) (es : List Event) (d : Driver) (m : Members) :
    Prop :=
  ∃ u, (budget cfg.maxReconnectTries).run t es = some u ∧ d.Owes cfg.maxReconnectTries m u

/-- The other threads leave the books of the outage alone. -/
theorem Driver.Owes.rely {d : Driver} {maxTries : ℤ} {m' : Members} (h : d.Owes maxTries m t)
    (hr : Rely m m') (hrun : m'.shouldRun = true → m.shouldRun = true) : d.Owes maxTries m' t := by
  have hc := hr.count
  cases d with
  | fresh => exact h
  | gone => exact fun hgo => h (hrun hgo)
  | start pc => cases pc <;> simp_all [Driver.Owes,StartPc.Owes]
  | thread pc =>
    cases pc with
    | reconnectLoop pc =>
      cases pc with
      | ret => exact fun hgo => h (hrun hgo)
      | loadRun b | readCount b | scaleBackoff b | checkLimit b | onReconnect b | sleep b =>
        obtain ⟨k,ht,hk,hle⟩ := h
        exact ⟨k,ht,hc.trans hk,hle⟩
      | tryConnect b pc =>
        cases pc
        all_goals
          obtain ⟨k,ht,hk,hle⟩ := h
          exact ⟨k,ht,hc.trans hk,hle⟩
      | checkHeartbeat | spawnHeartbeat | checkMonitor | spawnMonitor =>
        exact ⟨h.1,hc.trans h.2⟩
      | _ => exact h
    | ret => exact fun hgo => h (hrun hgo)
    | _ => simp_all [Driver.Owes]

theorem startStep_spends {pc : StartPc} {e : Effect UserPc} (hauto : cfg.autoReconnect = true)
    (hN : 0 < cfg.maxReconnectTries) (h : pc.Owes m t)
    (hfresh : pc = .spawnReconnect → m.reconnectCount = 0) (hs : startStep cfg m pc ok = some e) :
    Spends cfg t e.events ((e.pc.driver .gone).next cfg e.spawn) (e.members.hold e.spawn) := by
  cases pc with
  | tryConnect pc =>
    obtain rfl : t = .calm := h
    obtain ⟨e₀,he₀,rfl⟩ := Option.map_eq_some_iff.mp hs
    cases pc with
    | create =>
      cases he₀
      exact ⟨.calm,rfl,rfl⟩
    | connect =>
      obtain ⟨c,_,rfl⟩ := Option.map_eq_some_iff.mp he₀
      cases ok <;> exact ⟨.calm,rfl,rfl⟩
    | onConnect =>
      cases he₀
      cases ok <;> exact ⟨.calm,rfl,rfl⟩
    | reset =>
      cases he₀
      refine ⟨.calm,rfl,?_⟩
      simp only [Effect.map,hauto,if_true]
      rfl
  | storeRun =>
    cases hs
    exact ⟨t,rfl,trivial⟩
  | storeConnecting =>
    cases hs
    refine ⟨.calm,?_,rfl⟩
    cases t <;> rfl
  | storeConnected =>
    obtain rfl : t = .calm := h
    cases hs
    exact ⟨.calm,rfl,rfl⟩
  | resetCount =>
    obtain rfl : t = .calm := h
    cases hs
    refine ⟨.calm,rfl,?_⟩
    cases cfg.heartbeatEnabled <;> exact ⟨rfl,rfl⟩
  | storeReconnecting =>
    -- the outage begins with no attempt spent
    obtain rfl : t = .calm := h
    cases hs
    exact ⟨.down 0,rfl,rfl⟩
  | spawnReconnect =>
    obtain rfl : t = .down 0 := h
    cases hs
    exact ⟨.down 0,rfl,0,rfl,hfresh rfl,Int.le_of_lt hN⟩
  | storeDisconnected => exact absurd h id
  | spawnHeartbeat =>
    cases hs
    exact ⟨t,rfl,h⟩
  | spawnMonitor =>
    cases hs
    exact ⟨t,rfl,h⟩

theorem loopStep_spends {pc : LoopPc} {e : Effect LoopPc} (hN : 0 < cfg.maxReconnectTries)
    (h : pc.Owes cfg.maxReconnectTries m t) (hs : loopStep cfg m pc ok = some e) :
    Spends cfg t e.events ((loopDriver .gone (some e.pc)).next cfg e.spawn)
      (e.members.hold e.spawn) := by
  cases pc with
  | loadRun b =>
    cases hs
    refine ⟨t,rfl,?_⟩
    cases hrun : m.shouldRun
    · intro hgo
      exact absurd (hrun.symm.trans hgo) (by simp)
    · exact h
  | readCount b =>
    obtain ⟨k,rfl,hc,hk⟩ := h
    cases hs
    exact ⟨_,rfl,k,rfl,hc,hk⟩
  | writeCount b read =>
    obtain ⟨k,rfl,rfl,hk⟩ := h
    simp only [loopStep] at hs
    split at hs <;> cases hs
    exact ⟨_,rfl,k,rfl,rfl,hk⟩
  | checkLimit b =>
    obtain ⟨k,rfl,hc,hk⟩ := h
    cases hs
    refine ⟨_,rfl,?_⟩
    dsimp only
    split
    · next hlimit => exact ⟨k,rfl,by omega⟩
    · next hlimit => exact ⟨k,rfl,hc,by omega⟩
  | storeDisconnected =>
    -- only a budget that is spent lets the loop give up
    obtain ⟨k,rfl,hk⟩ := h
    cases hs
    refine ⟨.gaveUp,?_,rfl⟩
    rw [Automaton.run_cons,budget_giveUp,if_pos hk]
    rfl
  | onDisconnect =>
    obtain rfl : t = .gaveUp := h
    cases hs
    exact ⟨.calm,rfl,fun _ => rfl⟩
  | onReconnect b =>
    obtain ⟨k,rfl,hc,hk⟩ := h
    cases hs
    refine ⟨.announced (k+1),?_,k+1,rfl,by push_cast; exact hc,by push_cast; exact hk⟩
    rw [Automaton.run_cons,budget_announce,if_pos ⟨hc,hc.trans_le hk⟩]
    rfl
  | sleep b =>
    cases hs
    exact ⟨t,by cases t <;> rfl,h⟩
  | tryConnect b pc =>
    obtain ⟨e₀,he₀,rfl⟩ := Option.map_eq_some_iff.mp hs
    cases pc with
    | create =>
      obtain ⟨k,rfl,hc,hk⟩ := h
      cases he₀
      exact ⟨.trying k,rfl,k,rfl,hc,hk⟩
    | connect =>
      obtain ⟨k,rfl,hc,hk⟩ := h
      obtain ⟨c,_,rfl⟩ := Option.map_eq_some_iff.mp he₀
      cases ok <;> exact ⟨.trying k,rfl,k,rfl,hc,hk⟩
    | onConnect =>
      obtain ⟨k,rfl,hc,hk⟩ := h
      cases he₀
      cases ok
      · exact ⟨.trying k,rfl,k,rfl,hc,hk⟩
      · exact ⟨.trying k,rfl,k,rfl⟩
    | reset =>
      -- the attempt is spent, and the outage goes on
      obtain ⟨k,rfl,hc,hk⟩ := h
      cases he₀
      exact ⟨.down k,rfl,k,rfl,hc,hk⟩
  | scaleBackoff b =>
    obtain ⟨b',_,rfl⟩ := Option.map_eq_some_iff.mp hs
    exact ⟨t,rfl,h⟩
  | storeConnected =>
    obtain ⟨k,rfl⟩ := h
    cases hs
    exact ⟨.calm,rfl,rfl⟩
  | resetCount =>
    -- the next outage of the cycle starts from 0
    obtain rfl : t = .calm := h
    cases hs
    refine ⟨.calm,rfl,?_⟩
    cases cfg.heartbeatEnabled <;> exact ⟨rfl,rfl⟩
  | checkHeartbeat =>
    cases hs
    refine ⟨t,rfl,?_⟩
    cases m.heartbeatThread <;> exact h
  | checkMonitor =>
    cases hs
    refine ⟨t,rfl,?_⟩
    cases m.monitorThread
    · exact h
    · exact fun _ => h.1
  | spawnHeartbeat =>
    cases hs
    exact ⟨t,rfl,h⟩
  | spawnMonitor =>
    cases hs
    exact ⟨t,rfl,h⟩
  | ret =>
    cases hs
    exact ⟨t,rfl,h⟩

theorem monitorStep_spends {pc : MonitorPc} {e : Effect (Option MonitorPc)}
    (hauto : cfg.autoReconnect = true) (hN : 0 < cfg.maxReconnectTries)
    (h : (Driver.thread pc).Owes cfg.maxReconnectTries m t)
    (hs : monitorStep cfg m pc ok = some e) :
    Spends cfg t e.events ((monitorDriver e.pc).next cfg e.spawn) (e.members.hold e.spawn) := by
  cases pc with
  | reconnectLoop p =>
    by_cases hp : p = .ret
    · subst hp
      cases hs
      exact ⟨t,rfl,h⟩
    · rw [monitorStep_loop hp] at hs
      obtain ⟨e₀,he₀,rfl⟩ := Option.map_eq_some_iff.mp hs
      simp only [Effect.map,monitorDriver_loop]
      exact loopStep_spends hN h he₀
  | loadRun =>
    cases hs
    refine ⟨t,rfl,?_⟩
    cases m.shouldRun
    · exact fun _ => h.1
    · exact h
  | recheckRun =>
    cases hs
    refine ⟨t,rfl,?_⟩
    cases m.shouldRun
    · exact fun _ => h.1
    · exact h
  | readClient =>
    cases hs
    refine ⟨t,rfl,?_⟩
    cases m.client.isSome <;> exact h
  | isRunning =>
    obtain ⟨c,_,rfl⟩ := Option.map_eq_some_iff.mp hs
    refine ⟨t,rfl,?_⟩
    cases c.running <;> exact h
  | storeReconnecting =>
    obtain ⟨rfl,hc⟩ := h
    cases hs
    exact ⟨.down 0,rfl,rfl,hc⟩
  | onDisconnect =>
    obtain ⟨rfl,hc⟩ := h
    cases hs
    exact ⟨.down 0,rfl,rfl,hc⟩
  | resetClient =>
    obtain ⟨rfl,hc⟩ := h
    cases hs
    refine ⟨.down 0,rfl,?_⟩
    rw [hauto]
    exact ⟨0,rfl,hc,Int.le_of_lt hN⟩
  | storeDisconnected => exact absurd h id
  | ret =>
    cases hs
    exact ⟨t,rfl,h⟩
  | sleep =>
    cases hs
    exact ⟨t,rfl,h⟩

/-- One step of the driver spends from the budget as it should. -/
theorem driver_spends {d d' : Driver} {m' : Members} {o : Option Handle}
    (hauto : cfg.autoReconnect = true) (hN : 0 < cfg.maxReconnectTries)
    (h : d.Owes cfg.maxReconnectTries m t)
    (hfresh : d = .start .spawnReconnect → m.reconnectCount = 0)
    (hs : Driver.Step cfg ok d m es o d' m') : Spends cfg t es d' m' := by
  cases hs with
  | call => exact ⟨t,rfl,trivial⟩
  | start he => exact startStep_spends hauto hN h (by rintro rfl; exact hfresh rfl) he
  | thread he => exact monitorStep_spends hauto hN h he

theorem Quiet.spends (h : Quiet es) : (budget cfg.maxReconnectTries).run t es = some t := by
  induction es with
  | nil => rfl
  | cons e es ih =>
    have hrest : Quiet es := fun e he => h e (List.mem_cons_of_mem _ he)
    have hfirst : (budget cfg.maxReconnectTries).next t e = some t := by
      rcases h e (List.mem_cons_self ..) with rfl | rfl | rfl <;> cases t <;> rfl
    rw [Automaton.run_cons,hfirst]
    exact ih hrest

/-- With a fresh count at every hand-over, every run of several cycles keeps to the budget. -/
theorem run_budget {tr : List Event} (hauto : cfg.autoReconnect = true)
    (hN : 0 < cfg.maxReconnectTries)
    (h : (manager cfg).RunWhere HandsOverFresh init tr s) :
    Spends cfg .calm tr s.driver s.members := by
  refine (run_cycles (Q := fun d m => d = .start .spawnReconnect → m.reconnectCount = 0)
    (I := fun tr d m => Spends cfg .calm tr d m) ?_ ⟨.calm,rfl,rfl⟩ ?_ ?_ ?_ h).2
  · rintro s a ⟨hcycles,hfresh⟩
    exact ⟨hcycles,fun d hd hpc => hfresh (hpc ▸ hd)⟩
  · rintro tr m ⟨t,ht,_⟩
    exact ⟨t,ht,trivial⟩
  · rintro tr d m es m' ⟨t,ht,hd⟩ hrely hrun hquiet
    refine ⟨t,?_,hd.rely hrely hrun⟩
    rw [Automaton.run_append_of_eq _ ht]
    exact hquiet.spends
  · rintro tr d m ok es o d' m' ⟨t,ht,hd⟩ hfresh hs
    obtain ⟨u,hu,hd'⟩ := driver_spends hauto hN hd hfresh hs
    refine ⟨u,?_,hd'⟩
    rw [Automaton.run_append_of_eq _ ht]
    exact hu

/-! ## What the budget says -/

def Event.attempt? : Event → Option ℤ
  | .onReconnect attempt _ => some attempt
  | _ => none

def Event.isConstruct : Event → Bool
  | .construct .. => true
  | _ => false

/-- The numbers of the attempts announced, in order. -/
def attempts (es : List Event) : List ℤ := es.filterMap Event.attempt?

/-- The calls of `try_connect`. -/
def calls (es : List Event) : ℕ := es.countP Event.isConstruct

/-- The trace ends in an outage, `es` of it so far. -/
def InOutage (tr es : List Event) : Prop :=
  ∃ q, tr = q++.setState .reconnecting :: es ∧ .setState .reconnecting ∉ es

/-- The numbers 1 to `k`. -/
def upTo (k : ℕ) : List ℤ := (List.range k).map fun i => (i : ℤ)+1

theorem upTo_succ (k : ℕ) : upTo (k+1) = upTo k++[(k : ℤ)+1] := by
  simp [upTo,List.range_succ]

/-- The events that lead to a point of an outage. -/
def Outage.Shape (maxTries : ℤ) (tr : List Event) : Outage → Prop
  | .calm => True
  | .down k => ∃ es, InOutage tr es ∧ attempts es = upTo k ∧ calls es = k
  | .announced k => ∃ es, InOutage tr es ∧ attempts es = upTo k ∧ calls es+1 = k
  | .trying k => ∃ es, InOutage tr es ∧ attempts es = upTo k ∧ calls es = k
  | .gaveUp => ∃ es k, InOutage tr es ∧ attempts es = upTo k ∧ calls es = k ∧ maxTries = (k : ℕ)

variable {tr : List Event} {e : Event} {maxTries : ℤ} {u : Outage}

theorem InOutage.append (h : InOutage tr es) (he : e ≠ .setState .reconnecting) :
    InOutage (tr++[e]) (es++[e]) := by
  obtain ⟨q,rfl,hnot⟩ := h
  refine ⟨q,by simp,?_⟩
  rw [List.mem_append,not_or,List.mem_singleton]
  exact ⟨hnot,fun heq => he heq.symm⟩

theorem attempts_append (es fs : List Event) : attempts (es++fs) = attempts es++attempts fs :=
  List.filterMap_append

theorem calls_append (es fs : List Event) : calls (es++fs) = calls es+calls fs := List.countP_append

/-- An event that is neither an announcement nor an attempt. -/
theorem Outage.Shape.keep (h : t.Shape maxTries tr) (ha : attempts [e] = [])
    (hc : calls [e] = 0) (he : e ≠ .setState .reconnecting) : t.Shape maxTries (tr++[e]) := by
  cases t with
  | calm => trivial
  | gaveUp =>
    obtain ⟨es,k,hes,hattempts,hcalls,hk⟩ := h
    refine ⟨es++[e],k,hes.append he,?_,?_,hk⟩
    · rw [attempts_append,ha,List.append_nil,hattempts]
    · rw [calls_append,hc,Nat.add_zero,hcalls]
  | _ =>
    obtain ⟨es,hes,hattempts,hcalls⟩ := h
    refine ⟨es++[e],hes.append he,?_,?_⟩
    · rw [attempts_append,ha,List.append_nil,hattempts]
    · rw [calls_append,hc,Nat.add_zero,hcalls]

theorem Outage.Shape.step (h : t.Shape maxTries tr) (hs : (budget maxTries).next t e = some u) :
    u.Shape maxTries (tr++[e]) := by
  cases e with
  | setState state =>
    cases state with
    | reconnecting =>
      -- a new outage: its trace starts here
      have hu : u = .down 0 := by cases t <;> cases hs <;> rfl
      subst hu
      exact ⟨[],⟨tr,rfl,by simp⟩,rfl,rfl⟩
    | connecting =>
      have hu : u = .calm := by cases t <;> cases hs <;> rfl
      subst hu
      trivial
    | connected =>
      have hu : u = .calm := by cases t <;> cases hs <;> rfl
      subst hu
      trivial
    | disconnected =>
      cases t with
      | down k =>
        rw [budget_giveUp] at hs
        split at hs <;> cases hs
        next hk =>
          obtain ⟨es,hes,hattempts,hcalls⟩ := h.keep (e := .setState .disconnected) rfl rfl (by simp)
          exact ⟨es,k,hes,hattempts,hcalls,hk⟩
      | _ => cases hs
    | _ =>
      have hu : u = t := by cases t <;> cases hs <;> rfl
      subst hu
      exact h.keep rfl rfl (by simp)
  | onReconnect attempt backoffMs =>
    cases t with
    | down k =>
      rw [budget_announce] at hs
      split at hs <;> cases hs
      next hk =>
        obtain ⟨rfl,_⟩ := hk
        obtain ⟨es,hes,hattempts,hcalls⟩ := h
        refine ⟨es++[.onReconnect (k+1) backoffMs],hes.append (by simp),?_,?_⟩
        · rw [attempts_append,hattempts,upTo_succ]
          rfl
        · rw [calls_append,hcalls]
          rfl
    | _ => cases hs
  | construct host port config =>
    cases t with
    | calm =>
      cases hs
      trivial
    | announced k =>
      cases hs
      obtain ⟨es,hes,hattempts,hcalls⟩ := h
      refine ⟨es++[.construct host port config],hes.append (by simp),?_,?_⟩
      · rw [attempts_append,hattempts]
        exact List.append_nil _
      · rw [calls_append,← hcalls]
        rfl
    | _ => cases hs
  | connectFailed =>
    cases t with
    | calm =>
      cases hs
      trivial
    | trying k =>
      cases hs
      exact Outage.Shape.keep (t := .down k) h rfl rfl (by simp)
    | _ => cases hs
  | onConnect =>
    have hu : u = t := by cases t <;> cases hs <;> rfl
    subst hu
    exact h.keep rfl rfl (by simp)
  | onDisconnect reason =>
    cases reason with
    | connectionLost =>
      have hu : u = t := by cases t <;> cases hs <;> rfl
      subst hu
      exact h.keep rfl rfl (by simp)
    | maxRetriesExceeded =>
      cases t with
      | gaveUp =>
        cases hs
        trivial
      | _ => cases hs
  | _ =>
    have hu : u = t := by cases t <;> cases hs <;> rfl
    subst hu
    exact h.keep rfl rfl (by simp)

theorem budget_shape (h : (budget maxTries).run .calm tr = some t) : t.Shape maxTries tr :=
  (budget maxTries).run_invariant (S := fun tr t => t.Shape maxTries tr) (t := .calm) trivial
    (fun _ _ _ _ h hs => h.step hs) h

/-- An outage is over: reconnected, given up, or the manager started anew. -/
def Event.endsOutage : Event → Bool
  | .setState .connected | .setState .connecting | .onDisconnect .maxRetriesExceeded => true
  | _ => false

theorem budget_open (h : (budget maxTries).run t es = some u) (ht : t ≠ .calm)
    (hes : ∀ e ∈ es, e.endsOutage = false) : u ≠ .calm := by
  induction es generalizing t with
  | nil =>
    cases h
    exact ht
  | cons e es ih =>
    obtain ⟨v,hv,h⟩ := Option.bind_eq_some_iff.mp h
    refine ih h ?_ fun e he => hes e (List.mem_cons_of_mem _ he)
    rintro rfl
    have hends := hes e (List.mem_cons_self ..)
    cases e with
    | setState state =>
      cases state with
      | connected => cases hends
      | connecting => cases hends
      | disconnected =>
        cases t with
        | down k =>
          rw [budget_giveUp] at hv
          split at hv <;> cases hv
        | _ => cases hv
      | _ => cases t <;> first | exact ht rfl | cases hv
    | onDisconnect reason =>
      cases reason with
      | maxRetriesExceeded => cases hends
      | connectionLost => cases t <;> first | exact ht rfl | cases hv
    | onReconnect attempt backoffMs =>
      cases t with
      | down k =>
        rw [budget_announce] at hv
        split at hv <;> cases hv
      | _ => cases hv
    | _ => cases t <;> first | exact ht rfl | cases hv

/-- Every outage gets its full budget, if `reconnect_count_` is 0 whenever `start` hands over to the
reconnect thread: the attempts of an outage are numbered from 1, at most `max_reconnect_tries`, and
each is announced after the calls of `try_connect` for those before it; the manager gives up after
exactly `max_reconnect_tries` calls; and until then, as long as `should_run_` is true, the thread
that makes the attempts does not end. -/
theorem outage_budget (cfg : ConnectionConfig) (hauto : cfg.autoReconnect = true)
    (hN : 0 < cfg.maxReconnectTries) {tr : List Event} {s : State}
    (h : (manager cfg).RunWhere HandsOverFresh init tr s) :
    (∀ pre (attempt : ℤ) backoffMs post, tr = pre++.onReconnect attempt backoffMs :: post →
        ∃ es, InOutage pre es ∧ attempts es = upTo (calls es) ∧ attempt = calls es+1 ∧
          attempt ≤ cfg.maxReconnectTries) ∧
      (∀ pre post, tr = pre++.onDisconnect .maxRetriesExceeded :: post →
        ∃ es, InOutage pre es ∧ attempts es = upTo (calls es) ∧
          calls es = cfg.maxReconnectTries) ∧
      ∀ es, InOutage tr es → (∀ e ∈ es, e.endsOutage = false) → s.members.shouldRun = true →
        s.driver ≠ .gone := by
  obtain ⟨t,ht,howes⟩ := run_budget hauto hN h
  refine ⟨?_,?_,?_⟩
  · rintro pre attempt backoffMs post rfl
    obtain ⟨v,w,hv,hw,_⟩ := (budget cfg.maxReconnectTries).run_cut ht
    have hshape := budget_shape hv
    cases v with
    | down k =>
      rw [budget_announce] at hw
      split at hw
      · next hk =>
        obtain ⟨es,hes,hattempts,hcalls⟩ := hshape
        refine ⟨es,hes,?_,?_,hk.2⟩
        · rw [hcalls]
          exact hattempts
        · rw [hcalls]
          exact hk.1
      · cases hw
    | _ => cases hw
  · rintro pre post rfl
    obtain ⟨v,w,hv,hw,_⟩ := (budget cfg.maxReconnectTries).run_cut ht
    have hshape := budget_shape hv
    cases v with
    | gaveUp =>
      obtain ⟨es,k,hes,hattempts,hcalls,hk⟩ := hshape
      refine ⟨es,hes,?_,?_⟩
      · rw [hcalls]
        exact hattempts
      · rw [hcalls]
        exact hk.symm
    | _ => cases hw
  · rintro es ⟨q,rfl,_⟩ hes hgo hgone
    obtain ⟨v,w,_,hw,hrun⟩ := (budget cfg.maxReconnectTries).run_cut ht
    have hw' : w = .down 0 := by cases v <;> cases hw <;> rfl
    subst hw'
    rw [hgone] at howes
    exact budget_open hrun (by simp) hes (howes hgo)

/-- One attempt is allowed in an outage. -/
def oneTry : ConnectionConfig := { host := "localhost", port := "8765", maxReconnectTries := 1 }

/-- An outage ends in a reconnect; in the next cycle the one attempt fails. -/
theorem outage_budget_two_cycles :
    ∃ pre s, (manager oneTry).RunWhere HandsOverFresh init
        (pre++[.onDisconnect .maxRetriesExceeded]) s ∧
      ∃ es, InOutage pre es ∧ attempts es = upTo (calls es) ∧ calls es = (1 : ℤ) := by
  have hexec : ((manager oneTry).execWhere HandsOverFresh init
      (System.schedule [(1,[.start]),(3,[.user true]),(1,[.user false]),(3,[.user true]),
        (16,[.reconnect true]),(1,[.stop]),(7,[.user true]),(2,[.heartbeat true]),
        (2,[.monitor true]),(6,[.user true]),(1,[.start]),(3,[.user true]),(1,[.user false]),
        (3,[.user true]),(7,[.reconnect true]),(1,[.reconnect false]),(8,[.reconnect true])])).any
      (fun r => decide (r.2 = r.2.dropLast++[.onDisconnect .maxRetriesExceeded])) = true := by
    decide +kernel
  obtain ⟨s,tr,hrun,hs⟩ := System.exists_run_of_exec hexec
  have htr := of_decide_eq_true hs
  refine ⟨tr.dropLast,s,htr ▸ hrun,?_⟩
  exact (outage_budget oneTry rfl (by decide) hrun).2.1 tr.dropLast [] htr

/-- The part of a trace after `Reconnecting` was last stored. -/
def lastOutage (tr : List Event) : List Event :=
  (tr.reverse.takeWhile (· != .setState .reconnecting)).reverse

theorem InOutage.eq_lastOutage (h : InOutage tr es) : es = lastOutage tr := by
  obtain ⟨q,rfl,hnot⟩ := h
  have hall : ∀ e ∈ es.reverse, (e != .setState .reconnecting) = true := by
    intro e he
    rw [bne_iff_ne]
    rintro rfl
    exact hnot (List.mem_reverse.mp he)
  rw [lastOutage,List.reverse_append,List.reverse_cons,List.append_assoc,
    List.takeWhile_append_of_pos hall]
  simp

/-- The first cycle uses up the one attempt and is stopped; in the second the manager gives up
without any. -/
theorem second_outage_gets_nothing :
    ¬∀ cfg tr s, cfg.autoReconnect = true → 0 < cfg.maxReconnectTries →
      (manager cfg).RunWhere Cycles init tr s →
      ∀ pre post, tr = pre++.onDisconnect .maxRetriesExceeded :: post →
        ∃ es, InOutage pre es ∧ calls es = cfg.maxReconnectTries := by
  intro hall
  have hexec : ((manager oneTry).execWhere Cycles init
      (System.schedule [(1,[.start]),(3,[.user true]),(1,[.user false]),(3,[.user true]),
        (7,[.reconnect true]),(1,[.reconnect false]),(9,[.reconnect true]),(1,[.stop]),
        (9,[.user true]),(1,[.start]),(3,[.user true]),(1,[.user false]),(3,[.user true]),
        (6,[.reconnect true])])).any
      (fun r => decide (r.2 = r.2.dropLast++[.onDisconnect .maxRetriesExceeded] ∧
        calls (lastOutage r.2.dropLast) = 0)) = true := by
    decide +kernel
  obtain ⟨s,tr,hrun,hs⟩ := System.exists_run_of_exec hexec
  obtain ⟨htr,hcalls⟩ : tr = tr.dropLast++[.onDisconnect .maxRetriesExceeded] ∧
    calls (lastOutage tr.dropLast) = 0 := of_decide_eq_true hs
  obtain ⟨es,hes,hone⟩ := hall oneTry tr s rfl (by decide) hrun tr.dropLast [] htr
  rw [hes.eq_lastOutage,hcalls] at hone
  cases hone

end WsClient.Connection
