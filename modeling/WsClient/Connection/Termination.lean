import WsClient.Connection.Shutdown
import WsClient.Connection.Supervision

/-!
# `stop` returns

Once `stop` has stored `false` into `should_run_`, every thread of the manager is on its way out:
each has a bounded number of steps left, a thread it may still spawn included, and a join waits
only for a thread that has a step to take.
-/

namespace WsClient.Connection
open WsClient.Lib

/-- A step of the manager's own; a receiver thread ends by itself. -/
def Action.own : Action → Bool
  | .loss => false
  | _ => true

/-- `stop` has stored `false` into `should_run_`. -/
def UserPc.hasCleared : UserPc → Bool
  | .stop .loadRun | .stop .storeClosing | .stop .clearRun => false
  | .stop _ | .stopped => true
  | _ => false

/-- The steps `heartbeat_loop` has left at most once `should_run_` is `false`, its return
included. -/
def HeartbeatPc.left : HeartbeatPc → ℕ
  | .ret => 1
  | .loadRun | .recheckRun => 2
  | .sleep | .sendPing => 3
  | .loadState | .isRunning => 4
  | .readClient => 5

/-- The steps `reconnect_loop` and the threads it spawns have left at most. -/
def LoopPc.left : LoopPc → ℕ
  | .ret => 1
  | .loadRun _ | .onDisconnect => 2
  | .scaleBackoff _ | .storeDisconnected => 3
  | .tryConnect _ .reset | .spawnMonitor => 4
  | .checkMonitor => 5
  | .spawnHeartbeat => 8
  | .checkHeartbeat => 9
  | .resetCount => 10
  | .storeConnected => 11
  | .tryConnect _ .onConnect => 12
  | .tryConnect _ .connect => 13
  | .tryConnect _ .create => 14
  | .sleep _ => 15
  | .onReconnect _ => 16
  | .checkLimit _ => 17
  | .writeCount _ _ => 18
  | .readCount _ => 19

/-- The steps `monitor_loop` has left at most. -/
def MonitorPc.left : MonitorPc → ℕ
  | .ret => 1
  | .loadRun | .recheckRun | .storeDisconnected => 2
  | .sleep | .resetClient => 3
  | .onDisconnect => 4
  | .storeReconnecting => 5
  | .isRunning => 6
  | .readClient => 7
  | .reconnectLoop pc => pc.left

/-- The steps `stop` has left at most. -/
def UserPc.left : UserPc → ℕ
  | .stop .storeClosed => 1
  | .stop .joinReconnect => 2
  | .stop .checkReconnect => 3
  | .stop .joinMonitor => 4
  | .stop .checkMonitor => 5
  | .stop .joinHeartbeat => 6
  | .stop .checkHeartbeat => 7
  | .stop (.closing _) => 8
  | .stop .close => 9
  | .stop _ => 10
  | _ => 0

/-- The steps the four threads have left at most. -/
def State.pending (s : State) : ℕ :=
  s.user.left+(s.heartbeat.map HeartbeatPc.left).getD 0+
    (s.monitor.map MonitorPc.left).getD 0+(s.reconnect.map LoopPc.left).getD 0

/-- The steps the manager has left at most; after a fault there are none. -/
def State.left (s : State) : ℕ := if s.fault then 0 else s.pending

/-- No thread of the manager is alive and `stop` has returned. -/
def State.Silent (s : State) : Prop :=
  s.user = .stopped ∧ s.heartbeat = none ∧ s.monitor = none ∧ s.reconnect = none

instance : DecidablePred State.Silent := fun _ => inferInstanceAs (Decidable (_ ∧ _))

variable {cfg : ConnectionConfig} {m : Members} {ok : Bool} {s s' : State} {a : Action}
  {es : List Event}

/-- What a spawned thread may still do. -/
def spawnLeft : Option Handle → ℕ
  | none => 0
  | some .heartbeat => HeartbeatPc.loadRun.left
  | some .monitor => MonitorPc.loadRun.left
  | some .reconnect => 2

theorem loopStep_left {pc : LoopPc} {e : Effect LoopPc} (hrun : m.shouldRun = false)
    (hpc : pc ≠ .ret) (h : loopStep cfg m pc ok = some e) :
    e.pc.left+spawnLeft e.spawn+1 ≤ pc.left := by
  cases pc with
  | loadRun b =>
    cases h
    simp [hrun,LoopPc.left,spawnLeft]
  | writeCount b count =>
    simp only [loopStep] at h
    split at h <;> cases h
    exact Nat.le_refl _
  | checkLimit b =>
    cases h
    dsimp only
    split <;> simp [LoopPc.left,spawnLeft]
  | tryConnect b pc =>
    obtain ⟨e₀,he₀,rfl⟩ := Option.map_eq_some_iff.mp h
    cases pc with
    | connect =>
      obtain ⟨c,_,rfl⟩ := Option.map_eq_some_iff.mp he₀
      cases ok <;> simp [Effect.map,LoopPc.left,spawnLeft]
    | onConnect =>
      cases he₀
      cases ok <;> simp [Effect.map,LoopPc.left,spawnLeft]
    | _ =>
      cases he₀
      simp [Effect.map,LoopPc.left,spawnLeft]
  | scaleBackoff b =>
    obtain ⟨b',_,rfl⟩ := Option.map_eq_some_iff.mp h
    exact Nat.le_refl _
  | resetCount =>
    cases h
    dsimp only
    split <;> simp [LoopPc.left,spawnLeft]
  | checkHeartbeat =>
    cases h
    dsimp only
    split <;> simp [LoopPc.left,spawnLeft]
  | checkMonitor =>
    cases h
    dsimp only
    split <;> simp [LoopPc.left,spawnLeft]
  | ret => exact absurd rfl hpc
  | _ =>
    cases h
    simp [LoopPc.left,spawnLeft,HeartbeatPc.left,MonitorPc.left]

theorem monitorStep_left {pc : MonitorPc} {e : Effect (Option MonitorPc)}
    (hrun : m.shouldRun = false) (h : monitorStep cfg m pc ok = some e) :
    (e.pc.map MonitorPc.left).getD 0+spawnLeft e.spawn+1 ≤ pc.left := by
  cases pc with
  | reconnectLoop p =>
    by_cases hp : p = .ret
    · subst hp
      cases h
      exact Nat.le_refl _
    · rw [monitorStep_loop hp] at h
      obtain ⟨e₀,he₀,rfl⟩ := Option.map_eq_some_iff.mp h
      exact loopStep_left hrun hp he₀
  | isRunning =>
    obtain ⟨c,_,rfl⟩ := Option.map_eq_some_iff.mp h
    dsimp only
    split <;> simp [MonitorPc.left,spawnLeft]
  | readClient =>
    cases h
    dsimp only
    split <;> simp [MonitorPc.left,spawnLeft]
  | resetClient =>
    cases h
    dsimp only
    split <;> simp [MonitorPc.left,LoopPc.left,spawnLeft]
  | _ =>
    cases h
    simp [hrun,MonitorPc.left,spawnLeft]

theorem heartbeatStep_left {pc : HeartbeatPc} {e : Effect (Option HeartbeatPc)}
    (hrun : m.shouldRun = false) (h : heartbeatStep m pc ok = some e) :
    (e.pc.map HeartbeatPc.left).getD 0+1 ≤ pc.left := by
  cases pc with
  | isRunning =>
    obtain ⟨c,_,rfl⟩ := Option.map_eq_some_iff.mp h
    dsimp only
    split <;> simp [HeartbeatPc.left]
  | sendPing =>
    obtain ⟨c,_,rfl⟩ := Option.map_eq_some_iff.mp h
    cases ok <;> simp [HeartbeatPc.left]
  | loadState =>
    cases h
    dsimp only
    split <;> simp [HeartbeatPc.left]
  | readClient =>
    cases h
    dsimp only
    split <;> simp [HeartbeatPc.left]
  | _ =>
    cases h
    simp [hrun,HeartbeatPc.left]

theorem HeartbeatPc.left_pos (pc : HeartbeatPc) : 0 < pc.left := by
  cases pc <;> decide

theorem LoopPc.left_pos (pc : LoopPc) : 0 < pc.left := by
  cases pc with
  | tryConnect b pc => cases pc <;> exact Nat.succ_pos _
  | _ => exact Nat.succ_pos _

theorem MonitorPc.left_pos (pc : MonitorPc) : 0 < pc.left := by
  cases pc with
  | reconnectLoop pc => exact pc.left_pos
  | _ => exact Nat.succ_pos _

theorem spawn_left {o : Option Handle} (h : s.spawn cfg o = some s') :
    s'.pending = s.pending+spawnLeft o ∧ s'.fault = s.fault := by
  cases o with
  | none =>
    obtain rfl := spawn_none.mp h
    exact ⟨rfl,rfl⟩
  | some handle =>
    cases handle with
    | heartbeat =>
      obtain ⟨_,hfree,rfl⟩ := spawn_heartbeat h
      refine ⟨?_,rfl⟩
      simp only [State.pending,hfree,spawnLeft,Option.map_none,Option.map_some,Option.getD_none,
        Option.getD_some]
      omega
    | monitor =>
      obtain ⟨_,hfree,rfl⟩ := spawn_monitor h
      refine ⟨?_,rfl⟩
      simp only [State.pending,hfree,spawnLeft,Option.map_none,Option.map_some,Option.getD_none,
        Option.getD_some]
      omega
    | reconnect =>
      obtain ⟨_,hfree,rfl⟩ := spawn_reconnect h
      refine ⟨?_,rfl⟩
      simp only [State.pending,hfree,spawnLeft,Option.map_none,Option.map_some,Option.getD_none,
        Option.getD_some,LoopPc.left]

/-- `should_run_` is `false` for good. -/
structure Stopping (s : State) : Prop where
  cleared : s.user.hasCleared = true
  run : s.members.shouldRun = false

/-- A step that only brings the user thread on. -/
theorem left_of_user (hf : s.fault = false) (hf' : s'.fault = s.fault)
    (hb : s'.heartbeat = s.heartbeat) (hm : s'.monitor = s.monitor)
    (hr : s'.reconnect = s.reconnect) (hu : s'.user.left+1 ≤ s.user.left) :
    s'.left+1 ≤ s.pending := by
  simp only [State.left,State.pending,hf',hf,hb,hm,hr,Bool.false_eq_true,if_false]
  omega

/-- Each step of `stop` is one of at most ten. -/
theorem stopStep_left {pc : StopPc} (hc : UserPc.hasCleared (.stop pc) = true)
    (h : stopStep s pc = some (s',es)) (hu : s.user = .stop pc) (hf : s.fault = false) :
    s'.left+1 ≤ s.pending ∧ s'.user.hasCleared = true ∧
      s'.members.shouldRun = s.members.shouldRun := by
  have hleft : s.user.left = (UserPc.stop pc).left := by rw [hu]
  have hfault : s.user.left ≠ 0 → State.left { s with fault := true }+1 ≤ s.pending := by
    intro hne
    have hgone : State.left { s with fault := true } = 0 := by simp only [State.left,if_true]
    rw [hgone,State.pending]
    omega
  have hmove {t : State} (hf' : t.fault = s.fault) (hb : t.heartbeat = s.heartbeat)
      (hm : t.monitor = s.monitor) (hr : t.reconnect = s.reconnect)
      (hle : t.user.left+1 ≤ (UserPc.stop pc).left) : t.left+1 ≤ s.pending :=
    left_of_user hf hf' hb hm hr (by rw [hleft]; exact hle)
  cases pc with
  | loadRun => cases hc
  | storeClosing => cases hc
  | clearRun => cases hc
  | close =>
    simp only [stopStep] at h
    split at h <;> cases h
    · exact ⟨hfault (by rw [hleft]; decide),by rw [hu]; rfl,rfl⟩
    · exact ⟨hmove rfl rfl rfl rfl (Nat.le_refl _),rfl,rfl⟩
  | closing generation =>
    simp only [stopStep] at h
    split at h <;> cases h
    · exact ⟨hmove rfl rfl rfl rfl (Nat.le_refl _),rfl,rfl⟩
    · exact ⟨hfault (by rw [hleft]; exact Nat.succ_ne_zero 7),by rw [hu]; rfl,rfl⟩
  | readClient | checkHeartbeat | checkMonitor | checkReconnect =>
    cases h
    refine ⟨hmove rfl rfl rfl rfl ?_,?_,rfl⟩ <;> dsimp only <;> split <;> decide
  | storeClosed =>
    cases h
    exact ⟨hmove rfl rfl rfl rfl (Nat.le_refl _),rfl,rfl⟩
  | _ =>
    simp only [stopStep] at h
    split at h <;> cases h
    exact ⟨hmove rfl rfl rfl rfl (Nat.le_refl _),rfl,rfl⟩

theorem step_fault (hs : (manager cfg).step s a = some (s',es)) : s.fault = false := by
  cases hf : s.fault with
  | false => rfl
  | true => simp [manager,step,hf] at hs

/-- A thread with a step to take has one left. -/
theorem pending_pos (hc : s.user.hasCleared = true) (ho : Once s a) (hown : a.own = true)
    (hs : (manager cfg).step s a = some (s',es)) : 0 < s.pending := by
  have hf := step_fault hs
  simp only [manager,step,hf,Bool.false_eq_true,if_false] at hs
  cases a with
  | start =>
    rw [ho rfl] at hc
    cases hc
  | stop =>
    simp only at hs
    split at hs
    · next hu =>
      rw [hu] at hc
      cases hc
    · cases hs
  | user ok =>
    have hpos : 0 < s.user.left := by
      cases hu : s.user with
      | start pc =>
        rw [hu] at hc
        cases hc
      | stop pc => cases pc <;> exact Nat.succ_pos _
      | _ => simp [hu] at hs
    rw [State.pending]
    omega
  | reconnect ok =>
    obtain ⟨pc,hpc,_⟩ := Option.map_eq_some_iff.mp hs
    have hpos := pc.left_pos
    simp only [State.pending,hpc,Option.map_some,Option.getD_some]
    omega
  | monitor ok =>
    obtain ⟨pc,hpc,_⟩ := Option.map_eq_some_iff.mp hs
    have hpos := pc.left_pos
    simp only [State.pending,hpc,Option.map_some,Option.getD_some]
    omega
  | heartbeat ok =>
    obtain ⟨pc,hpc,_⟩ := Option.map_eq_some_iff.mp hs
    have hpos := pc.left_pos
    simp only [State.pending,hpc,Option.map_some,Option.getD_some]
    omega
  | loss => cases hown

/-- The step of a thread that is not the user's, once it has landed. -/
theorem Stopping.land (h : Stopping s) {t : State} {o : Option Handle} (hf : s.fault = false)
    (hland : t.spawn cfg o = some s') (hu : t.user = s.user)
    (hrun : t.members.shouldRun = s.members.shouldRun) (htf : t.fault = s.fault)
    (hle : t.pending+spawnLeft o+1 ≤ s.pending) : Stopping s' ∧ s'.left+1 ≤ s.left := by
  obtain ⟨hp,hf'⟩ := spawn_left hland
  have hframe := spawn_frame hland
  refine ⟨⟨?_,?_⟩,?_⟩
  · rw [hframe.user,hu]
    exact h.cleared
  · rw [hframe.members,hold_shouldRun,hrun]
    exact h.run
  · simp only [State.left,hf',htf,hf,Bool.false_eq_true,if_false,hp]
    exact hle

/-- A step on the way out brings the manager nearer to its end. -/
theorem Stopping.step (h : Stopping s) (ho : Once s a)
    (hs : (manager cfg).step s a = some (s',es)) :
    Stopping s' ∧ s'.left+a.own.toNat ≤ s.left := by
  have hf := step_fault hs
  have hleft : s.left = s.pending := by simp [State.left,hf]
  have hcleared := h.cleared
  cases step_transition hs with
  | fault =>
    refine ⟨⟨h.cleared,h.run⟩,?_⟩
    rw [hleft]
    have hgone : State.left { s with fault := true } = 0 := by simp [State.left]
    rw [hgone]
    cases hown : a.own with
    | false => exact Nat.zero_le _
    | true =>
      exact pending_pos h.cleared ho hown hs
  | startCall _ =>
    rw [ho rfl] at hcleared
    cases hcleared
  | stopCall hu =>
    rw [hu] at hcleared
    cases hcleared
  | start hu _ _ =>
    rw [hu] at hcleared
    cases hcleared
  | stop hu hstop =>
    rw [hu] at hcleared
    obtain ⟨hle,hc,hr⟩ := stopStep_left hcleared hstop hu hf
    rw [hleft]
    exact ⟨⟨hc,hr.trans h.run⟩,hle⟩
  | @reconnect pc ok e s' hr he hland =>
    rcases reconnectStep_cases he with ⟨rfl,rfl⟩ | ⟨hne,e,hloop,rfl⟩
    · refine h.land hf hland rfl rfl rfl ?_
      simp only [State.pending,State.putReconnect,hr,spawnLeft,Option.map_none,Option.map_some,
        Option.getD_none,Option.getD_some,LoopPc.left]
      omega
    · have hle := loopStep_left h.run hne hloop
      refine h.land hf hland rfl (loopStep_frame hloop).shouldRun rfl ?_
      simp only [State.pending,State.putReconnect,hr,Effect.map,Option.map_some,Option.getD_some]
      omega
  | @monitor pc ok e s' hm he hland =>
    have hle := monitorStep_left h.run he
    refine h.land hf hland rfl ?_ rfl ?_
    · exact (monitorStep_spawn he).2.1
    · simp only [State.pending,State.putMonitor,hm,Option.map_some,Option.getD_some]
      omega
  | @heartbeat pc ok e s' hh he hland =>
    have hle := heartbeatStep_left h.run he
    obtain ⟨hs,_,hmem,_⟩ := heartbeatStep_frame he
    refine h.land hf hland rfl ?_ rfl ?_
    · simp only [State.putHeartbeat]
      rw [hmem]
    · simp only [State.pending,State.putHeartbeat,hh,hs,spawnLeft,Option.map_some,Option.getD_some]
      omega
  | loss hc =>
    refine ⟨⟨h.cleared,h.run⟩,?_⟩
    exact Nat.le_refl _

/-- While `stop` has not returned or a thread lives, some thread has a step to take. -/
theorem own_enabled (hf : s.fault = false) (hc : s.user.hasCleared = true) (hs : ¬s.Silent) :
    ∃ a, a.own = true ∧ Once s a ∧ ((manager cfg).step s a).isSome = true := by
  cases hh : s.heartbeat with
  | some pc => exact ⟨.heartbeat true,rfl,by simp [Once],by simp [manager,step,hf,hh]⟩
  | none =>
    cases hm : s.monitor with
    | some pc => exact ⟨.monitor true,rfl,by simp [Once],by simp [manager,step,hf,hm]⟩
    | none =>
      cases hr : s.reconnect with
      | some pc => exact ⟨.reconnect true,rfl,by simp [Once],by simp [manager,step,hf,hr]⟩
      | none =>
        -- no thread is alive, so no join has to wait
        cases hu : s.user with
        | fresh => simp [hu,UserPc.hasCleared] at hc
        | start pc => simp [hu,UserPc.hasCleared] at hc
        | started => simp [hu,UserPc.hasCleared] at hc
        | stopped => exact absurd ⟨hu,hh,hm,hr⟩ hs
        | stop pc =>
          refine ⟨.user true,rfl,by simp [Once],?_⟩
          simp only [manager,step,hf,Bool.false_eq_true,if_false,hu]
          cases pc with
          | close => cases hcl : s.members.client <;> simp [stopStep,hcl]
          | closing generation =>
            simp only [stopStep]
            split <;> rfl
          | joinHeartbeat => simp [stopStep,hh]
          | joinMonitor => simp [stopStep,hm]
          | joinReconnect => simp [stopStep,hr]
          | _ => rfl

/-- `should_run_` has been cleared by the time `stop` looks at `client_`. -/
structure Cleared (s : State) : Prop where
  solo : Solo s
  run : s.user.hasCleared = true → s.members.shouldRun = false

/-- `stop` looks at nothing before it has found or made `should_run_` false. -/
theorem stopStep_clears {pc : StopPc} (hu : s.user = .stop pc) (h : stopStep s pc = some (s',es))
    (hc : ¬s.user.hasCleared = true) (hc' : s'.user.hasCleared = true) :
    s'.members.shouldRun = false := by
  rw [hu] at hc
  cases pc with
  | loadRun =>
    cases h
    cases hr : s.members.shouldRun with
    | false => rfl
    | true => simp [hr,UserPc.hasCleared] at hc'
  | storeClosing =>
    cases h
    cases hc'
  | clearRun =>
    cases h
    rfl
  | _ => exact absurd rfl hc

theorem Cleared.step (h : Cleared s) (ho : Once s a)
    (hs : (manager cfg).step s a = some (s',es)) : Cleared s' := by
  have ht := step_transition hs
  refine ⟨h.solo.step ho ht,fun hc' => ?_⟩
  by_cases hc : s.user.hasCleared = true
  · exact (Stopping.step ⟨hc,h.run hc⟩ ho hs).1.run
  · cases ht with
    | fault => exact absurd hc' hc
    | startCall _ => cases hc'
    | stopCall _ => cases hc'
    | stop hu hstop => exact stopStep_clears hu hstop hc hc'
    | @start pc _ e _ hu he hland =>
      have hpc : s'.user = e.pc := (spawn_frame hland).user
      rw [hpc] at hc'
      rcases (startStep_frame he).spawn with ⟨_,⟨p,hp⟩ | hp⟩ | ⟨_,_,hp⟩ | ⟨_,_,hp⟩ | ⟨_,_,hp⟩ <;>
        rw [hp] at hc' <;> cases hc'
    | reconnect _ _ hland => exact absurd ((spawn_frame hland).user ▸ hc') hc
    | monitor _ _ hland => exact absurd ((spawn_frame hland).user ▸ hc') hc
    | heartbeat _ _ hland => exact absurd ((spawn_frame hland).user ▸ hc') hc
    | loss _ => exact absurd hc' hc

theorem LoopPc.left_le (pc : LoopPc) : pc.left ≤ 19 := by
  cases pc with
  | tryConnect b pc => cases pc <;> simp [LoopPc.left]
  | _ => simp [LoopPc.left]

theorem MonitorPc.left_le (pc : MonitorPc) : pc.left ≤ 19 := by
  cases pc with
  | reconnectLoop pc => exact pc.left_le
  | _ => simp [MonitorPc.left]

theorem HeartbeatPc.left_le (pc : HeartbeatPc) : pc.left ≤ 5 := by
  cases pc <;> simp [HeartbeatPc.left]

theorem UserPc.left_le (pc : UserPc) : pc.left ≤ 10 := by
  cases pc with
  | stop pc => cases pc <;> simp [UserPc.left]
  | _ => simp [UserPc.left]

/-- `reconnect_loop` runs on one thread only, so it counts once. -/
theorem Solo.left_le (h : Solo s) : s.left ≤ 35 := by
  have huser := s.user.left_le
  have hbeat : (s.heartbeat.map HeartbeatPc.left).getD 0 ≤ 5 := by
    cases s.heartbeat with
    | none => exact Nat.zero_le _
    | some pc => exact pc.left_le
  have hloop : (s.monitor.map MonitorPc.left).getD 0+(s.reconnect.map LoopPc.left).getD 0 ≤ 20 := by
    cases hr : s.reconnect with
    | none =>
      cases s.monitor with
      | none => exact Nat.zero_le _
      | some pc => exact Nat.le_succ_of_le pc.left_le
    | some p =>
      by_cases hp : p = .ret
      · subst hp
        cases s.monitor with
        | none => simp [LoopPc.left]
        | some pc => exact Nat.add_le_add pc.left_le (Nat.le_refl 1)
      · rw [(h.looping p hr hp).1]
        simpa using Nat.le_succ_of_le p.left_le
  rw [State.left,State.pending]
  split <;> omega

/-- From the moment `should_run_` is cleared the manager's threads take at most 35 steps more,
whatever connections and callbacks do, and they cannot get stuck: until `stop` has returned and
no thread is alive, some thread has a step to take. -/
theorem stop_returns (cfg : ConnectionConfig) {tr : List Event} {s : State}
    (h : (manager cfg).RunWhere Once init tr s) (hs : s.user.hasCleared = true)
    {l : List Action} {s' : State} {fs : List Event}
    (he : (manager cfg).execWhere Once s l = some (s',fs)) :
    l.countP Action.own ≤ 35 ∧ (s'.fault = true ∨ s'.Silent ∨
      ∃ a, a.own = true ∧ Once s' a ∧ ((manager cfg).step s' a).isSome = true) := by
  have hc : Cleared s := by
    refine h.invariant (I := fun _ s => Cleared s) ⟨solo_init,?_⟩ fun _ _ _ _ _ hi hp hs =>
      hi.step hp hs
    exact fun hc => by cases hc
  obtain ⟨hstop,hle⟩ := System.exec_measure (M := manager cfg) State.left Action.own
    (fun _ _ _ _ hi hp hs => Stopping.step hi hp hs) ⟨hs,hc.run hs⟩ he
  have hbound := hc.solo.left_le
  refine ⟨by omega,?_⟩
  by_cases hf : s'.fault = true
  · exact .inl hf
  · by_cases hsilent : s'.Silent
    · exact .inr (.inl hsilent)
    · exact .inr (.inr (own_enabled (by simpa using hf) hstop.cleared hsilent))

/-- `stop` is called during an attempt, which then succeeds: the two threads that are spawned too
late for a join end by themselves. -/
theorem stop_returns_late : ∃ tr s l s' fs, (manager defaultConfig).RunWhere Once init tr s ∧
    (manager defaultConfig).execWhere Once s l = some (s',fs) ∧ l.countP Action.own = 21 ∧
      s'.Silent ∧ (l.countP Action.own ≤ 35 ∧ (s'.fault = true ∨ s'.Silent ∨
        ∃ a, a.own = true ∧ Once s' a ∧ ((manager defaultConfig).step s' a).isSome = true)) := by
  have hexec : ((manager defaultConfig).execWhere Once init
      (System.schedule [(1,[.start]),(3,[.user true]),(1,[.user false]),(3,[.user true]),
        (5,[.reconnect true]),(1,[.stop]),(3,[.user true])])).any
      (fun r => decide (r.1.user.hasCleared = true) &&
        ((manager defaultConfig).execWhere Once r.1
          (System.schedule [(4,[.user true]),(11,[.reconnect true]),(2,[.user true]),
            (2,[.heartbeat true]),(2,[.monitor true])])).any
          fun r' => decide r'.1.Silent) = true := by
    decide +kernel
  obtain ⟨s,tr,hrun,hs⟩ := System.exists_run_of_exec hexec
  obtain ⟨hc,hany⟩ := Bool.and_eq_true_iff.mp hs
  obtain ⟨⟨s',fs⟩,he,hsilent⟩ := (Option.any_eq_true _ _).mp hany
  exact ⟨tr,s,_,s',fs,hrun,he,rfl,of_decide_eq_true hsilent,
    stop_returns defaultConfig hrun (of_decide_eq_true hc) he⟩

end WsClient.Connection
