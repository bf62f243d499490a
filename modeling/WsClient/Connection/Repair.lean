import WsClient.Connection.Termination

/-!
# A loss is repaired

From a loss that the monitor thread can find, or from the first failure of `start`, the thread
that reconnects is a bounded number of steps away from storing `Connected`: the attempts that fail
cost eleven steps each, and fewer of them than `max_reconnect_tries` do not end the outage.
-/

namespace WsClient.Connection
open WsClient.Lib

/-- A step of a thread that can reconnect. -/
def Action.reconnects : Action → Bool
  | .monitor _ | .reconnect _ => true
  | _ => false

/-- Such a step in which `connect` or `on_connect` throws. -/
def Action.fails : Action → Bool
  | .monitor ok | .reconnect ok => !ok
  | _ => false

/-- How many steps `reconnect_loop` has before it stores `Connected`, if no attempt fails. -/
def LoopPc.toConnected : LoopPc → ℕ
  | .storeConnected | .ret => 1
  | .tryConnect _ .onConnect => 2
  | .tryConnect _ .connect => 3
  | .tryConnect _ .create => 4
  | .sleep _ => 5
  | .onReconnect _ => 6
  | .checkLimit _ => 7
  | .writeCount _ _ => 8
  | .readCount _ => 9
  | .loadRun _ => 10
  | .scaleBackoff _ => 11
  | .tryConnect _ .reset => 12
  | _ => 0

def MonitorPc.toConnected : MonitorPc → ℕ
  | .reconnectLoop pc => pc.toConnected
  | .resetClient => 11
  | .onDisconnect => 12
  | .storeReconnecting => 13
  | .isRunning => 14
  | .readClient => 15
  | .recheckRun => 16
  | .sleep => 17
  | .loadRun => 18
  | _ => 0

/-- After a fault there are no steps. -/
def State.toConnected (s : State) : ℕ :=
  if s.fault then 0
  else (s.monitor.map MonitorPc.toConnected).getD 0+(s.reconnect.map LoopPc.toConnected).getD 0

/-- `reconnect_loop` has neither given up nor stored `Connected`. -/
def LoopPc.reconnecting : LoopPc → Bool
  | .loadRun _ | .readCount _ | .writeCount _ _ | .checkLimit _ | .onReconnect _ | .sleep _
  | .tryConnect _ _ | .scaleBackoff _ | .storeConnected => true
  | _ => false

/-- How many attempts of the outage have failed; one that is under way has been counted. -/
def LoopPc.failed (count : ℤ) : LoopPc → ℤ
  | .writeCount _ read => read
  | .checkLimit _ | .onReconnect _ | .sleep _ | .storeConnected | .tryConnect _ .create
  | .tryConnect _ .connect | .tryConnect _ .onConnect => count-1
  | _ => count

/-- The client is there, and does not run. -/
def Members.ClientLost (m : Members) : Prop := ∃ c, m.client = some c ∧ c.running = false

/-- `monitor_loop` is going to find the loss, or is handling it. -/
def MonitorPc.Repairs (m : Members) : MonitorPc → Prop
  | .loadRun | .sleep | .recheckRun | .readClient | .isRunning => m.ClientLost
  | .storeReconnecting | .onDisconnect | .resetClient => True
  | .reconnectLoop pc => pc.reconnecting = true
  | .storeDisconnected | .ret => False

def MonitorPc.failed (count : ℤ) : MonitorPc → ℤ
  | .reconnectLoop pc => pc.failed count
  | _ => count

/-- After `failed` failures and `fails` more `max_reconnect_tries` still allows an attempt. -/
def Affords (maxTries failed : ℤ) (fails : ℕ) : Prop := 0 < maxTries → failed+fails < maxTries

/-- One thread is on its way to a connection and can afford `fails` more failures; the other one is
not there, or returns. -/
structure Retrying (maxTries : ℤ) (fails : ℕ) (s : State) : Prop where
  user : s.user = .started
  run : s.members.shouldRun = true
  thread : (∃ pc, s.monitor = some pc ∧ (s.reconnect = none ∨ s.reconnect = some .ret) ∧
      pc.Repairs s.members ∧ Affords maxTries (pc.failed s.members.reconnectCount) fails) ∨
    ∃ pc, s.reconnect = some pc ∧ s.monitor = none ∧ pc.reconnecting = true ∧
      Affords maxTries (pc.failed s.members.reconnectCount) fails

/-- `reconnect_count_` has been reset for the connection. -/
def Driver.rested : Driver → Bool
  | .start .spawnHeartbeat | .start .spawnMonitor => true
  | .thread (.reconnectLoop pc) =>
    match pc with
    | .checkHeartbeat | .spawnHeartbeat | .checkMonitor | .spawnMonitor => true
    | _ => false
  | .thread .storeDisconnected | .thread .ret => false
  | .thread _ => true
  | _ => false

/-- A lost connection that the monitor thread has yet to find, or has just found; or the
reconnect thread before its first attempt. -/
def State.Lost (s : State) : Prop :=
  s.user = .started ∧
    ((∃ pc, s.monitor = some pc ∧ pc.watching = true ∧ s.members.ClientLost) ∨
      ∃ b, s.reconnect = some (.loadRun b) ∧ s.members.reconnectCount = 0)

variable {cfg : ConnectionConfig} {m : Members} {ok : Bool} {s s' : State} {a : Action}
  {es : List Event} {maxTries : ℤ} {fails : ℕ}

theorem Affords.mono {failed failed' : ℤ} {fails' : ℕ} (h : Affords maxTries failed fails)
    (hle : failed'+fails' ≤ failed+fails) : Affords maxTries failed' fails' :=
  fun hpos => Int.lt_of_le_of_lt hle (h hpos)

/-- A step brings the thread nearer to a connection, unless an attempt fails in it. -/
def Nears (ok : Bool) (failed failed' : ℤ) (left left' : ℕ) : Prop :=
  failed' ≤ failed+(!ok).toNat ∧ left'+1 ≤ left+11*(!ok).toNat

theorem Nears.of_lt {failed failed' : ℤ} {left left' : ℕ} (hf : failed' = failed)
    (hl : left'+1 ≤ left) : Nears ok failed failed' left left' := by
  refine ⟨?_,by omega⟩
  rw [hf]
  exact Int.le_add_of_nonneg_right (Int.natCast_nonneg _)

theorem Nears.of_failed {failed failed' : ℤ} {left left' : ℕ} (hf : failed' = failed+1)
    (hl : left'+1 ≤ left+11) : Nears false failed failed' left left' := ⟨Int.le_of_eq hf,hl⟩

theorem loopStep_nears {pc : LoopPc} {e : Effect LoopPc} (hrun : m.shouldRun = true)
    (hpc : pc.reconnecting = true)
    (hallowed : Affords cfg.maxReconnectTries (pc.failed m.reconnectCount) fails)
    (hs : loopStep cfg m pc ok = some e) :
    .setState .connected ∈ e.events ∨ (e.spawn = none ∧ e.pc.reconnecting = true ∧
      Nears ok (pc.failed m.reconnectCount) (e.pc.failed e.members.reconnectCount)
        pc.toConnected e.pc.toConnected) := by
  cases pc with
  | loadRun b =>
    cases hs
    rw [hrun]
    exact .inr ⟨rfl,rfl,.of_lt rfl (by simp [LoopPc.toConnected])⟩
  | writeCount b read =>
    simp only [loopStep] at hs
    split at hs <;> cases hs
    exact .inr ⟨rfl,rfl,.of_lt (Int.add_sub_cancel read 1) (by simp [LoopPc.toConnected])⟩
  | checkLimit b =>
    -- while another attempt is allowed the limit is not reached
    cases hs
    have hlimit : ¬(cfg.maxReconnectTries > 0 ∧ m.reconnectCount > cfg.maxReconnectTries) := by
      rintro ⟨hpos,hgt⟩
      have hlt : m.reconnectCount-1+fails < cfg.maxReconnectTries := hallowed hpos
      omega
    dsimp only
    rw [if_neg hlimit]
    exact .inr ⟨rfl,rfl,.of_lt rfl (by simp [LoopPc.toConnected])⟩
  | tryConnect b pc =>
    obtain ⟨e₀,he₀,rfl⟩ := Option.map_eq_some_iff.mp hs
    refine .inr ?_
    cases pc with
    | connect =>
      obtain ⟨c,_,rfl⟩ := Option.map_eq_some_iff.mp he₀
      cases ok with
      | true => exact ⟨rfl,rfl,.of_lt rfl (by simp [Effect.map,LoopPc.toConnected])⟩
      | false => exact ⟨rfl,rfl,.of_failed (Int.sub_add_cancel _ 1).symm (Nat.le_add_right 13 1)⟩
    | onConnect =>
      cases he₀
      cases ok with
      | true => exact ⟨rfl,rfl,.of_lt rfl (by simp [Effect.map,LoopPc.toConnected])⟩
      | false => exact ⟨rfl,rfl,.of_failed (Int.sub_add_cancel _ 1).symm (Nat.le_refl 13)⟩
    | _ =>
      cases he₀
      exact ⟨rfl,rfl,.of_lt rfl (by simp [Effect.map,LoopPc.toConnected])⟩
  | scaleBackoff b =>
    obtain ⟨b',_,rfl⟩ := Option.map_eq_some_iff.mp hs
    exact .inr ⟨rfl,rfl,.of_lt rfl (by simp [LoopPc.toConnected])⟩
  | storeConnected =>
    cases hs
    exact .inl (List.mem_singleton.mpr rfl)
  | readCount b | onReconnect b | sleep b =>
    cases hs
    exact .inr ⟨rfl,rfl,.of_lt rfl (by simp [LoopPc.toConnected])⟩
  | _ => cases hpc

theorem monitorStep_nears {pc : MonitorPc} {e : Effect (Option MonitorPc)}
    (hauto : cfg.autoReconnect = true) (hrun : m.shouldRun = true) (hpc : pc.Repairs m)
    (hallowed : Affords cfg.maxReconnectTries (pc.failed m.reconnectCount) fails)
    (hs : monitorStep cfg m pc ok = some e) :
    .setState .connected ∈ e.events ∨ (e.spawn = none ∧ ∃ p, e.pc = some p ∧ p.Repairs e.members ∧
      Nears ok (pc.failed m.reconnectCount) (p.failed e.members.reconnectCount)
        pc.toConnected p.toConnected) := by
  cases pc with
  | reconnectLoop p =>
    have hne : p ≠ .ret := by
      rintro rfl
      cases hpc
    rw [monitorStep_loop hne] at hs
    obtain ⟨e₀,he₀,rfl⟩ := Option.map_eq_some_iff.mp hs
    rcases loopStep_nears hrun hpc hallowed he₀ with hc | ⟨hspawn,hnext,hnears⟩
    · exact .inl hc
    · exact .inr ⟨hspawn,_,rfl,hnext,hnears⟩
  | loadRun | recheckRun =>
    cases hs
    rw [hrun]
    exact .inr ⟨rfl,_,rfl,hpc,.of_lt rfl (by simp [MonitorPc.toConnected])⟩
  | readClient =>
    obtain ⟨c,hc,hlost⟩ := hpc
    cases hs
    rw [hc]
    exact .inr ⟨rfl,_,rfl,⟨c,hc,hlost⟩,.of_lt rfl (by simp [MonitorPc.toConnected])⟩
  | isRunning =>
    obtain ⟨c,hc,hlost⟩ := hpc
    obtain ⟨c',hc',rfl⟩ := Option.map_eq_some_iff.mp hs
    obtain rfl := Option.some.inj (hc.symm.trans hc')
    rw [hlost]
    exact .inr ⟨rfl,_,rfl,trivial,.of_lt rfl (by simp [MonitorPc.toConnected])⟩
  | resetClient =>
    cases hs
    rw [hauto]
    exact .inr ⟨rfl,_,rfl,rfl,.of_lt rfl (by simp [MonitorPc.toConnected,LoopPc.toConnected])⟩
  | sleep | storeReconnecting | onDisconnect =>
    cases hs
    exact .inr ⟨rfl,_,rfl,hpc,.of_lt rfl (by simp [MonitorPc.toConnected])⟩
  | storeDisconnected | ret => exact hpc.elim

theorem Nears.affords {failed failed' : ℤ} {left left' : ℕ} (h : Nears ok failed failed' left left')
    (hallowed : Affords maxTries failed (fails+(!ok).toNat)) : Affords maxTries failed' fails := by
  refine hallowed.mono ?_
  have hle := h.1
  push_cast
  omega

theorem MonitorPc.Repairs.lost {pc : MonitorPc} {m' : Members} (h : pc.Repairs m)
    (hm : m.ClientLost → m'.ClientLost) : pc.Repairs m' := by
  cases pc <;> first | exact hm h | exact h

theorem LoopPc.toConnected_pos {pc : LoopPc} (h : pc.reconnecting = true) :
    0 < pc.toConnected := by
  cases pc with
  | tryConnect b pc => cases pc <;> exact Nat.succ_pos _
  | _ => first | exact Nat.succ_pos _ | cases h

theorem MonitorPc.Repairs.toConnected_pos {pc : MonitorPc} (h : pc.Repairs m) :
    0 < pc.toConnected := by
  cases pc with
  | reconnectLoop p => exact LoopPc.toConnected_pos h
  | _ => first | exact Nat.succ_pos _ | exact h.elim

theorem Retrying.toConnected_pos (h : Retrying maxTries fails s) (hf : s.fault = false) :
    0 < s.toConnected := by
  simp only [State.toConnected,hf,Bool.false_eq_true,if_false]
  rcases h.thread with ⟨pc,hm,_,hpc,_⟩ | ⟨pc,hr,_,hpc,_⟩
  · have hpos := hpc.toConnected_pos
    simp only [hm,Option.map_some,Option.getD_some]
    omega
  · have hpos := LoopPc.toConnected_pos hpc
    simp only [hr,Option.map_some,Option.getD_some]
    omega

/-- Other threads change nothing of it, and fewer failures ask for less. -/
theorem Retrying.frame {fails' : ℕ} (h : Retrying maxTries fails s) (hfails : fails' ≤ fails)
    (hu : s'.user = s.user) (hm : s'.monitor = s.monitor) (hr : s'.reconnect = s.reconnect)
    (hrun : s'.members.shouldRun = s.members.shouldRun)
    (hcount : s'.members.reconnectCount = s.members.reconnectCount)
    (hlost : s.members.ClientLost → s'.members.ClientLost) : Retrying maxTries fails' s' := by
  refine ⟨hu.trans h.user,hrun.trans h.run,?_⟩
  rw [hm,hr,hcount]
  rcases h.thread with ⟨pc,hpc,hret,hrep,hallowed⟩ | ⟨pc,hpc,hnone,hrep,hallowed⟩
  · exact .inl ⟨pc,hpc,hret,hrep.lost hlost,hallowed.mono (by omega)⟩
  · exact .inr ⟨pc,hpc,hnone,hrep,hallowed.mono (by omega)⟩

theorem Retrying.reconnect (h : Retrying cfg.maxReconnectTries (fails+(!ok).toNat) s)
    (hf : s.fault = false) {pc : LoopPc} {e : Effect (Option LoopPc)}
    (hr : s.reconnect = some pc) (he : reconnectStep cfg s.members pc ok = some e)
    (hland : (State.putReconnect e.pc { s with members := e.members }).spawn cfg e.spawn =
      some s') :
    .setState .connected ∈ e.events ∨ Retrying cfg.maxReconnectTries fails s' ∧
      s'.toConnected+1 ≤ s.toConnected+11*(!ok).toNat := by
  rcases reconnectStep_cases he with ⟨rfl,rfl⟩ | ⟨hne,e,hloop,rfl⟩
  · -- the thread that has handed over exits
    obtain rfl := spawn_none.mp hland
    rcases h.thread with ⟨pc,hpc,_,hrep,hallowed⟩ | ⟨pc,hpc,_,hrep,_⟩
    · refine .inr ⟨⟨h.user,h.run,.inl ⟨pc,hpc,.inl rfl,hrep,hallowed.mono ?_⟩⟩,?_⟩
      · simp only [State.putReconnect]
        omega
      · simp only [State.toConnected,State.putReconnect,hf,hr,Option.map_none,Option.map_some,
          Option.getD_none,Option.getD_some,LoopPc.toConnected,Bool.false_eq_true,if_false]
        omega
    · rw [hr] at hpc
      obtain rfl := Option.some.inj hpc
      cases hrep
  · rcases h.thread with ⟨_,_,hret,_⟩ | ⟨pc',hpc,hnone,hrep,hallowed⟩
    · rw [hr] at hret
      rcases hret with hret | hret
      · cases hret
      · exact absurd (Option.some.inj hret) hne
    rw [hr] at hpc
    obtain rfl := Option.some.inj hpc
    rcases loopStep_nears h.run hrep hallowed hloop with hc | ⟨hspawn,hnext,hnears⟩
    · exact .inl hc
    simp only [Effect.map,hspawn] at hland
    obtain rfl := spawn_none.mp hland
    refine .inr ⟨⟨h.user,(loopStep_frame hloop).shouldRun.trans h.run,
      .inr ⟨e.pc,rfl,hnone,hnext,hnears.affords hallowed⟩⟩,?_⟩
    simp only [State.toConnected,State.putReconnect,hf,hr,hnone,Option.map_none,Option.map_some,
      Option.getD_none,Option.getD_some,Bool.false_eq_true,if_false,Nat.zero_add]
    exact hnears.2

theorem Retrying.monitor (hauto : cfg.autoReconnect = true)
    (h : Retrying cfg.maxReconnectTries (fails+(!ok).toNat) s)
    (hf : s.fault = false) {pc : MonitorPc} {e : Effect (Option MonitorPc)}
    (hm : s.monitor = some pc) (he : monitorStep cfg s.members pc ok = some e)
    (hland : (State.putMonitor e.pc { s with members := e.members }).spawn cfg e.spawn = some s') :
    .setState .connected ∈ e.events ∨ Retrying cfg.maxReconnectTries fails s' ∧
      s'.toConnected+1 ≤ s.toConnected+11*(!ok).toNat := by
  rcases h.thread with ⟨pc',hpc,hret,hrep,hallowed⟩ | ⟨_,_,hnone,_⟩
  · rw [hm] at hpc
    obtain rfl := Option.some.inj hpc
    rcases monitorStep_nears hauto h.run hrep hallowed he with
      hc | ⟨hspawn,p,hp,hnext,hnears⟩
    · exact .inl hc
    have hrun := (monitorStep_spawn he).2.1
    rw [hspawn] at hland
    obtain rfl := spawn_none.mp hland
    refine .inr ⟨⟨h.user,hrun.trans h.run,.inl ⟨p,hp,hret,hnext,hnears.affords hallowed⟩⟩,?_⟩
    have hleft := hnears.2
    simp only [State.toConnected,State.putMonitor,hf,hm,hp,Option.map_some,Option.getD_some,
      Bool.false_eq_true,if_false]
    omega
  · rw [hm] at hnone
    cases hnone

/-- A step of the manager, `stop` apart. -/
theorem Retrying.step (hauto : cfg.autoReconnect = true)
    (h : Retrying cfg.maxReconnectTries (fails+a.fails.toNat) s) (hp : NoStop s a)
    (hs : (manager cfg).step s a = some (s',es)) :
    .setState .connected ∈ es ∨
      (s'.fault = true ∨ Retrying cfg.maxReconnectTries fails s') ∧
        s'.toConnected+a.reconnects.toNat ≤ s.toConnected+11*a.fails.toNat := by
  have hf := step_fault hs
  have huser := h.user
  cases step_transition hs with
  | fault =>
    refine .inr ⟨.inl rfl,?_⟩
    have hpos := h.toConnected_pos hf
    have hgone : State.toConnected { s with fault := true } = 0 := by simp [State.toConnected]
    have hone := a.reconnects.toNat_le
    omega
  | startCall _ =>
    rw [hp.1 rfl] at huser
    cases huser
  | stopCall _ => exact absurd rfl hp.2
  | start hu _ _ =>
    rw [hu] at huser
    cases huser
  | stop hu _ =>
    rw [hu] at huser
    cases huser
  | reconnect hr he hland =>
    exact (h.reconnect hf hr he hland).imp_right fun hnext => ⟨.inr hnext.1,hnext.2⟩
  | monitor hm he hland =>
    exact (h.monitor hauto hf hm he hland).imp_right fun hnext => ⟨.inr hnext.1,hnext.2⟩
  | heartbeat hh he hland =>
    obtain ⟨hs,_,hmem,hgen⟩ := heartbeatStep_frame he
    rw [hs] at hland
    obtain rfl := spawn_none.mp hland
    refine .inr ⟨.inr (h.frame (Nat.le_add_right _ _) rfl rfl rfl ?_ ?_ ?_),Nat.le_refl _⟩
    · simp only [State.putHeartbeat]
      rw [hmem]
    · simp only [State.putHeartbeat]
      rw [hmem]
    · rintro ⟨c,hc,hlost⟩
      rw [hc] at hgen
      obtain ⟨c',hc',_⟩ := Option.map_eq_some_iff.mp hgen
      refine ⟨c',hc',heartbeatStep_running he ?_ c' hc'⟩
      intro c₀ hc₀
      rw [hc] at hc₀
      obtain rfl := Option.some.inj hc₀
      exact hlost
  | loss hc =>
    exact .inr ⟨.inr (h.frame (Nat.le_add_right _ _) rfl rfl rfl rfl rfl fun _ => ⟨_,rfl,rfl⟩),
      Nat.le_refl _⟩

theorem MonitorPc.toConnected_le (pc : MonitorPc) : pc.toConnected ≤ 18 := by
  cases pc with
  | reconnectLoop pc =>
    cases pc with
    | tryConnect b pc => cases pc <;> simp [MonitorPc.toConnected,LoopPc.toConnected]
    | _ => simp [MonitorPc.toConnected,LoopPc.toConnected]
  | _ => simp [MonitorPc.toConnected]

theorem Retrying.toConnected_le (h : Retrying maxTries fails s) : s.toConnected ≤ 19 := by
  rw [State.toConnected]
  split
  · exact Nat.zero_le _
  rcases h.thread with ⟨pc,hm,hret,_⟩ | ⟨pc,hr,hm,_⟩
  · have hpc := pc.toConnected_le
    rcases hret with hret | hret <;>
      simp only [hm,hret,Option.map_some,Option.map_none,Option.getD_some,Option.getD_none,
        LoopPc.toConnected] <;>
      omega
  · have hpc : pc.toConnected ≤ 18 := (MonitorPc.reconnectLoop pc).toConnected_le
    simp only [hm,hr,Option.map_some,Option.map_none,Option.getD_some,Option.getD_none]
    omega

/-- The thread can go on. -/
theorem Retrying.enabled (h : Retrying maxTries fails s) (hf : s.fault = false) :
    ∃ a, a.reconnects = true ∧ NoStop s a ∧ ((manager cfg).step s a).isSome = true := by
  rcases h.thread with ⟨pc,hm,_⟩ | ⟨pc,hr,_⟩
  · exact ⟨.monitor true,rfl,by simp [NoStop,Once],by simp [manager,Connection.step,hf,hm]⟩
  · exact ⟨.reconnect true,rfl,by simp [NoStop,Once],by simp [manager,Connection.step,hf,hr]⟩

/-- Until `stop` is called `should_run_` stays set. -/
theorem running_step (h : s.user.running = true → s.members.shouldRun = true) (ho : Once s a)
    (hs : (manager cfg).step s a = some (s',es)) :
    s'.user.running = true → s'.members.shouldRun = true := by
  cases step_transition hs with
  | startCall _ => exact fun hrun => by cases hrun
  | stopCall hu => exact fun _ => h (by rw [hu]; rfl)
  | start hu he hland =>
    rw [(spawn_frame hland).members,hold_shouldRun]
    exact fun _ => startStep_run he (by rw [← hu]; exact h)
  | @stop pc _ _ _ hu hstop =>
    rw [hu] at h
    cases pc with
    | loadRun | storeClosing =>
      cases hstop
      exact fun _ => h rfl
    | readClient | checkHeartbeat | checkMonitor | checkReconnect =>
      cases hstop
      intro hrun
      dsimp only at hrun
      split at hrun <;> cases hrun
    | clearRun | storeClosed =>
      cases hstop
      exact fun hrun => by cases hrun
    | close =>
      simp only [stopStep] at hstop
      split at hstop <;> cases hstop
      · rw [hu]
        exact h
      · exact fun hrun => by cases hrun
    | closing generation =>
      simp only [stopStep] at hstop
      split at hstop <;> cases hstop
      · exact fun hrun => by cases hrun
      · rw [hu]
        exact h
    | _ =>
      simp only [stopStep] at hstop
      split at hstop <;> cases hstop
      exact fun hrun => by cases hrun
  | reconnect _ he hland =>
    rw [(spawn_frame hland).user,(spawn_frame hland).members,hold_shouldRun]
    rcases reconnectStep_cases he with ⟨_,rfl⟩ | ⟨_,e,hloop,rfl⟩
    · exact h
    · exact fun hrun => (loopStep_frame hloop).shouldRun.trans (h hrun)
  | monitor _ he hland =>
    rw [(spawn_frame hland).user,(spawn_frame hland).members,hold_shouldRun]
    exact fun hrun => (monitorStep_spawn he).2.1.trans (h hrun)
  | heartbeat _ he hland =>
    obtain ⟨_,_,hmem,_⟩ := heartbeatStep_frame he
    rw [(spawn_frame hland).user,(spawn_frame hland).members,hold_shouldRun,State.putHeartbeat,hmem]
    exact h
  | _ => exact h

theorem loopStep_rested {pc : LoopPc} {e : Effect LoopPc}
    (h : (Driver.thread (.reconnectLoop pc)).rested = true → m.reconnectCount = 0)
    (hs : loopStep cfg m pc ok = some e)
    (hd : ((loopDriver .gone (some e.pc)).next cfg e.spawn).rested = true) :
    (e.members.hold e.spawn).reconnectCount = 0 := by
  cases pc with
  | tryConnect b pc =>
    obtain ⟨e₀,he₀,rfl⟩ := Option.map_eq_some_iff.mp hs
    have hspawn := (tryConnectStep_frame he₀).1
    simp only [Effect.map,hspawn] at hd
    split at hd <;> cases hd
  | writeCount b read =>
    simp only [loopStep] at hs
    split at hs <;> cases hs
    cases hd
  | scaleBackoff b =>
    obtain ⟨b',_,rfl⟩ := Option.map_eq_some_iff.mp hs
    cases hd
  | loadRun b =>
    cases hs
    dsimp only at hd
    split at hd <;> cases hd
  | checkLimit b =>
    cases hs
    dsimp only at hd
    split at hd <;> cases hd
  | resetCount =>
    cases hs
    rfl
  | checkHeartbeat | spawnHeartbeat | checkMonitor | spawnMonitor =>
    cases hs
    exact h rfl
  | _ =>
    cases hs
    cases hd

/-- From the reset of the count on it stays 0, until `reconnect_loop` is entered again. -/
theorem Driver.Step.rested {d d' : Driver} {m' : Members} {o : Option Handle}
    (h : d.rested = true → m.reconnectCount = 0) (hs : Driver.Step cfg ok d m es o d' m')
    (hd : d'.rested = true) : m'.reconnectCount = 0 := by
  cases hs with
  | call => cases hd
  | @start pc _ e he =>
    cases pc with
    | tryConnect pc =>
      obtain ⟨e₀,he₀,rfl⟩ := Option.map_eq_some_iff.mp he
      have hspawn := (tryConnectStep_frame he₀).1
      simp only [Effect.map,hspawn] at hd
      split at hd
      · cases hd
      · cases hd
      · cases hauto : cfg.autoReconnect <;> rw [hauto] at hd <;> cases hd
    | resetCount =>
      cases he
      rfl
    | spawnHeartbeat | spawnMonitor =>
      cases he
      exact h rfl
    | _ =>
      cases he
      cases hd
  | @thread pc _ e he =>
    cases pc with
    | reconnectLoop p =>
      by_cases hp : p = .ret
      · subst hp
        cases he
        cases hd
      · rw [monitorStep_loop hp] at he
        obtain ⟨e₀,he₀,rfl⟩ := Option.map_eq_some_iff.mp he
        simp only [Effect.map,monitorDriver_loop] at hd
        exact loopStep_rested h he₀ hd
    | isRunning =>
      obtain ⟨c,_,rfl⟩ := Option.map_eq_some_iff.mp he
      exact h rfl
    | storeDisconnected | ret =>
      cases he
      cases hd
    | _ =>
      cases he
      exact h rfl

theorem run_rested {tr : List Event} (h : (manager cfg).RunWhere Once init tr s) :
    s.driver.rested = true → s.members.reconnectCount = 0 := by
  refine (run_driver (Q := fun _ _ => True)
    (I := fun _ d m => d.rested = true → m.reconnectCount = 0)
    (fun _ _ hp => ⟨hp,fun _ _ => trivial⟩) (fun hd => by cases hd) ?_ ?_ h).2
  · intro tr d m es m' hi hr _ hd
    exact hr.count.trans (hi hd)
  · intro tr d m ok es o d' m' hi _ hs
    exact hs.rested hi

/-- A lost connection has the whole of `max_reconnect_tries` before it. -/
theorem State.Lost.retrying {tr : List Event} (hlost : s.Lost)
    (h : (manager cfg).RunWhere Once init tr s)
    (hfew : Affords cfg.maxReconnectTries 0 fails) : Retrying cfg.maxReconnectTries fails s := by
  obtain ⟨hsolo,_⟩ := run_owned h
  have hrun : s.user.running = true → s.members.shouldRun = true := by
    refine h.invariant (I := fun _ s => s.user.running = true → s.members.shouldRun = true)
      (fun hr => by cases hr) fun _ _ _ _ _ hi hp hs => running_step hi hp hs
  obtain ⟨hu,hwhere⟩ := hlost
  refine ⟨hu,hrun (by rw [hu]; rfl),?_⟩
  rcases hwhere with ⟨pc,hm,hwatch,hc⟩ | ⟨b,hr,hcount⟩
  · -- the thread that watches has reset the count
    have hrested := run_rested h
    have hst : ¬s.user.Starting := by
      rw [hu]
      exact id
    rw [driver_eq hst,hsolo.lone.loopDriver_of_monitor hm,hm] at hrested
    have hzero : s.members.reconnectCount = 0 := by
      cases pc <;> first | exact hrested rfl | cases hwatch
    refine .inl ⟨pc,hm,?_,?_,?_⟩
    · cases hr : s.reconnect with
      | none => exact .inl rfl
      | some p =>
        by_cases hp : p = .ret
        · exact .inr (by rw [hp])
        · have hnone := (hsolo.looping p hr hp).1
          rw [hm] at hnone
          cases hnone
    · cases pc <;> first | exact hc | trivial
    · have hfailed : pc.failed s.members.reconnectCount = 0 := by
        cases pc <;> first | exact hzero | cases hwatch
      rw [hfailed]
      exact hfew
  · refine .inr ⟨_,hr,(hsolo.looping _ hr LoopPc.noConfusion).1,rfl,?_⟩
    change Affords _ s.members.reconnectCount _
    rw [hcount]
    exact hfew

/-- As long as the manager is not stopped and fewer attempts fail than `max_reconnect_tries`, a
lost connection is on its way back, whatever the other threads and the network do: unless the
program faults, the thread that reconnects can go on, and within 19 steps of its own and eleven
more for each failure it stores `Connected`. -/
theorem loss_repaired (cfg : ConnectionConfig) (hauto : cfg.autoReconnect = true)
    {tr : List Event} {s : State} (h : (manager cfg).RunWhere Once init tr s)
    (hlost : s.Lost) {l : List Action} {s' : State} {fs : List Event}
    (he : (manager cfg).execWhere NoStop s l = some (s',fs))
    (hfew : 0 < cfg.maxReconnectTries → (l.countP Action.fails : ℤ) < cfg.maxReconnectTries) :
    .setState .connected ∈ fs ∨ s'.fault = true ∨
      l.countP Action.reconnects ≤ 19+11*l.countP Action.fails ∧
        ∃ a, a.reconnects = true ∧ NoStop s' a ∧ ((manager cfg).step s' a).isSome = true := by
  have hretrying := hlost.retrying h fun hpos => (Int.zero_add _).trans_lt (hfew hpos)
  have hstep : ∀ s a l s' es,
      (s.fault = true ∨ Retrying cfg.maxReconnectTries ((a :: l).countP Action.fails) s) →
      NoStop s a → (manager cfg).step s a = some (s',es) → (∃ e ∈ es, e = .setState .connected) ∨
        (s'.fault = true ∨ Retrying cfg.maxReconnectTries (l.countP Action.fails) s') ∧
          s'.toConnected+a.reconnects.toNat ≤ s.toConnected+11*a.fails.toNat := by
    rintro s a l s' es (hf | hi) hp hs
    · simp [step_fault hs] at hf
    · have hcount : (a :: l).countP Action.fails = l.countP Action.fails+a.fails.toNat := by
        rw [List.countP_cons]
        cases a.fails <;> rfl
      rw [hcount] at hi
      exact (hi.step hauto hp hs).imp_left fun hmem => ⟨_,hmem,rfl⟩
  rcases System.exec_answers (M := manager cfg) (I := fun l s => s.fault = true ∨
      Retrying cfg.maxReconnectTries (l.countP Action.fails) s) State.toConnected
    Action.reconnects Action.fails 11 (fun e => e = .setState .connected) hstep
    (.inr hretrying) he with ⟨e,hmem,rfl⟩ | ⟨hnext,hle⟩
  · exact .inl hmem
  · by_cases hf : s'.fault = true
    · exact .inr (.inl hf)
    have hbound := hretrying.toConnected_le
    refine .inr (.inr ⟨by omega,?_⟩)
    exact (hnext.resolve_left hf).enabled (by simpa using hf)

/-- A loss, an attempt that fails and one that succeeds. -/
theorem loss_repaired_second_try :
    ∃ tr s, (manager defaultConfig).RunWhere Once init tr s ∧ s.Lost ∧
      (∃ l s' fs, (manager defaultConfig).execWhere NoStop s l = some (s',fs) ∧
        l.countP Action.fails = 1 ∧ .setState .connected ∈ fs ∧ s'.fault = false) ∧
      ∀ l s' fs, (manager defaultConfig).execWhere NoStop s l = some (s',fs) →
        l.countP Action.fails < 10 → .setState .connected ∈ fs ∨ s'.fault = true ∨
          l.countP Action.reconnects ≤ 19+11*l.countP Action.fails ∧ ∃ a, a.reconnects = true ∧
            NoStop s' a ∧ ((manager defaultConfig).step s' a).isSome = true := by
  let l : List Action := System.schedule
    [(8,[.monitor true]),(7,[.monitor true]),(1,[.monitor false]),(12,[.monitor true])]
  have hexec : ((manager defaultConfig).execWhere Once init
      (System.schedule [(1,[.start]),(9,[.user true]),(1,[.loss])])).any
      (fun r => decide (r.1.user = .started ∧ r.1.monitor = some .loadRun ∧
          r.1.members.client = some ⟨0,false,false⟩) &&
        ((manager defaultConfig).execWhere NoStop r.1 l).any
          fun r' => decide (.setState .connected ∈ r'.2 ∧ r'.1.fault = false)) = true := by
    decide +kernel
  obtain ⟨s,tr,hrun,hs⟩ := System.exists_run_of_exec hexec
  obtain ⟨hlost,hany⟩ := Bool.and_eq_true_iff.mp hs
  obtain ⟨hu,hm,hc⟩ := of_decide_eq_true hlost
  obtain ⟨⟨s',fs⟩,he,hback⟩ := (Option.any_eq_true _ _).mp hany
  obtain ⟨hmem,hf⟩ := of_decide_eq_true hback
  have hlost : s.Lost := ⟨hu,.inl ⟨_,hm,rfl,_,hc,rfl⟩⟩
  refine ⟨tr,s,hrun,hlost,⟨l,s',fs,he,by decide,hmem,hf⟩,fun l s' fs he hfew => ?_⟩
  exact loss_repaired defaultConfig rfl hrun hlost he fun _ => Int.ofNat_lt.mpr hfew

end WsClient.Connection
