import WsClient.Connection.Driver

/-!
# Cycles of `start` and `stop`

One manager may be started again once the threads of the cycle before have finished. Between two
calls of `start` it is again a sequential program, seen through its driver.
-/

namespace WsClient.Connection
open WsClient.Lib

/-- Runs that call `start` only when no thread of an earlier cycle is left. -/
def Cycles (s : State) (a : Action) : Prop :=
  a = .start → s.heartbeat = none ∧ s.monitor = none ∧ s.reconnect = none

instance : ∀ s a, Decidable (Cycles s a) := fun _ _ => inferInstanceAs (Decidable (_ → _))

variable {cfg : ConnectionConfig} {m : Members} {ok : Bool} {s s' : State} {a : Action}
  {es : List Event}

theorem lone_init : Lone init := solo_init.lone

theorem Lone.stop (h : Lone s) {pc : StopPc} (hu : s.user = .stop pc)
    (hs : stopStep s pc = some (s',es)) : Lone s' := by
  have hf := stopStep_frame hu hs
  obtain ⟨_,hm,hr⟩ := hf.threads
  refine ⟨fun hst => absurd hst hf.user,?_,?_,?_⟩
  · intro pc hpc hne
    rw [hr] at hpc
    rw [hm]
    exact h.looping pc hpc hne
  · intro hlive
    rw [hm] at hlive
    rcases hf.monitorThread with he | ⟨hnone,_⟩
    · exact he.trans (h.monitorHeld hlive)
    · exact absurd hnone hlive
  · rw [hm]
    exact h.spawned

theorem Lone.start (h : Lone s) {pc : StartPc} {e : Effect UserPc} (hu : s.user = .start pc)
    (he : startStep cfg s.members pc ok = some e)
    (hland : (State.putUser e.pc { s with members := e.members }).spawn cfg e.spawn = some s') :
    Lone s' := by
  obtain ⟨hr,hm⟩ := h.starting (by rw [hu]; trivial)
  have hf := startStep_frame he
  rcases hf.spawn with ⟨hs,_⟩ | ⟨_,hs,hpc⟩ | ⟨_,hs,hpc⟩ | ⟨_,hs,hpc⟩ <;> rw [hs] at hland
  · obtain rfl := spawn_none.mp hland
    constructor <;> simp_all [State.putUser]
  · obtain ⟨_,_,rfl⟩ := spawn_heartbeat hland
    constructor <;> simp_all [State.putUser]
  · obtain ⟨_,_,rfl⟩ := spawn_monitor hland
    constructor <;> simp_all [State.putUser,Members.hold,UserPc.Starting]
  · obtain ⟨_,_,rfl⟩ := spawn_reconnect hland
    constructor <;> simp_all [State.putUser,UserPc.Starting]

theorem Lone.reconnect (h : Lone s) {pc : LoopPc} {e : Effect (Option LoopPc)}
    (hr : s.reconnect = some pc) (he : reconnectStep cfg s.members pc ok = some e)
    (hland : (State.putReconnect e.pc { s with members := e.members }).spawn cfg e.spawn =
      some s') : Lone s' := by
  have huser := h.not_starting_of_reconnect hr
  rcases reconnectStep_cases he with ⟨_,rfl⟩ | ⟨hne,e,hloop,rfl⟩
  · obtain rfl := spawn_none.mp hland
    exact ⟨fun hst => absurd hst huser,by simp [State.putReconnect],h.monitorHeld,h.spawned⟩
  · have hm := h.looping _ hr hne
    have hf := loopStep_frame hloop
    rcases hf.spawn with hs | ⟨_,hs,hpc⟩ | ⟨_,hs,hpc⟩ <;> simp only [Effect.map,hs] at hland
    · obtain rfl := spawn_none.mp hland
      constructor <;> simp_all [State.putReconnect]
    · obtain ⟨_,_,rfl⟩ := spawn_heartbeat hland
      constructor <;> simp_all [State.putReconnect]
    · obtain ⟨_,_,rfl⟩ := spawn_monitor hland
      constructor <;> simp_all [State.putReconnect,Members.hold]

theorem Lone.monitor (h : Lone s) {pc : MonitorPc} {e : Effect (Option MonitorPc)}
    (hm : s.monitor = some pc) (he : monitorStep cfg s.members pc ok = some e)
    (hland : (State.putMonitor e.pc { s with members := e.members }).spawn cfg e.spawn = some s') :
    Lone s' := by
  have huser := h.not_starting_of_monitor hm
  have hloop : ∀ pc, s.reconnect = some pc → pc = .ret := by
    intro pc hpc
    by_contra hne
    simp [h.looping pc hpc hne] at hm
  have hheld := h.monitorHeld (by simp [hm])
  have hspawned := h.spawned
  rcases monitorStep_cases he with ⟨p,e,rfl,hne,hp,rfl⟩ | ⟨hs,hhand,_,hpc⟩
  · have hf := loopStep_frame hp
    obtain ⟨_,hmt,_⟩ := Members.handles_eq hf.handles
    -- the monitor thread's own handle is joinable, so it never spawns a second one
    have hnot : e.pc ≠ .spawnMonitor := by
      intro hpc
      rw [hf.spawnMonitor hpc] at hheld
      cases hheld
    rcases hf.spawn with hs | ⟨_,hs,hpc⟩ | ⟨rfl,_,_⟩
    · simp only [Effect.map,hs] at hland
      obtain rfl := spawn_none.mp hland
      constructor <;> simp_all [State.putMonitor]
    · simp only [Effect.map,hs] at hland
      obtain ⟨_,_,rfl⟩ := spawn_heartbeat hland
      constructor <;> simp_all [State.putMonitor,Members.hold]
    · exact absurd hm hspawned
  · rw [hs] at hland
    obtain rfl := spawn_none.mp hland
    obtain ⟨_,hmt,_⟩ := Members.handles_eq hhand
    constructor <;> simp_all [State.putMonitor]

theorem Lone.step (h : Lone s) (ho : Cycles s a) (ht : Transition cfg s a es s') : Lone s' := by
  cases ht with
  | fault => exact ⟨h.starting,h.looping,h.monitorHeld,h.spawned⟩
  | loss _ => exact ⟨h.starting,h.looping,h.monitorHeld,h.spawned⟩
  | startCall _ =>
    obtain ⟨_,hm,hr⟩ := ho rfl
    exact ⟨fun _ => ⟨hr,hm⟩,h.looping,h.monitorHeld,h.spawned⟩
  | stopCall _ => exact ⟨False.elim,h.looping,h.monitorHeld,h.spawned⟩
  | stop hu hs => exact h.stop hu hs
  | start hu he hland => exact h.start hu he hland
  | reconnect hr he hland => exact h.reconnect hr he hland
  | monitor hm he hland => exact h.monitor hm he hland
  | heartbeat hh he hland =>
    obtain ⟨hs,_,hmem,_⟩ := heartbeatStep_frame he
    rw [hs] at hland
    obtain rfl := spawn_none.mp hland
    refine ⟨h.starting,h.looping,?_,h.spawned⟩
    rw [State.putHeartbeat,hmem]
    exact h.monitorHeld

/-- Only `start` stores `true` into `should_run_`. -/
theorem stopStep_run {pc : StopPc} (h : stopStep s pc = some (s',es))
    (hrun : s'.members.shouldRun = true) : s.members.shouldRun = true := by
  cases pc with
  | clearRun =>
    cases h
    cases hrun
  | close =>
    simp only [stopStep] at h
    split at h <;> cases h <;> exact hrun
  | closing generation =>
    simp only [stopStep] at h
    split at h <;> cases h <;> exact hrun
  | joinHeartbeat =>
    simp only [stopStep] at h
    split at h <;> cases h
    exact hrun
  | joinMonitor =>
    simp only [stopStep] at h
    split at h <;> cases h
    exact hrun
  | joinReconnect =>
    simp only [stopStep] at h
    split at h <;> cases h
    exact hrun
  | _ =>
    cases h
    exact hrun

theorem Transition.run (ht : Transition cfg s a es s') (hpos : a.position s = none)
    (hrun : s'.members.shouldRun = true) : s.members.shouldRun = true := by
  cases ht with
  | fault => exact hrun
  | loss _ => exact hrun
  | startCall _ => cases hpos
  | stopCall _ => exact hrun
  | stop hu hs => exact stopStep_run hs hrun
  | start hu he hland =>
    rw [Action.position,hu] at hpos
    cases hpos
  | reconnect hr he hland =>
    rw [Action.position,hr] at hpos
    cases hpos
  | monitor hm he hland =>
    rw [Action.position,hm] at hpos
    cases hpos
  | heartbeat hh he hland =>
    obtain ⟨hs,_,hmem,_⟩ := heartbeatStep_frame he
    rw [hs] at hland
    obtain rfl := spawn_none.mp hland
    rw [State.putHeartbeat,hmem] at hrun
    exact hrun

/-- Proof rule for runs of several cycles: what the driver's steps preserve, and the other threads
as far as the driver relies on them, and a call of `start` when the driver is gone. `Q` is what the
run's condition says of the driver's step. -/
theorem run_cycles {P : State → Action → Prop} {Q : Driver → Members → Prop}
    {I : List Event → Driver → Members → Prop}
    (hP : ∀ s a, P s a → Cycles s a ∧ ∀ d, a.position s = some d → Q d s.members)
    (h₀ : I [] .fresh init.members) (hcall : ∀ tr m, I tr .gone m → I tr (.start .storeRun) m)
    (hrely : ∀ tr d m es m', I tr d m → Rely m m' →
      (m'.shouldRun = true → m.shouldRun = true) → Quiet es → I (tr++es) d m')
    (hstep : ∀ tr d m ok es o d' m', I tr d m → Q d m → Driver.Step cfg ok d m es o d' m' →
      I (tr++es) d' m')
    {tr : List Event} (h : (manager cfg).RunWhere P init tr s) :
    Lone s ∧ I tr s.driver s.members := by
  refine h.invariant (I := fun tr s => Lone s ∧ I tr s.driver s.members) ⟨lone_init,h₀⟩ ?_
  rintro tr s a s' es ⟨hlone,hi⟩ hp hs
  obtain ⟨hcycles,hq⟩ := hP s a hp
  have ht := step_transition hs
  refine ⟨hlone.step hcycles ht,?_⟩
  by_cases hagain : a = .start ∧ s.user ≠ .fresh
  · -- another cycle begins
    obtain ⟨rfl,hne⟩ := hagain
    obtain ⟨_,hm,hr⟩ := hcycles rfl
    cases ht with
    | fault =>
      rw [List.append_nil]
      exact hi
    | startCall hu =>
      have hgone : s.driver = .gone := by
        rw [State.driver,hu.resolve_left hne,hm,hr]
        rfl
      rw [hgone] at hi
      rw [List.append_nil]
      exact hcall tr _ hi
  · have honce : a = .start → s.user = .fresh := by
      intro ha
      by_contra hne
      exact hagain ⟨ha,hne⟩
    rcases hlone.step_driver honce ht with hpassive | ⟨hpos,o,hstep',_⟩
    · rw [hpassive.driver]
      refine hrely _ _ _ _ _ hi hpassive.rely ?_ hpassive.quiet
      rcases hpassive.still with hnone | ⟨hmem,_⟩
      · exact ht.run hnone
      · rw [hmem]
        exact id
    · exact hstep _ _ _ _ _ _ _ _ hi (hq _ hpos) hstep'

end WsClient.Connection
