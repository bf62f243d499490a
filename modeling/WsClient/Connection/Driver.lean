import WsClient.Connection.Threads

/-!
# The thread that drives the connection

At any time at most one thread is in `start`, in `reconnect_loop` or in `monitor_loop`. Seen
through that thread, the driver, the manager is a sequential program: a step is a step of the
driver, or changes the members only as `Rely` allows.
-/

namespace WsClient.Connection
open WsClient.Lib

/-- Who drives the connection, and where it stands. The reconnect thread in `reconnect_loop`
counts as a monitor thread that is there. -/
inductive Driver
  | fresh
  | start (pc : StartPc)
  | thread (pc : MonitorPc)
  | gone
  deriving DecidableEq, Repr

def monitorDriver : Option MonitorPc → Driver
  | none | some .ret | some (.reconnectLoop .ret) => .gone
  | some pc => .thread pc

def UserPc.driver (rest : Driver) : UserPc → Driver
  | .fresh => .fresh
  | .start pc => .start pc
  | _ => rest

def loopDriver (rest : Driver) : Option LoopPc → Driver
  | none | some .ret => rest
  | some pc => .thread (.reconnectLoop pc)

def State.driver (s : State) : Driver := s.user.driver (loopDriver (monitorDriver s.monitor) s.reconnect)

/-- The driver once a step has spawned its successor. -/
def Driver.next (cfg : ConnectionConfig) (d : Driver) : Option Handle → Driver
  | some .monitor => .thread .loadRun
  | some .reconnect => .thread (.reconnectLoop (.loadRun cfg.initialBackoffMs))
  | _ => d

/-- A step of the driver, with the events it emits and the thread it spawns. -/
inductive Driver.Step (cfg : ConnectionConfig) (ok : Bool) :
    Driver → Members → List Event → Option Handle → Driver → Members → Prop
  | call {m} : Step cfg ok .fresh m [] none (.start .storeRun) m
  | start {pc m e} : startStep cfg m pc ok = some e →
      Step cfg ok (.start pc) m e.events e.spawn ((e.pc.driver .gone).next cfg e.spawn)
        (e.members.hold e.spawn)
  | thread {pc m e} : monitorStep cfg m pc ok = some e →
      Step cfg ok (.thread pc) m e.events e.spawn ((monitorDriver e.pc).next cfg e.spawn)
        (e.members.hold e.spawn)

/-- What the environment answers a step. -/
def Action.ok : Action → Bool
  | .user ok | .reconnect ok | .monitor ok | .heartbeat ok => ok
  | _ => true

/-- Where the thread of an action stands, if it can drive. -/
def Action.position (s : State) : Action → Option Driver
  | .start => some .fresh
  | .user _ =>
    match s.user with
    | .start pc => some (.start pc)
    | _ => none
  | .reconnect _ => s.reconnect.map fun pc => .thread (.reconnectLoop pc)
  | .monitor _ => s.monitor.map .thread
  | _ => none

variable {cfg : ConnectionConfig} {m : Members} {ok : Bool} {s s' : State} {a : Action}
  {es : List Event}

theorem driver_eq (hst : ¬s.user.Starting) :
    s.driver = loopDriver (monitorDriver s.monitor) s.reconnect := by
  rw [State.driver]
  cases hu : s.user with
  | fresh => simp [hu,UserPc.Starting] at hst
  | start p => simp [hu,UserPc.Starting] at hst
  | _ => rfl

theorem loopDriver_loop (rest : Driver) {pc : LoopPc} (hne : pc ≠ .ret) :
    loopDriver rest (some pc) = .thread (.reconnectLoop pc) := by
  cases pc <;> first | rfl | exact absurd rfl hne

theorem monitorDriver_loop (pc : LoopPc) :
    monitorDriver (some (.reconnectLoop pc)) = loopDriver .gone (some pc) := by
  cases pc <;> rfl

theorem monitorDriver_thread {pc : MonitorPc} (h : pc ≠ .ret) (h' : pc ≠ .reconnectLoop .ret) :
    monitorDriver (some pc) = .thread pc := by
  cases pc with
  | ret => exact absurd rfl h
  | reconnectLoop p => exact (monitorDriver_loop p).trans (loopDriver_loop _ fun hp => h' (by rw [hp]))
  | _ => rfl

/-- `reconnect_loop` drives alike on either thread. -/
theorem Driver.Step.loop {pc : LoopPc} {e : Effect LoopPc} (hne : pc ≠ .ret)
    (h : loopStep cfg m pc ok = some e) :
    Driver.Step cfg ok (.thread (.reconnectLoop pc)) m e.events e.spawn
      ((loopDriver .gone (some e.pc)).next cfg e.spawn) (e.members.hold e.spawn) := by
  rw [← monitorDriver_loop]
  exact .thread (monitorStep_of_loop hne h)

/-- What of `Solo` concerns the live threads: `start` runs alone, and `reconnect_loop` on its own
thread runs before the monitor thread. -/
structure Lone (s : State) : Prop where
  starting : s.user.Starting → s.reconnect = none ∧ s.monitor = none
  looping : ∀ pc, s.reconnect = some pc → pc ≠ .ret → s.monitor = none
  monitorHeld : s.monitor ≠ none → s.members.monitorThread = true
  spawned : s.monitor ≠ some (.reconnectLoop .spawnMonitor)

theorem Solo.lone (h : Solo s) : Lone s where
  starting hst := ⟨(h.starting hst).1,(h.starting hst).2.1⟩
  looping pc hpc hne := (h.looping pc hpc hne).1
  monitorHeld := h.monitorHeld
  spawned := h.spawned

theorem Lone.not_starting_of_reconnect (h : Lone s) {pc : LoopPc} (hr : s.reconnect = some pc) :
    ¬s.user.Starting :=
  fun hst => by simp [(h.starting hst).1] at hr

theorem Lone.not_starting_of_monitor (h : Lone s) {pc : MonitorPc} (hm : s.monitor = some pc) :
    ¬s.user.Starting :=
  fun hst => by simp [(h.starting hst).2] at hm

/-- While the monitor thread lives, the reconnect thread has nothing left to drive. -/
theorem Lone.loopDriver_of_monitor (h : Lone s) {pc : MonitorPc} (hm : s.monitor = some pc)
    (rest : Driver) : loopDriver rest s.reconnect = rest := by
  cases hr : s.reconnect with
  | none => rfl
  | some p =>
    by_cases hp : p = .ret
    · rw [hp]
      rfl
    · simp [h.looping p hr hp] at hm

/-- A step that is not the driver's. -/
structure Passive (s : State) (a : Action) (es : List Event) (s' : State) : Prop where
  driver : s'.driver = s.driver
  rely : Rely s.members s'.members
  quiet : Quiet es
  still : a.position s = none ∨ (s'.members = s.members ∧ s'.heartbeat = s.heartbeat)

/-- A step that is the driver's. -/
def Drives (cfg : ConnectionConfig) (s : State) (a : Action) (es : List Event) (s' : State) : Prop :=
  a.position s = some s.driver ∧ ∃ o,
    Driver.Step cfg a.ok s.driver s.members es o s'.driver s'.members ∧
      s'.heartbeat = heartbeatAfter s.heartbeat o

theorem Lone.start_drives (h : Lone s) {pc : StartPc} {e : Effect UserPc}
    (hu : s.user = .start pc) (he : startStep cfg s.members pc ok = some e)
    (hland : (State.putUser e.pc { s with members := e.members }).spawn cfg e.spawn = some s') :
    Drives cfg s (.user ok) e.events s' := by
  obtain ⟨hr,hm⟩ := h.starting (by rw [hu]; trivial)
  have hd : s.driver = .start pc := by
    rw [State.driver,hu]
    rfl
  have hstep := Driver.Step.start he
  have hf := spawn_frame hland
  refine ⟨by rw [Action.position,hu,hd],e.spawn,?_,hf.heartbeat⟩
  rw [hd]
  rcases (startStep_frame he).spawn with ⟨hs,_⟩ | ⟨_,hs,hpc⟩ | ⟨_,hs,hpc⟩ | ⟨_,hs,hpc⟩ <;>
    rw [hs] at hland hstep ⊢
  · obtain rfl := spawn_none.mp hland
    have hd' : State.driver (State.putUser e.pc { s with members := e.members }) =
        e.pc.driver .gone := by
      simp only [State.driver,State.putUser,hr,hm]
      rfl
    rw [hd']
    exact hstep
  · obtain ⟨_,_,rfl⟩ := spawn_heartbeat hland
    rw [hpc] at hstep ⊢
    exact hstep
  · obtain ⟨_,_,rfl⟩ := spawn_monitor hland
    rw [hpc] at hstep ⊢
    simp only [State.driver,State.putUser,hr]
    exact hstep
  · obtain ⟨_,_,rfl⟩ := spawn_reconnect hland
    rw [hpc] at hstep ⊢
    exact hstep

/-- On the reconnect thread `reconnect_loop` drives until it returns. -/
theorem Lone.reconnect_drives (h : Lone s) {pc : LoopPc} {e : Effect (Option LoopPc)}
    (hr : s.reconnect = some pc) (he : reconnectStep cfg s.members pc ok = some e)
    (hland : (State.putReconnect e.pc { s with members := e.members }).spawn cfg e.spawn =
      some s') :
    Passive s (.reconnect ok) e.events s' ∨ Drives cfg s (.reconnect ok) e.events s' := by
  have hst := h.not_starting_of_reconnect hr
  have hf := spawn_frame hland
  have hst' : ¬s'.user.Starting := by
    rw [hf.user]
    exact hst
  rcases reconnectStep_cases he with ⟨rfl,rfl⟩ | ⟨hne,e,hloop,rfl⟩
  · -- the thread exits
    refine .inl ⟨?_,?_,by simp [Quiet],.inr ⟨hf.members,hf.heartbeat⟩⟩
    · rw [driver_eq hst,driver_eq hst',hr,hf.monitor (by simp),hf.reconnect (by simp)]
      rfl
    · rw [hf.members]
      exact .refl _
  · have hstep := Driver.Step.loop hne hloop
    have hm := h.looping pc hr hne
    have hd : s.driver = .thread (.reconnectLoop pc) := by
      rw [driver_eq hst,hr,loopDriver_loop _ hne]
    refine .inr ⟨by rw [Action.position,hr,hd]; rfl,e.spawn,?_,hf.heartbeat⟩
    rw [hd,driver_eq hst',hf.members]
    rcases (loopStep_frame hloop).spawn with hs | ⟨_,hs,hpc⟩ | ⟨_,hs,hpc⟩
    · rw [hf.monitor (by simp [Effect.map,hs]),hf.reconnect (by simp [Effect.map,hs])]
      simp only [State.putReconnect,hm,Effect.map,hs] at hstep ⊢
      exact hstep
    · rw [hf.monitor (by simp [Effect.map,hs]),hf.reconnect (by simp [Effect.map,hs])]
      simp only [State.putReconnect,hm,Effect.map,hs] at hstep ⊢
      exact hstep
    · simp only [Effect.map,hs] at hland hstep ⊢
      obtain ⟨_,_,rfl⟩ := spawn_monitor hland
      simp only [State.putReconnect,hpc]
      exact hstep

/-- The monitor thread drives until it returns. -/
theorem Lone.monitor_drives (h : Lone s) {pc : MonitorPc} {e : Effect (Option MonitorPc)}
    (hm : s.monitor = some pc) (he : monitorStep cfg s.members pc ok = some e)
    (hland : (State.putMonitor e.pc { s with members := e.members }).spawn cfg e.spawn = some s') :
    Passive s (.monitor ok) e.events s' ∨ Drives cfg s (.monitor ok) e.events s' := by
  have hst := h.not_starting_of_monitor hm
  have hf := spawn_frame hland
  have hst' : ¬s'.user.Starting := by
    rw [hf.user]
    exact hst
  have hspawn : e.spawn = none ∨ e.spawn = some .heartbeat := by
    rcases monitorStep_cases he with ⟨p,e,rfl,_,hp,rfl⟩ | ⟨hs,_⟩
    · rcases (loopStep_frame hp).spawn with hs | ⟨_,hs,_⟩ | ⟨rfl,_,_⟩
      · exact .inl hs
      · exact .inr hs
      · exact absurd hm h.spawned
    · exact .inl hs
  have hd : s.driver = monitorDriver (some pc) := by
    rw [driver_eq hst,h.loopDriver_of_monitor hm,hm]
  have hd' : s'.driver = (monitorDriver e.pc).next cfg e.spawn := by
    have hmon := hf.monitor (by rcases hspawn with hs | hs <;> simp [hs])
    have hrec := hf.reconnect (by rcases hspawn with hs | hs <;> simp [hs])
    rw [driver_eq hst',hmon,hrec]
    rcases hspawn with hs | hs <;> rw [hs]
    · exact h.loopDriver_of_monitor hm _
    · exact h.loopDriver_of_monitor hm _
  by_cases hret : pc = .ret ∨ pc = .reconnectLoop .ret
  · -- the thread exits
    rcases hret with rfl | rfl
    all_goals
      cases he
      refine .inl ⟨hd'.trans hd.symm,?_,by simp [Quiet],.inr ⟨hf.members,hf.heartbeat⟩⟩
      rw [hf.members]
      exact .refl _
  · rw [not_or] at hret
    rw [monitorDriver_thread hret.1 hret.2] at hd
    refine .inr ⟨by rw [Action.position,hm,hd]; rfl,e.spawn,?_,hf.heartbeat⟩
    rw [hd,hd',hf.members]
    exact .thread he

/-- Every step of the manager is a step of the driver or within what the driver relies on, apart
from a call of `start` after a `stop`. -/
theorem Lone.step_driver (h : Lone s) (ho : a = .start → s.user = .fresh)
    (ht : Transition cfg s a es s') : Passive s a es s' ∨ Drives cfg s a es s' := by
  cases ht with
  | fault => exact .inl ⟨rfl,.refl _,by simp [Quiet],.inr ⟨rfl,rfl⟩⟩
  | loss hc => exact .inl ⟨rfl,⟨rfl,by simp [hc],.inl rfl⟩,by simp [Quiet],.inl rfl⟩
  | startCall _ =>
    have hfresh : s.driver = .fresh := by
      rw [State.driver,ho rfl]
      rfl
    refine .inr ⟨by rw [hfresh]; rfl,none,?_,rfl⟩
    rw [hfresh]
    exact .call
  | stopCall hu =>
    have hst : ¬s.user.Starting := by
      rw [hu]
      exact id
    refine .inl ⟨?_,.refl _,by simp [Quiet],.inl rfl⟩
    rw [driver_eq hst]
    rfl
  | stop hu hs =>
    have hf := stopStep_frame hu hs
    have hst : ¬s.user.Starting := by
      rw [hu]
      exact id
    refine .inl ⟨?_,hf.rely,hf.quiet,.inl ?_⟩
    · rw [driver_eq hst,driver_eq hf.user,hf.threads.2.1,hf.threads.2.2]
    · rw [Action.position,hu]
  | heartbeat hh he hland =>
    obtain ⟨hs,hes,hmem,hgen⟩ := heartbeatStep_frame he
    rw [hs] at hland
    obtain rfl := spawn_none.mp hland
    refine .inl ⟨rfl,⟨?_,hgen,.inl ?_⟩,?_,.inl rfl⟩
    · rw [State.putHeartbeat,hmem]
    · rw [State.putHeartbeat,hmem]
    · rcases hes with hes | hes <;> simp [Quiet,hes]
  | start hu he hland => exact .inr (h.start_drives hu he hland)
  | reconnect hr he hland => exact h.reconnect_drives hr he hland
  | monitor hm he hland => exact h.monitor_drives hm he hland

theorem Solo.step_driver (h : Solo s) (ho : Once s a) (ht : Transition cfg s a es s') :
    Passive s a es s' ∨ Drives cfg s a es s' :=
  h.lone.step_driver ho ht

theorem solo_init : Solo init := by
  constructor <;> simp [init]

/-- Proof rule: what the driver's steps preserve, and the other threads as far as the driver
relies on them, holds on every run. `Q` is what the run's condition says of the driver's step. -/
theorem run_driver {P : State → Action → Prop} {Q : Driver → Bool → Prop}
    {I : List Event → Driver → Members → Prop}
    (hP : ∀ s a, P s a → Once s a ∧ ∀ d, a.position s = some d → Q d a.ok)
    (h₀ : I [] .fresh init.members)
    (hrely : ∀ tr d m es m', I tr d m → Rely m m' → Quiet es → I (tr++es) d m')
    (hstep : ∀ tr d m ok es o d' m', I tr d m → Q d ok → Driver.Step cfg ok d m es o d' m' →
      I (tr++es) d' m')
    {tr : List Event} (h : (manager cfg).RunWhere P init tr s) :
    Solo s ∧ I tr s.driver s.members := by
  refine h.invariant (I := fun tr s => Solo s ∧ I tr s.driver s.members) ⟨solo_init,h₀⟩ ?_
  rintro tr s a s' es ⟨hsolo,hi⟩ hp hs
  obtain ⟨honce,hq⟩ := hP s a hp
  have ht := step_transition hs
  refine ⟨hsolo.step honce ht,?_⟩
  rcases hsolo.step_driver honce ht with hpassive | ⟨hpos,o,hstep',_⟩
  · rw [hpassive.driver]
    exact hrely _ _ _ _ _ hi hpassive.rely hpassive.quiet
  · exact hstep _ _ _ _ _ _ _ _ hi (hq _ hpos) hstep'

end WsClient.Connection
