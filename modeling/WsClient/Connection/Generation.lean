import WsClient.Connection.NullChecks

/-!
# The generations of `client_`

Clients are numbered in the order in which they are created. A step keeps the client, resets it
or creates the next one, and it creates one only where `client_` is null.
-/

namespace WsClient.Connection
open WsClient.Lib

/-- The generation of the client that `client_` points to. -/
def Members.current (m : Members) : Option ℕ := m.client.map ClientObject.generation

/-- A client that is there afterwards was there before, or is new; `create` says whether it may
be. -/
structure Renumbers (create : Bool) (m m' : Members) : Prop where
  generation : m.generation ≤ m'.generation
  current : ∀ g, m'.current = some g →
    m.current = some g ∨ (create = true ∧ m.generation ≤ g ∧ g < m'.generation)

variable {cfg : ConnectionConfig} {m m' : Members} {ok create : Bool} {s s' : State} {a : Action}
  {es : List Event} {d d' : Driver} {o : Option Handle}

theorem renumbers_same (hc : m'.current = m.current) (hg : m'.generation = m.generation) :
    Renumbers create m m' :=
  ⟨hg.ge,fun _ h => .inl (hc.symm.trans h)⟩

theorem renumbers_of_keeps (h : KeepsClient m m') : Renumbers create m m' :=
  renumbers_same (by rw [Members.current,Members.current,h.client]) h.generation

@[simp] theorem hold_current (m : Members) (o : Option Handle) :
    (m.hold o).current = m.current := by
  rw [Members.current,hold_client]
  rfl

@[simp] theorem hold_generation (m : Members) (o : Option Handle) :
    (m.hold o).generation = m.generation := by
  cases o with
  | none => rfl
  | some handle => cases handle <;> rfl

theorem Renumbers.hold (h : Renumbers create m m') (o : Option Handle) :
    Renumbers create m (m'.hold o) := by
  refine ⟨?_,fun g hg => ?_⟩
  · rw [hold_generation]
    exact h.generation
  · rw [hold_current] at hg
    rw [hold_generation]
    exact h.current g hg

theorem tryConnectStep_renumbers {pc : ConnectPc} {e : Effect (ConnectPc ⊕ Bool)}
    (h : tryConnectStep cfg m pc ok = some e) : Renumbers (!pc.client?) m e.members := by
  cases pc with
  | create =>
    cases h
    refine ⟨Nat.le_succ _,fun g hg => .inr ⟨rfl,?_⟩⟩
    obtain rfl := Option.some.inj hg
    exact ⟨le_refl _,Nat.lt_succ_self _⟩
  | connect =>
    obtain ⟨c,hc,rfl⟩ := Option.map_eq_some_iff.mp h
    cases ok with
    | false => exact renumbers_same rfl rfl
    | true => exact renumbers_same (by rw [Members.current,Members.current,hc]; rfl) rfl
  | onConnect =>
    cases h
    exact renumbers_same rfl rfl
  | reset =>
    cases h
    refine ⟨le_refl _,fun g hg => ?_⟩
    cases hg

theorem startStep_renumbers {pc : StartPc} {e : Effect UserPc}
    (h : startStep cfg m pc ok = some e) : Renumbers (!pc.client?) m e.members := by
  rcases startStep_connects h with ⟨p,e₀,rfl,he₀,hmem,_⟩ | ⟨hkeep,_⟩
  · rw [hmem]
    exact tryConnectStep_renumbers he₀
  · exact renumbers_of_keeps hkeep

theorem loopStep_renumbers {pc : LoopPc} {e : Effect LoopPc}
    (h : loopStep cfg m pc ok = some e) : Renumbers (!pc.client?) m e.members := by
  rcases loopStep_connects h with ⟨b,p,e₀,rfl,he₀,hmem,_⟩ | ⟨hkeep,_⟩
  · rw [hmem]
    exact tryConnectStep_renumbers he₀
  · exact renumbers_of_keeps hkeep

/-- As seen from where the thread stands. -/
theorem renumbers_of_pc {client : Bool} (h : Renumbers (!client) m m') :
    Renumbers (decide (some client = some false)) m m' := by
  cases client with
  | false => exact h
  | true => exact h

theorem monitorStep_renumbers {pc : MonitorPc} {e : Effect (Option MonitorPc)}
    (h : monitorStep cfg m pc ok = some e) :
    Renumbers (decide ((Driver.thread pc).client? = some false)) m e.members := by
  rcases monitorStep_connects h with ⟨p,e₀,rfl,he₀,hmem,_⟩ | ⟨⟨_,hmem⟩ | hkeep,_⟩
  · rw [hmem]
    exact renumbers_of_pc (loopStep_renumbers he₀)
  · rw [hmem]
    refine ⟨le_refl _,fun g hg => ?_⟩
    cases hg
  · exact renumbers_of_keeps hkeep

/-- The driver creates a client only where it knows that there is none. -/
theorem Driver.Step.renumbers (h : Driver.Step cfg ok d m es o d' m') :
    Renumbers (decide (d.client? = some false)) m m' := by
  cases h with
  | call => exact renumbers_same rfl rfl
  | start he => exact (renumbers_of_pc (startStep_renumbers he)).hold _
  | thread he => exact (monitorStep_renumbers he).hold _

/-- A driver that does not reset the client keeps it. -/
theorem Driver.Step.keeps (h : Driver.Step cfg ok d m es o d' m') (hd : d.resets = false)
    (howned : Owned d m) {g : ℕ} (hg : m.current = some g) : m'.current = some g := by
  have hsome : m.client.isSome = true := by
    rw [Members.current] at hg
    obtain ⟨c,hc,_⟩ := Option.map_eq_some_iff.mp hg
    rw [hc]
    rfl
  have hsome' : m'.client.isSome = true := by
    cases h with
    | call => exact hsome
    | start he =>
      rw [hold_client]
      exact startStep_isSome he hd hsome
    | thread he =>
      rw [hold_client]
      exact monitorStep_isSome he hd hsome
  obtain ⟨c,hc⟩ := Option.isSome_iff_exists.mp hsome'
  have hcur : m'.current = some c.generation := by rw [Members.current,hc]; rfl
  rcases h.renumbers.current _ hcur with hsame | ⟨hcreate,_⟩
  · rw [hcur,← hsame,hg]
  · -- a client is created only where there is none
    have hnone := howned.client false (of_decide_eq_true hcreate)
    rw [hsome] at hnone
    cases hnone

/-- A step of the manager that is not a reset keeps the client. -/
theorem Transition.keeps (h : Transition cfg s a es s') (hsolo : Solo s)
    (howned : Owned s.driver s.members) (ho : Once s a)
    (hreset : (a.position s).any Driver.resets = false) {g : ℕ} (hg : s.members.current = some g) :
    s'.members.current = some g := by
  rcases hsolo.step_driver ho h with hpassive | ⟨hpos,o,hstep,_⟩
  · exact hpassive.rely.client.trans hg
  · rw [hpos] at hreset
    exact hstep.keeps hreset howned hg

theorem stopStep_generation {pc : StopPc} (h : stopStep s pc = some (s',es)) :
    s'.members.generation = s.members.generation := by
  cases pc <;> simp only [stopStep,Members.setState] at h <;> grind

/-- Every step of the manager keeps the numbering. -/
theorem Transition.renumbers (h : Transition cfg s a es s') :
    Renumbers true s.members s'.members := by
  have hweaken : ∀ {b : Bool} {m m' : Members}, Renumbers b m m' → Renumbers true m m' :=
    fun hr => ⟨hr.generation,fun g hg => (hr.current g hg).imp id fun hnew => ⟨rfl,hnew.2⟩⟩
  cases h with
  | fault => exact renumbers_same rfl rfl
  | startCall _ => exact renumbers_same rfl rfl
  | stopCall _ => exact renumbers_same rfl rfl
  | loss hc => exact renumbers_same (by rw [Members.current,Members.current,hc]; rfl) rfl
  | stop hu hs => exact renumbers_same (stopStep_frame hu hs).rely.client (stopStep_generation hs)
  | @heartbeat _ _ e _ _ he hland =>
    obtain ⟨_,_,hmem,hgen⟩ := heartbeatStep_frame he
    rw [(spawn_frame hland).members]
    have hcounter : e.members.generation = s.members.generation := by rw [hmem]
    exact (renumbers_same hgen hcounter).hold _
  | start _ he hland =>
    rw [(spawn_frame hland).members]
    exact (hweaken (startStep_renumbers he)).hold _
  | monitor _ he hland =>
    rw [(spawn_frame hland).members]
    exact (hweaken (monitorStep_renumbers he)).hold _
  | reconnect _ he hland =>
    rw [(spawn_frame hland).members]
    rcases reconnectStep_cases he with ⟨_,rfl⟩ | ⟨_,e₀,he₀,rfl⟩
    · exact (renumbers_same rfl rfl).hold _
    · exact (hweaken (loopStep_renumbers he₀)).hold _

end WsClient.Connection
