import WsClient.Managed.Lifetime
import WsClient.Connection.Recovery
import WsClient.Client.Receiver

/-!
# Quitting and the monitor

After `/exit` `chat_session` closes the client before `stop` clears `should_run_`. A monitor
that polls in between finds a client that does not run, and cannot tell that from a loss. The
manager stays out of it as long as no thread is in the handling of a loss at `/exit` and none
gets there afterwards.
-/

namespace WsClient.Session
open WsClient.Lib WsClient.Client

/-- In the command loop, past an `is_running` that has answered yes. -/
def ChatPc.looping : ChatPc → Bool
  | .prompt | .message _ | .bench _ | .benchCopy _ _ _ | .setKind _ | .write _ | .spin _
  | .spinning _ | .record _ _ | .benchFree _ _ => true
  | _ => false

variable {ρ β : Type*} {moved : Message → Message} {ndebug : Bool}
  {server : System (Wire × ρ) β Empty} {s s' : State ρ} {a : Action β} {es : List Event}

theorem ChatPc.Pops.looping {pc pc' : ChatPc} {ces : List Client.Event} (h : pc.Pops ces pc')
    (hl : pc'.looping = true) : pc.looping = true := by
  cases h <;> first | rfl | cases hl

/-- `chat_session` gets into its command loop with a client that runs. -/
theorem chat_looping (hs : chatStep moved ndebug s = some (s',es))
    (hl : s'.chat.looping = true) : s.chat.looping = true ∨ s.client.running = true := by
  obtain ⟨client,text,closed,wire,srv,pc,pool,stats,benchStats⟩ := s
  cases pc with
  | greeting i =>
    simp only [chatStep] at hs
    split at hs
    · obtain ⟨_,_,_,_,rfl⟩ := State.onClient_some hs
      cases hl
    · cases hs
      cases hl
  | isRunning =>
    cases hs
    cases hrun : client.running with
    | false => simp [hrun,ChatPc.looping] at hl
    | true => exact .inr rfl
  | closeStore =>
    simp only [chatStep] at hs
    obtain ⟨_,_,_,_,rfl⟩ := State.onClient_some hs
    cases hl
  | closeStream =>
    cases hs
    cases hl
  | closeJoin =>
    simp only [chatStep] at hs
    split at hs <;> cases hs
    cases hl
  | greetingTry i => cases hs
  | returned => cases hs
  | _ => exact .inl rfl

theorem looping_step (hs : (session moved ndebug server).step s a = some (s',es))
    (hl : s'.chat.looping = true) : s.chat.looping = true ∨ s.client.running = true := by
  cases a with
  | chat => exact chat_looping hs hl
  | line input =>
    obtain ⟨client,text,closed,wire,srv,pc,pool,stats,benchStats⟩ := s
    simp only [session,Session.step] at hs
    split at hs
    · exact .inl rfl
    · exact .inl rfl
    · exact .inl rfl
    · exact .inl rfl
    · cases hs
  | consumer obs =>
    cases step_transition hs with
    | pop hpc _ => exact .inl (hpc.looping hl)
  | _ =>
    cases step_transition hs
    exact .inl hl

/-- No step of the session makes a client run again. -/
theorem was_running (hs : (session moved ndebug server).step s a = some (s',es))
    (hrun : s'.client.running = true) : s.client.running = true := by
  cases step_transition hs with
  | chat hg | line hg =>
    rw [hg.client] at hrun
    exact hrun
  | note _ hc _ _ _ =>
    rw [hc] at hrun
    exact hrun
  | call _ hc | pop _ hc | receiver hc | readError hc | producer hc | read _ hc =>
    exact Client.was_running hc hrun
  | _ => exact hrun

/-- The other threads leave `chat_session` where it is. -/
theorem chat_of_thread (hs : (session moved ndebug server).step s a = some (s',es))
    (ha : a.onMain = false) : s'.chat = s.chat := by
  cases step_transition hs with
  | chat _ | line _ | call _ _ | write _ | note _ _ _ _ _ | pop _ _ => cases ha
  | _ => rfl

end WsClient.Session

namespace WsClient.Managed
open WsClient.Lib WsClient.Client

/-- A loss is stored or reported, or an attempt begins. -/
def Event.recovery : Event → Bool
  | .main (.manager event) => event.recovery
  | _ => false

/-- Runs in which every step of the manager's threads stays out of the handling of a loss and
away from a reset of the client that `chat_session` was given. -/
def Heeds {ρ β : Type*} (s : State ρ) : Action β → Prop
  | .manager a => (a.position s.main.manager).all (fun d =>
      d.spares s.main.args.connConfig s.given s.main.manager.members a.ok) = true
  | _ => True

instance {ρ β : Type*} : ∀ (s : State ρ) (a : Action β), Decidable (Heeds s a)
  | _, .manager _ => inferInstanceAs (Decidable (_ = true))
  | _, .main _ => .isTrue trivial
  | _, .session _ => .isTrue trivial

/-- No thread is in the handling of a loss, or about to reset the client that `chat_session` was
given. -/
def Clear {ρ : Type*} (s : State ρ) : Prop :=
  s.main.manager.driver.recovering = false ∧
    (s.main.manager.driver.resets = true → s.main.manager.members.current ≠ some s.given)

instance {ρ : Type*} : ∀ s : State ρ, Decidable (Clear s) :=
  fun _ => inferInstanceAs (Decidable (_ ∧ _))

variable {ρ β : Type*} {sslEnabled : Bool} {argv : List String} {moved : Message → Message}
  {ndebug : Bool} {server : System (Session.Wire × ρ) β Empty} {srv : ρ} {s s' : State ρ}
  {a : Action β} {es : List Event}

section main

variable {t t' : Main.State} {mes : List Main.Event}

/-- `start` has returned once `main` is past it. -/
def Begun (t : Main.State) : Prop :=
  ∀ pc, t.pc = .managed pc → pc ≠ .start → pc ≠ .starting → ¬t.manager.user.Starting

theorem begun_of_pc (h : ∀ pc, t.pc = .managed pc → pc = .start ∨ pc = .starting) : Begun t := by
  intro pc hpc hstart hstarting
  rcases h pc hpc with h | h
  · exact absurd h hstart
  · exact absurd h hstarting

theorem main_begun {ok : Bool} (h : Begun t)
    (hs : Main.step sslEnabled argv t (.main ok) = some (t',mes)) : Begun t' := by
  simp only [Main.step] at hs
  split at hs
  · cases hs
  · cases hpc : t.pc with
    | parseArgs =>
      simp only [hpc] at hs
      split at hs <;> cases hs
      · exact begun_of_pc fun pc hpc => by cases hpc
      · refine begun_of_pc fun pc hpc => ?_
        simp only [Main.Pc.dispatch] at hpc
        grind
    | managed pc =>
      simp only [hpc] at hs
      have hst := h pc hpc
      cases pc with
      | start =>
        obtain ⟨⟨mgr,ces⟩,_,he⟩ := Option.map_eq_some_iff.mp hs
        cases he
        exact begun_of_pc fun pc hpc => by cases hpc; exact .inr rfl
      | stop =>
        -- `stop` is called on a manager whose `start` has returned
        obtain ⟨⟨mgr,ces⟩,hb,he⟩ := Option.map_eq_some_iff.mp hs
        cases he
        intro pc hpc _ _
        have ht : Connection.Transition t.args.connConfig t.manager .stop ces mgr :=
          Connection.step_transition hb
        exact ht.begun (by simp) (hst (by simp) (by simp))
      | starting =>
        simp only [Main.managedStep] at hs
        split at hs <;> cases hs
        next hu =>
          intro pc hpc _ _
          show ¬t.manager.user.Starting
          rw [hu]
          exact id
      | stopping =>
        simp only [Main.managedStep] at hs
        split at hs <;> cases hs
        intro pc hpc' _ _
        exact hst (by simp) (by simp)
      | _ =>
        cases hs
        intro pc hpc' _ _
        exact hst (by simp) (by simp)
    | direct type pc =>
      simp only [hpc] at hs
      refine begun_of_pc fun pc' hpc' => ?_
      cases pc
      all_goals cases ok <;> cases hs <;> cases hpc'
    | exited code => simp [hpc] at hs
    | terminated => simp [hpc] at hs

/-- Once it has called `chat_session`, `main` only calls `stop`. -/
theorem main_leaves {ok : Bool} (hs : Main.step sslEnabled argv t (.main ok) = some (t',mes))
    (h : called t.pc = true) :
    (t'.manager = t.manager ∧ mes = []) ∨ (t.pc = .managed .stop ∧ ∃ ces,
      (Connection.manager t.args.connConfig).step t.manager .stop = some (t'.manager,ces) ∧
        mes = ces.map .manager) := by
  simp only [Main.step] at hs
  split at hs
  · cases hs
  · cases hpc : t.pc with
    | managed pc =>
      rw [hpc] at h
      simp only [hpc] at hs
      cases pc with
      | session =>
        cases hs
        exact .inl ⟨rfl,rfl⟩
      | stop =>
        obtain ⟨⟨mgr,ces⟩,hb,he⟩ := Option.map_eq_some_iff.mp hs
        cases he
        exact .inr ⟨rfl,ces,hb,rfl⟩
      | stopping =>
        simp only [Main.managedStep] at hs
        split at hs <;> cases hs
        exact .inl ⟨rfl,rfl⟩
      | _ => cases h
    | exited code => simp [hpc] at hs
    | terminated => simp [hpc] at hs
    | _ =>
      rw [hpc] at h
      cases h

end main

/-- `chat_session` takes its steps while `main` is in it. -/
theorem session_onMain {b : Session.Action β}
    (hs : (program sslEnabled argv moved ndebug server srv).step s (.session b) = some (s',es))
    (hb : b.onMain = true) : s.main.pc = .managed .session := by
  simp only [program,Managed.step,hb] at hs
  split at hs
  · next pc hpc =>
    split at hs
    · cases hs
    · simp only [if_true] at hs
      split at hs
      · cases hs
      · next hin =>
        rw [hpc]
        exact congrArg Main.Pc.managed (Classical.not_not.mp hin)
  · cases hs

theorem called_step
    (hs : (program sslEnabled argv moved ndebug server srv).step s a = some (s',es))
    (h : called s.main.pc = true) : called s'.main.pc = true := by
  cases step_transition hs with
  | main _ hmain =>
    obtain ⟨t,mes,ht,_,rfl⟩ := onMain_some hmain
    exact (main_called ht h).1
  | deref hpc _ =>
    rw [hpc] at h
    cases h
  | manager hmgr =>
    obtain ⟨t,mes,ht,_,rfl⟩ := onMain_some hmgr
    have hpc : t.pc = s.main.pc := (main_manager ht).1
    exact hpc ▸ h
  | session hsession =>
    obtain ⟨t,tes,_,_,rfl⟩ := onSession_some hsession
    exact h
  | dangling => rfl

/-- The client does not run, as far as the manager can see. -/
def Silent (m : Connection.Members) : Prop := ∀ c, m.client = some c → c.running = false

theorem follow_silent {m m' : Connection.Members} {t : Session.State ρ}
    (h : Silent m → t.client.running = false) (hm : Silent m') :
    (follow srv m m' t).client.running = false := by
  unfold follow
  cases hc' : m'.client with
  | none => rfl
  | some c' =>
    have hdown := hm c' hc'
    dsimp only
    split
    · rw [hdown]
      cases hc : m.client with
      | none =>
        refine h fun c hmc => ?_
        rw [hc] at hmc
        cases hmc
      | some c =>
        cases hrun : c.running with
        | true =>
          simp only [Option.any_some,hrun]
        | false =>
          simp only [Option.any_some,hrun]
          refine h fun d hmd => ?_
          rw [hc] at hmd
          cases hmd
          exact hrun
    · rfl

theorem pinged_running (mes : List Main.Event) (t : Session.State ρ) :
    (pinged mes t).client.running = t.client.running := by
  unfold pinged
  split <;> rfl

/-- A client that runs is one that the manager sees running, and `chat_session` has got to its
command loop with such a one: an attempt that is under way then is on another. -/
structure Prompting (s : State ρ) : Prop where
  tracked : Tracked s
  begun : Begun s.main
  unconnected : Connection.Unconnected s.main.manager
  silent : Silent s.main.manager.members → s.session.client.running = false
  greeting : called s.main.pc = false → s.session.chat = .greeting 0
  foreign : s.main.pc = .managed .session → s.session.chat.looping = true →
    s.main.manager.driver.connecting = true → s.main.manager.members.current ≠ some s.given

namespace Prompting

/-- A step of `main`. -/
theorem onMain (h : Prompting s) {ok : Bool}
    (hs : s.onMain sslEnabled argv srv (.main ok) = some (s',es)) :
    Begun s'.main ∧ Connection.Unconnected s'.main.manager ∧
      (Silent s'.main.manager.members → s'.session.client.running = false) ∧
      (called s'.main.pc = false → s'.session.chat = .greeting 0) := by
  obtain ⟨t,mes,ht,rfl,rfl⟩ := onMain_some hs
  have hf := main_frame ht
  refine ⟨main_begun h.begun ht,?_,fun hsilent => ?_,fun hnot => ?_⟩
  · rcases hf.manager with hm | ⟨b,ces,hb,hstart⟩
    · show Connection.Unconnected t.manager
      rw [hm]
      exact h.unconnected
    · refine h.unconnected.step h.tracked.manager.solo (fun hcall => ?_)
        (Connection.step_transition hb)
      rw [h.tracked.fresh (.inr (hstart hcall))]
      rfl
  · rw [pinged_running]
    exact follow_silent h.silent hsilent
  · have hcalled : called s.main.pc = false := by
      by_contra hc
      have hc' := (main_called ht (Bool.eq_true_of_not_eq_false hc)).1
      rw [hnot] at hc'
      cases hc'
    simpa using h.greeting hcalled

/-- A step of the manager's threads: the client of an attempt that begins is newer than the one
`chat_session` was given. -/
theorem onManager (h : Prompting s) {b : Connection.Action}
    (hs : s.onMain sslEnabled argv srv (.manager b) = some (s',es)) : Prompting s' := by
  have htr := (h.tracked.onManager hs).1
  obtain ⟨t,mes,hmain,rfl,rfl⟩ := onMain_some hs
  obtain ⟨hpc,_,hb,_,ces,hstep,_⟩ := main_manager hmain
  have ht := Connection.step_transition hstep
  have honce : Connection.Once s.main.manager b := fun hcall => absurd hcall hb
  refine ⟨htr,fun pc hpc' hstart hstarting => ?_,?_,fun hsilent => ?_,fun hnot => ?_,
    fun hin hloop hconn => ?_⟩
  · exact ht.begun hb (h.begun pc (hpc.symm.trans hpc') hstart hstarting)
  · exact h.unconnected.step h.tracked.manager.solo honce ht
  · rw [pinged_running]
    exact follow_silent h.silent hsilent
  · have hchat := h.greeting (hpc ▸ hnot)
    simpa using hchat
  · have hin : s.main.pc = .managed .session := hpc.symm.trans hin
    have hloop : s.session.chat.looping = true := by simpa using hloop
    show t.manager.members.current ≠ some s.given
    have hconn : t.manager.driver.connecting = true := hconn
    rcases h.tracked.manager.solo.step_driver honce ht with hpassive | ⟨_,o,hdrive,_⟩
    · rw [hpassive.driver] at hconn
      have hcur : t.manager.members.current = s.main.manager.members.current :=
        hpassive.rely.client
      rw [hcur]
      exact h.foreign hin hloop hconn
    · have hnew := hdrive.connecting hconn
      rw [Connection.Members.current,hnew]
      intro heq
      exact Nat.ne_of_gt (h.tracked.given hin) (Option.some.inj heq)

/-- A step of the session, which tells the manager of a client that has stopped. -/
theorem onSession (h : Prompting s) {b : Session.Action β}
    (hs : s.onSession moved ndebug server b = some (s',es))
    (hmain : b.onMain = true → s.main.pc = .managed .session) : Prompting s' := by
  have htr := (h.tracked.onSession hs).1
  obtain ⟨t,tes,hstep,_,rfl⟩ := onSession_some hs
  have hcur : (if t.client.running then s.main.manager.members
      else lost s.main.manager.members).current = s.main.manager.members.current := by
    split
    · rfl
    · exact lost_current _
  refine ⟨htr,h.begun,fun hconn c hc => ?_,fun hsilent => ?_,fun hnot => ?_,
    fun hin hloop hconn => ?_⟩
  · cases hrun : t.client.running with
    | true =>
      simp only [hrun,if_true] at hc
      exact h.unconnected hconn c hc
    | false =>
      simp only [hrun,Bool.false_eq_true,if_false] at hc
      obtain ⟨c₀,_,rfl⟩ := Option.map_eq_some_iff.mp hc
      rfl
  · by_contra hne
    have hrun : t.client.running = true := Bool.eq_true_of_not_eq_false hne
    simp only [hrun,if_true] at hsilent
    -- the session's steps never set `running_` again
    have hbefore := Session.was_running hstep hrun
    rw [h.silent hsilent] at hbefore
    cases hbefore
  · have hthread : b.onMain = false := by
      by_contra hb
      have hin := hmain (Bool.eq_true_of_not_eq_false hb)
      rw [hin] at hnot
      cases hnot
    exact (Session.chat_of_thread hstep hthread).trans (h.greeting hnot)
  · show (if t.client.running then s.main.manager.members
      else lost s.main.manager.members).current ≠ some s.given
    rw [hcur]
    rcases Session.looping_step hstep hloop with hbefore | hrun
    · exact h.foreign hin hbefore hconn
    · -- `is_running` answers yes, so no attempt waits for its `connect`
      intro _
      rw [h.silent (h.unconnected hconn)] at hrun
      cases hrun

theorem step (h : Prompting s)
    (hs : (program sslEnabled argv moved ndebug server srv).step s a = some (s',es)) :
    Prompting s' := by
  have htr := h.tracked.step hs
  cases step_transition hs with
  | main hne hmain =>
    obtain ⟨hbegun,hunc,hsilent,hgreeting⟩ := h.onMain hmain
    exact ⟨htr,hbegun,hunc,hsilent,hgreeting,
      fun hin => absurd ((h.tracked.onMain hmain).2.2 hin).1 hne⟩
  | deref hpc hmain =>
    obtain ⟨hbegun,hunc,hsilent,hgreeting⟩ := h.onMain hmain
    refine ⟨htr,hbegun,hunc,hsilent,hgreeting,fun _ hloop => ?_⟩
    obtain ⟨t,mes,_,rfl,rfl⟩ := onMain_some hmain
    have hchat := h.greeting (by rw [hpc]; rfl)
    simp only [pinged_chat,follow_chat,hchat] at hloop
    cases hloop
  | manager hmgr => exact h.onManager hmgr
  | session hsession => exact h.onSession hsession (session_onMain hs)
  | dangling =>
    refine ⟨htr,begun_of_pc fun pc hpc => ?_,h.unconnected,h.silent,fun hnot => ?_,fun hin => ?_⟩
    · cases hpc
    · cases hnot
    · cases hin

end Prompting

theorem prompting_init {storage : ℕ} {m : ByteMem} : Prompting (init srv storage m) where
  tracked := tracked_init
  begun := begun_of_pc fun pc hpc => by cases hpc
  unconnected := Connection.unconnected_init
  silent _ := rfl
  greeting _ := rfl
  foreign hin := by cases hin

theorem run_prompting {s₀ : State ρ} (h₀ : Prompting s₀) {tr : List Event}
    (h : (program sslEnabled argv moved ndebug server srv).Run s₀ tr s) : Prompting s :=
  h.invariant (I := fun _ s => Prompting s) h₀ fun _ _ _ _ _ hi _ hs => hi.step hs

/-! ## After `/exit` -/

/-- `chat_session` has been called, and the manager's threads will leave the client it was given
alone. -/
structure Parting (s : State ρ) : Prop where
  prompting : Prompting s
  called : called s.main.pc = true
  calm : s.main.manager.driver.Calm s.given s.main.manager.members

theorem not_recovery_map {ces : List Connection.Event} (h : ∀ e ∈ ces, e.recovery = false) :
    ∀ e ∈ (ces.map Main.Event.manager).map Event.main, e.recovery = false := by
  intro e he
  obtain ⟨e₁,he₁,rfl⟩ := List.mem_map.mp he
  obtain ⟨e₂,he₂,rfl⟩ := List.mem_map.mp he₁
  exact h e₂ he₂

namespace Parting

/-- `main` goes on to `stop`. -/
theorem onMain (h : Parting s) {ok : Bool}
    (hs : s.onMain sslEnabled argv srv (.main ok) = some (s',es)) :
    (∀ e ∈ es, e.recovery = false) ∧
      s'.main.manager.driver.Calm s.given s'.main.manager.members ∧
      s'.main.manager.members.current = s.main.manager.members.current := by
  obtain ⟨t,mes,ht,rfl,rfl⟩ := onMain_some hs
  rcases main_leaves ht h.called with ⟨hm,rfl⟩ | ⟨hpc,ces,hstep,rfl⟩
  · refine ⟨by simp,?_,?_⟩
    · show t.manager.driver.Calm s.given t.manager.members
      rw [hm]
      exact h.calm
    · show t.manager.members.current = _
      rw [hm]
  · have hst := h.prompting.begun .stop hpc (by simp) (by simp)
    have ht := Connection.step_transition hstep
    have honce : Connection.Once s.main.manager .stop := fun hcall => by cases hcall
    obtain ⟨hes,hcalm⟩ := ht.calm h.prompting.tracked.manager.solo honce hst h.calm
      fun d hd => by cases hd
    refine ⟨not_recovery_map hes,hcalm,?_⟩
    show t.manager.members.current = s.main.manager.members.current
    rw [Connection.stop_members hstep]

/-- A step of the manager's threads that heeds the quitting. -/
theorem onManager (h : Parting s) {b : Connection.Action}
    (hs : s.onMain sslEnabled argv srv (.manager b) = some (s',es))
    (hp : (b.position s.main.manager).all (fun d =>
      d.spares s.main.args.connConfig s.given s.main.manager.members b.ok) = true) :
    (∀ e ∈ es, e.recovery = false) ∧
      s'.main.manager.driver.Calm s.given s'.main.manager.members ∧
      (s.main.manager.members.current = some s.given →
        s'.main.manager.members.current = some s.given) := by
  obtain ⟨t,mes,hmain,rfl,rfl⟩ := onMain_some hs
  have hmgr := h.prompting.tracked.manager
  obtain ⟨hpc,_,hb,⟨pc,hin⟩,ces,hstep,rfl⟩ := main_manager hmain
  have ht := Connection.step_transition hstep
  have honce : Connection.Once s.main.manager b := fun hcall => absurd hcall hb
  have hst : ¬s.main.manager.user.Starting := by
    have hcalled := h.called
    rw [hin] at hcalled
    refine h.prompting.begun pc hin ?_ ?_
    · rintro rfl
      cases hcalled
    · rintro rfl
      cases hcalled
  have hspares : ∀ d, b.position s.main.manager = some d →
      d.spares s.main.args.connConfig s.given s.main.manager.members b.ok = true := by
    intro d hd
    rwa [hd] at hp
  obtain ⟨hes,hcalm⟩ := ht.calm hmgr.solo honce hst h.calm hspares
  refine ⟨not_recovery_map hes,hcalm,fun hcur => ?_⟩
  · show t.manager.members.current = some s.given
    rcases hmgr.solo.step_driver honce ht with hpassive | ⟨hpos,o,hdrive,_⟩
    · exact hpassive.rely.client.trans hcur
    · refine hdrive.keeps ?_ hmgr.owned hcur
      by_contra hreset
      exact h.calm.resets (Bool.eq_true_of_not_eq_false hreset) hcur

theorem step (h : Parting s) (hp : Heeds s a)
    (hs : (program sslEnabled argv moved ndebug server srv).step s a = some (s',es)) :
    (∀ e ∈ es, e.recovery = false) ∧ Parting s' ∧ s'.given = s.given ∧
      (s.main.manager.members.current = some s.given →
        s'.main.manager.members.current = some s.given) := by
  have hprompting := h.prompting.step hs
  have hcalled := called_step hs h.called
  cases step_transition hs with
  | main _ hmain =>
    obtain ⟨hes,hcalm,hcur⟩ := h.onMain hmain
    obtain ⟨t,mes,_,_,rfl⟩ := onMain_some hmain
    exact ⟨hes,⟨hprompting,hcalled,hcalm⟩,rfl,hcur.trans⟩
  | deref hpc _ =>
    have hbefore := h.called
    rw [hpc] at hbefore
    cases hbefore
  | manager hmgr =>
    obtain ⟨hes,hcalm,hcur⟩ := h.onManager hmgr hp
    obtain ⟨t,mes,_,_,rfl⟩ := onMain_some hmgr
    exact ⟨hes,⟨hprompting,hcalled,hcalm⟩,rfl,hcur⟩
  | session hsession =>
    obtain ⟨_,hgiven,hpc,hcur,_⟩ := h.prompting.tracked.onSession hsession
    obtain ⟨t,tes,_,rfl,rfl⟩ := onSession_some hsession
    refine ⟨fun e he => ?_,⟨hprompting,hcalled,h.calm.rely hcur⟩,hgiven,hcur.trans⟩
    obtain ⟨e,_,rfl⟩ := List.mem_map.mp he
    rfl
  | dangling => exact ⟨by simp,⟨hprompting,hcalled,h.calm⟩,rfl,id⟩

/-- What a step keeps, a run keeps. -/
theorem run {s₁ : State ρ} (h : Parting s₁) {tr : List Event}
    (hrun : (program sslEnabled argv moved ndebug server srv).RunWhere Heeds s₁ tr s) :
    (∀ e ∈ tr, e.recovery = false) ∧ (s₁.main.manager.members.current = some s₁.given →
      s.main.manager.members.current = some s₁.given) := by
  have hend : (∀ e ∈ tr, e.recovery = false) ∧ Parting s ∧ s.given = s₁.given ∧
      (s₁.main.manager.members.current = some s₁.given →
        s.main.manager.members.current = some s₁.given) := by
    refine hrun.invariant (I := fun tr s => (∀ e ∈ tr, e.recovery = false) ∧ Parting s ∧
      s.given = s₁.given ∧ (s₁.main.manager.members.current = some s₁.given →
        s.main.manager.members.current = some s₁.given)) ⟨by simp,h,rfl,id⟩ ?_
    rintro tr s a s' es ⟨htr,hparting,hg,hkept⟩ hp hs
    obtain ⟨hes,hparting',hg',hkept'⟩ := hparting.step hp hs
    refine ⟨fun e he => ?_,hparting',hg'.trans hg,fun hfirst => ?_⟩
    · rcases List.mem_append.mp he with he | he
      · exact htr e he
      · exact hes e he
    · rw [← hg]
      exact hkept' (hg.symm ▸ hkept hfirst)
  exact ⟨hend.1,hend.2.2.2⟩

end Parting

/-! ## What a step that does not heed leads to -/

/-- Whatever else happens, the manager can now go on to handle a loss, or to reset the client that
`chat_session` was given. -/
def Mistaken (M : System (State ρ) (Action β) Event) (s : State ρ) : Prop :=
  ∃ tr s', M.Run s tr s' ∧ ((∃ e ∈ tr, e.recovery = true) ∨
    (s.main.manager.members.current = some s.given ∧ s'.main.manager.members.current = none))

/-- `main` is past `start`, and the manager has not failed. -/
structure Live (s : State ρ) : Prop where
  prompting : Prompting s
  managed : ∃ pc, s.main.pc = .managed pc ∧ pc ≠ .start ∧ pc ≠ .starting
  fault : s.main.manager.fault = false

/-- A thread of the manager's takes its step. -/
theorem step_manager {pc : Main.ManagedPc} {d : Connection.MonitorPc} {b : Connection.Action}
    {mgr : Connection.State} {ces : List Connection.Event} (hpc : s.main.pc = .managed pc)
    (hf : s.main.manager.fault = false) (hpos : b.position s.main.manager = some (.thread d))
    (hs : (Connection.manager s.main.args.connConfig).step s.main.manager b = some (mgr,ces)) :
    ∃ s', (program sslEnabled argv moved ndebug server srv).step s (.manager b) =
        some (s',(ces.map .manager).map .main) ∧
      s'.main.manager = mgr ∧ s'.main.pc = s.main.pc ∧ s'.session.chat = s.session.chat := by
  have hs : Connection.step s.main.args.connConfig s.main.manager b = some (mgr,ces) := hs
  cases b with
  | user ok =>
    simp only [Connection.Action.position] at hpos
    split at hpos <;> cases hpos
  | monitor ok =>
    have hmain : Main.step sslEnabled argv s.main (.manager (.monitor ok)) =
        some ({ s.main with manager := mgr, pc := .managed pc },ces.map .manager) := by
      simp [Main.step,hf,hpc,Main.State.onManager,hs]
    exact ⟨_,congrArg (Option.map _) hmain,rfl,hpc.symm,by simp⟩
  | reconnect ok =>
    have hmain : Main.step sslEnabled argv s.main (.manager (.reconnect ok)) =
        some ({ s.main with manager := mgr, pc := .managed pc },ces.map .manager) := by
      simp [Main.step,hf,hpc,Main.State.onManager,hs]
    exact ⟨_,congrArg (Option.map _) hmain,rfl,hpc.symm,by simp⟩
  | _ => cases hpos

/-- A step of `main` or of the manager is taken on a manager that has not failed. -/
theorem fault_of_onMain {b : Main.Action} (hs : s.onMain sslEnabled argv srv b = some (s',es)) :
    s.main.manager.fault = false := by
  obtain ⟨t,mes,hmain,_⟩ := onMain_some hs
  simp only [Main.step] at hmain
  split at hmain
  · cases hmain
  · next hf => simpa using hf

theorem Live.driver_thread (h : Live s) (hd : s.main.manager.driver ≠ .gone) :
    ∃ d, s.main.manager.driver = .thread d := by
  obtain ⟨pc,hpc,hstart,hstarting⟩ := h.managed
  exact (Connection.driver_cases (h.prompting.begun pc hpc hstart hstarting)).resolve_left hd

section live

variable (sslEnabled : Bool) (argv : List String) (moved : Message → Message) (ndebug : Bool)
  (server : System (Session.Wire × ρ) β Empty) (srv : ρ)

/-- The driver takes its step, where it spawns nothing. -/
theorem Live.drive (h : Live s) {d : Connection.MonitorPc}
    (hd : s.main.manager.driver = .thread d) {e : Connection.Effect (Option Connection.MonitorPc)}
    (he : Connection.monitorStep s.main.args.connConfig s.main.manager.members d true = some e)
    (hspawn : e.spawn = none) :
    ∃ b s', (program sslEnabled argv moved ndebug server srv).step s (.manager b) =
        some (s',(e.events.map .manager).map .main) ∧ Live s' ∧
      s'.main.manager.driver = Connection.monitorDriver e.pc ∧
      s'.main.manager.members = e.members ∧ s'.main.pc = s.main.pc ∧
      s'.session.chat = s.session.chat := by
  obtain ⟨pc,hpc,hstart,hstarting⟩ := h.managed
  have hlone := h.prompting.tracked.manager.solo.lone
  have hst := h.prompting.begun pc hpc hstart hstarting
  obtain ⟨hloop,b,hok,hpos⟩ := Connection.exists_position hst hd
  rw [← hok] at he
  obtain ⟨mgr,hstep,hnext,hmem,hf⟩ := hlone.step_thread h.fault hpos hloop he hspawn
  obtain ⟨s',hs,rfl,hpc',hchat⟩ : ∃ s', (program sslEnabled argv moved ndebug server srv).step s
        (.manager b) = some (s',(e.events.map .manager).map .main) ∧
      s'.main.manager = mgr ∧ s'.main.pc = s.main.pc ∧ s'.session.chat = s.session.chat :=
    step_manager hpc h.fault hpos hstep
  have hlive : Live s' := ⟨h.prompting.step hs,⟨pc,hpc'.trans hpc,hstart,hstarting⟩,hf⟩
  exact ⟨b,s',hs,hlive,hnext,hmem,hpc',hchat⟩

/-- A driver in the handling of a loss goes on. -/
theorem Live.recovers (h : Live s) (hd : s.main.manager.driver.recovering = true) :
    Mistaken (program sslEnabled argv moved ndebug server srv) s := by
  suffices hrun : ∃ tr s', (program sslEnabled argv moved ndebug server srv).Run s tr s' ∧
      ∃ e ∈ tr, e.recovery = true from by
    obtain ⟨tr,s',hrun,he⟩ := hrun
    exact ⟨tr,s',hrun,.inl he⟩
  -- by the steps left until an event shows
  induction hn : s.main.manager.driver.lag using Nat.strongRecOn generalizing s with
  | ind n ih =>
    obtain ⟨d,hthread⟩ := h.driver_thread fun hgone => by
      rw [hgone] at hd
      cases hd
    rw [hthread] at hd hn
    obtain ⟨e,he,hspawn,hnext⟩ := Connection.monitorStep_recovers s.main.args.connConfig
      s.main.manager.members hd
    obtain ⟨b,s',hs,hlive,hdriver,_⟩ :=
      h.drive sslEnabled argv moved ndebug server srv hthread he hspawn
    have hfirst := System.RunWhere.step (P := fun _ _ => True) .start trivial hs
    rcases hnext with ⟨e',hmem,hshow⟩ | ⟨hrec,hlt⟩
    · refine ⟨_,s',hfirst,.main (.manager e'),?_,hshow⟩
      exact List.mem_map_of_mem (List.mem_map_of_mem hmem)
    · rw [← hdriver] at hrec hlt
      obtain ⟨tr,s'',hrest,hshow⟩ := ih _ (hn ▸ hlt) hlive hrec rfl
      obtain ⟨e',hmem,hshow⟩ := hshow
      exact ⟨_,s'',hfirst.append hrest,e',List.mem_append_right _ hmem,hshow⟩

/-- A driver that is about to reset the client does so. -/
theorem Live.resets (h : Live s) (hd : s.main.manager.driver.resets = true)
    (hcur : s.main.manager.members.current = some s.given) :
    Mistaken (program sslEnabled argv moved ndebug server srv) s := by
  obtain ⟨d,hthread⟩ := h.driver_thread fun hgone => by
    rw [hgone] at hd
    cases hd
  rw [hthread] at hd
  obtain ⟨e,he,hspawn,hnone⟩ := Connection.monitorStep_resets s.main.args.connConfig
    s.main.manager.members hd
  obtain ⟨b,s',hs,_,_,hmem,_⟩ :=
    h.drive sslEnabled argv moved ndebug server srv hthread he hspawn
  refine ⟨_,s',.step .start trivial hs,.inr ⟨hcur,?_⟩⟩
  rw [Connection.Members.current,hmem,hnone]
  rfl

variable {sslEnabled argv moved ndebug server srv}

/-- A step that does not heed leaves the manager on its way. -/
theorem Prompting.mistaken (h : Prompting s) (hcalled : called s.main.pc = true)
    (hs : (program sslEnabled argv moved ndebug server srv).step s a = some (s',es))
    (hp : ¬Heeds s a) : Mistaken (program sslEnabled argv moved ndebug server srv) s' := by
  cases a with
  | main ok => exact absurd trivial hp
  | session b => exact absurd trivial hp
  | manager b =>
    have hprompting := h.step hs
    cases step_transition hs with
    | manager hmgr =>
      have hf := fault_of_onMain hmgr
      obtain ⟨t,mes,hmain,_,rfl⟩ := onMain_some hmgr
      obtain ⟨hpc,_,hb,⟨pc,hin⟩,ces,hstep,_⟩ := main_manager hmain
      have hne : pc ≠ .start ∧ pc ≠ .starting := by
        rw [hin] at hcalled
        constructor
        all_goals
          rintro rfl
          cases hcalled
      have hst := h.begun pc hin hne.1 hne.2
      -- where the thread stands, and what its step does
      cases hpos : b.position s.main.manager with
      | none =>
        rw [Heeds,hpos] at hp
        exact absurd rfl hp
      | some d =>
        rw [Heeds,hpos] at hp
        have hd : d.spares s.main.args.connConfig s.given s.main.manager.members b.ok = false := by
          simpa using hp
        obtain ⟨d,rfl⟩ := Connection.position_thread hst (fun hcall => absurd hcall hb) hpos
        obtain ⟨hloop,e,he,hspawn,hnext⟩ := Connection.monitorStep_disturbs hd
        obtain ⟨mgr,hstep',hdriver,hmem,hf'⟩ :=
          h.tracked.manager.solo.lone.step_thread hf hpos hloop he hspawn
        rw [hstep] at hstep'
        obtain ⟨rfl,_⟩ := Prod.mk.inj (Option.some.inj hstep')
        have hlive : Live { s with
            main := t
            session := pinged mes (follow srv s.main.manager.members t.manager.members s.session) } :=
          ⟨hprompting,⟨pc,hpc.trans hin,hne.1,hne.2⟩,hf'⟩
        rw [← hdriver,← hmem] at hnext
        rcases hnext with hrec | ⟨hreset,hcur⟩
        · exact hlive.recovers _ _ _ _ _ _ hrec
        · exact hlive.resets _ _ _ _ _ _ hreset hcur

end live

/-- A line read at the prompt is a step of the session, which leaves the manager's threads where
they are. -/
theorem line_step {input : Option (List UInt8)} (hprompt : s.session.chat = .prompt)
    (hs : (program sslEnabled argv moved ndebug server srv).step s (.session (.line input)) =
      some (s',es)) :
    s.main.pc = .managed .session ∧ s.main.manager.fault = false ∧
      s.onSession moved ndebug server (.line input) = some (s',es) := by
  have hin := session_onMain hs rfl
  have hcalls : s.session.chat.calls = false := by
    rw [hprompt]
    rfl
  simp only [program,Managed.step,hin,hcalls] at hs
  split at hs
  · cases hs
  · next hf =>
    simp only [Session.Action.onMain,if_true,ne_eq,not_true_eq_false,Bool.false_eq_true,
      false_and,if_false] at hs
    exact ⟨hin,by simpa using hf,hs⟩

/-- If no thread of the manager's is in the handling of a loss when `chat_session` reads `/exit`,
and every step from then on heeds the quitting, then no loss is stored or reported, no attempt
begins and the client is not reset; in a run where that fails the manager can go on to one of
these. -/
theorem quit_not_taken_for_loss (sslEnabled : Bool) (argv : List String)
    (moved : Message → Message) (ndebug : Bool) (server : System (Session.Wire × ρ) β Empty)
    (srv : ρ) (storage : ℕ) (m : ByteMem) {pre : List Event} {s₀ s₁ : State ρ}
    (h : (program sslEnabled argv moved ndebug server srv).Run (init srv storage m) pre s₀)
    (hprompt : s₀.session.chat = .prompt)
    (hexit : (program sslEnabled argv moved ndebug server srv).step s₀
      (.session (.line (some (Session.bytes "/exit")))) = some (s₁,es)) :
    (Clear s₀ → ∀ post s,
      (program sslEnabled argv moved ndebug server srv).RunWhere Heeds s₁ post s →
      (∀ e ∈ post, e.recovery = false) ∧ (s₁.main.manager.members.current = some s₁.given →
        s.main.manager.members.current = some s₁.given)) ∧
      (¬Clear s₀ → Mistaken (program sslEnabled argv moved ndebug server srv) s₁) ∧
      ∀ post s, (program sslEnabled argv moved ndebug server srv).Run s₁ post s →
        ∀ a s' es, (program sslEnabled argv moved ndebug server srv).step s a = some (s',es) →
          ¬Heeds s a → Mistaken (program sslEnabled argv moved ndebug server srv) s' := by
  have hprompting := run_prompting prompting_init h
  have hprompting' := hprompting.step hexit
  obtain ⟨hin,hf,hline⟩ := line_step hprompt hexit
  obtain ⟨_,hgiven,hpc,hcur,_⟩ := hprompting.tracked.onSession hline
  obtain ⟨t,tes,_,_,heq⟩ := onSession_some hline
  have hdriver : s₁.main.manager.driver = s₀.main.manager.driver := by
    rw [heq]
    rfl
  have hf' : s₁.main.manager.fault = false := by
    rw [heq]
    exact hf
  have hcalled : called s₁.main.pc = true := by
    rw [hpc,hin]
    rfl
  have hlive : Live s₁ := ⟨hprompting',⟨.session,hpc.trans hin,by simp,by simp⟩,hf'⟩
  refine ⟨fun hclear post s hrest => ?_,fun hclear => ?_,fun post s hrest a s' es hs hp => ?_⟩
  · -- `/exit` moves the session on and leaves the driver where it is
    have hcalm : s₁.main.manager.driver.Calm s₁.given s₁.main.manager.members := by
      rw [hdriver,hgiven]
      refine Connection.Driver.Calm.rely ⟨hclear.1,?_,hclear.2⟩ hcur
      exact hprompting.foreign hin (by rw [hprompt]; rfl)
    exact Parting.run ⟨hprompting',hcalled,hcalm⟩ hrest
  · by_cases hrec : s₁.main.manager.driver.recovering = true
    · exact hlive.recovers _ _ _ _ _ _ hrec
    · have hreset : s₁.main.manager.driver.resets = true ∧
          s₁.main.manager.members.current = some s₁.given := by
        rw [hdriver] at hrec ⊢
        rw [hcur,hgiven]
        by_contra hnone
        exact hclear ⟨by simpa using hrec,fun hreset hgone => hnone ⟨hreset,hgone⟩⟩
      exact hlive.resets _ _ _ _ _ _ hreset.1 hreset.2
  · have hend : called s.main.pc = true :=
      hrest.invariant (I := fun _ s => called s.main.pc = true) hcalled
        fun _ _ _ _ _ hc _ hs => called_step hs hc
    exact (run_prompting hprompting' hrest).mistaken hend hs hp

/-- The monitor thread sleeps from before `/exit` until `stop` has cleared `should_run_`. -/
theorem quit_not_taken_for_loss_asleep :
    ∃ pre s₀ s₁ es post s,
      (program false ["websocket_client","--reconnect"] id true Session.echo none).Run
        (init none 4096 fun _ => 0) pre s₀ ∧ s₀.session.chat = .prompt ∧ Clear s₀ ∧
      (program false ["websocket_client","--reconnect"] id true Session.echo none).step s₀
        (.session (.line (some (Session.bytes "/exit")))) = some (s₁,es) ∧
      (program false ["websocket_client","--reconnect"] id true Session.echo none).RunWhere Heeds
        s₁ post s ∧ s.main.pc = .exited 0 ∧ ∀ e ∈ post, e.recovery = false := by
  have hexec : ((program false ["websocket_client","--reconnect"] id true Session.echo
      none).execWhere (fun _ _ => True) (init none 4096 fun _ => 0)
      (System.schedule [(2,[.main true]),(9,[.manager (.user true)]),(5,[.main true]),
        (100,[.session .chat,.session (.consumer 0),.session (.consumer 0)]),
        (2,[.session .chat]),(1,[.manager (.monitor true)])])).any
      (fun r => decide (r.1.session.chat = .prompt ∧ Clear r.1) &&
        ((program false ["websocket_client","--reconnect"] id true Session.echo none).step r.1
          (.session (.line (some (Session.bytes "/exit"))))).any (fun q =>
            ((program false ["websocket_client","--reconnect"] id true Session.echo
              none).execWhere Heeds q.1
              (System.schedule [(2,[.session .chat]),(2,[.session .receiver]),(1,[.session .chat]),
                (2,[.main true]),(7,[.manager (.user true)]),(2,[.manager (.heartbeat true)]),
                (3,[.manager (.monitor true)]),(5,[.manager (.user true)]),
                (1,[.main true])])).any (fun t => decide (t.1.main.pc = .exited 0)))) = true := by
    decide +kernel
  obtain ⟨s₀,pre,hrun,hs⟩ := System.exists_run_of_exec hexec
  rw [Bool.and_eq_true] at hs
  obtain ⟨hprompt,hclear⟩ : s₀.session.chat = .prompt ∧ Clear s₀ := of_decide_eq_true hs.1
  obtain ⟨⟨s₁,es⟩,hexit,hafter⟩ := (Option.any_eq_true _ _).mp hs.2
  obtain ⟨s,post,hpost,hend⟩ := System.exists_run_of_exec hafter
  exact ⟨pre,s₀,s₁,es,post,s,hrun,hprompt,hclear,hexit,hpost,of_decide_eq_true hend,
    ((quit_not_taken_for_loss _ _ _ _ _ _ _ _ hrun hprompt hexit).1 hclear post s hpost).1⟩

/-- The monitor thread polls after `chat_session` has closed the client, before `stop`. -/
theorem quit_taken_for_loss :
    ¬∀ sslEnabled argv moved ndebug storage m pre s₀ s₁ es post s,
      (program sslEnabled argv moved ndebug Session.echo none).Run (init none storage m) pre s₀ →
      s₀.session.chat = .prompt →
      (program sslEnabled argv moved ndebug Session.echo none).step s₀
        (.session (.line (some (Session.bytes "/exit")))) = some (s₁,es) →
      (program sslEnabled argv moved ndebug Session.echo none).Run s₁ post s →
      (∀ e ∈ post, e.recovery = false) ∧ (s₁.main.manager.members.current = some s₁.given →
        s.main.manager.members.current = some s₁.given) := by
  intro hall
  have hexec : ((program false ["websocket_client","--reconnect"] id true Session.echo
      none).execWhere (fun _ _ => True) (init none 4096 fun _ => 0)
      (System.schedule [(2,[.main true]),(9,[.manager (.user true)]),(5,[.main true]),
        (100,[.session .chat,.session (.consumer 0),.session (.consumer 0)]),
        (2,[.session .chat]),(1,[.manager (.monitor true)])])).any
      (fun r => decide (r.1.session.chat = .prompt) &&
        ((program false ["websocket_client","--reconnect"] id true Session.echo none).step r.1
          (.session (.line (some (Session.bytes "/exit"))))).any (fun q =>
            ((program false ["websocket_client","--reconnect"] id true Session.echo
              none).execWhere (fun _ _ => True) q.1
              (System.schedule [(2,[.session .chat]),(6,[.manager (.monitor true)])])).any
              (fun t => decide (.main (.manager (.onDisconnect .connectionLost)) ∈ t.2)))) =
      true := by
    decide +kernel
  obtain ⟨s₀,pre,hrun,hs⟩ := System.exists_run_of_exec hexec
  rw [Bool.and_eq_true] at hs
  have hprompt : s₀.session.chat = .prompt := of_decide_eq_true hs.1
  obtain ⟨⟨s₁,es⟩,hexit,hafter⟩ := (Option.any_eq_true _ _).mp hs.2
  obtain ⟨s,post,hpost,hend⟩ := System.exists_run_of_exec hafter
  have hlost : .main (.manager (.onDisconnect .connectionLost)) ∈ post := of_decide_eq_true hend
  have hnone := (hall false _ id true 4096 _ pre s₀ s₁ es post s hrun hprompt hexit hpost).1 _ hlost
  cases hnone

end WsClient.Managed
