import WsClient.Client.Send
import WsClient.Connection.Model
import WsClient.Session.Exchange
import WsClient.Session.Stranding

/-!
# A session that shares its client with the heartbeat

In managed mode `heartbeat_loop` sends its pings on the client that `chat_session` talks on, and
the server mirrors them like any other message. Their echoes come back through the one queue that
`spin_receive` takes its answers from.
-/

namespace WsClient.Session
open WsClient.Lib WsClient.Client

/-- Inside `heartbeat_loop`; `write` is between the two steps of its `send_text`. -/
inductive PingPc
  | loop (pc : Connection.HeartbeatPc)
  | write
  deriving DecidableEq, Repr

/-- The session and the heartbeat thread. -/
structure Shared where
  session : State (Option Message)
  heartbeat : Option PingPc

inductive SharedAction
  | session (a : Action Unit)
  | heartbeat (ok : Bool)
  deriving DecidableEq, Repr

/-- What `heartbeat_loop` reads: while `chat_session` runs on a connection that is not lost, the
manager's other threads and `stop` leave its members alone. -/
def Shared.members (s : Shared) : Connection.Members where
  state := .connected
  shouldRun := true
  reconnectCount := 0
  client := some ⟨0,s.session.client.running,false⟩
  generation := 1
  heartbeatThread := true
  monitorThread := true
  reconnectThread := false

def pingStep (s : Shared) (ok : Bool) : PingPc → Option (Shared × List Event)
  | .loop .sendPing =>
    some ({ s with session.text := true, heartbeat := some .write },[])
  | .write =>
    (Connection.heartbeatStep s.members .sendPing ok).map fun e =>
      ({ s with
        session.wire.toServer :=
          if ok then s.session.wire.toServer++[⟨ping.payload,s.session.text⟩]
          else s.session.wire.toServer
        heartbeat := e.pc.map .loop },[])
  | .loop pc =>
    (Connection.heartbeatStep s.members pc ok).map fun e =>
      ({ s with heartbeat := e.pc.map .loop },[])

/-- A request as it goes out. -/
def Event.sentAs (text : Bool) : Event → Event
  | .request msg => .request ⟨msg.payload,text⟩
  | e => e

variable (moved : Message → Message) (ndebug : Bool)

def sharedStep (s : Shared) : SharedAction → Option (Shared × List Event)
  | .session a =>
    (Session.step moved ndebug echo s.session a).map fun (session,es) =>
      ({ s with session := session },es.map (Event.sentAs s.session.text))
  | .heartbeat ok =>
    match s.heartbeat with
    | none => none
    | some pc => pingStep s ok pc

/-- A session with the echo server and the heartbeat thread on one client. -/
def shared : System Shared SharedAction Event := ⟨sharedStep moved ndebug⟩

/-- `chat_session` is called while the heartbeat thread runs. -/
def Shared.init (storage : ℕ) (m : ByteMem) : Shared :=
  ⟨Session.init none storage m,some (.loop .loadRun)⟩

/-- When a request is written, everything sent before has been returned by `try_receive` or
`spin_receive`. -/
def Settled (s : Shared) (a : SharedAction) : Prop :=
  a = .session .chat → s.session.chat.writes = true → s.session.inFlight = []

instance : ∀ s a, Decidable (Settled s a) := fun _ _ => inferInstanceAs (Decidable (_ → _ → _))

/-- What the automaton waits for, from where the session stands: the message that comes first,
or the one that has come. -/
def Phase.Expects (l : List Message) (t : Option Message) : Phase → Prop
  | .idle => t = none
  | .waiting => t ≠ none ∧ l.head? = t
  | .answered response => t = some response

variable {moved : Message → Message} {ndebug : Bool} {s s' : Shared} {a : SharedAction}
  {es : List Event} {t : Option Message}

theorem map_sentAs (text : Bool) (ces : List Client.Event) :
    (ces.map Event.client).map (Event.sentAs text) = ces.map .client := by
  rw [List.map_map]
  rfl

/-- A move on the pipeline is one of the automaton, when a request goes into an empty pipeline. -/
theorem Exchange.follows {text : Bool} {p p' : Phase} {l l' : List Message}
    (h : Exchange text p l es p' l') (hp : p.Expects l t)
    (hsend : p ≠ .waiting → p' = .waiting → l = []) :
    ∃ u, pairing.run t (es.map (Event.sentAs text)) = some u ∧ p'.Expects l' u := by
  cases h with
  | quiet =>
    rw [map_sentAs]
    exact ⟨t,pairing_map _ _,hp⟩
  | drop =>
    rw [map_sentAs]
    refine ⟨t,pairing_map _ _,?_⟩
    cases p with
    | waiting => exact ⟨hp.1,hp.2⟩
    | _ => exact hp
  | greet =>
    rw [map_sentAs]
    exact ⟨t,pairing_map _ _,hp⟩
  | take =>
    rw [map_sentAs]
    exact ⟨t,pairing_map _ _,hp.2.symm⟩
  | @send msg _ =>
    obtain rfl := hsend (by simp) rfl
    obtain rfl : t = none := hp
    exact ⟨some ⟨msg.payload,text⟩,rfl,by simp,rfl⟩
  | @note msg _ =>
    obtain rfl : t = some msg := hp
    refine ⟨none,?_,rfl⟩
    simp [Event.sentAs,pairing]

/-- What is put in behind does not change what comes first. -/
theorem Phase.Expects.append {p : Phase} {l : List Message} (h : p.Expects l t)
    (l' : List Message) : p.Expects (l++l') t := by
  cases p with
  | waiting =>
    refine ⟨h.1,?_⟩
    cases l with
    | nil => exact absurd h.2.symm h.1
    | cons msg l => exact h.2
  | _ => exact h

theorem phase_waiting {pc : ChatPc} : pc.phase = .waiting ↔ pc.spins = true := by
  cases pc <;> simp [ChatPc.phase,ChatPc.spins]

/-- The client can be reached, and the automaton waits for what the session is to get. -/
structure Paired (moved : Message → Message) (s : Shared) (t : Option Message) : Prop where
  sound : Sound moved s.session.client
  expects : s.session.chat.phase.Expects s.session.inFlight t

/-- A step of the session; `hsend` is what the run's condition says of a write. -/
theorem Paired.session (h : Paired moved s t) {b : Action Unit}
    (hs : (shared moved ndebug).step s (.session b) = some (s',es))
    (hsend : b = .chat → s.session.chat.writes = true → s.session.inFlight = []) :
    ∃ u, pairing.run t es = some u ∧ Paired moved s' u := by
  obtain ⟨⟨session,fs⟩,hb,he⟩ := Option.map_eq_some_iff.mp hs
  cases he
  obtain ⟨hmoves,hsound⟩ := step_moves h.sound hb
  obtain ⟨u,hrun,hexpects⟩ := hmoves.follows h.expects fun hidle hwaiting => by
    obtain ⟨tr,hclient⟩ := h.sound
    have hframe := (step_transition hb).frame (run_account hclient)
    rcases hframe.enters (phase_waiting.mp hwaiting) with ⟨hspins,_⟩ | ⟨hchat,hwrites,_⟩
    · exact absurd (phase_waiting.mpr hspins) hidle
    · cases hchat
      exact hsend rfl hwrites
  exact ⟨u,hrun,hsound,hexpects⟩

/-- A step of the heartbeat thread puts a ping behind what is in flight, or nothing. -/
theorem Paired.ping (h : Paired moved s t) {ok : Bool}
    (hs : (shared moved ndebug).step s (.heartbeat ok) = some (s',es)) :
    es = [] ∧ Paired moved s' t := by
  simp only [shared,sharedStep] at hs
  split at hs
  · cases hs
  · next pc hpc =>
    unfold pingStep at hs
    split at hs
    · cases hs
      exact ⟨rfl,h.sound,h.expects⟩
    · obtain ⟨e,_,he⟩ := Option.map_eq_some_iff.mp hs
      cases he
      refine ⟨rfl,h.sound,?_⟩
      cases ok with
      | false => exact h.expects
      | true =>
        have hput := h.expects.append [⟨ping.payload,s.session.text⟩]
        simp only [State.inFlight,List.append_assoc] at hput ⊢
        exact hput
    · obtain ⟨e,_,he⟩ := Option.map_eq_some_iff.mp hs
      cases he
      exact ⟨rfl,h.sound,h.expects⟩

theorem Paired.step (h : Paired moved s t) (hp : Settled s a)
    (hs : (shared moved ndebug).step s a = some (s',es)) :
    ∃ u, pairing.run t es = some u ∧ Paired moved s' u := by
  cases a with
  | session b => exact h.session hs fun hb => hp (by rw [hb])
  | heartbeat ok =>
    obtain ⟨rfl,hpaired⟩ := h.ping hs
    exact ⟨t,rfl,hpaired⟩

/-- From a state that waits for `t`, every settled run is one of the automaton. -/
theorem Paired.run {s₀ : Shared} (h : Paired moved s₀ t) {tr : List Event}
    (hrun : (shared moved ndebug).RunWhere Settled s₀ tr s) :
    ∃ u, pairing.run t tr = some u ∧ Paired moved s u := by
  rw [← List.filterMap_some (l := tr)]
  refine hrun.refines (R := Paired moved) h fun s t a s' es hpaired hp hs => ?_
  rw [List.filterMap_some]
  exact hpaired.step hp hs

theorem paired_init {storage : ℕ} {m : ByteMem} : Paired moved (.init storage m) none :=
  ⟨⟨_,.start⟩,rfl⟩

/-- A write into a pipeline that is not empty waits for what comes first in it. -/
theorem Paired.unsettled (h : Paired moved s t) (hp : ¬Settled s a)
    (hs : (shared moved ndebug).step s a = some (s',es)) :
    ∃ msg, s.session.inFlight.head? = some msg ∧ Paired moved s' (some msg) := by
  simp only [Settled,Classical.not_imp] at hp
  obtain ⟨rfl,hwrites,hflight⟩ := hp
  obtain ⟨msg,l,hl⟩ := List.exists_cons_of_ne_nil hflight
  obtain ⟨⟨session,fs⟩,hb,he⟩ := Option.map_eq_some_iff.mp hs
  cases he
  cases hpc : s.session.chat with
  | write req =>
    obtain ⟨_,hspin,hclient,hinFlight⟩ := chat_write hpc hb
    refine ⟨msg,by rw [hl]; rfl,by rw [hclient]; exact h.sound,?_⟩
    rw [hspin,hinFlight,hl]
    exact ⟨by simp,rfl⟩
  | _ =>
    rw [hpc] at hwrites
    cases hwrites

/-- As long as every request goes into an empty pipeline, whatever the heartbeat thread sends,
every response is the echo of the request just before it; after a write that finds something in
the pipeline, what comes first in it is taken for the answer. -/
theorem responses_paired_with_pings (moved : Message → Message) (ndebug : Bool) (storage : ℕ)
    (m : ByteMem) {tr : List Event} {s : Shared}
    (h : (shared moved ndebug).RunWhere Settled (.init storage m) tr s) :
    (∃ pending, pairing.run none tr = some pending) ∧
      ∀ a s' es, (shared moved ndebug).step s a = some (s',es) → ¬Settled s a →
        ∃ msg, s.session.inFlight.head? = some msg ∧
          ∀ tr' s'', (shared moved ndebug).RunWhere Settled s' tr' s'' →
            ∃ pending, pairing.run (some msg) tr' = some pending := by
  obtain ⟨t,hrun,hpaired⟩ := paired_init.run h
  refine ⟨⟨t,hrun⟩,fun a s' es hs hp => ?_⟩
  obtain ⟨msg,hfirst,hpaired'⟩ := hpaired.unsettled hp hs
  refine ⟨msg,hfirst,fun tr' s'' hrest => ?_⟩
  obtain ⟨u,hrun',_⟩ := hpaired'.run hrest
  exact ⟨u,hrun'⟩

/-- A command is answered, and a ping goes out at the prompt. -/
theorem responses_paired_with_pings_text :
    ∃ tr s, (shared id true).RunWhere Settled (.init 4096 fun _ => 0) tr s ∧
      .response ⟨[104,105],true⟩ ∈ tr ∧ s.session.inFlight = [ping] ∧
      ∃ pending, pairing.run none tr = some pending := by
  have hexec : ((shared id true).execWhere Settled (.init 4096 fun _ => 0)
      ((System.schedule [(100,[.chat,.consumer 0,.consumer 0]),(2,[.chat]),
        (1,[.line (some (bytes "text")),.line (some [104,105])]),(3,[.chat]),(2,[.server ()]),
        (2,[.receiver]),(1,[.read]),(2,[.receiver]),(4,[.producer 0]),
        (1,[.consumer 0,.consumer 1,.consumer 0,.consumer 0]),(2,[.chat])]).map .session++
        List.replicate 8 (.heartbeat true))).any
      (fun r => decide (.response ⟨[104,105],true⟩ ∈ r.2 ∧ r.1.session.inFlight = [ping])) =
      true := by
    decide +kernel
  obtain ⟨s,tr,hrun,hs⟩ := System.exists_run_of_exec hexec
  obtain ⟨hresponse,hflight⟩ : .response ⟨[104,105],true⟩ ∈ tr ∧ s.session.inFlight = [ping] :=
    of_decide_eq_true hs
  exact ⟨tr,s,hrun,hresponse,hflight,(responses_paired_with_pings id true 4096 _ hrun).1⟩

/-- A ping goes out while the user is at the prompt; its echo is taken for the answer to the
next request. -/
theorem ping_taken_for_response :
    ¬∀ moved ndebug storage m tr s, (shared moved ndebug).Run (.init storage m) tr s →
      ∃ pending, pairing.run none tr = some pending := by
  intro hall
  have hexec : ((shared id true).execWhere (fun _ _ => True) (.init 4096 fun _ => 0)
      ((System.schedule [(100,[.chat,.consumer 0,.consumer 0]),(2,[.chat])]).map .session++
        List.replicate 8 (.heartbeat true)++
        (System.schedule [(2,[.server ()]),(2,[.receiver]),(1,[.read]),(2,[.receiver]),
          (4,[.producer 0]),(1,[.line (some (bytes "text")),.line (some [104,105])]),(3,[.chat]),
          (1,[.consumer 0,.consumer 1,.consumer 0,.consumer 0]),(1,[.chat])]).map .session)).any
      (fun r => decide (pairing.run none r.2 = none)) = true := by
    decide +kernel
  obtain ⟨s,tr,hrun,hs⟩ := System.exists_run_of_exec hexec
  obtain ⟨pending,hpaired⟩ := hall id true 4096 _ tr s hrun
  rw [show pairing.run none tr = none from of_decide_eq_true hs] at hpaired
  cases hpaired

end WsClient.Session
