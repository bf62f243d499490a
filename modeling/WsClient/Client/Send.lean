import WsClient.Client.Model
import Mathlib.Logic.Function.Basic

/-!
# Two senders on one stream

`send_text` and `send_binary` set the kind of the stream's messages in one step and write in the
next, under the kind the stream then has. The main thread sends what it likes and the heartbeat
thread sends pings, with nothing between them.
-/

namespace WsClient.Client
open WsClient.Lib

/-- The threads that send on a client. -/
inductive Sender
  | main
  | heartbeat
  deriving DecidableEq, Repr

def Sender.other : Sender → Sender
  | .main => .heartbeat
  | .heartbeat => .main

/-- `send_text(message)`. -/
def sendText (message : List UInt8) : Message := ⟨message,true⟩

/-- `send_binary(data)`. -/
def sendBinary (data : List UInt8) : Message := ⟨data,false⟩

/-- What `heartbeat_loop` sends. -/
def ping : Message := sendText "__ping__".toUTF8.toList

/-- Inside a send: before `ws_.text(true)` or `ws_.binary(true)`, and before `ws_.write`. -/
inductive SendPc
  | idle
  | setKind (msg : Message)
  | write (msg : Message)
  deriving DecidableEq, Repr

/-- The kind the next step gives the stream. -/
def SendPc.sets : SendPc → Option Bool
  | .setKind msg => some msg.isText
  | _ => none

/-- The kind the next step is to write under. -/
def SendPc.writes : SendPc → Option Bool
  | .write msg => some msg.isText
  | _ => none

/-- The kind of the stream's messages, and where each sender stands. -/
structure SendState where
  text : Bool
  sender : Sender → SendPc

/-- A new stream writes text. -/
def SendState.init : SendState := ⟨true,fun _ => .idle⟩

def SendState.put (s : SendState) (t : Sender) (pc : SendPc) : SendState :=
  { s with sender := Function.update s.sender t pc }

/-- A message that has gone out, with the kind it went out under. -/
inductive SendEvent
  | written (t : Sender) (msg : Message) (text : Bool)
  deriving DecidableEq, Repr

/-- The calls of the main thread, the call of the heartbeat thread, and the next step of a call;
`ok` is whether `ws_.write` returns. -/
inductive SendAction
  | sendText (message : List UInt8)
  | sendBinary (data : List UInt8)
  | ping
  | next (t : Sender) (ok : Bool)
  deriving DecidableEq, Repr

/-- A call of an idle sender. -/
def SendState.call (s : SendState) (t : Sender) (msg : Message) :
    Option (SendState × List SendEvent) :=
  match s.sender t with
  | .idle => some (s.put t (.setKind msg),[])
  | _ => none

def sendStep (s : SendState) : SendAction → Option (SendState × List SendEvent)
  | .sendText message => s.call .main (Client.sendText message)
  | .sendBinary data => s.call .main (Client.sendBinary data)
  | .ping => s.call .heartbeat Client.ping
  | .next t ok =>
    match s.sender t with
    | .idle => none
    | .setKind msg => some ({ s with text := msg.isText }.put t (.write msg),[])
    | .write msg => some (s.put t .idle,if ok then [.written t msg s.text] else [])

/-- The main thread and the heartbeat thread on one stream. -/
def senders : System SendState SendAction SendEvent := ⟨sendStep⟩

/-- The step does not set a kind while the other sender is about to write under another. -/
def Uncrossed (s : SendState) : SendAction → Prop
  | .next t _ => (s.sender t).sets = none ∨ (s.sender t.other).writes = none ∨
      (s.sender t).sets = (s.sender t.other).writes
  | _ => True

instance : ∀ s a, Decidable (Uncrossed s a) := by
  intro s a
  cases a with
  | next t ok => exact inferInstanceAs (Decidable (_ ∨ _ ∨ _))
  | _ => exact inferInstanceAs (Decidable True)

/-- A sender about to write finds the kind it has set. -/
def SendState.Intact (s : SendState) : Prop :=
  ∀ t msg, s.sender t = .write msg → s.text = msg.isText

variable {s s' : SendState} {a : SendAction} {es : List SendEvent} {t : Sender} {msg : Message}

@[simp] theorem put_text (s : SendState) (t : Sender) (pc : SendPc) :
    (s.put t pc).text = s.text := rfl

@[simp] theorem put_sender (s : SendState) (t : Sender) (pc : SendPc) :
    (s.put t pc).sender t = pc :=
  Function.update_self ..

theorem put_sender_of_ne (s : SendState) {t u : Sender} (h : u ≠ t) (pc : SendPc) :
    (s.put t pc).sender u = s.sender u :=
  Function.update_of_ne h ..

theorem Sender.eq_other {t u : Sender} (h : u ≠ t) : u = t.other := by
  cases t <;> cases u <;> first | rfl | exact absurd rfl h

theorem Sender.other_ne (t : Sender) : t.other ≠ t := by
  cases t <;> simp [Sender.other]

/-- A sender that moves to where it is not about to write. -/
theorem SendState.Intact.put (h : s.Intact) {pc : SendPc} (hpc : pc.writes = none) :
    (s.put t pc).Intact := by
  intro u msg hu
  by_cases hut : u = t
  · subst hut
    rw [put_sender] at hu
    rw [hu] at hpc
    cases hpc
  · rw [put_sender_of_ne s hut] at hu
    exact h u msg hu

theorem SendState.Intact.call (h : s.Intact) (hs : s.call t msg = some (s',es)) : s'.Intact ∧ es = [] := by
  rw [SendState.call] at hs
  split at hs <;> cases hs
  exact ⟨h.put rfl,rfl⟩

/-- A sender sets the kind, and the other is not about to write under another. -/
theorem intact_setKind
    (hp : (s.sender t.other).writes = none ∨ (s.sender t.other).writes = some msg.isText) :
    ({ s with text := msg.isText }.put t (.write msg)).Intact := by
  intro u msg' hu
  show msg.isText = msg'.isText
  by_cases hut : u = t
  · subst hut
    rw [put_sender] at hu
    cases hu
    rfl
  · have hwrite : s.sender t.other = .write msg' := by
      rw [← Sender.eq_other hut]
      exact (put_sender_of_ne _ hut _).symm.trans hu
    rw [hwrite] at hp
    rcases hp with hp | hp
    · cases hp
    · exact (Option.some.inj hp).symm

/-- An uncrossed step keeps what the senders rely on, and writes under the kind asked for. -/
theorem SendState.Intact.step (h : s.Intact) (hp : Uncrossed s a)
    (hs : senders.step s a = some (s',es)) :
    s'.Intact ∧ ∀ t msg text, .written t msg text ∈ es → text = msg.isText := by
  cases a with
  | next t ok =>
    simp only [senders,sendStep] at hs
    split at hs
    · cases hs
    · next msg hpc =>
      cases hs
      rw [Uncrossed,hpc] at hp
      -- the other sender is not about to write, or writes the same kind
      refine ⟨intact_setKind ?_,by simp⟩
      rcases hp with hp | hp | hp
      · cases hp
      · exact .inl hp
      · exact .inr hp.symm
    · next msg hpc =>
      cases hs
      refine ⟨h.put rfl,fun u msg' text hmem => ?_⟩
      cases ok with
      | false => cases hmem
      | true =>
        cases List.mem_singleton.mp hmem
        exact h t msg hpc
  | _ =>
    obtain ⟨hintact,rfl⟩ := h.call hs
    exact ⟨hintact,by simp⟩

/-- A step that crosses a send leaves the other sender about to write under the wrong kind. -/
theorem crossed (hs : senders.step s a = some (s',es)) (hp : ¬Uncrossed s a) :
    ∃ t msg s'', senders.step s' (.next t true) = some (s'',[.written t msg (!msg.isText)]) := by
  cases a with
  | next t ok =>
    simp only [Uncrossed,not_or] at hp
    obtain ⟨hsets,hwrites,hne⟩ := hp
    cases hpc : s.sender t with
    | idle => simp [hpc,SendPc.sets] at hsets
    | write msg => simp [hpc,SendPc.sets] at hsets
    | setKind msg =>
      cases hother : s.sender t.other with
      | idle => simp [hother,SendPc.writes] at hwrites
      | setKind msg' => simp [hother,SendPc.writes] at hwrites
      | write msg' =>
        simp only [senders,sendStep,hpc] at hs
        cases hs
        have hkind : msg.isText = !msg'.isText := by
          simpa [hpc,hother,SendPc.sets,SendPc.writes,Bool.eq_not] using hne
        -- the other sender still stands before its write
        have hat : ({ s with text := msg.isText }.put t (.write msg)).sender t.other =
            .write msg' :=
          (put_sender_of_ne _ t.other_ne _).trans hother
        refine ⟨t.other,msg',({ s with text := msg.isText }.put t (.write msg)).put t.other .idle,?_⟩
        simp only [senders,sendStep,hat]
        rw [put_text,hkind]
        rfl
  | _ => exact absurd trivial hp

/-- As long as no sender sets the kind of the stream while the other is between its own two
steps with another kind, every message goes out as what it was sent as; a step that does is
followed by a message that does not. -/
theorem kinds_kept {tr : List SendEvent} {s : SendState}
    (h : senders.RunWhere Uncrossed .init tr s) :
    (∀ t msg text, .written t msg text ∈ tr → text = msg.isText) ∧
      ∀ a s' es, senders.step s a = some (s',es) → ¬Uncrossed s a →
        ∃ t msg s'', senders.step s' (.next t true) =
          some (s'',[.written t msg (!msg.isText)]) := by
  have hintact : s.Intact ∧ ∀ t msg text, .written t msg text ∈ tr → text = msg.isText := by
    refine h.invariant (I := fun tr s => s.Intact ∧
      ∀ t msg text, .written t msg text ∈ tr → text = msg.isText) ⟨?_,by simp⟩ ?_
    · intro t msg hw
      cases hw
    · rintro tr s a s' es ⟨hintact,htr⟩ hp hs
      obtain ⟨hintact',hes⟩ := hintact.step hp hs
      refine ⟨hintact',fun t msg text hmem => ?_⟩
      rcases List.mem_append.mp hmem with hmem | hmem
      · exact htr t msg text hmem
      · exact hes t msg text hmem
  exact ⟨hintact.2,fun a s' es hs hp => crossed hs hp⟩

/-- A ping goes out between two binary messages. -/
theorem kinds_kept_ping :
    ∃ tr s, senders.RunWhere Uncrossed .init tr s ∧ .written .heartbeat ping true ∈ tr ∧
      ∀ t msg text, .written t msg text ∈ tr → text = msg.isText := by
  have hexec : (senders.execWhere Uncrossed .init
      [.sendBinary [1],.next .main true,.ping,.next .main true,.sendBinary [2],
        .next .heartbeat true,.next .heartbeat true,.next .main true,.next .main true]).any
      (fun r => decide (.written .heartbeat ping true ∈ r.2)) = true := by
    decide +kernel
  obtain ⟨s,tr,hrun,hs⟩ := System.exists_run_of_exec hexec
  exact ⟨tr,s,hrun,of_decide_eq_true hs,(kinds_kept hrun).1⟩

/-- A ping sets the kind to text after the main thread has set it to binary. -/
theorem binary_sent_as_text :
    ¬∀ tr s, senders.Run .init tr s →
      ∀ t msg text, .written t msg text ∈ tr → text = msg.isText := by
  intro hall
  have hexec : (senders.execWhere (fun _ _ => True) .init
      [.sendBinary [1],.next .main true,.ping,.next .heartbeat true,.next .main true]).any
      (fun r => decide (.written .main (sendBinary [1]) true ∈ r.2)) = true := by
    decide +kernel
  obtain ⟨s,tr,hrun,hs⟩ := System.exists_run_of_exec hexec
  cases hall tr s hrun _ _ _ (of_decide_eq_true hs)

end WsClient.Client
