import WsClient.Legacy.Model
import WsClient.Session.Threads

/-!
# Request and response in the legacy client

The mutex keeps the two threads apart, no notification is lost, and everything sent comes back in
order: over an echo server at most one message is under way, and none while the main thread reads
a command.
-/

namespace WsClient.Legacy
open WsClient.Lib WsClient.Client WsClient.Session

/-- The main thread holds the mutex. -/
def ChatPc.inside : ChatPc → Bool
  | .get .test | .get .take | .get (.unlock _) => true
  | _ => false

/-- The receiver thread holds the mutex. -/
def ReceiverPc.inside : ReceiverPc → Bool
  | .push _ | .notify | .unlock => true
  | _ => false

def State.inside (s : State) : Party → Prop
  | .main => s.chat.inside = true
  | .receiver => s.receiver.inside = true

/-- The mutex and the condition variable are used as they are meant to be: only their holder is
inside, `getResponse` does not sleep on a message unless `notify_one` is about to be called, and
`front` finds one. -/
structure Locked (s : State) : Prop where
  guards : Monitor.Guards s.inside s.messages
  attended : Monitor.Attended (· ≠ []) (s.receiver = .notify) .main s.messages
  sleeping : Party.main ∈ s.messages.asleep → s.chat = .get .asleep
  taking : s.chat = .get .take → s.messages.data ≠ []

/-- What the two threads and the wire hold, where the main thread stands. -/
def ChatPc.Expects (text : Bool) (inFlight : List Message) : ChatPc → Prop
  | .get _ => inFlight.length ≤ 1
  | .write msg => inFlight = [] ∧ text = msg.isText
  | _ => inFlight = []

/-- A request is sent when nothing is outstanding; the response is what was asked for. -/
def alternation : Automaton (Option Message) Event where
  next
    | none, .request msg => some (some msg)
    | some msg, .response response => if response = msg then some none else none
    | _, _ => none

/-- The books of a session: the greeting and the requests are the responses and what is under
way. -/
structure Books (greeting : Option Message) (tr : List Event) (s : State) : Prop where
  flight : greeting.toList++requests tr = responses tr++s.inFlight
  alternate : alternation.run greeting tr = some s.inFlight.head?
  expects : s.chat.Expects s.text s.inFlight

/-- The steps, one constructor for each branch of the program. -/
inductive Transition (s : State) : Action → State → List Event → Prop
  | lock {a} : s.chat = .get .lock → s.messages.owner = none →
      Transition s a { s with messages.owner := some .main, chat := .get .test } []
  | sleep {a} : s.chat = .get .test → s.messages.data = [] →
      Transition s a { s with messages := s.messages.wait .main, chat := .get .asleep } []
  | found {a} : s.chat = .get .test → s.messages.data ≠ [] →
      Transition s a { s with chat := .get .take } []
  | woken {a} : s.chat = .get .asleep → Party.main ∉ s.messages.asleep →
      Transition s a { s with chat := .get .lock } []
  | take {a msg rest} : s.chat = .get .take → s.messages.data = msg :: rest →
      Transition s a
        { s with messages := s.messages.update List.tail, chat := .get (.unlock msg) } []
  | unlock {a response} : s.chat = .get (.unlock response) →
      Transition s a { s with messages := s.messages.unlock, chat := .prompt } [.response response]
  | prompt {a input eof} : s.chat = .prompt → (s.eof = true → input = s.input ∧ eof = true) →
      Transition s a { s with input := input, eof := eof, chat := .command input } []
  | message {a text input eof} : s.chat = .message text →
      (s.eof = true → input = s.input ∧ eof = true) →
      Transition s a { s with input := input, eof := eof, chat := .setKind ⟨input,text⟩ } []
  | setKind {a msg} : s.chat = .setKind msg →
      Transition s a { s with text := msg.isText, chat := .write msg } []
  | write {a msg} : s.chat = .write msg → s.isOpen = true →
      Transition s a { s with
        wire.toServer := s.wire.toServer++[⟨msg.payload,s.text⟩]
        chat := .get .lock } [.request msg]
  | terminate {a} : (∃ msg, s.chat = .write msg) ∨ s.chat = .closeStream →
      Transition s a { s with chat := .terminated } []
  | closeStream {a} : s.chat = .closeStream →
      Transition s a { s with isOpen := false, chat := .closeJoin } []
  | closeJoin {a} : s.chat = .closeJoin → s.receiver = .exited →
      Transition s a { s with chat := .returned } []
  | wake : Party.main ∈ s.messages.asleep →
      Transition s .wake { s with messages := s.messages.wake .main } []
  | isOpen {a} : s.receiver = .isOpen →
      Transition s a { s with receiver := if s.isOpen then .read else .exited } []
  | lockPush {a msg} : s.receiver = .lock msg → s.messages.owner = none →
      Transition s a { s with messages.owner := some .receiver, receiver := .push msg } []
  | push {a msg} : s.receiver = .push msg →
      Transition s a
        { s with messages := s.messages.update (·++[msg]), receiver := .notify } []
  | notify {a} : s.receiver = .notify →
      Transition s a { s with messages := s.messages.notifyOne, receiver := .unlock } []
  | unlockPush {a} : s.receiver = .unlock →
      Transition s a { s with messages := s.messages.unlock, receiver := .isOpen } []
  | read {a msg rest} : s.receiver = .read → s.wire.toClient = msg :: rest →
      Transition s a { s with wire.toClient := rest, receiver := .lock msg } []
  | readError : s.receiver = .read →
      Transition s .readError { s with isOpen := false, receiver := .exited } []
  | server {a wire server fs} : echoStep (s.wire,s.server) () = some ((wire,server),fs) →
      Transition s a { s with wire := wire, server := server } []

variable {s s' : State} {es tr : List Event} {a : Action} {greeting : Option Message}

theorem get_transition {pc : GetPc} (hpc : s.chat = .get pc) (hs : getStep s pc = some (s',es)) :
    Transition s a s' es := by
  cases pc with
  | lock =>
    obtain ⟨m,hl,he⟩ := Option.map_eq_some_iff.mp hs
    cases he
    obtain ⟨howner,rfl⟩ := Monitor.lock_some hl
    exact .lock hpc howner
  | test =>
    simp only [getStep] at hs
    split at hs
    · next hdata =>
      cases hs
      exact .sleep hpc hdata
    · next hdata =>
      cases hs
      exact .found hpc (by simp [hdata])
  | asleep =>
    simp only [getStep] at hs
    split at hs
    · cases hs
    · next hawake =>
      cases hs
      exact .woken hpc hawake
  | take =>
    simp only [getStep] at hs
    split at hs
    · cases hs
    · next hdata =>
      cases hs
      exact .take hpc hdata
  | unlock response =>
    cases hs
    exact .unlock hpc

theorem line_transition {input : List UInt8} {eof : Bool}
    (heof : s.eof = true → input = s.input ∧ eof = true)
    (hs : State.onLine { s with input := input, eof := eof } = some (s',es)) :
    Transition s a s' es := by
  simp only [State.onLine] at hs
  split at hs
  · next hpc =>
    cases hs
    exact .prompt hpc heof
  · next hpc =>
    cases hs
    exact .message hpc heof
  · cases hs

theorem chat_transition (hs : chatStep s = some (s',es)) : Transition s a s' es := by
  simp only [chatStep] at hs
  split at hs
  · next pc hpc => exact get_transition hpc hs
  · split at hs
    · exact line_transition (s := s) (fun heof => ⟨rfl,heof⟩) hs
    · cases hs
  · split at hs
    · exact line_transition (s := s) (fun heof => ⟨rfl,heof⟩) hs
    · cases hs
  · next hpc =>
    cases hs
    exact .setKind hpc
  · next hpc =>
    split at hs
    · next hopen =>
      cases hs
      exact .write hpc hopen
    · cases hs
      exact .terminate (.inl ⟨_,hpc⟩)
  · next hpc =>
    cases hs
    exact .closeStream hpc
  · next hpc =>
    split at hs
    · next hexited =>
      cases hs
      exact .closeJoin hpc hexited
    · cases hs
  · cases hs
  · cases hs

theorem receiver_transition (hs : receiverStep s = some (s',es)) : Transition s a s' es := by
  simp only [receiverStep] at hs
  split at hs
  · next hpc =>
    cases hs
    exact .isOpen hpc
  · next hpc =>
    obtain ⟨m,hl,he⟩ := Option.map_eq_some_iff.mp hs
    cases he
    obtain ⟨howner,rfl⟩ := Monitor.lock_some hl
    exact .lockPush hpc howner
  · next hpc =>
    cases hs
    exact .push hpc
  · next hpc =>
    cases hs
    exact .notify hpc
  · next hpc =>
    cases hs
    exact .unlockPush hpc
  · cases hs
  · cases hs

theorem step_transition (hs : step s a = some (s',es)) : Transition s a s' es := by
  unfold step at hs
  split at hs
  · cases hs
  cases a with
  | chat => exact chat_transition hs
  | throws =>
    simp only [liveStep] at hs
    split at hs
    · next hpc =>
      cases hs
      exact .terminate (.inl ⟨_,hpc⟩)
    · next hpc =>
      split at hs
      · cases hs
        exact .terminate (.inr hpc)
      · cases hs
    · cases hs
  | line input ended =>
    simp only [liveStep] at hs
    split at hs
    · cases hs
    · next heof => exact line_transition (fun h => absurd h heof) hs
  | wake =>
    simp only [liveStep] at hs
    split at hs
    · next hm =>
      cases hs
      exact .wake hm
    · cases hs
  | receiver => exact receiver_transition hs
  | read =>
    simp only [liveStep] at hs
    split at hs
    · next hpc hto =>
      cases hs
      exact .read hpc hto
    · cases hs
  | readError =>
    simp only [liveStep] at hs
    split at hs
    · next hpc =>
      cases hs
      exact .readError hpc
    · cases hs
  | server =>
    obtain ⟨_,hecho,he⟩ := Option.map_eq_some_iff.mp hs
    cases he
    exact .server hecho

/-- The main thread goes on outside the mutex. -/
theorem Locked.outside (h : Locked s) (hmessages : s'.messages = s.messages)
    (hreceiver : s'.receiver = s.receiver) (hin : s.chat.inside = false)
    (hin' : s'.chat.inside = false)
    (hawake : s.chat ≠ .get .asleep ∨ Party.main ∉ s.messages.asleep) : Locked s' := by
  have hnot : Party.main ∉ s.messages.asleep := by
    rcases hawake with hne | hawake
    · exact fun hm => hne (h.sleeping hm)
    · exact hawake
  refine ⟨?_,?_,?_,?_⟩
  · rw [hmessages]
    refine h.guards.keep rfl fun u => ?_
    cases u with
    | main => simp [State.inside,hin,hin']
    | receiver => simp [State.inside,hreceiver]
  · rw [hmessages,hreceiver]
    exact h.attended
  · rw [hmessages]
    exact fun hm => absurd hm hnot
  · intro hpc
    rw [hpc] at hin'
    cases hin'

/-- A step that concerns neither the mutex nor the main thread. -/
theorem Locked.aside (h : Locked s) (hmessages : s'.messages = s.messages)
    (hchat : s'.chat = s.chat) (hin : s'.receiver.inside = s.receiver.inside)
    (hnotify : s.receiver = .notify → s'.receiver = .notify) : Locked s' := by
  refine ⟨?_,?_,?_,?_⟩
  · rw [hmessages]
    refine h.guards.keep rfl fun u => ?_
    cases u <;> simp [State.inside,hchat,hin]
  · rw [hmessages]
    exact h.attended.keep rfl rfl hnotify
  · rw [hmessages,hchat]
    exact h.sleeping
  · rw [hmessages,hchat]
    exact h.taking

/-- A thread inside the mutex is awake. -/
theorem Locked.awake (h : Locked s) (hpc : s.chat ≠ .get .asleep) :
    Party.main ∉ s.messages.asleep := fun hm => hpc (h.sleeping hm)

theorem Locked.step (h : Locked s) (ht : Transition s a s' es) : Locked s' := by
  cases ht with
  | lock hpc howner =>
    have hawake := h.awake (by simp [hpc])
    refine ⟨h.guards.lock howner rfl fun u => ?_,h.attended.awake rfl hawake,
      fun hm => absurd hm hawake,?_⟩
    · cases u <;> simp [State.inside,ChatPc.inside]
    · intro hpc'
      cases hpc'
  | sleep hpc hdata =>
    have hawake := h.awake (by simp [hpc])
    refine ⟨h.guards.leave (t := .main) ?_ rfl fun u => ?_,
      h.attended.wait hawake (by simp [hdata]),fun _ => rfl,?_⟩
    · simp [State.inside,hpc,ChatPc.inside]
    · cases u <;> simp [State.inside,ChatPc.inside]
    · intro hpc'
      cases hpc'
  | found hpc hdata =>
    refine ⟨h.guards.keep rfl fun u => ?_,h.attended,
      fun hm => absurd hm (h.awake (by simp [hpc])),fun _ => hdata⟩
    cases u <;> simp [State.inside,ChatPc.inside,hpc]
  | woken hpc hawake => exact h.outside rfl rfl (by simp [hpc,ChatPc.inside]) rfl (.inr hawake)
  | take hpc hdata =>
    have hawake := h.awake (by simp [hpc])
    refine ⟨h.guards.keep rfl fun u => ?_,h.attended.awake rfl hawake,
      fun hm => absurd hm hawake,?_⟩
    · cases u <;> simp [State.inside,ChatPc.inside,hpc]
    · intro hpc'
      cases hpc'
  | unlock hpc =>
    have hawake := h.awake (by simp [hpc])
    refine ⟨h.guards.leave (t := .main) ?_ rfl fun u => ?_,h.attended.awake rfl hawake,
      fun hm => absurd hm hawake,?_⟩
    · simp [State.inside,hpc,ChatPc.inside]
    · cases u <;> simp [State.inside,ChatPc.inside]
    · intro hpc'
      cases hpc'
  | prompt hpc =>
    refine h.outside rfl rfl (by simp [hpc,ChatPc.inside]) ?_ (.inl (by simp [hpc]))
    simp only [ChatPc.command]
    split_ifs <;> rfl
  | message hpc | setKind hpc | write hpc | closeStream hpc | closeJoin hpc =>
    exact h.outside rfl rfl (by simp [hpc,ChatPc.inside]) rfl (.inl (by simp [hpc]))
  | terminate hpc =>
    obtain ⟨msg,hpc⟩ | hpc := hpc <;>
      exact h.outside rfl rfl (by simp [hpc,ChatPc.inside]) rfl (.inl (by simp [hpc]))
  | wake =>
    have hnil : (s.messages.wake .main).asleep = [] := h.attended.not_asleep_wake
    refine ⟨h.guards.keep rfl fun u => ?_,h.attended.wake,?_,h.taking⟩
    · cases u <;> rfl
    · exact fun hm => by simp [hnil] at hm
  | isOpen hpc =>
    refine h.aside rfl rfl ?_ (by simp [hpc])
    simp only [hpc]
    split <;> rfl
  | lockPush hpc howner =>
    refine ⟨h.guards.lock howner rfl fun u => ?_,h.attended.keep rfl rfl (by simp [hpc]),
      h.sleeping,h.taking⟩
    cases u <;> simp [State.inside,ReceiverPc.inside]
  | push hpc =>
    refine ⟨h.guards.keep rfl fun u => ?_,h.attended.update rfl rfl,h.sleeping,fun _ => ?_⟩
    · cases u <;> simp [State.inside,ReceiverPc.inside,hpc]
    · simp [Monitor.update]
  | notify hpc =>
    obtain ⟨howner,hdata⟩ := Monitor.notifyOne_frame (m := s.messages)
    have hnil : s.messages.notifyOne.asleep = [] := h.attended.not_asleep_notifyOne
    refine ⟨h.guards.keep howner fun u => ?_,h.attended.notifyOne,?_,?_⟩
    · cases u <;> simp [State.inside,ReceiverPc.inside,hpc]
    · exact fun hm => by simp [hnil] at hm
    · exact fun hpc' => by simpa only [hdata] using h.taking hpc'
  | unlockPush hpc =>
    refine ⟨h.guards.leave (t := .receiver) ?_ rfl fun u => ?_,
      h.attended.keep rfl rfl (by simp [hpc]),h.sleeping,h.taking⟩
    · simp [State.inside,hpc,ReceiverPc.inside]
    · cases u <;> simp [State.inside,ReceiverPc.inside]
  | read hpc | readError hpc =>
    exact h.aside rfl rfl (by simp [hpc,ReceiverPc.inside]) (by simp [hpc])
  | server => exact h.aside rfl rfl rfl id

theorem Locked.init : Locked (init greeting) := by
  refine ⟨fun u => ?_,?_,?_,?_⟩
  · cases u <;> simp [State.inside,Legacy.init,ChatPc.inside,ReceiverPc.inside]
  · simp [Monitor.Attended,Legacy.init]
  · simp [Legacy.init]
  · simp [Legacy.init]

/-- A step that sends nothing and returns nothing. -/
def Quiet (s s' : State) (es : List Event) : Prop :=
  es = [] ∧ s'.inFlight = s.inFlight ∧
    (s.chat.Expects s.text s.inFlight → s'.chat.Expects s'.text s.inFlight)

theorem Quiet.aside (hflight : s'.inFlight = s.inFlight) (hchat : s'.chat = s.chat)
    (htext : s'.text = s.text) : Quiet s s' [] :=
  ⟨rfl,hflight,fun h => by rwa [hchat,htext]⟩

theorem ChatPc.command_rests (input : List UInt8) : (ChatPc.command input).held = [] ∧
    ∀ text, (ChatPc.command input).Expects text [] := by
  simp only [ChatPc.command]
  split_ifs <;> simp [ChatPc.held,ChatPc.Expects]

/-- What a step does to the messages under way: a write adds its request, the end of `getResponse`
takes out the response, and every other step leaves them as they are. -/
theorem step_flight (ht : Transition s a s' es) : Quiet s s' es ∨
    (∃ msg, s.chat = .write msg ∧ s'.chat = .get .lock ∧ es = [.request msg] ∧
      s'.inFlight = s.inFlight++[⟨msg.payload,s.text⟩]) ∨
    ∃ response, s.chat = .get (.unlock response) ∧ s'.chat = .prompt ∧ es = [.response response] ∧
      s.inFlight = response :: s'.inFlight := by
  cases ht with
  | lock hpc | sleep hpc | found hpc | woken hpc | closeStream hpc | closeJoin hpc | message hpc
  | setKind hpc =>
    exact .inl ⟨rfl,by simp [State.inFlight,hpc,ChatPc.held,Monitor.wait],
      by simp [hpc,ChatPc.Expects]⟩
  | take hpc hdata =>
    exact .inl ⟨rfl,by simp [State.inFlight,hpc,hdata,Monitor.update,ChatPc.held],
      by simp [hpc,ChatPc.Expects]⟩
  | unlock hpc =>
    exact .inr (.inr ⟨_,hpc,rfl,rfl,by simp [State.inFlight,hpc,Monitor.unlock,ChatPc.held]⟩)
  | @prompt _ input _ hpc _ =>
    obtain ⟨hheld,hexpects⟩ := ChatPc.command_rests input
    have hpcheld : s.chat.held = [] := by rw [hpc]; rfl
    refine .inl ⟨rfl,by simp only [State.inFlight,hheld,hpcheld],?_⟩
    rw [hpc]
    intro hnil
    rw [show s.inFlight = [] from hnil]
    exact hexpects _
  | write hpc => exact .inr (.inl ⟨_,hpc,rfl,rfl,by simp [State.inFlight,hpc,ChatPc.held]⟩)
  | terminate hpc =>
    obtain ⟨msg,hpc⟩ | hpc := hpc <;>
      exact .inl ⟨rfl,by simp [State.inFlight,hpc,ChatPc.held],
        by simp +contextual [hpc,ChatPc.Expects]⟩
  | wake => exact .inl (.aside rfl rfl rfl)
  | isOpen hpc =>
    have hheld : (if s.isOpen = true then ReceiverPc.read else .exited).held = [] := by
      split <;> rfl
    have hpcheld : s.receiver.held = [] := by rw [hpc]; rfl
    exact .inl (.aside (by simp only [State.inFlight,hheld,hpcheld]) rfl rfl)
  | lockPush hpc | push hpc | unlockPush hpc | readError hpc =>
    exact .inl (.aside (by simp [State.inFlight,hpc,ReceiverPc.held,Monitor.update,Monitor.unlock])
      rfl rfl)
  | notify hpc =>
    have hdata : s.messages.notifyOne.data = s.messages.data := Monitor.notifyOne_frame.2
    exact .inl (.aside (by simp [State.inFlight,hpc,hdata,ReceiverPc.held]) rfl rfl)
  | read hpc hto => exact .inl (.aside (by simp [State.inFlight,hpc,hto,ReceiverPc.held]) rfl rfl)
  | server hecho =>
    refine .inl (.aside ?_ rfl rfl)
    have horder := echo_order hecho
    simp only [List.append_assoc] at horder
    simp only [State.inFlight,List.append_assoc,horder]

theorem Books.step (h : Books greeting tr s) (ht : Transition s a s' es) :
    Books greeting (tr++es) s' := by
  obtain ⟨hflight,halternate,hexpects⟩ := h
  obtain ⟨rfl,hsame,hexpects'⟩ | ⟨msg,hpc,hpc',rfl,hsame⟩ | ⟨response,hpc,hpc',rfl,hsame⟩ :=
    step_flight ht
  · simp only [List.append_nil]
    rw [← hsame] at hflight halternate
    exact ⟨hflight,halternate,hsame ▸ hexpects' hexpects⟩
  · -- the stream is in the mode of the message, so what the server gets is the message
    rw [hpc] at hexpects
    obtain ⟨hnil,htext⟩ := hexpects
    have hsent : s'.inFlight = [msg] := by rw [hsame,hnil,htext]; rfl
    rw [hnil] at hflight halternate
    refine ⟨?_,?_,?_⟩
    · simp only [requests,responses,List.filterMap_append,hsent] at hflight ⊢
      simp [← List.append_assoc,hflight,Event.request?,Event.response?]
    · rw [Automaton.run_append_of_eq _ halternate,hsent]
      rfl
    · rw [hpc',hsent]
      exact Nat.le_refl 1
  · rw [hpc] at hexpects
    have hnil : s'.inFlight = [] := by
      simp only [ChatPc.Expects,hsame,List.length_cons] at hexpects
      exact List.length_eq_zero_iff.mp (by omega)
    rw [hsame,hnil] at hflight halternate
    refine ⟨?_,?_,?_⟩
    · simp only [requests,responses,List.filterMap_append,hnil] at hflight ⊢
      simp [← List.append_assoc,hflight,Event.request?,Event.response?]
    · rw [Automaton.run_append_of_eq _ halternate,hnil]
      simp [alternation]
    · rw [hpc',hnil]
      rfl

theorem Books.init : Books greeting [] (init greeting) := by
  have hflight : (Legacy.init greeting).inFlight = greeting.toList := by
    simp [State.inFlight,Legacy.init,ChatPc.held,ReceiverPc.held]
  refine ⟨by simp [hflight,requests,responses],?_,?_⟩
  · rw [hflight]
    cases greeting <;> rfl
  · rw [hflight]
    cases greeting <;> simp [Legacy.init,ChatPc.Expects]

theorem Books.length_le (h : Books greeting tr s) : s.inFlight.length ≤ 1 := by
  have hexpects := h.expects
  unfold ChatPc.Expects at hexpects
  split at hexpects
  · exact hexpects
  · simp [hexpects.1]
  · simp [hexpects]

theorem invariants (h : session.Run (init greeting) tr s) : Locked s ∧ Books greeting tr s := by
  refine h.invariant (I := fun tr s => Locked s ∧ Books greeting tr s) ⟨.init,.init⟩ ?_
  rintro tr s a s' es ⟨hlocked,hbooks⟩ _ hs
  exact ⟨hlocked.step (step_transition hs),hbooks.step (step_transition hs)⟩

/-- Whatever the order of the steps, and also with spurious wake-ups and failures of the
connection: requests and responses alternate, the greeting being answered first, and each
response is the message it is the answer to, kind included; at most one is under way, and none
when a command is read. The two threads are never both inside the mutex, and `front` is not called
on an empty queue. -/
theorem requests_answered (h : session.Run (init greeting) tr s) :
    alternation.run greeting tr = some s.inFlight.head? ∧
      greeting.toList++requests tr = responses tr++s.inFlight ∧ s.inFlight.length ≤ 1 ∧
      (s.chat = .prompt → s.inFlight = []) ∧
      ¬(s.chat.inside = true ∧ s.receiver.inside = true) ∧
      (s.chat = .get .take → s.messages.data ≠ []) := by
  obtain ⟨hlocked,hbooks⟩ := invariants h
  refine ⟨hbooks.alternate,hbooks.flight,hbooks.length_le,?_,?_,hlocked.taking⟩
  · intro hpc
    have hexpects := hbooks.expects
    rwa [hpc] at hexpects
  · rintro ⟨hmain,hreceiver⟩
    have heq : Party.main = .receiver :=
      hlocked.guards.exclusive (show s.inside .main from hmain) (show s.inside .receiver from hreceiver)
    cases heq

/-- A greeting that is waited for, with a spurious wake-up, and a message. -/
theorem requests_answered_text :
    ∃ tr s, session.Run (init (some ⟨[119],true⟩)) tr s ∧
      responses tr = [⟨[119],true⟩,⟨[104,105],true⟩] ∧ s.chat = .prompt ∧ s.inFlight = [] := by
  have hexec : (session.execWhere (fun _ _ => True) (init (some ⟨[119],true⟩))
      (System.schedule [(2,[.chat]),(1,[.wake]),(3,[.chat]),(1,[.receiver,.read]),(4,[.receiver]),
        (5,[.chat]),(1,[.line (bytes "text") false,.line [104,105] false]),(2,[.chat]),
        (2,[.server]),(1,[.receiver,.read]),(4,[.receiver]),(4,[.chat])])).any
      (fun r => decide (responses r.2 = [⟨[119],true⟩,⟨[104,105],true⟩] ∧ r.1.chat = .prompt)) =
        true := by
    decide +kernel
  obtain ⟨s,tr,hrun,hs⟩ := System.exists_run_of_exec hexec
  obtain ⟨hresponses,hprompt⟩ : responses tr = [⟨[119],true⟩,⟨[104,105],true⟩] ∧ s.chat = .prompt :=
    of_decide_eq_true hs
  exact ⟨tr,s,hrun,hresponses,hprompt,(requests_answered hrun).2.2.2.1 hprompt⟩

end WsClient.Legacy
