import WsClient.Legacy.Exchange

/-!
# How long `getResponse` waits

Whether `getResponse` returns is decided by whether a message can still reach the queue: if one
can, no order of the steps keeps it away, spurious wake-ups only delay it; if none can, the main
thread never leaves the call.
-/

namespace WsClient.Legacy
open WsClient.Lib WsClient.Client WsClient.Session

/-- The main thread is in `getResponse`. -/
def ChatPc.waiting : ChatPc → Bool
  | .get _ => true
  | _ => false

/-- The main thread has closed the stream, or is gone. -/
def ChatPc.closing : ChatPc → Bool
  | .closeJoin | .returned | .terminated => true
  | _ => false

/-- What the receiver thread can still put into the queue. -/
def State.coming (s : State) : List Message :=
  match s.receiver with
  | .exited => []
  | _ => s.receiver.held++s.wire.toClient++s.server.toList++s.wire.toServer

/-- What `getResponse` can still return. -/
def State.deliverable (s : State) : List Message := s.chat.held++s.messages.data++s.coming

/-- How many steps `getResponse` needs when the message is in the queue; a sleeper has to be
notified first. -/
def GetPc.left (sleeping : Bool) : GetPc → ℕ
  | .asleep => if sleeping then 3 else 6
  | .lock => 5
  | .test => 4
  | .take => 2
  | .unlock _ => 1

def ChatPc.left (sleeping : Bool) : ChatPc → ℕ
  | .get pc => pc.left sleeping
  | _ => 0

/-- How many steps the receiver thread has to the next `ws_.read`; the notification pays for the
steps of the thread that it wakes. -/
def ReceiverPc.left : ReceiverPc → ℕ
  | .exited | .read => 0
  | .isOpen => 1
  | .unlock => 2
  | .notify => 6
  | .push _ => 7
  | .lock _ => 8

def State.left (s : State) : ℕ :=
  s.chat.left (decide (Party.main ∈ s.messages.asleep))+s.receiver.left+Wire.left s.wire s.server

/-- The receiver thread goes on reading while the stream is open. -/
def State.Reading (s : State) : Prop :=
  s.isOpen = true ∨ s.receiver = .exited ∨ s.chat.closing = true

/-- The main thread is in `getResponse`, and a message is on its way to it. -/
structure Expecting (s : State) : Prop where
  locked : Locked s
  reading : s.Reading
  waiting : s.chat.waiting = true
  deliverable : s.deliverable ≠ []

/-- Steps other than a failure of the connection. -/
def Sound (_ : State) (a : Action) : Prop := a ≠ .readError

instance : ∀ s a, Decidable (Sound s a) := fun _ _ => inferInstanceAs (Decidable (_ ≠ _))

variable {s s' : State} {es tr : List Event} {a : Action} {greeting : Option Message}

theorem Expecting.closing (h : Expecting s) : s.isOpen = true ∨ s.receiver = .exited := by
  rcases h.reading with hopen | hexited | hclosing
  · exact .inl hopen
  · exact .inr hexited
  · have hwaiting := h.waiting
    cases hpc : s.chat <;> simp [hpc,ChatPc.waiting,ChatPc.closing] at hwaiting hclosing

theorem Expecting.in_get (h : Expecting s) : ∃ pc, s.chat = .get pc := by
  have hwaiting := h.waiting
  cases hpc : s.chat with
  | get pc => exact ⟨pc,rfl⟩
  | _ => simp [hpc,ChatPc.waiting] at hwaiting

theorem GetPc.left_le (sleeping : Bool) (pc : GetPc) : pc.left sleeping ≤ 6 := by
  cases pc with
  | asleep =>
    simp only [GetPc.left]
    split <;> omega
  | _ => simp [GetPc.left]

theorem ReceiverPc.left_le (pc : ReceiverPc) : pc.left ≤ 6+2*pc.held.length := by
  cases pc <;> simp [ReceiverPc.left,ReceiverPc.held]

/-- With one message under way the measure is small. -/
theorem State.left_le (hlength : s.inFlight.length ≤ 1) : s.left ≤ 23 := by
  have hchat : s.chat.left (decide (Party.main ∈ s.messages.asleep)) ≤ 6 := by
    unfold ChatPc.left
    split
    · exact GetPc.left_le _ _
    · exact Nat.zero_le _
  have hreceiver := s.receiver.left_le
  simp only [State.inFlight,List.length_append] at hlength
  simp only [State.left,Wire.left]
  omega

/-- A main thread in `getResponse` has a step of its own left. -/
theorem Expecting.left_pos (h : Expecting s) : 0 < s.left := by
  obtain ⟨pc,hpc⟩ := h.in_get
  have hpos : 0 < s.chat.left (decide (Party.main ∈ s.messages.asleep)) := by
    rw [hpc]
    cases pc with
    | asleep =>
      simp only [ChatPc.left,GetPc.left]
      split <;> omega
    | _ => simp [ChatPc.left,GetPc.left]
  simp only [State.left]
  omega

theorem State.Reading.step (h : s.Reading) (ht : Transition s a s' es) : s'.Reading := by
  cases ht with
  | closeStream | closeJoin | terminate => exact .inr (.inr rfl)
  | readError => exact .inr (.inl rfl)
  | isOpen hpc =>
    rcases h with hopen | hexited | hclosing
    · exact .inl hopen
    · simp [hexited] at hpc
    · exact .inr (.inr hclosing)
  | prompt hpc | message hpc | setKind hpc | write hpc | lock hpc | sleep hpc | found hpc
  | woken hpc | take hpc | unlock hpc =>
    rcases h with hopen | hexited | hclosing
    · exact .inl hopen
    · exact .inr (.inl hexited)
    · simp [hpc,ChatPc.closing] at hclosing
  | wake => exact h
  | lockPush hpc | push hpc | notify hpc | unlockPush hpc | read hpc =>
    rcases h with hopen | hexited | hclosing
    · exact .inl hopen
    · simp [hexited] at hpc
    · exact .inr (.inr hclosing)
  | server => exact h

/-- The mutex is free, or the receiver thread holds it and can go on. -/
theorem Locked.free (h : Locked s) (hlive : s.chat ≠ .terminated) (hout : s.chat.inside = false) :
    s.messages.owner = none ∨ s.receiver.inside = true ∧ (Legacy.step s .receiver).isSome = true := by
  cases howner : s.messages.owner with
  | none => exact .inl rfl
  | some u =>
    have hinside := (h.guards u).mpr howner
    cases u with
    | main => simp [State.inside,hout] at hinside
    | receiver =>
      refine .inr ⟨hinside,?_⟩
      simp only [Legacy.step,if_neg hlive,liveStep,receiverStep]
      cases hpc : s.receiver <;> simp [State.inside,ReceiverPc.inside,hpc] at hinside ⊢

/-- While the main thread sleeps, the receiver thread or the server can go on. -/
theorem Expecting.enabled_asleep (h : Expecting s) (hpc : s.chat = .get .asleep)
    (hm : Party.main ∈ s.messages.asleep) :
    ∃ a, a ≠ .wake ∧ a ≠ .readError ∧ (Legacy.step s a).isSome = true := by
  have hlive : s.chat ≠ .terminated := by simp [hpc]
  have hdeliverable := h.deliverable
  have hquiet : s.receiver ≠ .notify → s.messages.data = [] := by
    intro hnotify
    exact not_not.mp ((h.locked.attended.2.2 hm).resolve_right hnotify)
  cases hreceiver : s.receiver with
  | isOpen | push | notify | unlock =>
    exact ⟨.receiver,by simp,by simp,by simp [Legacy.step,hlive,liveStep,receiverStep,hreceiver]⟩
  | lock msg =>
    refine ⟨.receiver,by simp,by simp,?_⟩
    rcases h.locked.free hlive (by simp [hpc,ChatPc.inside]) with howner | ⟨hinside,_⟩
    · simp [Legacy.step,hlive,liveStep,receiverStep,hreceiver,Monitor.lock,howner]
    · simp [hreceiver,ReceiverPc.inside] at hinside
  | exited =>
    simp [State.deliverable,State.coming,hpc,hreceiver,ChatPc.held,hquiet] at hdeliverable
  | read =>
    -- the message is still on the wire
    cases hto : s.wire.toClient with
    | cons msg rest =>
      exact ⟨.read,by simp,by simp,by simp [Legacy.step,hlive,liveStep,hreceiver,hto]⟩
    | nil =>
      refine ⟨.server,by simp,by simp,?_⟩
      simp only [Legacy.step,if_neg hlive,liveStep,Option.isSome_map]
      cases hserver : s.server with
      | some msg => simp [echoStep]
      | none =>
        cases hsent : s.wire.toServer with
        | cons msg rest => simp [echoStep,hsent]
        | nil =>
          simp [State.deliverable,State.coming,hpc,hreceiver,ChatPc.held,ReceiverPc.held,hquiet,
            hto,hserver,hsent] at hdeliverable

/-- Something can happen, and not by chance. -/
theorem Expecting.enabled (h : Expecting s) :
    ∃ a, a ≠ .wake ∧ a ≠ .readError ∧ (Legacy.step s a).isSome = true := by
  obtain ⟨pc,hpc⟩ := h.in_get
  have hlive : s.chat ≠ .terminated := by simp [hpc]
  cases pc with
  | lock =>
    rcases h.locked.free hlive (by simp [hpc,ChatPc.inside]) with howner | ⟨_,hsome⟩
    · exact ⟨.chat,by simp,by simp,by
        simp [Legacy.step,liveStep,chatStep,getStep,hpc,Monitor.lock,howner]⟩
    · exact ⟨.receiver,by simp,by simp,hsome⟩
  | test =>
    refine ⟨.chat,by simp,by simp,?_⟩
    cases hdata : s.messages.data <;> simp [Legacy.step,liveStep,chatStep,getStep,hpc,hdata]
  | asleep =>
    by_cases hm : Party.main ∈ s.messages.asleep
    · exact h.enabled_asleep hpc hm
    · exact ⟨.chat,by simp,by simp,by simp [Legacy.step,liveStep,chatStep,getStep,hpc,hm]⟩
  | take =>
    refine ⟨.chat,by simp,by simp,?_⟩
    obtain ⟨msg,rest,hdata⟩ := List.exists_cons_of_ne_nil (h.locked.taking hpc)
    simp [Legacy.step,liveStep,chatStep,getStep,hpc,hdata]
  | unlock response =>
    exact ⟨.chat,by simp,by simp,by simp [Legacy.step,liveStep,chatStep,getStep,hpc]⟩

/-- The main thread goes on in `getResponse`. -/
theorem Expecting.get (h : Expecting s) (hlocked : Locked s') (hreading : s'.Reading)
    (hwaiting : s'.chat.waiting = true) (hreceiver : s'.receiver = s.receiver)
    (hwire : s'.wire = s.wire) (hserver : s'.server = s.server)
    (hdata : s'.chat.held++s'.messages.data = s.chat.held++s.messages.data) : Expecting s' := by
  refine ⟨hlocked,hreading,hwaiting,?_⟩
  have hcoming : s'.coming = s.coming := by simp only [State.coming,hreceiver,hwire,hserver]
  rw [State.deliverable,hdata,hcoming]
  exact h.deliverable

/-- The receiver thread, the connection or the server goes on. -/
theorem Expecting.bring (h : Expecting s) (hlocked : Locked s') (hreading : s'.Reading)
    (hchat : s'.chat = s.chat) (hdata : s'.messages.data++s'.coming = s.messages.data++s.coming) :
    Expecting s' := by
  refine ⟨hlocked,hreading,by rw [hchat]; exact h.waiting,?_⟩
  rw [State.deliverable,List.append_assoc,hdata,hchat,← List.append_assoc]
  exact h.deliverable

theorem ChatPc.left_le (pc : ChatPc) : pc.left false ≤ pc.left true+3 := by
  cases pc with
  | get pc => cases pc <;> simp [ChatPc.left,GetPc.left]
  | _ => simp [ChatPc.left]

/-- The receiver thread comes nearer to its next `ws_.read`. -/
theorem State.left_lt {k : ℕ} (hasleep : s'.messages.asleep = s.messages.asleep)
    (hchat : s'.chat = s.chat) (hwire : s'.wire = s.wire) (hserver : s'.server = s.server)
    (hlt : s'.receiver.left < s.receiver.left) : s'.left+1 ≤ s.left+k := by
  simp only [State.left,hasleep,hchat,hwire,hserver]
  omega

/-- A step that returns nothing keeps the message on its way, and brings it nearer unless it is a
spurious wake-up. -/
theorem Expecting.step (h : Expecting s) (hsound : Sound s a) (ht : Transition s a s' es) :
    (∃ e ∈ es, e.response?.isSome = true) ∨
      Expecting s' ∧ s'.left+1 ≤ s.left+4*(a == .wake).toNat := by
  have hreading := h.reading.step ht
  have hlocked := h.locked.step ht
  have hwaiting := h.waiting
  cases ht with
  | unlock hpc => exact .inl ⟨_,List.mem_singleton_self _,rfl⟩
  | lock hpc | found hpc =>
    refine .inr ⟨h.get hlocked hreading rfl rfl rfl rfl (by simp [hpc,ChatPc.held]),?_⟩
    simp only [State.left,ChatPc.left,GetPc.left,hpc]
    omega
  | sleep hpc =>
    refine .inr ⟨h.get hlocked hreading rfl rfl rfl rfl (by simp [hpc,ChatPc.held,Monitor.wait]),?_⟩
    simp only [State.left,ChatPc.left,GetPc.left,hpc,Monitor.wait,List.mem_cons_self,decide_true]
    simp only [if_true]
    omega
  | woken hpc hawake =>
    refine .inr ⟨h.get hlocked hreading rfl rfl rfl rfl (by simp [hpc,ChatPc.held]),?_⟩
    simp only [State.left,ChatPc.left,GetPc.left,hpc,hawake,decide_false]
    simp only [Bool.false_eq_true,if_false]
    omega
  | take hpc hdata =>
    refine .inr ⟨h.get hlocked hreading rfl rfl rfl rfl ?_,?_⟩
    · simp [hpc,hdata,ChatPc.held,Monitor.update]
    · simp only [State.left,ChatPc.left,GetPc.left,hpc]
      omega
  | prompt hpc | message hpc | setKind hpc | write hpc | closeStream hpc | closeJoin hpc =>
    simp [hpc,ChatPc.waiting] at hwaiting
  | terminate hpc =>
    obtain ⟨msg,hpc⟩ | hpc := hpc <;> simp [hpc,ChatPc.waiting] at hwaiting
  | wake hm =>
    have hnot : Party.main ∉ (s.messages.wake .main).asleep := by
      rw [h.locked.attended.not_asleep_wake]
      exact List.not_mem_nil
    refine .inr ⟨h.bring hlocked hreading rfl rfl,?_⟩
    have hle := s.chat.left_le
    simp only [State.left,hm,hnot,decide_true,decide_false,beq_self_eq_true,Bool.toNat_true]
    omega
  | isOpen hpc =>
    have hopen : s.isOpen = true := h.closing.resolve_right (by simp [hpc])
    refine .inr ⟨h.bring hlocked hreading rfl ?_,?_⟩
    · simp [State.coming,hopen,hpc,ReceiverPc.held]
    · exact State.left_lt rfl rfl rfl rfl (by simp [hpc,hopen,ReceiverPc.left])
  | lockPush hpc | push hpc | unlockPush hpc =>
    refine .inr ⟨h.bring hlocked hreading rfl ?_,?_⟩
    · simp [State.coming,hpc,ReceiverPc.held,Monitor.update,Monitor.unlock]
    · exact State.left_lt rfl rfl rfl rfl (by simp [hpc,ReceiverPc.left])
  | notify hpc =>
    have hdata : s.messages.notifyOne.data = s.messages.data := Monitor.notifyOne_frame.2
    have hnot : Party.main ∉ s.messages.notifyOne.asleep := by
      rw [h.locked.attended.not_asleep_notifyOne]
      exact List.not_mem_nil
    refine .inr ⟨h.bring hlocked hreading rfl ?_,?_⟩
    · simp [State.coming,hpc,hdata,ReceiverPc.held]
    · have hle := s.chat.left_le
      simp only [State.left,hpc,hnot,decide_false,ReceiverPc.left]
      cases decide (Party.main ∈ s.messages.asleep) <;> omega
  | read hpc hto =>
    refine .inr ⟨h.bring hlocked hreading rfl ?_,?_⟩
    · simp [State.coming,hpc,hto,ReceiverPc.held]
    · simp only [State.left,Wire.left,hpc,hto,ReceiverPc.left,List.length_cons]
      omega
  | readError => exact absurd rfl hsound
  | @server _ wire server _ hecho =>
    have horder := echo_order hecho
    refine .inr ⟨h.bring hlocked hreading rfl ?_,?_⟩
    · simp only [List.append_assoc] at horder
      cases hreceiver : s.receiver <;> simp only [State.coming,hreceiver,List.append_assoc,horder]
    · have hlt : Wire.left wire server < Wire.left s.wire s.server := server_left hecho
      simp only [State.left]
      omega

theorem reading (h : session.Run (init greeting) tr s) : s.Reading :=
  h.invariant (I := fun _ s => s.Reading) (.inl rfl) fun _ _ _ _ _ hi _ hs =>
    hi.step (step_transition hs)

/-- No notification is lost, and no response is held up: as long as a message can reach the
queue, something can happen to it, and whatever happens, failures of the connection apart,
`getResponse` has returned after 23 steps and four more for each spurious wake-up. -/
theorem response_comes (h : session.Run (init greeting) tr s) (hwaiting : s.chat.waiting = true)
    (hmsg : s.deliverable ≠ []) {l : List Action} {s' : State} {fs : List Event}
    (he : session.execWhere Sound s l = some (s',fs)) :
    (∃ e ∈ fs, e.response?.isSome = true) ∨
      l.length ≤ 22+4*l.count .wake ∧
      ∃ a, a ≠ .wake ∧ a ≠ .readError ∧ (step s' a).isSome = true := by
  obtain ⟨hlocked,hbooks⟩ := invariants h
  have hexpecting : Expecting s := ⟨hlocked,reading h,hwaiting,hmsg⟩
  rcases System.exec_answers (I := fun _ s => Expecting s) State.left (fun _ => true) (· == .wake) 4
    (fun e => e.response?.isSome = true)
    (fun _ _ _ _ _ hi hp hs => hi.step hp (step_transition hs)) hexpecting he with
    hans | ⟨hi,hle⟩
  · exact .inl hans
  · refine .inr ⟨?_,hi.enabled⟩
    have hleft := State.left_le hbooks.length_le
    have hpos := hi.left_pos
    have hlength : l.countP (fun _ => true) = l.length := by simp
    have hwake : l.countP (· == .wake) = l.count .wake := rfl
    omega

/-- The greeting comes while the main thread sleeps. -/
theorem response_comes_asleep :
    ∃ tr s, session.Run (init (some ⟨[119],true⟩)) tr s ∧ Party.main ∈ s.messages.asleep ∧
      ∀ l s' fs, session.execWhere Sound s l = some (s',fs) →
        (∃ e ∈ fs, e.response?.isSome = true) ∨ l.length ≤ 22+4*l.count .wake ∧
          ∃ a, a ≠ .wake ∧ a ≠ .readError ∧ (step s' a).isSome = true := by
  have hexec : (session.execWhere (fun _ _ => True) (init (some ⟨[119],true⟩))
      [.chat,.chat,.receiver]).any (fun r => decide (Party.main ∈ r.1.messages.asleep ∧
        r.1.chat.waiting = true ∧ r.1.deliverable ≠ [])) = true := by
    decide +kernel
  obtain ⟨s,tr,hrun,hs⟩ := System.exists_run_of_exec hexec
  obtain ⟨hasleep,hwaiting,hmsg⟩ : Party.main ∈ s.messages.asleep ∧ s.chat.waiting = true ∧
    s.deliverable ≠ [] := of_decide_eq_true hs
  exact ⟨tr,s,hrun,hasleep,fun _ _ _ he => response_comes hrun hwaiting hmsg he⟩

/-- The main thread is in `getResponse` and stays there. -/
def State.Stuck (s : State) : Prop :=
  ∀ fs s', session.Run s fs s' → s'.chat.waiting = true ∧ fs = []

theorem deliverable_nil : s.deliverable = [] ↔
    s.chat.held = [] ∧ s.messages.data = [] ∧ (s.receiver = .exited ∨
      s.receiver.held = [] ∧ s.wire.toClient = [] ∧ s.server = none ∧ s.wire.toServer = []) := by
  simp only [State.deliverable,State.coming,List.append_eq_nil_iff,and_assoc]
  cases s.receiver <;> simp [Option.toList_eq_nil_iff]

/-- Where nothing can be returned nothing is sent either, so nothing comes. -/
theorem stuck_step (hwaiting : s.chat.waiting = true) (hnone : s.deliverable = [])
    (ht : Transition s a s' es) : s'.chat.waiting = true ∧ s'.deliverable = [] ∧ es = [] := by
  obtain ⟨hheld,hdata,hcoming⟩ := deliverable_nil.mp hnone
  cases ht with
  | lock hpc | woken hpc => exact ⟨rfl,deliverable_nil.mpr ⟨rfl,hdata,hcoming⟩,rfl⟩
  | sleep hpc => exact ⟨rfl,deliverable_nil.mpr ⟨rfl,hdata,hcoming⟩,rfl⟩
  | found hpc hsome => exact absurd hdata hsome
  | take hpc hsome => simp [hsome] at hdata
  | unlock hpc => simp [hpc,ChatPc.held] at hheld
  | prompt hpc | message hpc | setKind hpc | write hpc | closeStream hpc | closeJoin hpc =>
    simp [hpc,ChatPc.waiting] at hwaiting
  | terminate hpc =>
    obtain ⟨msg,hpc⟩ | hpc := hpc <;> simp [hpc,ChatPc.waiting] at hwaiting
  | wake => exact ⟨hwaiting,deliverable_nil.mpr ⟨hheld,hdata,hcoming⟩,rfl⟩
  | isOpen hpc =>
    refine ⟨hwaiting,deliverable_nil.mpr ⟨hheld,hdata,?_⟩,rfl⟩
    rcases hcoming with hexited | ⟨_,hwire⟩
    · simp [hexited] at hpc
    · refine .inr ⟨?_,hwire⟩
      dsimp only
      split <;> rfl
  | lockPush hpc | push hpc =>
    rcases hcoming with hexited | ⟨hpcheld,_⟩
    · simp [hexited] at hpc
    · simp [hpc,ReceiverPc.held] at hpcheld
  | notify hpc =>
    have hnil : s.messages.notifyOne.data = [] := Monitor.notifyOne_frame.2.trans hdata
    rcases hcoming with hexited | ⟨_,hwire⟩
    · simp [hexited] at hpc
    · exact ⟨hwaiting,deliverable_nil.mpr ⟨hheld,hnil,.inr ⟨rfl,hwire⟩⟩,rfl⟩
  | unlockPush hpc =>
    rcases hcoming with hexited | ⟨_,hwire⟩
    · simp [hexited] at hpc
    · exact ⟨hwaiting,deliverable_nil.mpr ⟨hheld,hdata,.inr ⟨rfl,hwire⟩⟩,rfl⟩
  | read hpc hto =>
    rcases hcoming with hexited | ⟨_,hnil,_⟩
    · simp [hexited] at hpc
    · simp [hto] at hnil
  | readError => exact ⟨hwaiting,deliverable_nil.mpr ⟨hheld,hdata,.inl rfl⟩,rfl⟩
  | server hecho =>
    refine ⟨hwaiting,deliverable_nil.mpr ⟨hheld,hdata,hcoming.imp_right ?_⟩,rfl⟩
    rintro ⟨_,hto,hserver,hsent⟩
    have hlt := server_left hecho
    simp [Wire.left,hto,hserver,hsent] at hlt

theorem stuck_of_none (hwaiting : s.chat.waiting = true) (hnone : s.deliverable = []) : s.Stuck := by
  intro fs s' h
  have hrun := h.invariant (I := fun fs s => s.chat.waiting = true ∧ s.deliverable = [] ∧ fs = [])
    ⟨hwaiting,hnone,rfl⟩ fun _ _ _ _ _ hi _ hs => by
      obtain ⟨hwaiting,hnone,rfl⟩ := hi
      exact stuck_step hwaiting hnone (step_transition hs)
  exact ⟨hrun.1,hrun.2.2⟩

/-- Where something can be returned, it can come to that. -/
theorem Expecting.answered (h : Expecting s) :
    ∃ fs s', session.Run s fs s' ∧ ∃ e ∈ fs, e.response?.isSome = true := by
  induction hn : s.left using Nat.strongRecOn generalizing s with
  | ind n ih =>
    obtain ⟨a,hwake,herror,hsome⟩ := h.enabled
    obtain ⟨⟨s',es⟩,hs⟩ := Option.isSome_iff_exists.mp hsome
    have hfirst : session.Run s ([]++es) s' := .step .start trivial hs
    rcases h.step herror (step_transition hs) with ⟨e,he,hans⟩ | ⟨hi,hle⟩
    · exact ⟨_,s',hfirst,e,he,hans⟩
    · have hlt : s'.left < n := by
        have hchance : (a == .wake) = false := beq_eq_false_iff_ne.mpr hwake
        rw [hchance] at hle
        simp only [Bool.toNat_false] at hle
        omega
      obtain ⟨fs,s'',hrest,e,he,hans⟩ := ih _ hlt hi rfl
      exact ⟨_,s'',hfirst.append hrest,e,List.mem_append_right _ he,hans⟩

theorem none_of_stuck (h : session.Run (init greeting) tr s) (hstuck : s.Stuck) :
    s.deliverable = [] := by
  by_contra hmsg
  have hwaiting := (hstuck [] s .start).1
  obtain ⟨fs,s',hrun,e,he,_⟩ :=
    Expecting.answered ⟨(invariants h).1,reading h,hwaiting,hmsg⟩
  rw [(hstuck fs s' hrun).2] at he
  cases he

/-- With nothing under way nothing can be returned. -/
theorem deliverable_of_inFlight (hnil : s.inFlight = []) : s.deliverable = [] := by
  simp only [State.inFlight,List.append_eq_nil_iff,Option.toList_eq_nil_iff] at hnil
  obtain ⟨⟨⟨⟨⟨hheld,hdata⟩,hpcheld⟩,hto⟩,hserver⟩,hsent⟩ := hnil
  exact deliverable_nil.mpr ⟨hheld,hdata,.inr ⟨hpcheld,hto,hserver,hsent⟩⟩

/-- `getResponse` never returns exactly when no message can reach the queue any more: after a
failure of the connection with the queue empty, with a server that sends no greeting from the start,
and after a command that is none. -/
theorem response_never (h : session.Run (init greeting) tr s) :
    (s.chat.waiting = true → (s.Stuck ↔ s.deliverable = [])) ∧
      (greeting = none → tr = [] ∧ s.Stuck) ∧
      ∀ input ended s' es, s.chat = .prompt → ChatPc.command input = .get .lock →
        step s (.line input ended) = some (s',es) → s'.Stuck := by
  refine ⟨fun hwaiting => ⟨none_of_stuck h,stuck_of_none hwaiting⟩,?_,?_⟩
  · rintro rfl
    have hstuck : (init none).Stuck := stuck_of_none rfl (deliverable_of_inFlight rfl)
    obtain ⟨_,rfl⟩ := hstuck _ _ h
    exact ⟨rfl,fun fs s' hrun => hstuck _ _ (h.append hrun)⟩
  · intro input ended s' es hpc hcommand hs
    obtain ⟨_,hbooks⟩ := invariants h
    have hnil : s.inFlight = [] := by
      have hexpects := hbooks.expects
      rwa [hpc] at hexpects
    cases heof : s.eof with
    | true => simp [step,hpc,liveStep,heof] at hs
    | false =>
      simp only [step,hpc,liveStep,heof,State.onLine,hcommand] at hs
      cases hs
      refine stuck_of_none rfl (deliverable_of_inFlight ?_)
      simpa [State.inFlight,hpc,ChatPc.held] using hnil

/-- `help` is not a command. -/
theorem response_never_help :
    ∃ tr s s' es, session.Run (init (some ⟨[119],true⟩)) tr s ∧ s.chat = .prompt ∧
      step s (.line (bytes "help") false) = some (s',es) ∧ s'.Stuck := by
  have hexec : (session.execWhere (fun _ _ => True) (init (some ⟨[119],true⟩))
      (System.schedule [(1,[.receiver,.read]),(4,[.receiver]),(4,[.chat])])).any
      (fun r => decide (r.1.chat = .prompt) &&
        (step r.1 (.line (bytes "help") false)).isSome) = true := by
    decide +kernel
  obtain ⟨s,tr,hrun,hs⟩ := System.exists_run_of_exec hexec
  obtain ⟨hprompt,hsome⟩ := Bool.and_eq_true_iff.mp hs
  have hprompt : s.chat = .prompt := of_decide_eq_true hprompt
  obtain ⟨⟨s',es⟩,hline⟩ := Option.isSome_iff_exists.mp hsome
  have hcommand : ChatPc.command (bytes "help") = .get .lock := by decide +kernel
  exact ⟨tr,s,s',es,hrun,hprompt,hline,
    (response_never hrun).2.2 _ _ _ _ hprompt hcommand hline⟩

/-- The main thread goes round with one and the same `input`. -/
def ChatPc.Repeats (input : List UInt8) : ChatPc → Prop
  | .message text => input = if text then bytes "text" else bytes "binary"
  | .setKind msg | .write msg =>
    msg.payload = input ∧ input = if msg.isText then bytes "text" else bytes "binary"
  | .closeStream | .closeJoin | .returned => False
  | _ => True

theorem ChatPc.command_repeats {input : List UInt8} (hexit : input ≠ bytes "/exit") :
    (ChatPc.command input).Repeats input := by
  simp only [ChatPc.command,if_neg hexit]
  split_ifs with _ htext hbinary
  · trivial
  · exact htext
  · exact hbinary
  · trivial

theorem repeats_step {input : List UInt8} (hexit : input ≠ bytes "/exit") (heof : s.eof = true)
    (hinput : s.input = input) (hrepeats : s.chat.Repeats input) (ht : Transition s a s' es) :
    s'.eof = true ∧ s'.input = input ∧ s'.chat.Repeats input ∧
      ∀ msg ∈ requests es, msg.payload = input ∧
        input = if msg.isText then bytes "text" else bytes "binary" := by
  cases ht with
  | lock | sleep | found | woken | take | unlock =>
    exact ⟨heof,hinput,trivial,by simp [requests,Event.request?]⟩
  | prompt hpc hsame =>
    obtain ⟨rfl,rfl⟩ := hsame heof
    exact ⟨rfl,hinput,hinput ▸ ChatPc.command_repeats (hinput ▸ hexit),by simp [requests]⟩
  | message hpc hsame =>
    obtain ⟨rfl,rfl⟩ := hsame heof
    rw [hpc] at hrepeats
    exact ⟨rfl,hinput,⟨hinput,hrepeats⟩,by simp [requests]⟩
  | setKind hpc =>
    rw [hpc] at hrepeats
    exact ⟨heof,hinput,hrepeats,by simp [requests]⟩
  | write hpc =>
    rw [hpc] at hrepeats
    refine ⟨heof,hinput,trivial,?_⟩
    simpa [requests,Event.request?,ChatPc.Repeats] using hrepeats
  | terminate => exact ⟨heof,hinput,trivial,by simp [requests]⟩
  | closeStream hpc | closeJoin hpc =>
    rw [hpc] at hrepeats
    exact hrepeats.elim
  | wake | isOpen | lockPush | push | notify | unlockPush | read | readError | server =>
    exact ⟨heof,hinput,hrepeats,by simp [requests]⟩

theorem idle_step (heof : s.eof = true) (hinput : s.input = []) (hprompt : s.chat = .prompt)
    (ht : Transition s a s' es) :
    s'.eof = true ∧ s'.input = [] ∧ s'.chat = .prompt ∧ es = [] := by
  cases ht with
  | prompt hpc hsame =>
    obtain ⟨rfl,rfl⟩ := hsame heof
    have hcommand : ChatPc.command [] = .prompt := by decide +kernel
    exact ⟨rfl,hinput,by rw [hinput,hcommand],rfl⟩
  | lock hpc | sleep hpc | found hpc | woken hpc | take hpc | unlock hpc | message hpc | setKind hpc
  | write hpc | closeStream hpc | closeJoin hpc =>
    simp [hprompt] at hpc
  | terminate hpc => simp [hprompt] at hpc
  | wake | isOpen | lockPush | push | notify | unlockPush | read | readError | server =>
    exact ⟨heof,hinput,hprompt,rfl⟩

/-- The end of the input does not end the session: `input` keeps its last value, and unless that is
`/exit` the main thread never closes the connection. It goes round at the prompt when the value is
empty, and otherwise sends nothing but the name of the last command, over and over. -/
theorem input_ended (heof : s.eof = true) (hprompt : s.chat = .prompt)
    (hexit : s.input ≠ bytes "/exit") (h : session.Run s tr s') :
    s'.chat ≠ .closeStream ∧ s'.chat ≠ .returned ∧ s'.input = s.input ∧
      (∀ msg ∈ requests tr, msg.payload = s.input ∧
        s.input = if msg.isText then bytes "text" else bytes "binary") ∧
      (s.input = [] → s'.chat = .prompt ∧ tr = []) := by
  have hrun : s'.eof = true ∧ s'.input = s.input ∧ s'.chat.Repeats s.input ∧
      ∀ msg ∈ requests tr, msg.payload = s.input ∧
        s.input = if msg.isText then bytes "text" else bytes "binary" := by
    refine h.invariant (I := fun tr s' => s'.eof = true ∧ s'.input = s.input ∧
      s'.chat.Repeats s.input ∧ ∀ msg ∈ requests tr, msg.payload = s.input ∧
        s.input = if msg.isText then bytes "text" else bytes "binary") ?_ ?_
    · exact ⟨heof,rfl,by rw [hprompt]; trivial,by simp [requests]⟩
    · rintro tr s₁ a s₂ es ⟨heof,hinput,hrepeats,hsent⟩ _ hs
      obtain ⟨heof',hinput',hrepeats',hsent'⟩ :=
        repeats_step hexit heof hinput hrepeats (step_transition hs)
      refine ⟨heof',hinput',hrepeats',?_⟩
      simp only [requests,List.filterMap_append,List.mem_append]
      rintro msg (hm | hm)
      · exact hsent msg hm
      · exact hsent' msg hm
  obtain ⟨_,hinput,hrepeats,hsent⟩ := hrun
  refine ⟨fun hpc => ?_,fun hpc => ?_,hinput,hsent,fun hempty => ?_⟩
  · rw [hpc] at hrepeats
    exact hrepeats
  · rw [hpc] at hrepeats
    exact hrepeats
  · have hidle := h.invariant (I := fun tr s' => s'.eof = true ∧ s'.input = [] ∧
      s'.chat = .prompt ∧ tr = []) ⟨heof,hempty,hprompt,rfl⟩ fun _ _ _ _ _ hi _ hs => by
        obtain ⟨heof,hinput,hprompt,rfl⟩ := hi
        exact idle_step heof hinput hprompt (step_transition hs)
    exact hidle.2.2

/-- The input ends with `text` and no end of line. -/
theorem input_ended_text :
    ∃ tr s fs s', session.Run (init (some ⟨[119],true⟩)) tr s ∧ session.Run s fs s' ∧
      requests fs = [⟨bytes "text",true⟩] ∧ s'.chat ≠ .returned ∧ s'.input = bytes "text" := by
  have hexec : (session.execWhere (fun _ _ => True) (init (some ⟨[119],true⟩))
      (System.schedule [(1,[.receiver,.read]),(4,[.receiver]),(4,[.chat]),
        (1,[.line (bytes "text") true]),(3,[.chat]),(2,[.server]),(1,[.receiver,.read]),
        (4,[.receiver]),(4,[.chat])])).any (fun r => decide (r.1.eof = true ∧ r.1.chat = .prompt ∧
      r.1.input = bytes "text") && (session.execWhere (fun _ _ => True) r.1
        (System.schedule [(4,[.chat])])).any
          fun q => decide (requests q.2 = [⟨bytes "text",true⟩])) = true := by
    decide +kernel
  obtain ⟨s,tr,hrun,hs⟩ := System.exists_run_of_exec hexec
  obtain ⟨hs,hexec'⟩ := Bool.and_eq_true_iff.mp hs
  obtain ⟨heof,hprompt,hinput⟩ : s.eof = true ∧ s.chat = .prompt ∧ s.input = bytes "text" :=
    of_decide_eq_true hs
  obtain ⟨s',fs,hrun',hq⟩ := System.exists_run_of_exec hexec'
  have hexit : s.input ≠ bytes "/exit" := by
    rw [hinput]
    decide +kernel
  obtain ⟨_,hreturned,hsame,_⟩ := input_ended heof hprompt hexit hrun'
  exact ⟨tr,s,fs,s',hrun,hrun',of_decide_eq_true hq,hreturned,hsame.trans hinput⟩

end WsClient.Legacy
