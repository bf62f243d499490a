import WsClient.Session.Stranding

/-!
# The end of a session

`close` clears `running_`, closes the stream and joins the receiver thread. From then on the two
threads have only a few steps left, and the join does not block.
-/

namespace WsClient.Session
open WsClient.Lib WsClient.Client

/-- What the receiver thread has left to do once `running_` is cleared. -/
def toEnd (c : Client.State) : ℕ :=
  match c.receiver with
  | .exited => 0
  | .storeRunning => 1
  | .loadRunning => 2
  | .pushing _ => c.queue.push.left+2
  | .push _ => 7
  | .construct => 8
  | .read => 9
  | .clearBuffer => 10

/-- What `close` has left to do. -/
def ChatPc.toEnd : ChatPc → ℕ
  | .closeStream => 2
  | .closeJoin => 1
  | _ => 0

/-- Steps of the two threads of the client. -/
def NetAction.own {β : Type*} : NetAction β → Bool
  | .session (.server _) => false
  | _ => true

/-- `close` has begun, and the receiver thread will find `running_` cleared. -/
structure Closed {ρ : Type*} (s : State ρ) : Prop where
  running : s.chat.closing = true → s.client.running = false
  joined : s.chat = .returned → s.client.receiver = .exited

variable {ρ β : Type*} {moved : Message → Message} {ndebug : Bool}
  {server : System (Wire × ρ) β Empty} {s s' : State ρ} {es : List Event} {a : NetAction β}

theorem toEnd_le (c : Client.State) : toEnd c ≤ 10 := by
  have hleft := c.queue.push.left_le
  unfold toEnd
  split <;> omega

/-- A step of the receiver thread after `close`. -/
theorem receiver_toEnd {c c' : Client.State} {b : Client.Action} {ces : List Client.Event}
    (hrunning : c.running = false) (hb : b.ofReceiver = true)
    (hs : (Client.client moved).step c b = some (c',ces)) :
    c'.running = false ∧ toEnd c' < toEnd c := by
  have hrunning' : c'.running = false := by
    by_contra hne
    have hwas := Client.was_running hs (Bool.eq_true_of_not_eq_false hne)
    rw [hrunning] at hwas
    cases hwas
  refine ⟨hrunning',?_⟩
  cases Client.step_transition hs with
  | loadRunning hpc => simp [toEnd,hpc,hrunning]
  | clearBuffer hpc | construct hpc | storeRunning hpc | read hpc | readError hpc =>
    simp [toEnd,hpc]
  | push hpc hq =>
    simp only [SpscQueue.queue,SpscQueue.step] at hq
    split at hq <;> cases hq
    simp [toEnd,hpc,SpscQueue.PushPc.left]
  | @producer _ _ _ fs hpc hq =>
    obtain ⟨hlt,_,_⟩ := SpscQueue.producer_left hq
    by_cases hfs : fs = []
    · simpa [toEnd,hpc,hfs] using hlt
    · simp [toEnd,hpc,hfs]
      omega
  | call hcall =>
    rw [hcall.not_receiver] at hb
    cases hb
  | consumer => cases hb
  | close => cases hb

/-- The main thread comes to `close` by the store that clears `running_`, and to its end by the
join. -/
theorem Closed.chat (h : Closed s) (hs : chatStep moved ndebug s = some (s',es)) :
    Closed s' ∧ (s.chat.closing = true → s'.chat.closing = true ∧
      s'.client = s.client ∧ s'.chat.toEnd < s.chat.toEnd) := by
  have hnot : ∀ {s' : State ρ}, s.chat.closing = false → s'.chat.closing = false →
      Closed s' ∧ (s.chat.closing = true → s'.chat.closing = true ∧
        s'.client = s.client ∧ s'.chat.toEnd < s.chat.toEnd) := by
    intro s' hopen hopen'
    refine ⟨⟨fun hc => ?_,fun hc => ?_⟩,fun hc => ?_⟩
    · simp [hopen'] at hc
    · simp [hc,ChatPc.closing] at hopen'
    · simp [hopen] at hc
  simp only [chatStep] at hs
  split at hs
  · next hpc =>
    split at hs
    · obtain ⟨_,_,_,_,rfl⟩ := State.onClient_some hs
      exact hnot (by rw [hpc]; rfl) rfl
    · cases hs
      exact hnot (by rw [hpc]; rfl) rfl
  · next hpc =>
    cases hs
    refine hnot (by rw [hpc]; rfl) ?_
    dsimp only
    split <;> rfl
  · next hpc =>
    split at hs
    · obtain ⟨pool,pes,rfl,rfl⟩ := State.onPool_some hs
      refine hnot (by rw [hpc]; rfl) ?_
      dsimp only
      repeat' split
      all_goals rfl
    · cases hs
      exact hnot (by rw [hpc]; rfl) rfl
  · next hpc =>
    split at hs
    · obtain ⟨pool,pes,rfl,rfl⟩ := State.onPool_some hs
      exact hnot (by rw [hpc]; rfl) rfl
    · cases hs
      exact hnot (by rw [hpc]; rfl) rfl
  · next hpc =>
    cases hs
    exact hnot (by rw [hpc]; rfl) rfl
  · next hpc =>
    cases hs
    exact hnot (by rw [hpc]; rfl) rfl
  · next hpc =>
    obtain ⟨_,_,_,_,rfl⟩ := State.onClient_some hs
    exact hnot (by rw [hpc]; rfl) rfl
  · next hpc =>
    obtain ⟨_,_,_,_,rfl⟩ := State.onClient_some hs
    exact hnot (by rw [hpc]; rfl) rfl
  · next hpc =>
    split at hs <;> cases hs <;> exact hnot (by rw [hpc]; rfl) rfl
  · next hpc =>
    obtain ⟨pool,pes,rfl,rfl⟩ := State.onPool_some hs
    exact hnot (by rw [hpc]; rfl) rfl
  · next hpc =>
    obtain ⟨c,_,hc,_,rfl⟩ := State.onClient_some hs
    cases hc
    refine ⟨⟨fun _ => rfl,fun hc => ?_⟩,fun hc => ?_⟩
    · cases hc
    · simp [hpc,ChatPc.closing] at hc
  · next hpc =>
    cases hs
    have hrunning := h.running (by rw [hpc]; rfl)
    refine ⟨⟨fun _ => hrunning,fun hc => ?_⟩,fun _ => ⟨rfl,rfl,by simp [hpc,ChatPc.toEnd]⟩⟩
    cases hc
  · next hpc =>
    split at hs
    · next hexited =>
      cases hs
      have hrunning := h.running (by rw [hpc]; rfl)
      exact ⟨⟨fun _ => hrunning,fun _ => hexited⟩,
        fun _ => ⟨rfl,rfl,by simp [hpc,ChatPc.toEnd]⟩⟩
    · cases hs
  all_goals cases hs

/-- The steps that `close` and the receiver thread have left. -/
def State.endLeft (s : State ρ) : ℕ := s.chat.toEnd+toEnd s.client

/-- One step from a state in which `close` has begun or not. -/
def Closes (s s' : State ρ) (own : Bool) : Prop :=
  Closed s' ∧ (s.chat.closing = true → s'.chat.closing = true ∧
    s'.endLeft+own.toNat ≤ s.endLeft)

/-- A step before `close`. -/
theorem Closes.before {own : Bool} (hopen : s.chat.closing = false)
    (hopen' : s'.chat.closing = false) : Closes s s' own := by
  refine ⟨⟨fun hc => ?_,fun hc => ?_⟩,fun hc => ?_⟩
  · simp [hopen'] at hc
  · simp [hc,ChatPc.closing] at hopen'
  · simp [hopen] at hc

theorem Closed.client (h : Closed s) {b : Client.Action} {c : Client.State}
    {ces : List Client.Event} (hb : b.ofReceiver = true)
    (hs : (Client.client moved).step s.client b = some (c,ces)) (hclient : s'.client = c)
    (hchat : s'.chat = s.chat) : Closes s s' true := by
  cases hclosing : s.chat.closing with
  | false => exact .before hclosing (by rw [hchat]; exact hclosing)
  | true =>
    obtain ⟨hrunning,hlt⟩ := receiver_toEnd (h.running hclosing) hb hs
    refine ⟨⟨fun _ => by rw [hclient]; exact hrunning,fun hc => ?_⟩,fun _ => ⟨?_,?_⟩⟩
    · -- the receiver thread that has been joined takes no step
      rw [hchat] at hc
      simp [toEnd,h.joined hc] at hlt
    · rw [hchat]
      exact hclosing
    · simp only [State.endLeft,hchat,hclient,Bool.toNat_true]
      omega

theorem ChatPc.command_open (input : List UInt8) : (ChatPc.command input).closing = false := by
  unfold ChatPc.command
  split_ifs <;> rfl

theorem ChatPc.after_open {pc : ChatPc} (ces : List Client.Event) (h : pc.closing = false) :
    (pc.after ces).closing = false := by
  unfold ChatPc.after
  split
  all_goals first | rfl | exact h

theorem Closed.step (h : Closed s) (hs : (network moved ndebug server).step s a = some (s',es)) :
    Closes s s' a.own := by
  cases a with
  | writeError =>
    simp only [network,networkStep] at hs
    split at hs
    · next hpc =>
      cases hs
      exact .before (by rw [hpc]; rfl) rfl
    · next hpc =>
      obtain ⟨pool,pes,rfl,rfl⟩ := State.onPool_some hs
      exact .before (by rw [hpc]; rfl) rfl
    · cases hs
  | session b =>
    simp only [network,networkStep] at hs
    cases b with
    | chat =>
      obtain ⟨hclosed,hmain⟩ := h.chat hs
      refine ⟨hclosed,fun hclosing => ?_⟩
      obtain ⟨hclosing',hclient,hlt⟩ := hmain hclosing
      refine ⟨hclosing',?_⟩
      simp only [State.endLeft,hclient,NetAction.own,Bool.toNat_true]
      omega
    | line input =>
      simp only [Session.step] at hs
      split at hs
      · next hpc =>
        cases hs
        exact .before (by rw [hpc]; rfl) (ChatPc.command_open _)
      · next hpc =>
        cases hs
        exact .before (by rw [hpc]; rfl) rfl
      · next hpc =>
        cases hs
        exact .before (by rw [hpc]; rfl) rfl
      · next hpc =>
        cases hs
        exact .before (by rw [hpc]; rfl) rfl
      · cases hs
    | consumer obs =>
      simp only [Session.step] at hs
      split at hs
      · next hpc =>
        obtain ⟨_,ces,_,_,rfl⟩ := State.onClient_some hs
        have hopen : s.chat.closing = false := by rw [hpc]; rfl
        exact .before hopen (ChatPc.after_open ces hopen)
      · next hpc =>
        obtain ⟨_,ces,_,_,rfl⟩ := State.onClient_some hs
        have hopen : s.chat.closing = false := by rw [hpc]; rfl
        exact .before hopen (ChatPc.after_open ces hopen)
      · cases hs
    | receiver =>
      simp only [Session.step] at hs
      obtain ⟨c,ces,hc,_,rfl⟩ := State.onClient_some hs
      exact h.client rfl hc rfl rfl
    | producer obs =>
      simp only [Session.step] at hs
      obtain ⟨c,ces,hc,_,rfl⟩ := State.onClient_some hs
      exact h.client rfl hc rfl rfl
    | readError =>
      simp only [Session.step] at hs
      obtain ⟨c,ces,hc,_,rfl⟩ := State.onClient_some hs
      exact h.client rfl hc rfl rfl
    | read =>
      simp only [Session.step] at hs
      split at hs
      · cases hs
      · obtain ⟨⟨s₁,es₁⟩,h₁,he⟩ := Option.map_eq_some_iff.mp hs
        cases he
        obtain ⟨c,ces,hc,_,rfl⟩ := State.onClient_some h₁
        exact h.client rfl hc rfl rfl
    | server b =>
      obtain ⟨⟨⟨w,srv⟩,fs⟩,_,he⟩ := Option.map_eq_some_iff.mp hs
      cases he
      exact ⟨⟨h.running,h.joined⟩,fun hclosing => ⟨hclosing,Nat.le_refl _⟩⟩

/-- The join is waited for by a main thread that the receiver thread does not keep waiting. -/
theorem Closed.enabled {tr : List Event} (htracked : Tracked moved tr s)
    (hclosing : s.chat.closing = true) (hreturned : s.chat ≠ .returned) :
    ∃ a, a.own = true ∧ ((network moved ndebug server).step s a).isSome = true := by
  have hclient {b : Client.Action} {c : Client.State} {ces : List Client.Event}
      (hc : (Client.client moved).step s.client b = some (c,ces)) :
      (s.onClient moved b fun _ => s.chat).isSome = true := by
    simp only [State.onClient,Option.isSome_map]
    exact Option.isSome_of_eq_some hc
  cases hpc : s.chat with
  | closeStream =>
    refine ⟨.session .chat,rfl,?_⟩
    simp [network,networkStep,Session.step,chatStep,hpc]
  | closeJoin =>
    cases hreceiver : s.client.receiver with
    | exited =>
      refine ⟨.session .chat,rfl,?_⟩
      simp [network,networkStep,Session.step,chatStep,hpc,hreceiver]
    | storeRunning =>
      refine ⟨.session .receiver,rfl,?_⟩
      have hc : (Client.client moved).step s.client .receiver =
          some ({ s.client with running := false, receiver := .exited },[]) := by
        simp [Client.client,Client.step,receiverStep,hreceiver]
      exact hclient hc
    | read =>
      -- the stream is closed, so the read fails
      refine ⟨.session .readError,rfl,?_⟩
      have hc : (Client.client moved).step s.client .readError =
          some ({ s.client with receiver := .storeRunning },[]) := by
        simp [Client.client,Client.step,hreceiver]
      exact hclient hc
    | _ =>
      rcases receiver_enabled htracked.run (by rw [hreceiver]; rfl) (by simp [hreceiver]) with
        ⟨c,ces,hc⟩ | ⟨obs,c,ces,hc⟩
      · exact ⟨.session .receiver,rfl,hclient hc⟩
      · exact ⟨.session (.producer obs),rfl,hclient hc⟩
  | returned => exact absurd hpc hreturned
  | _ => simp [hpc,ChatPc.closing] at hclosing

theorem run_closed {srv : ρ} {storage : ℕ} {m : ByteMem} {tr : List Event}
    (h : (network moved ndebug server).Run (init srv storage m) tr s) : Closed s :=
  h.invariant (I := fun _ s => Closed s) ⟨fun hc => (by cases hc),fun hc => (by cases hc)⟩
    fun _ _ _ _ _ hi _ hs => (hi.step hs).1

/-- `close` returns: when it has cleared `running_`, at the end of a session or because an
exception destroys the client, its thread and the receiver thread take at most twelve more steps,
whatever the server sends; and until the receiver thread has been joined, one of them can go on. -/
theorem close_returns (moved : Message → Message) (ndebug : Bool)
    (server : System (Wire × ρ) β Empty) (srv : ρ) (storage : ℕ) (m : ByteMem) {tr : List Event}
    (h : (network moved ndebug server).Run (init srv storage m) tr s)
    (hclosing : s.chat.closing = true) {l : List (NetAction β)} {fs : List Event}
    (he : (network moved ndebug server).execWhere (fun _ _ => True) s l = some (s',fs)) :
    l.countP NetAction.own ≤ 12 ∧
      ((s'.chat = .returned ∧ s'.client.receiver = .exited) ∨
        ∃ a, a.own = true ∧ ((network moved ndebug server).step s' a).isSome = true) := by
  obtain ⟨⟨hclosed',hclosing'⟩,hle⟩ := System.exec_measure
    (I := fun s : State ρ => Closed s ∧ s.chat.closing = true) State.endLeft NetAction.own
    (fun _ _ _ _ hi _ hs => by
      obtain ⟨hclosed,hmove⟩ := hi.1.step hs
      exact ⟨⟨hclosed,(hmove hi.2).1⟩,(hmove hi.2).2⟩) ⟨run_closed h,hclosing⟩ he
  have hclient := toEnd_le s.client
  have hchat : s.chat.toEnd ≤ 2 := by
    unfold ChatPc.toEnd
    split <;> omega
  rw [State.endLeft,State.endLeft] at hle
  refine ⟨by omega,?_⟩
  by_cases hreturned : s'.chat = .returned
  · exact .inl ⟨hreturned,hclosed'.joined hreturned⟩
  · have hrun := h.append (System.run_of_exec he)
    exact .inr (Closed.enabled (run_tracked hrun) hclosing' hreturned)

/-- `/exit` while the receiver thread waits in `ws_.read`. -/
theorem close_returns_reading :
    ∃ tr s, (network id true echo).Run (init none 4096 fun _ => 0) tr s ∧
      s.chat.closing = true ∧ s.client.receiver ≠ .exited ∧
        ∀ l s' fs, (network id true echo).execWhere (fun _ _ => True) s l = some (s',fs) →
          l.countP NetAction.own ≤ 12 := by
  have hexec : ((network id true echo).execWhere (fun _ _ => True) (init none 4096 fun _ => 0)
      ((System.schedule [(100,[.chat,.consumer 0,.consumer 0]),(2,[.chat]),
        (2,[.receiver]),(1,[.line (some (bytes "/exit"))]),(1,[.chat])]).map .session)).any
      (fun r => decide (r.1.chat.closing = true ∧ r.1.client.receiver ≠ .exited)) = true := by
    decide +kernel
  obtain ⟨s,tr,hrun,hs⟩ := System.exists_run_of_exec hexec
  obtain ⟨hclosing,hreceiver⟩ : s.chat.closing = true ∧ s.client.receiver ≠ .exited :=
    of_decide_eq_true hs
  exact ⟨tr,s,hrun,hclosing,hreceiver,
    fun _ _ _ he => (close_returns id true echo none 4096 _ hrun hclosing he).1⟩

end WsClient.Session
