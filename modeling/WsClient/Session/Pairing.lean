import WsClient.Session.Threads

/-!
# Requests and responses stay paired

No message carries an identifier: `spin_receive` returns whatever comes next. With an echo
server everything sent and not yet delivered is the one request the main thread waits for, so
what comes next is its echo, and at a prompt there is nothing to come.
-/

namespace WsClient.Session
open WsClient.Lib WsClient.Client

/-- Session and client agree: what was asked to be sent is what the client has read and what is
still on the wire or with the server, and all of it but the awaited request was delivered. -/
structure Coupled (moved : Message → Message) (tr : List Event) (s : State (Option Message)) :
    Prop where
  run : (Client.client moved).Run Client.init (clientTrace tr) s.client
  undropped : ∀ msg, Client.Event.queue (.pushFull msg) ∉ clientTrace tr
  ready : s.chat.Ready s.text
  sent : requests tr =
    readMessages (clientTrace tr)++s.wire.toClient++s.server.toList++s.wire.toServer
  answered : requests tr = delivered (clientTrace tr)++s.chat.awaited.toList
  paired : pairing.run none tr = some s.chat.pending

variable {moved : Message → Message} {ndebug : Bool} {tr es : List Event}
  {ces : List Client.Event} {s s' : State (Option Message)} {c : Client.State} {msg : Message}

@[simp] theorem clientTrace_append (es fs : List Event) :
    clientTrace (es++fs) = clientTrace es++clientTrace fs :=
  List.filterMap_append

@[simp] theorem clientTrace_map (ces : List Client.Event) :
    clientTrace (ces.map .client) = ces :=
  filterMap_client ces

@[simp] theorem requests_append (es fs : List Event) :
    requests (es++fs) = requests es++requests fs :=
  List.filterMap_append

@[simp] theorem requests_map (ces : List Client.Event) : requests (ces.map .client) = [] := by
  rw [requests,List.filterMap_map]
  exact List.filterMap_eq_nil_iff.mpr fun _ _ => rfl

theorem awaited_split {α : Type*} {d a r q w : List α} {x : α} (h : d++a = r++w)
    (hr : r = d++[x]++q) : a = x :: (q++w) := by
  rw [hr,List.append_assoc,List.append_assoc] at h
  exact List.append_cancel_left h

theorem pairing_map (pending : Option Message) (ces : List Client.Event) :
    pairing.run pending (ces.map .client) = some pending := by
  induction ces with
  | nil => rfl
  | cons e ces ih =>
    cases pending with
    | none => exact ih
    | some msg => exact ih

namespace Coupled

theorem inFlight_eq (h : Coupled moved tr s) : s.inFlight = s.chat.awaited.toList := by
  have hlist : delivered (clientTrace tr)++s.inFlight =
      delivered (clientTrace tr)++s.chat.awaited.toList := by
    rw [← h.answered,h.sent,run_undropped h.run h.undropped]
    simp [State.inFlight,List.append_assoc]
  exact List.append_cancel_left hlist

theorem inFlight_le (h : Coupled moved tr s) : s.inFlight.length ≤ 1 := by
  rw [h.inFlight_eq]
  cases s.chat.awaited <;> simp

theorem queued_le (h : Coupled moved tr s) : s.client.queued.length ≤ 1 := by
  have hle := h.inFlight_le
  simp only [State.inFlight,List.length_append] at hle
  omega

/-- With at most one message in the queue nothing is dropped. -/
theorem not_full (h : Coupled moved tr s) {a : Client.Action}
    (hc : (Client.client moved).step s.client a = some (c,ces)) (msg : Message) :
    .queue (.pushFull msg) ∉ ces := by
  intro hm
  have hlt : s.client.queued.length < kQueueCapacity.val-1 :=
    Nat.lt_of_le_of_lt h.queued_le (by decide)
  exact Nat.ne_of_lt hlt (run_refused h.run hc hm)

/-- A message delivered is the awaited one. -/
theorem awaited_of_popped (h : Coupled moved tr s) {a : Client.Action} {slot : ℕ}
    (hc : (Client.client moved).step s.client a = some (c,[.queue (.popped slot msg)])) :
    s.chat.awaited = some msg := by
  -- the same accounting before and after the delivery
  have hrun := h.run.step trivial hc
  have hdrop : ∀ m, Client.Event.queue (.pushFull m) ∉
      clientTrace tr++[.queue (.popped slot msg)] := by
    simp [h.undropped]
  have hread : readMessages (clientTrace tr++[.queue (.popped slot msg)]) =
      readMessages (clientTrace tr) := by
    simp [readMessages,Client.Event.read?]
  have hdeliver : delivered (clientTrace tr++[.queue (.popped slot msg)]) =
      delivered (clientTrace tr)++[msg] := delivered_append ..
  have hpipe := run_undropped hrun hdrop
  rw [hread,hdeliver,List.append_assoc (_++[msg])] at hpipe
  have hsplit := h.answered.symm.trans h.sent
  rw [List.append_assoc,List.append_assoc] at hsplit
  have haw := awaited_split hsplit hpipe
  cases hcase : s.chat.awaited with
  | none =>
    rw [hcase] at haw
    cases haw
  | some m =>
    rw [hcase] at haw
    rw [(List.cons.inj haw).1]

/-- A step of the client that neither reads nor delivers, and does not change what the main
thread waits for. -/
theorem quiet (h : Coupled moved tr s)
    (hrun : (Client.client moved).Run Client.init (clientTrace tr++ces) s'.client)
    (hfull : ∀ msg, Client.Event.queue (.pushFull msg) ∉ ces)
    (hread : readMessages ces = []) (hdeliver : delivered ces = [])
    (hwire : s'.wire = s.wire) (hserver : s'.server = s.server)
    (hawaited : s'.chat.awaited = s.chat.awaited) (hpending : s'.chat.pending = s.chat.pending)
    (hready : s'.chat.Ready s'.text) : Coupled moved (tr++ces.map .client) s' where
  run := by
    rw [clientTrace_append,clientTrace_map]
    exact hrun
  undropped := by
    intro msg
    rw [clientTrace_append,clientTrace_map,List.mem_append,not_or]
    exact ⟨h.undropped msg,hfull msg⟩
  ready := hready
  sent := by
    rw [clientTrace_append,clientTrace_map,readMessages_append,hread,requests_append,requests_map,
      hwire,hserver,List.append_nil,List.append_nil]
    exact h.sent
  answered := by
    rw [clientTrace_append,clientTrace_map,delivered_append,hdeliver,requests_append,requests_map,
      hawaited,List.append_nil,List.append_nil]
    exact h.answered
  paired := by
    rw [Automaton.run_append_of_eq _ h.paired,pairing_map,hpending]

/-- A step of `chat_session` that does not touch the client's messages. -/
theorem unchanged (h : Coupled moved tr s)
    (hclient : s'.client = s.client ∨
      ∃ a, (Client.client moved).step s.client a = some (s'.client,[]))
    (hwire : s'.wire = s.wire) (hserver : s'.server = s.server)
    (hawaited : s'.chat.awaited = s.chat.awaited) (hpending : s'.chat.pending = s.chat.pending)
    (hready : s'.chat.Ready s'.text) : Coupled moved (tr++[]) s' := by
  show Coupled moved (tr++[].map .client) s'
  refine h.quiet ?_ (by simp) rfl rfl hwire hserver hawaited hpending hready
  rcases hclient with hc | ⟨a,hc⟩
  · rw [hc,List.append_nil]
    exact h.run
  · exact h.run.step trivial hc

theorem send (h : Coupled moved tr s) {req : Request} (hpc : s.chat = .write req)
    (hclient : s'.client = s.client)
    (hwire : s'.wire = ⟨s.wire.toServer++[⟨req.msg.payload,s.text⟩],s.wire.toClient⟩)
    (hserver : s'.server = s.server) (hchat : s'.chat = .spin req) :
    Coupled moved (tr++[.request req.msg]) s' := by
  obtain ⟨hrun,hdrop,hready,hsent,hanswered,hpaired⟩ := h
  rw [hpc] at hready hanswered hpaired
  have htrace : clientTrace (tr++[.request req.msg]) = clientTrace tr :=
    (clientTrace_append ..).trans (List.append_nil _)
  have hreq : requests (tr++[.request req.msg]) = requests tr++[req.msg] := requests_append ..
  have hmsg : (⟨req.msg.payload,s.text⟩ : Message) = req.msg := by rw [hready]
  refine ⟨?_,?_,?_,?_,?_,?_⟩
  · rw [htrace,hclient]
    exact hrun
  · rw [htrace]
    exact hdrop
  · rw [hchat]
    trivial
  · rw [htrace,hreq,hwire,hserver,hmsg,hsent]
    simp only [List.append_assoc]
  · rw [htrace,hreq,hchat,hanswered]
    exact congrArg (·++[req.msg]) (List.append_nil _)
  · rw [Automaton.run_append_of_eq _ hpaired,hchat]
    rfl

theorem note (h : Coupled moved tr s) {req : Request} {response : Message}
    (hpc : s.chat = .record req response) (hclient : s'.client = s.client)
    (hwire : s'.wire = s.wire) (hserver : s'.server = s.server)
    (hidle : s'.chat.Idle s'.text) : Coupled moved (tr++[.response response]) s' := by
  obtain ⟨hrun,hdrop,hready,hsent,hanswered,hpaired⟩ := h
  rw [hpc] at hready hanswered hpaired
  have htrace : clientTrace (tr++[.response response]) = clientTrace tr :=
    (clientTrace_append ..).trans (List.append_nil _)
  have hreq : requests (tr++[.response response]) = requests tr :=
    (requests_append ..).trans (List.append_nil _)
  refine ⟨?_,?_,hidle.2,?_,?_,?_⟩
  · rw [htrace,hclient]
    exact hrun
  · rw [htrace]
    exact hdrop
  · rw [htrace,hreq,hwire,hserver]
    exact hsent
  · rw [htrace,hreq,ChatPc.awaited_eq_none hidle.1]
    exact hanswered
  · rw [Automaton.run_append_of_eq _ hpaired,hidle.1]
    simp [pairing,ChatPc.pending,show response = req.msg from hready]

/-- The main thread goes on outside an exchange. -/
theorem goesOn (h : Coupled moved tr s) (hg : GoesOn s s') : Coupled moved (tr++[]) s' := by
  have hpending := hg.idle.1.trans hg.pending.symm
  refine h.unchanged (.inl hg.client) hg.wire hg.server ?_ hpending hg.idle.2
  rw [ChatPc.awaited_eq_none hg.pending,ChatPc.awaited_eq_none hg.idle.1]

/-- `spin_receive` takes the awaited message out of the queue. -/
theorem take (h : Coupled moved tr s) {req : Request} {a : Client.Action} {slot : ℕ}
    (hpc : s.chat = .spinning req)
    (hc : (Client.client moved).step s.client a = some (c,[.queue (.popped slot msg)])) :
    Coupled moved (tr++[.client (.queue (.popped slot msg))])
      { s with client := c, chat := .record req msg } := by
  -- the only message under way is the answer to this request
  have hmsg : req.msg = msg := by
    have haw := h.awaited_of_popped hc
    rw [hpc] at haw
    exact Option.some.inj haw
  obtain ⟨hrun,hdrop,hready,hsent,hanswered,hpaired⟩ := h
  rw [hpc] at hanswered hpaired
  have htrace : clientTrace (tr++[.client (.queue (.popped slot msg))]) =
      clientTrace tr++[.queue (.popped slot msg)] := clientTrace_append ..
  have hreq : requests (tr++[.client (.queue (.popped slot msg))]) = requests tr :=
    (requests_append ..).trans (List.append_nil _)
  refine ⟨?_,?_,hmsg.symm,?_,?_,?_⟩
  · rw [htrace]
    exact hrun.step trivial hc
  · rw [htrace]
    simp [hdrop]
  · have hread : readMessages (clientTrace tr++[.queue (.popped slot msg)]) =
        readMessages (clientTrace tr) := by
      simp [readMessages,Client.Event.read?]
    rw [htrace,hreq,hread]
    exact hsent
  · have hdeliver : delivered (clientTrace tr++[.queue (.popped slot msg)]) =
        delivered (clientTrace tr)++[msg] := delivered_append ..
    rw [htrace,hreq,hdeliver,hanswered,← hmsg]
    exact (List.append_nil _).symm
  · rw [Automaton.run_append_of_eq _ hpaired]
    rfl

/-- A step of the `try_pop` that `chat_session` is in. -/
theorem pop (h : Coupled moved tr s) {obs : ℕ} {pc : ChatPc} (hpc : s.chat.Pops ces pc)
    (hc : (Client.client moved).step s.client (.consumer obs) = some (c,ces)) :
    Coupled moved (tr++ces.map .client) { s with client := c, chat := pc } := by
  by_cases hd : delivered ces = []
  · obtain ⟨hread,hready⟩ := hpc.keeps hd s.text
    obtain ⟨hawaited,hpending⟩ := hpc.quiet hd
    exact h.quiet (h.run.step trivial hc) (h.not_full hc) hread hd rfl rfl hawaited hpending hready
  · generalize hchat : s.chat = start at hpc
    cases hpc with
    | greet =>
      -- no greeting: nothing is awaited, so there is nothing to deliver
      have haw := h.awaited_of_popped hc
      rw [hchat] at haw
      cases haw
    | take => exact h.take hchat hc
    | _ => exact absurd rfl hd

/-- The receiver takes the next message off the wire. -/
theorem read (h : Coupled moved tr s) {rest : List Message} (hwire : s.wire.toClient = msg :: rest)
    (hc : (Client.client moved).step s.client (.read msg.payload msg.isText) =
      some (c,[.read msg])) :
    Coupled moved (tr++[.client (.read msg)]) { s with client := c, wire.toClient := rest } := by
  obtain ⟨hrun,hdrop,hready,hsent,hanswered,hpaired⟩ := h
  have htrace : clientTrace (tr++[.client (.read msg)]) = clientTrace tr++[.read msg] :=
    clientTrace_append ..
  have hreq : requests (tr++[.client (.read msg)]) = requests tr :=
    (requests_append ..).trans (List.append_nil _)
  refine ⟨?_,?_,hready,?_,?_,?_⟩
  · exact htrace ▸ hrun.step trivial hc
  · refine htrace ▸ fun m hm => ?_
    rcases List.mem_append.mp hm with hm | hm
    · exact hdrop m hm
    · cases List.mem_singleton.mp hm
  · have hread : readMessages (clientTrace tr++[.read msg]) =
        readMessages (clientTrace tr)++[msg] := readMessages_append ..
    refine (hreq.trans hsent).trans ?_
    rw [hwire]
    refine Eq.trans ?_ (congrArg (fun l => readMessages l++rest++_++_) htrace.symm)
    rw [hread]
    simp only [List.append_assoc,List.cons_append,List.nil_append]
  · have hdeliver : delivered (clientTrace tr++[.read msg]) = delivered (clientTrace tr) :=
      (delivered_append ..).trans (List.append_nil _)
    refine (hreq.trans hanswered).trans (congrArg (·++_) ?_)
    exact hdeliver.symm.trans (congrArg delivered htrace.symm)
  · exact (Automaton.run_append_of_eq _ hpaired).trans (pairing_map _ [.read msg])

/-- The server mirrors what it gets. -/
theorem serve (h : Coupled moved tr s) {w : Wire} {held : Option Message} {fs : List Empty}
    (hb : echo.step (s.wire,s.server) () = some ((w,held),fs)) :
    Coupled moved (tr++[]) { s with wire := w, server := held } := by
  obtain ⟨hrun,hdrop,hready,hsent,hanswered,hpaired⟩ := h
  rw [List.append_nil]
  refine ⟨hrun,hdrop,hready,?_,hanswered,hpaired⟩
  rw [hsent]
  cases hheld : s.server with
  | some m =>
    simp only [echo,echoStep,hheld,Option.some.injEq,Prod.mk.injEq] at hb
    obtain ⟨⟨rfl,rfl⟩,_⟩ := hb
    simp only [Option.toList,List.append_assoc,List.nil_append]
  | none =>
    cases hto : s.wire.toServer with
    | nil => simp [echo,echoStep,hheld,hto] at hb
    | cons m rest =>
      simp only [echo,echoStep,hheld,hto,Option.some.injEq,Prod.mk.injEq] at hb
      obtain ⟨⟨rfl,rfl⟩,_⟩ := hb
      simp only [Option.toList,List.append_assoc,List.nil_append,List.cons_append]

/-- One step keeps session and client coupled. -/
theorem step (h : Coupled moved tr s) {a : Action Unit}
    (hs : (session moved ndebug echo).step s a = some (s',es)) : Coupled moved (tr++es) s' := by
  cases step_transition hs with
  | chat hg | line hg => exact h.goesOn hg
  | call hpc hc =>
    exact h.unchanged (.inr ⟨_,hc⟩) rfl rfl hpc.awaited hpc.pending (hpc.ready _)
  | write hpc => exact h.send hpc rfl rfl rfl rfl
  | note hpc hclient hwire hserver hidle => exact h.note hpc hclient hwire hserver hidle
  | pop hpc hc => exact h.pop hpc hc
  | receiver hc => exact h.unchanged (.inr ⟨_,hc⟩) rfl rfl rfl rfl h.ready
  | readError hc => exact h.unchanged (.inr ⟨_,hc⟩) rfl rfl rfl rfl h.ready
  | producer hc =>
    -- the message the receiver holds moves into the queue
    obtain ⟨hread,hdeliver⟩ := step_producer (run_account h.run) hc
    exact h.quiet (h.run.step trivial hc) (h.not_full hc) hread hdeliver rfl rfl rfl rfl h.ready
  | read hwire hc => exact h.read hwire hc
  | server hb => exact h.serve hb

end Coupled

theorem run_coupled {storage : ℕ} {m : ByteMem}
    (h : (session moved ndebug echo).Run (init none storage m) tr s) : Coupled moved tr s := by
  refine h.invariant (I := Coupled moved) ?_ fun _ _ _ _ _ hi _ hs => hi.step hs
  exact ⟨.start,by simp [clientTrace],trivial,rfl,rfl,rfl⟩

/-- Every response is the echo of the request just before it, the queue never holds two
messages and never drops one, and at a prompt nothing is on its way. -/
theorem responses_paired (moved : Message → Message) (ndebug : Bool) (storage : ℕ) (m : ByteMem)
    {tr : List Event} {s : State (Option Message)}
    (h : (session moved ndebug echo).Run (init none storage m) tr s) :
    (∃ pending, pairing.run none tr = some pending) ∧
      s.client.queued.length ≤ 1 ∧
      (∀ msg, .client (.queue (.pushFull msg)) ∉ tr) ∧
      (s.chat = .prompt → s.inFlight = []) := by
  have hc := run_coupled h
  refine ⟨⟨_,hc.paired⟩,hc.queued_le,fun msg hm => ?_,fun hpc => ?_⟩
  · exact hc.undropped msg (List.mem_filterMap.mpr ⟨_,hm,rfl⟩)
  · rw [hc.inFlight_eq,hpc]
    rfl

/-- No greeting comes; the command is `text` and the message `hi`. -/
theorem responses_paired_text :
    ∃ tr s, (session id true echo).Run (init none 4096 fun _ => 0) tr s ∧
      .response ⟨[104,105],true⟩ ∈ tr ∧ s.chat = .prompt ∧ s.inFlight = [] := by
  have hexec : ((session id true echo).execWhere (fun _ _ => True) (init none 4096 fun _ => 0)
      (System.schedule [(100,[.chat,.consumer 0,.consumer 0]),(2,[.chat]),
        (1,[.line (some (bytes "text")),.line (some [104,105])]),(3,[.chat]),(2,[.server ()]),
        (2,[.receiver]),(1,[.read]),(2,[.receiver]),(4,[.producer 0]),
        (1,[.consumer 0,.consumer 1,.consumer 0,.consumer 0]),(2,[.chat])])).any
      (fun r => decide (.response ⟨[104,105],true⟩ ∈ r.2 ∧ r.1.chat = .prompt)) = true := by
    decide +kernel
  obtain ⟨s,tr,hrun,hs⟩ := System.exists_run_of_exec hexec
  obtain ⟨hresponse,hprompt⟩ : .response ⟨[104,105],true⟩ ∈ tr ∧ s.chat = .prompt :=
    of_decide_eq_true hs
  exact ⟨tr,s,hrun,hresponse,hprompt,(responses_paired id true 4096 _ hrun).2.2.2 hprompt⟩

end WsClient.Session
