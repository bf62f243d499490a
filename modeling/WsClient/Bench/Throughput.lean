import WsClient.Bench.Model
import WsClient.Client.Receiver
import WsClient.Session.Threads

/-!
# A burst against the queue's usable size

While the main thread is still sending, nobody takes messages out of the queue. A burst that fits
is received in full and in order; one message more, and there is an interleaving in which the
drain loop waits for messages that have been dropped.
-/

namespace WsClient.Bench
open WsClient.Lib WsClient.Client WsClient.Session

namespace BenchPc

/-- The messages that have been written. -/
def written (numMessages : ℤ) : BenchPc → ℕ
  | .send i | .write i => i
  | _ => numMessages.toNat

/-- The variable `received`, before and after its scope. -/
def received (numMessages : ℤ) : BenchPc → ℕ
  | .send _ | .write _ => 0
  | .drain received | .popping received => received
  | .done => numMessages.toNat

/-- What the main thread knows at each point. -/
def Knows (numMessages : ℤ) (text : Bool) : BenchPc → Prop
  | .send i => i ≤ numMessages.toNat
  | .write i => i < numMessages ∧ text = true
  | .drain received => received ≤ numMessages.toNat
  | .popping received => received < numMessages
  | .done => True

/-- The call of the client that the main thread is in. -/
def call : BenchPc → ConsumerPc
  | .popping _ => .tryReceive
  | _ => .idle

end BenchPc

/-- The books of the benchmark: what was sent is what the client has read and what is abroad, and
`received` counts what was popped. -/
structure Books (moved : Message → Message) (numMessages : ℤ) (before : List Client.Event)
    (tr : List Event) (s : State) : Prop where
  run : (Client.client moved).Run Client.init (before++clientTrace tr) s.client
  sent : sends tr = (List.range (s.main.written numMessages)).map burstMessage
  wired : sends tr = readMessages (clientTrace tr)++s.abroad
  received : (popped tr).length = s.main.received numMessages
  knows : s.main.Knows numMessages s.text
  call : s.client.consumer = s.main.call
  running : s.client.running = true
  receiving : s.client.receiver.left = false

variable {moved : Message → Message} {numMessages : ℤ} {before : List Client.Event}
  {tr es : List Event} {ces : List Client.Event} {s s' : State} {c : Client.State} {a : Action}
  {b : Client.Action}

@[simp] theorem clientTrace_append (es fs : List Event) :
    clientTrace (es++fs) = clientTrace es++clientTrace fs :=
  List.filterMap_append

@[simp] theorem clientTrace_map (ces : List Client.Event) :
    clientTrace (ces.map .client) = ces := by
  rw [clientTrace,List.filterMap_map]
  exact List.filterMap_some

@[simp] theorem sends_append (es fs : List Event) : sends (es++fs) = sends es++sends fs :=
  List.filterMap_append

@[simp] theorem sends_map (ces : List Client.Event) : sends (ces.map .client) = [] := by
  rw [sends,List.filterMap_map]
  exact List.filterMap_eq_nil_iff.mpr fun _ _ => rfl

theorem State.onClient_some {next : List Client.Event → BenchPc}
    (h : s.onClient moved b next = some (s',es)) :
    ∃ c ces, (Client.client moved).step s.client b = some (c,ces) ∧ es = ces.map .client ∧
      s' = { s with client := c, main := next ces } := by
  obtain ⟨⟨c,ces⟩,hc,he⟩ := Option.map_eq_some_iff.mp h
  cases he
  exact ⟨c,ces,hc,rfl,rfl⟩

namespace Books

/-- A step of the client that fits the step of the main thread keeps the books. -/
theorem client (h : Books moved numMessages before tr s)
    (hc : (Client.client moved).step s.client b = some (s'.client,ces))
    (hb : b ≠ .readError ∧ b ≠ .close)
    (hwritten : s'.main.written numMessages = s.main.written numMessages)
    (habroad : s.abroad = readMessages ces++s'.abroad)
    (hpopped : s.main.received numMessages+(delivered ces).length = s'.main.received numMessages)
    (hknows : s'.main.Knows numMessages s'.text) (hcall : s'.client.consumer = s'.main.call) :
    Books moved numMessages before (tr++ces.map .client) s' := by
  obtain ⟨hrunning,hreceiving⟩ := receiving_step hc h.running h.receiving hb.1 hb.2
  refine ⟨?_,?_,?_,?_,hknows,hcall,hrunning,hreceiving⟩
  · rw [clientTrace_append,clientTrace_map,← List.append_assoc]
    exact h.run.step trivial hc
  · rw [sends_append,sends_map,List.append_nil,h.sent,hwritten]
  · rw [sends_append,sends_map,List.append_nil,h.wired,clientTrace_append,clientTrace_map,
      readMessages_append,List.append_assoc,habroad]
  · rw [Bench.popped,clientTrace_append,clientTrace_map,delivered_append,List.length_append,
      ← hpopped,← h.received]
    rfl

/-- A step that leaves the client alone. -/
theorem outside (h : Books moved numMessages before tr s) (hclient : s'.client = s.client)
    (hwritten : s'.main.written numMessages = s.main.written numMessages)
    (habroad : s'.abroad = s.abroad)
    (hpopped : s'.main.received numMessages = s.main.received numMessages)
    (hknows : s'.main.Knows numMessages s'.text) (hcall : s'.main.call = s.main.call) :
    Books moved numMessages before (tr++[]) s' := by
  rw [List.append_nil]
  refine ⟨?_,?_,?_,?_,hknows,?_,?_,?_⟩
  · rw [hclient]
    exact h.run
  · rw [hwritten]
    exact h.sent
  · rw [habroad]
    exact h.wired
  · rw [hpopped]
    exact h.received
  · rw [hclient,hcall]
    exact h.call
  · rw [hclient]
    exact h.running
  · rw [hclient]
    exact h.receiving

/-- A step of the main thread outside `try_pop`. -/
theorem main (h : Books moved numMessages before tr s)
    (hs : mainStep moved numMessages s = some (s',es)) :
    Books moved numMessages before (tr++es) s' := by
  have hknows := h.knows
  unfold mainStep at hs
  cases hpc : s.main with
  | send i =>
    rw [hpc] at hknows
    simp only [hpc] at hs
    split at hs
    · next hlt =>
      cases hs
      exact h.outside rfl (by rw [hpc]; rfl) rfl (by rw [hpc]; rfl) ⟨hlt,rfl⟩ (by rw [hpc]; rfl)
    · next hge =>
      cases hs
      have hi : numMessages.toNat = i := by
        change i ≤ numMessages.toNat at hknows
        omega
      exact h.outside rfl (by rw [hpc]; exact hi) rfl (by rw [hpc]; rfl) (Nat.zero_le _)
        (by rw [hpc]; rfl)
  | write i =>
    rw [hpc] at hknows
    simp only [hpc,Option.some.injEq,Prod.mk.injEq] at hs
    obtain ⟨rfl,rfl⟩ := hs
    -- the kind is still the one `send_text` set, so this is the message of the burst
    have hmsg : (⟨(burstMessage i).payload,s.text⟩ : Message) = burstMessage i := by
      rw [hknows.2]
      rfl
    have htrace : clientTrace (tr++[.sent ⟨(burstMessage i).payload,s.text⟩]) = clientTrace tr :=
      (clientTrace_append ..).trans (List.append_nil _)
    refine ⟨?_,?_,?_,?_,?_,?_,h.running,h.receiving⟩
    · rw [htrace]
      exact h.run
    · have hsends := h.sent
      rw [hpc] at hsends
      rw [sends_append,hsends,hmsg]
      change _ = (List.range (i+1)).map burstMessage
      rw [List.range_succ,List.map_append]
      rfl
    · rw [sends_append,h.wired,htrace]
      simp only [State.abroad,List.append_assoc]
      rfl
    · rw [Bench.popped,htrace]
      have hpopped := h.received
      rw [hpc] at hpopped
      exact hpopped
    · change i+1 ≤ numMessages.toNat
      have hlt := hknows.1
      omega
    · have hcall := h.call
      rw [hpc] at hcall
      exact hcall
  | drain r =>
    rw [hpc] at hknows
    simp only [hpc] at hs
    split at hs
    · next hlt =>
      obtain ⟨c,ces,hc,rfl,rfl⟩ := State.onClient_some hs
      -- the call of `try_receive` begins, and its first step is silent
      obtain rfl := step_silent hc rfl
      refine h.client hc ⟨by simp,by simp⟩ (by rw [hpc]; rfl) rfl (by rw [hpc]; rfl) hlt ?_
      cases Client.step_transition hc with
      | call hcall _ => exact hcall.of_tryReceive
    · next hge =>
      cases hs
      have hr : r = numMessages.toNat := by
        change r ≤ numMessages.toNat at hknows
        omega
      exact h.outside rfl (by rw [hpc]; rfl) rfl (by rw [hpc]; exact hr.symm) trivial
        (by rw [hpc]; rfl)
  | popping r => simp [hpc] at hs
  | done => simp [hpc] at hs

/-- A step of the `try_pop` that the drain loop is in. -/
theorem consumer (h : Books moved numMessages before tr s) {obs r : ℕ} (hpc : s.main = .popping r)
    (hs : s.onClient moved (.consumer obs) s.main.after = some (s',es)) :
    Books moved numMessages before (tr++es) s' := by
  obtain ⟨c,ces,hc,rfl,rfl⟩ := State.onClient_some hs
  have hknows := h.knows
  have hcalling := h.call
  rw [hpc] at hknows hcalling
  have hlt : r < numMessages := hknows
  have hafter : c.consumer = s.client.consumer.after (ces.filterMap Client.Event.queue?) := by
    cases Client.step_transition hc with
    | call hcall _ => cases hcall.silent
    | consumer _ => rw [filterMap_queue]
  rw [hcalling] at hafter
  -- the step goes on with the pop, answers with a message or answers that there is none
  have hread : readMessages ces = [] := by
    rcases step_consumer hc with rfl | ⟨slot,msg,rfl⟩ | rfl <;> rfl
  refine h.client hc ⟨by simp,by simp⟩ ?_ (by rw [hread]; rfl) ?_ ?_ ?_
  · rw [hpc]
    rcases step_consumer hc with rfl | ⟨slot,msg,rfl⟩ | rfl <;> rfl
  · rw [hpc]
    rcases step_consumer hc with rfl | ⟨slot,msg,rfl⟩ | rfl <;> rfl
  · simp only [hpc]
    rcases step_consumer hc with rfl | ⟨slot,msg,rfl⟩ | rfl
    · exact hlt
    · change r+1 ≤ numMessages.toNat
      omega
    · change r ≤ numMessages.toNat
      omega
  · rw [hafter,hpc]
    rcases step_consumer hc with rfl | ⟨slot,msg,rfl⟩ | rfl <;> rfl

/-- A step of the receiver thread that neither reads nor delivers. -/
theorem receiver (h : Books moved numMessages before tr s)
    (hs : s.onClient moved b (fun _ => s.main) = some (s',es))
    (hb : b = .receiver ∨ ∃ obs, b = .producer obs) :
    Books moved numMessages before (tr++es) s' := by
  obtain ⟨c,ces,hc,rfl,rfl⟩ := State.onClient_some hs
  rcases hb with rfl | ⟨obs,rfl⟩
  · obtain rfl := step_silent hc rfl
    refine h.client hc ⟨by simp,by simp⟩ rfl rfl rfl h.knows ?_
    exact (receiver_toRead hc h.receiving).2.1.trans h.call
  · obtain ⟨hread,hdeliver⟩ := step_producer (run_account h.run) hc
    refine h.client hc ⟨by simp,by simp⟩ rfl (by rw [hread]; rfl) (by rw [hdeliver]; rfl) h.knows ?_
    exact (producer_toRead hc).2.1.trans h.call

/-- The receiver takes the next message off the wire. -/
theorem read (h : Books moved numMessages before tr s) {msg : Message} {rest : List Message}
    (hwire : s.wire.toClient = msg :: rest)
    (hc : (Client.client moved).step s.client (.read msg.payload msg.isText) = some (c,ces)) :
    Books moved numMessages before (tr++ces.map .client)
      { s with client := c, wire.toClient := rest } := by
  obtain rfl := step_read hc
  refine h.client hc ⟨by simp,by simp⟩ rfl ?_ rfl h.knows ?_
  · simp only [State.abroad,hwire]
    rfl
  · cases Client.step_transition hc with
    | read _ => exact h.call

/-- Every step keeps the books. -/
theorem step (h : Books moved numMessages before tr s)
    (hs : (throughput moved numMessages).step s a = some (s',es)) :
    Books moved numMessages before (tr++es) s' := by
  cases a with
  | main => exact h.main hs
  | consumer obs =>
    simp only [throughput,Bench.step] at hs
    split at hs
    · next r hpc => exact h.consumer hpc hs
    · cases hs
  | receiver => exact h.receiver hs (.inl rfl)
  | producer obs => exact h.receiver hs (.inr ⟨obs,rfl⟩)
  | read =>
    simp only [throughput,Bench.step] at hs
    split at hs
    · cases hs
    · next msg rest hwire =>
      obtain ⟨⟨s₁,es₁⟩,hs₁,he⟩ := Option.map_eq_some_iff.mp hs
      cases he
      obtain ⟨c,ces,hc,rfl,rfl⟩ := State.onClient_some hs₁
      exact h.read hwire hc
  | server =>
    obtain ⟨⟨⟨wire,server⟩,fs⟩,he,heq⟩ := Option.map_eq_some_iff.mp hs
    cases heq
    exact h.outside rfl rfl (echo_order he) rfl h.knows rfl

theorem start (numMessages : ℤ) (h : Ready moved c) (text : Bool) :
    ∃ before, (Client.client moved).Run Client.init before c ∧
      Books moved numMessages before [] (init c text) := by
  obtain ⟨before,hrun⟩ := h.reached
  refine ⟨before,hrun,?_,rfl,rfl,rfl,Nat.zero_le _,h.consumer,h.running,?_⟩
  · change (Client.client moved).Run Client.init (before++[]) c
    rw [List.append_nil]
    exact hrun
  · obtain ⟨hstore,hexit⟩ := h.receiving
    change c.receiver.left = false
    cases hpc : c.receiver <;> first | rfl | exact absurd hpc hstore | exact absurd hpc hexit

end Books

/-! ## Progress -/

/-- The steps the main thread has left at most in its round. -/
def State.round (s : State) : ℕ :=
  match s.main with
  | .send _ => 8
  | .write _ => 7
  | .drain _ => 6
  | .popping _ => s.client.queue.pop.left+1
  | .done => 0

/-- What is left to do: a message weighs the less the further it has come. -/
def State.work (numMessages : ℤ) (s : State) : ℕ :=
  60*(numMessages.toNat-s.main.written numMessages)+50*s.wire.toServer.length+
    45*s.server.toList.length+40*s.wire.toClient.length+30*s.client.held.length+
    20*s.client.queued.length+s.client.toRead+s.round

/-- Everything sent has come to the queue or been dropped. -/
structure Settled (s : State) : Prop where
  sent : ∀ i, s.main ≠ .send i ∧ s.main ≠ .write i
  abroad : s.abroad = []
  reading : s.client.receiver = .read

/-- The main thread sends, and the server and the receiver thread do their part. -/
def Filling (s : State) : Action → Prop
  | .main => ∃ i, s.main = .send i ∨ s.main = .write i
  | .consumer _ => False
  | _ => True

/-- The drain loop alone. -/
def Draining (_ : State) : Action → Prop
  | .main | .consumer _ => True
  | _ => False

/-- While the burst fills the queue, the main thread does not come past its first look at it. -/
theorem filling_main (hfill : Filling s a)
    (hs : (throughput moved numMessages).step s a = some (s',es))
    (hmain : (∃ i, s.main = .send i ∨ s.main = .write i) ∨ s.main = .drain 0) :
    (∃ i, s'.main = .send i ∨ s'.main = .write i) ∨ s'.main = .drain 0 := by
  cases a with
  | main =>
    obtain ⟨i,hpc | hpc⟩ := hfill
    · simp only [throughput,step,mainStep,hpc] at hs
      split at hs <;> cases hs
      · exact .inl ⟨i,.inr rfl⟩
      · exact .inr rfl
    · simp only [throughput,step,mainStep,hpc] at hs
      cases hs
      exact .inl ⟨i+1,.inl rfl⟩
  | consumer obs => exact absurd hfill id
  | receiver =>
    simp only [throughput,step] at hs
    obtain ⟨c,ces,_,_,rfl⟩ := State.onClient_some hs
    exact hmain
  | producer obs =>
    simp only [throughput,step] at hs
    obtain ⟨c,ces,_,_,rfl⟩ := State.onClient_some hs
    exact hmain
  | read =>
    simp only [throughput,step] at hs
    split at hs
    · cases hs
    · obtain ⟨⟨s₁,es₁⟩,hs₁,he⟩ := Option.map_eq_some_iff.mp hs
      obtain ⟨c,ces,_,_,rfl⟩ := State.onClient_some hs₁
      cases he
      exact hmain
  | server =>
    obtain ⟨⟨⟨wire,server⟩,fs⟩,_,he⟩ := Option.map_eq_some_iff.mp hs
    cases he
    exact hmain

theorem Settled.held (h : Settled s) : s.client.held = [] := by
  rw [Client.State.held,h.reading]

/-- Along the pipe from the receiver through the queue a message only gets lighter. -/
theorem pipe_work {l : List Client.Event} {c c' : Client.State}
    (hrun : (Client.client moved).Run Client.init l c)
    (hc : (Client.client moved).step c b = some (c',ces)) (hread : readMessages ces = []) :
    30*c'.held.length+20*(c'.queued.length+(delivered ces).length) ≤
      30*c.held.length+20*c.queued.length := by
  have hheld := congrArg List.length (held_step hrun hc)
  have hqueued := congrArg List.length (queued_step hrun hc)
  have hkept := kept_le ces
  rw [hread,List.append_nil,List.length_append,List.length_map] at hheld
  rw [List.length_append,List.length_append] at hqueued
  omega

/-- The server can go on as long as it has a message or one is on its way to it. -/
theorem server_work (hbusy : s.server ≠ none ∨ s.wire.toServer ≠ []) :
    ∃ s' es, (throughput moved numMessages).step s .server = some (s',es) ∧
      s'.work numMessages < s.work numMessages := by
  cases hheld : s.server with
  | some m =>
    simp only [throughput,Bench.step,echoStep,hheld,Option.map_some]
    refine ⟨_,_,rfl,?_⟩
    simp only [State.work,State.round,hheld,List.length_append,List.length_singleton,
      Option.toList,List.length_nil]
    omega
  | none =>
    cases hto : s.wire.toServer with
    | nil => exact absurd hto (hbusy.resolve_left fun hne => hne hheld)
    | cons m rest =>
      simp only [throughput,Bench.step,echoStep,hheld,hto,Option.map_some]
      refine ⟨_,_,rfl,?_⟩
      simp only [State.work,State.round,hheld,hto,List.length_cons,Option.toList,List.length_nil]
      omega

/-- A receiver that waits takes what has come. -/
theorem read_work {msg : Message} {rest : List Message} (hpc : s.client.receiver = .read)
    (hwire : s.wire.toClient = msg :: rest) :
    ∃ s' es, (throughput moved numMessages).step s .read = some (s',es) ∧
      s'.work numMessages < s.work numMessages := by
  simp only [throughput,Bench.step,hwire,State.onClient,Client.step,hpc,Option.map_some]
  refine ⟨_,_,rfl,?_⟩
  simp only [State.work,State.round,Client.State.held,Client.State.toRead,Client.State.queued,hpc,
    hwire,List.length_cons,List.length_nil]
  omega

namespace Books

/-- A step of the receiver thread outside `ws_.read`. -/
theorem receiver_work (h : Books moved numMessages before tr s)
    (hc : (Client.client moved).step s.client b = some (c,ces))
    (hb : b = .receiver ∨ ∃ obs, b = .producer obs) :
    State.work numMessages { s with client := c } < s.work numMessages := by
  have hstep : c.toRead < s.client.toRead ∧ c.queue.pop = s.client.queue.pop ∧
      readMessages ces = [] := by
    rcases hb with rfl | ⟨obs,rfl⟩
    · obtain ⟨hlt,_,hpop⟩ := receiver_toRead hc h.receiving
      rw [step_silent hc rfl]
      exact ⟨hlt,hpop,rfl⟩
    · obtain ⟨hlt,_,hpop⟩ := producer_toRead hc
      exact ⟨hlt,hpop,(step_producer (run_account h.run) hc).1⟩
  obtain ⟨hlt,hpop,hread⟩ := hstep
  have hpipe := pipe_work h.run hc hread
  simp only [State.work,State.round,hpop]
  omega

/-- The main thread can go on sending. -/
theorem sends_work (h : Books moved numMessages before tr s) {i : ℕ}
    (hpc : s.main = .send i ∨ s.main = .write i) :
    ∃ s' es, (throughput moved numMessages).step s .main = some (s',es) ∧
      s'.work numMessages < s.work numMessages := by
  have hknows := h.knows
  rcases hpc with hpc | hpc
  · rw [hpc] at hknows
    have hle : i ≤ numMessages.toNat := hknows
    simp only [throughput,Bench.step,mainStep,hpc]
    split
    · refine ⟨_,_,rfl,?_⟩
      simp only [State.work,State.round,hpc,BenchPc.written]
      omega
    · refine ⟨_,_,rfl,?_⟩
      simp only [State.work,State.round,hpc,BenchPc.written]
      omega
  · rw [hpc] at hknows
    have hlt : (i : ℤ) < numMessages := hknows.1
    simp only [throughput,Bench.step,mainStep,hpc]
    refine ⟨_,_,rfl,?_⟩
    simp only [State.work,State.round,hpc,BenchPc.written,List.length_append,List.length_singleton]
    omega

/-- Until everything has come to the queue, a thread other than the drain loop can go on. -/
theorem fills (h : Books moved numMessages before tr s) (hsettled : ¬Settled s) :
    ∃ a s' es, Filling s a ∧ (throughput moved numMessages).step s a = some (s',es) ∧
      s'.work numMessages < s.work numMessages := by
  -- along the pipe: the main thread, the server, the wire, the receiver thread
  by_cases hsend : ∃ i, s.main = .send i ∨ s.main = .write i
  · obtain ⟨i,hpc⟩ := hsend
    obtain ⟨s',es,hs,hlt⟩ := h.sends_work hpc
    exact ⟨.main,s',es,⟨i,hpc⟩,hs,hlt⟩
  by_cases hserver : s.server ≠ none ∨ s.wire.toServer ≠ []
  · obtain ⟨s',es,hs,hlt⟩ := server_work hserver
    exact ⟨.server,s',es,trivial,hs,hlt⟩
  by_cases hread : s.client.receiver = .read
  · cases hwire : s.wire.toClient with
    | cons msg rest =>
      obtain ⟨s',es,hs,hlt⟩ := read_work hread hwire
      exact ⟨.read,s',es,trivial,hs,hlt⟩
    | nil =>
      -- nothing is left anywhere: everything has settled
      rw [not_or,not_not,not_not] at hserver
      refine absurd ⟨fun i => ?_,?_,hread⟩ hsettled
      · exact not_or.mp fun hpc => hsend ⟨i,hpc⟩
      · rw [State.abroad,hwire,hserver.1,hserver.2]
        rfl
  · rcases receiver_enabled h.run h.receiving hread with ⟨c,ces,hc⟩ | ⟨obs,c,ces,hc⟩
    · refine ⟨.receiver,{ s with client := c },ces.map .client,trivial,?_,h.receiver_work hc (.inl rfl)⟩
      exact Option.map_eq_some_iff.mpr ⟨_,hc,rfl⟩
    · refine ⟨.producer obs,{ s with client := c },ces.map .client,trivial,?_,
        h.receiver_work hc (.inr ⟨obs,rfl⟩)⟩
      exact Option.map_eq_some_iff.mpr ⟨_,hc,rfl⟩

/-- As long as there is something in the queue, the drain loop can go on and does not poll in
vain. -/
theorem drains (h : Books moved numMessages before tr s) (hsettled : Settled s)
    (hqueued : s.client.queued ≠ [])
    (hpc : (∃ r, s.main = .drain r ∧ r < numMessages) ∨ ∃ r, s.main = .popping r) :
    ∃ a s' es, Draining s a ∧ (throughput moved numMessages).step s a = some (s',es) ∧
      s'.work numMessages < s.work numMessages ∧ Settled s' ∧
      ((∃ r, s'.main = .drain r) ∨ ((∃ r, s'.main = .popping r) ∧ s'.client.queued ≠ [])) := by
  have hcall := h.call
  rcases hpc with ⟨r,hpc,hlt⟩ | ⟨r,hpc⟩
  · rw [hpc] at hcall
    obtain ⟨c,hc,hpop,htoRead,hreceiver⟩ := tryReceive_enabled h.run hcall
    have hpipe := pipe_work h.run hc rfl
    have hkept := queued_step h.run hc
    refine ⟨.main,{ s with client := c, main := .popping r },[],trivial,?_,?_,?_,.inr ⟨⟨r,rfl⟩,?_⟩⟩
    · simp only [throughput,Bench.step,mainStep,hpc,if_pos hlt]
      exact Option.map_eq_some_iff.mpr ⟨_,hc,rfl⟩
    · simp only [State.work,State.round,BenchPc.written,hpc,hpop,htoRead,SpscQueue.PopPc.left]
      omega
    · exact ⟨fun i => ⟨by simp,by simp⟩,hsettled.abroad,hreceiver.trans hsettled.reading⟩
    · change s.client.queued++[] = []++c.queued at hkept
      rw [List.append_nil,List.nil_append] at hkept
      rw [← hkept]
      exact hqueued
  · rw [hpc] at hcall
    obtain ⟨obs,c,ces,hc⟩ := consumer_enabled h.run hcall
    obtain ⟨htoRead,hreceiver,_,hleft⟩ := consumer_toRead hc
    have hs : (throughput moved numMessages).step s (.consumer obs) =
        some ({ s with client := c, main := (BenchPc.popping r).after ces },ces.map .client) := by
      simp only [throughput,Bench.step,hpc]
      exact Option.map_eq_some_iff.mpr ⟨_,hc,rfl⟩
    refine ⟨.consumer obs,_,_,trivial,hs,?_⟩
    rcases step_consumer hc with rfl | ⟨slot,msg,rfl⟩ | rfl
    · have hpipe := pipe_work h.run hc rfl
      have hkept := queued_step h.run hc
      change s.client.queued++[] = []++c.queued at hkept
      rw [List.append_nil,List.nil_append] at hkept
      -- the pop goes on
      have hafter : (BenchPc.popping r).after [] = .popping r := rfl
      refine ⟨?_,⟨?_,hsettled.abroad,hreceiver.trans hsettled.reading⟩,.inr ⟨⟨r,hafter⟩,?_⟩⟩
      · simp only [State.work,State.round,hafter,hpc,BenchPc.written,htoRead]
        omega
      · intro i
        rw [hafter]
        exact ⟨by simp,by simp⟩
      · rw [← hkept]
        exact hqueued
    · have hpipe := pipe_work h.run hc rfl
      -- the pop answers with a message
      have hdelivered : (delivered [.queue (.popped slot msg)]).length = 1 := rfl
      rw [hdelivered] at hpipe
      have hafter : (BenchPc.popping r).after [.queue (.popped slot msg)] = .drain (r+1) := rfl
      refine ⟨?_,⟨?_,hsettled.abroad,hreceiver.trans hsettled.reading⟩,.inl ⟨r+1,hafter⟩⟩
      · simp only [State.work,State.round,hafter,hpc,BenchPc.written,htoRead]
        omega
      · intro i
        rw [hafter]
        exact ⟨by simp,by simp⟩
    · exact absurd (run_empty h.run hc (List.mem_singleton_self _)) hqueued

end Books

/-! ## Bursts that fit and bursts that do not -/

theorem mem_clientTrace {e : Client.Event} : e ∈ clientTrace tr ↔ .client e ∈ tr := by
  rw [clientTrace,List.mem_filterMap]
  constructor
  · rintro ⟨e',he',heq⟩
    cases e' with
    | client e'' =>
      cases heq
      exact he'
    | sent msg => cases heq
  · intro he
    exact ⟨_,he,rfl⟩

/-- A step of the benchmark is one of the client or leaves the client alone. -/
theorem step_client (hs : (throughput moved numMessages).step s a = some (s',es)) :
    (s'.client = s.client ∧ clientTrace es = []) ∨
      ∃ b, (Client.client moved).step s.client b = some (s'.client,clientTrace es) := by
  have hclient : ∀ b next s₁ es₁, s.onClient moved b next = some (s₁,es₁) →
      (Client.client moved).step s.client b = some (s₁.client,clientTrace es₁) := by
    intro b next s₁ es₁ h
    obtain ⟨c,ces,hc,rfl,rfl⟩ := State.onClient_some h
    rw [clientTrace_map]
    exact hc
  cases a with
  | main =>
    simp only [throughput,step,mainStep] at hs
    split at hs
    · split at hs <;> cases hs <;> exact .inl ⟨rfl,rfl⟩
    · cases hs
      exact .inl ⟨rfl,rfl⟩
    · split at hs
      · exact .inr ⟨_,hclient _ _ _ _ hs⟩
      · cases hs
        exact .inl ⟨rfl,rfl⟩
    · cases hs
    · cases hs
  | consumer obs =>
    simp only [throughput,step] at hs
    split at hs
    · exact .inr ⟨_,hclient _ _ _ _ hs⟩
    · cases hs
  | receiver =>
    simp only [throughput,step] at hs
    exact .inr ⟨_,hclient _ _ _ _ hs⟩
  | producer obs =>
    simp only [throughput,step] at hs
    exact .inr ⟨_,hclient _ _ _ _ hs⟩
  | read =>
    simp only [throughput,step] at hs
    split at hs
    · cases hs
    · obtain ⟨⟨s₁,es₁⟩,hs₁,he⟩ := Option.map_eq_some_iff.mp hs
      have hc := hclient _ _ _ _ hs₁
      cases he
      exact .inr ⟨_,hc⟩
  | server =>
    obtain ⟨⟨⟨wire,server⟩,fs⟩,_,he⟩ := Option.map_eq_some_iff.mp hs
    cases he
    exact .inl ⟨rfl,rfl⟩

namespace Books

/-- Whatever was sent has been answered for by the queue, or is held or abroad; what was kept has
been popped or is queued. -/
theorem account (h : Books moved numMessages before tr s)
    (h₀ : (Client.client moved).Run Client.init before c) (hc : Ready moved c) :
    sends tr = (verdicts (clientTrace tr)).map Prod.fst++(s.client.held++s.abroad) ∧
      kept (clientTrace tr) = Bench.popped tr++s.client.queued := by
  obtain ⟨hreads,hkept⟩ := run_resumed h₀ hc.queued hc.held h.run
  refine ⟨?_,hkept⟩
  rw [h.wired,hreads,List.append_assoc]

/-- As long as nothing is dropped, what was sent has been popped or is in flight. -/
theorem undropped (h : Books moved numMessages before tr s)
    (h₀ : (Client.client moved).Run Client.init before c) (hc : Ready moved c)
    (hdrop : ∀ msg, .client (.queue (.pushFull msg)) ∉ tr) :
    sends tr = Bench.popped tr++s.inFlight := by
  obtain ⟨hsends,hkept⟩ := h.account h₀ hc
  rw [hsends,kept_of_undropped fun msg hm => hdrop msg (mem_clientTrace.mp hm),hkept,
    State.inFlight]
  simp only [List.append_assoc]

/-- Once a message is dropped, more has been written than can ever be received. -/
theorem lost (h : Books moved numMessages before tr s)
    (h₀ : (Client.client moved).Run Client.init before c) (hc : Ready moved c) {msg : Message}
    (hdrop : .client (.queue (.pushFull msg)) ∈ tr) :
    s.main.received numMessages+s.inFlight.length < s.main.written numMessages := by
  obtain ⟨hsends,hkept⟩ := h.account h₀ hc
  -- fewer messages are kept than have come to the queue
  have hlost := kept_lt_of_dropped (mem_clientTrace.mpr hdrop)
  have hwritten := congrArg List.length (h.sent.symm.trans hsends)
  have hreceived := h.received
  rw [hkept,List.length_append] at hlost
  simp only [List.length_map,List.length_range,List.length_append] at hwritten
  simp only [State.inFlight,List.length_append]
  omega

theorem written_le (h : Books moved numMessages before tr s) :
    s.main.written numMessages ≤ numMessages.toNat := by
  have hknows := h.knows
  cases hpc : s.main with
  | send i =>
    rw [hpc] at hknows
    exact hknows
  | write i =>
    rw [hpc] at hknows
    have hlt := hknows.1
    show i ≤ numMessages.toNat
    omega
  | _ => exact Nat.le_refl _

/-- The drain loop does not end once a message has been dropped. -/
theorem not_done (h : Books moved numMessages before tr s)
    (h₀ : (Client.client moved).Run Client.init before c) (hc : Ready moved c) {msg : Message}
    (hdrop : .client (.queue (.pushFull msg)) ∈ tr) : s.main ≠ .done := by
  intro hpc
  have hlost := h.lost h₀ hc hdrop
  rw [hpc] at hlost
  exact absurd (Nat.lt_of_le_of_lt (Nat.le_add_right _ _) hlost) (Nat.lt_irrefl _)

/-- A burst that fits into the queue is not dropped from. -/
theorem fits (h : Books moved numMessages before tr s)
    (h₀ : (Client.client moved).Run Client.init before c) (hc : Ready moved c)
    (hfit : numMessages ≤ kQueueCapacity.val-1)
    (hdrop : ∀ msg, .client (.queue (.pushFull msg)) ∉ tr)
    (hs : (throughput moved numMessages).step s a = some (s',es)) (msg : Message) :
    .client (.queue (.pushFull msg)) ∉ es := by
  intro hm
  have hmem := mem_clientTrace.mpr hm
  rcases step_client hs with ⟨_,hnil⟩ | ⟨b,hb⟩
  · rw [hnil] at hmem
    cases hmem
  · -- the queue is full and the receiver holds one message more
    have hfull := run_refused h.run hb hmem
    have hone := step_refused (run_account h.run) hb hmem
    have hheld := congrArg List.length (held_step h.run hb)
    rw [hone] at hheld
    change (s.client.held++[]).length = ([msg]++s'.client.held).length at hheld
    rw [List.append_nil,List.length_append,List.length_singleton] at hheld
    have hsends := congrArg List.length (h.undropped h₀ hc hdrop)
    rw [h.sent,List.length_map,List.length_range,List.length_append,State.inFlight,
      List.length_append,List.length_append] at hsends
    have hle := h.written_le
    omega

/-- As long as nothing is dropped and the benchmark has not ended, some thread can go on. -/
theorem advances (h : Books moved numMessages before tr s)
    (h₀ : (Client.client moved).Run Client.init before c) (hc : Ready moved c)
    (hdrop : ∀ msg, .client (.queue (.pushFull msg)) ∉ tr) (hpc : s.main ≠ .done) :
    ∃ a s' es, (throughput moved numMessages).step s a = some (s',es) ∧
      s'.work numMessages < s.work numMessages := by
  by_cases hsettled : Settled s
  · -- what has not been popped is in the queue
    have hsends := congrArg List.length (h.undropped h₀ hc hdrop)
    rw [h.sent,List.length_map,List.length_range,List.length_append,h.received,State.inFlight,
      hsettled.held,hsettled.abroad,List.append_nil,List.append_nil] at hsends
    cases hmain : s.main with
    | send i => exact absurd hmain (hsettled.sent i).1
    | write i => exact absurd hmain (hsettled.sent i).2
    | drain r =>
      rw [hmain] at hsends
      change numMessages.toNat = r+_ at hsends
      by_cases hlt : r < numMessages
      · have hqueued : s.client.queued ≠ [] := List.ne_nil_of_length_pos (by omega)
        obtain ⟨a,s',es,_,hs,hwork,_⟩ := h.drains hsettled hqueued (.inl ⟨r,hmain,hlt⟩)
        exact ⟨a,s',es,hs,hwork⟩
      · refine ⟨.main,{ s with main := .done },[],?_,?_⟩
        · simp only [throughput,Bench.step,mainStep,hmain,if_neg hlt]
        · simp only [State.work,State.round,hmain,BenchPc.written]
          omega
    | popping r =>
      rw [hmain] at hsends
      change numMessages.toNat = r+_ at hsends
      have hlt := h.knows
      rw [hmain] at hlt
      change (r : ℤ) < numMessages at hlt
      have hqueued : s.client.queued ≠ [] := List.ne_nil_of_length_pos (by omega)
      obtain ⟨a,s',es,_,hs,hwork,_⟩ := h.drains hsettled hqueued (.inr ⟨r,hmain⟩)
      exact ⟨a,s',es,hs,hwork⟩
    | done => exact absurd hmain hpc
  · obtain ⟨a,s',es,_,hs,hwork⟩ := h.fills hsettled
    exact ⟨a,s',es,hs,hwork⟩

/-- From every state of a benchmark whose burst fits, it can end. -/
theorem completes (h : Books moved numMessages before tr s)
    (h₀ : (Client.client moved).Run Client.init before c) (hc : Ready moved c)
    (hfit : numMessages ≤ kQueueCapacity.val-1)
    (hdrop : ∀ msg, .client (.queue (.pushFull msg)) ∉ tr) :
    ∃ fs s', (throughput moved numMessages).Run s fs s' ∧ s'.main = .done := by
  have hstep : ∀ tr s, (Books moved numMessages before tr s ∧
      ∀ msg, .client (.queue (.pushFull msg)) ∉ tr) → s.main ≠ .done →
      ∃ a s' es, True ∧ (throughput moved numMessages).step s a = some (s',es) ∧
        (Books moved numMessages before (tr++es) s' ∧
          ∀ msg, .client (.queue (.pushFull msg)) ∉ tr++es) ∧
        s'.work numMessages < s.work numMessages := by
    rintro tr s ⟨h,hdrop⟩ hpc
    obtain ⟨a,s',es,hs,hwork⟩ := h.advances h₀ hc hdrop hpc
    refine ⟨a,s',es,trivial,hs,⟨h.step hs,?_⟩,hwork⟩
    intro msg
    rw [List.mem_append,not_or]
    exact ⟨hdrop msg,h.fits h₀ hc hfit hdrop hs msg⟩
  -- the work falls with every step, so the steps end where the benchmark does
  obtain ⟨fs,s',hrun,_,hdone⟩ := System.RunWhere.reaches (P := fun _ _ => True)
    (G := fun s => s.main = .done) (State.work numMessages) hstep ⟨h,hdrop⟩
  exact ⟨fs,s',hrun,hdone⟩

/-- The burst fills the queue, and the rest of it is dropped. -/
theorem overfills (h : Books moved numMessages before tr s)
    (h₀ : (Client.client moved).Run Client.init before c) (hc : Ready moved c)
    (hover : kQueueCapacity.val ≤ numMessages) (hpc : s.main = .send 0) :
    ∃ fs s' msg, (throughput moved numMessages).Run s fs s' ∧
      Books moved numMessages before (tr++fs) s' ∧ Settled s' ∧ s'.main = .drain 0 ∧
      .client (.queue (.pushFull msg)) ∈ tr++fs := by
  have hstep : ∀ tr s, (Books moved numMessages before tr s ∧
      ((∃ i, s.main = .send i ∨ s.main = .write i) ∨ s.main = .drain 0)) → ¬Settled s →
      ∃ a s' es, Filling s a ∧ (throughput moved numMessages).step s a = some (s',es) ∧
        (Books moved numMessages before (tr++es) s' ∧
          ((∃ i, s'.main = .send i ∨ s'.main = .write i) ∨ s'.main = .drain 0)) ∧
        s'.work numMessages < s.work numMessages := by
    rintro tr s ⟨h,hmain⟩ hsettled
    obtain ⟨a,s',es,hfill,hs,hwork⟩ := h.fills hsettled
    exact ⟨a,s',es,hfill,hs,⟨h.step hs,filling_main hfill hs hmain⟩,hwork⟩
  obtain ⟨fs,s',hrun,⟨h',hmain⟩,hsettled⟩ := System.RunWhere.reaches (P := Filling)
    (G := Settled) (State.work numMessages) hstep ⟨h,.inl ⟨0,.inl hpc⟩⟩
  have hdrain : s'.main = .drain 0 := by
    rcases hmain with ⟨i,hi | hi⟩ | hdrain
    · exact absurd hi (hsettled.sent i).1
    · exact absurd hi (hsettled.sent i).2
    · exact hdrain
  -- otherwise the whole burst would be in the queue, which cannot hold it
  have hdropped : ∃ msg, .client (.queue (.pushFull msg)) ∈ tr++fs := by
    by_contra hnone
    have hsends := congrArg List.length (h'.undropped h₀ hc fun msg hm => hnone ⟨msg,hm⟩)
    rw [h'.sent,List.length_map,List.length_range,List.length_append,h'.received,State.inFlight,
      hsettled.held,hsettled.abroad,List.append_nil,List.append_nil,hdrain] at hsends
    have hle := queued_le h'.run
    change numMessages.toNat = 0+_ at hsends
    have hpos := kQueueCapacity.pos
    omega
  obtain ⟨msg,hmsg⟩ := hdropped
  exact ⟨fs,s',msg,hrun.mono fun _ _ _ => trivial,h',hsettled,hdrain,hmsg⟩

/-- After that the drain loop takes what the queue holds, and polls it in vain. -/
theorem drains_out (h : Books moved numMessages before tr s)
    (h₀ : (Client.client moved).Run Client.init before c) (hc : Ready moved c)
    (hsettled : Settled s) (hpc : s.main = .drain 0) {msg : Message}
    (hdrop : .client (.queue (.pushFull msg)) ∈ tr) :
    ∃ fs s' r, (throughput moved numMessages).Run s fs s' ∧
      Books moved numMessages before (tr++fs) s' ∧ s'.main = .drain r ∧ s'.inFlight = [] := by
  have hstep : ∀ tr s, (Books moved numMessages before tr s ∧
      .client (.queue (.pushFull msg)) ∈ tr ∧ Settled s ∧ ((∃ r, s.main = .drain r) ∨
        ((∃ r, s.main = .popping r) ∧ s.client.queued ≠ []))) → s.client.queued ≠ [] →
      ∃ a s' es, Draining s a ∧ (throughput moved numMessages).step s a = some (s',es) ∧
        (Books moved numMessages before (tr++es) s' ∧
          .client (.queue (.pushFull msg)) ∈ tr++es ∧ Settled s' ∧ ((∃ r, s'.main = .drain r) ∨
          ((∃ r, s'.main = .popping r) ∧ s'.client.queued ≠ []))) ∧
        s'.work numMessages < s.work numMessages := by
    rintro tr s ⟨h,hdrop,hsettled,hmain⟩ hqueued
    -- what was lost keeps `received` below the bound, so the loop goes on polling
    have hloop : (∃ r, s.main = .drain r ∧ r < numMessages) ∨ ∃ r, s.main = .popping r := by
      rcases hmain with ⟨r,hr⟩ | ⟨hr,_⟩
      · have hlost := h.lost h₀ hc hdrop
        rw [hr] at hlost
        change r+_ < numMessages.toNat at hlost
        exact .inl ⟨r,hr,by omega⟩
      · exact .inr hr
    obtain ⟨a,s',es,hdrain,hs,hwork,hsettled',hmain'⟩ := h.drains hsettled hqueued hloop
    exact ⟨a,s',es,hdrain,hs,⟨h.step hs,List.mem_append_left _ hdrop,hsettled',hmain'⟩,hwork⟩
  obtain ⟨fs,s',hrun,⟨h',_,hsettled',hmain'⟩,hempty⟩ := System.RunWhere.reaches (P := Draining)
    (G := fun s => s.client.queued = []) (State.work numMessages) hstep
    ⟨h,hdrop,hsettled,.inl ⟨0,hpc⟩⟩
  rcases hmain' with ⟨r,hr⟩ | ⟨_,hne⟩
  · refine ⟨fs,s',r,hrun.mono fun _ _ _ => trivial,h',hr,?_⟩
    rw [State.inFlight,hempty,hsettled'.held,hsettled'.abroad]
    rfl
  · exact absurd hempty hne

end Books

/-- Whatever follows keeps the books. -/
theorem Books.follow (h : Books moved numMessages before tr s)
    (hrun : (throughput moved numMessages).Run s es s') :
    Books moved numMessages before (tr++es) s' := by
  refine hrun.invariant (I := fun es s' => Books moved numMessages before (tr++es) s') ?_ ?_
  · rw [List.append_nil]
    exact h
  · intro es s a s' fs hbooks _ hs
    rw [← List.append_assoc]
    exact hbooks.step hs

/-- What has been sent is a part of the burst, and with all of it popped it is the burst. -/
theorem Books.sends_le_burst (h : Books moved numMessages before tr s) :
    sends tr <+: burst numMessages := by
  rw [h.sent,burst,← Nat.min_eq_left h.written_le,← List.take_range]
  exact (List.take_prefix _ _).map _

/-- A run of a burst that fits drops nothing. -/
theorem run_fits {text : Bool} (h₀ : (Client.client moved).Run Client.init before c)
    (hc : Ready moved c) (hbooks : Books moved numMessages before [] (init c text))
    (hfit : numMessages ≤ kQueueCapacity.val-1)
    (h : (throughput moved numMessages).Run (init c text) tr s) :
    Books moved numMessages before tr s ∧ ∀ msg, .client (.queue (.pushFull msg)) ∉ tr := by
  refine h.invariant (I := fun tr s => Books moved numMessages before tr s ∧
    ∀ msg, .client (.queue (.pushFull msg)) ∉ tr) ⟨hbooks,by simp⟩ ?_
  rintro tr s a s' es ⟨h,hdrop⟩ _ hs
  refine ⟨h.step hs,?_⟩
  intro msg
  rw [List.mem_append,not_or]
  exact ⟨hdrop msg,h.fits h₀ hc hfit hdrop hs msg⟩

/-- A burst of at most `kQueueCapacity - 1` messages is received in full: in every interleaving
nothing is dropped, the drain loop pops the echoes in the order they were sent, it ends when it has
popped them all, and it can always come to that. From `kQueueCapacity` messages on there is an
interleaving that drops a message and leaves the drain loop with nothing more to come, so that it
never ends. -/
theorem burst_boundary (moved : Message → Message) (c : Client.State) (hc : Ready moved c)
    (text : Bool) (numMessages : ℤ) :
    (numMessages ≤ kQueueCapacity.val-1 →
      ∀ tr s, (throughput moved numMessages).Run (init c text) tr s →
        (∀ msg, .client (.queue (.pushFull msg)) ∉ tr) ∧
        popped tr <+: sends tr ∧ sends tr <+: burst numMessages ∧
        (s.main = .done → popped tr = burst numMessages) ∧
        ∃ fs s', (throughput moved numMessages).Run s fs s' ∧ s'.main = .done) ∧
    (kQueueCapacity.val ≤ numMessages →
      ∃ tr s received, (throughput moved numMessages).Run (init c text) tr s ∧
        (∃ msg, .client (.queue (.pushFull msg)) ∈ tr) ∧
        s.main = .drain received ∧ received < numMessages ∧
        s.client.queued = [] ∧ s.client.held = [] ∧ s.abroad = [] ∧
        ∀ fs s', (throughput moved numMessages).Run s fs s' → s'.main ≠ .done) := by
  obtain ⟨before,h₀,hbooks⟩ := Books.start numMessages hc text
  constructor
  · intro hfit tr s hrun
    obtain ⟨h,hdrop⟩ := run_fits h₀ hc hbooks hfit hrun
    have hsends := h.undropped h₀ hc hdrop
    refine ⟨hdrop,?_,h.sends_le_burst,?_,h.completes h₀ hc hfit hdrop⟩
    · rw [hsends]
      exact List.prefix_append _ _
    · intro hdone
      have hwritten := h.sent
      have hreceived := h.received
      rw [hdone] at hwritten hreceived
      have hlen : (popped tr).length = (sends tr).length := by
        rw [hreceived,hwritten,List.length_map,List.length_range]
        rfl
      have hpart : popped tr <+: sends tr := by
        rw [hsends]
        exact List.prefix_append _ _
      exact (hpart.eq_of_length hlen).trans hwritten
  · intro hover
    obtain ⟨fs,s,msg,hrun,h,hsettled,hpc,hdrop⟩ := hbooks.overfills h₀ hc hover rfl
    obtain ⟨gs,s',r,hrun',h',hpc',hempty⟩ := h.drains_out h₀ hc hsettled hpc hdrop
    rw [List.nil_append] at h' hdrop
    have hdrop' := List.mem_append_left gs hdrop
    have hlost := h'.lost h₀ hc hdrop'
    rw [hpc'] at hlost
    change r+_ < numMessages.toNat at hlost
    obtain ⟨hclient,habroad⟩ := List.append_eq_nil_iff.mp hempty
    obtain ⟨hqueued,hheld⟩ := List.append_eq_nil_iff.mp hclient
    refine ⟨fs++gs,s',r,hrun.append hrun',⟨msg,hdrop'⟩,hpc',by omega,hqueued,hheld,habroad,?_⟩
    intro gs' s'' hrun''
    exact (h'.follow hrun'').not_done h₀ hc (List.mem_append_left gs' hdrop')

/-- A client that has just been connected. -/
theorem ready_init : Ready moved Client.init where
  reached := ⟨[],.start⟩
  queued := rfl
  held := rfl
  running := rfl
  receiving := ⟨by simp [Client.init],by simp [Client.init]⟩
  consumer := rfl

/-- The boundary on a fresh client, from both sides. -/
theorem burst_boundary_fresh :
    (∃ fs s, (throughput id 1023).Run (init Client.init true) fs s ∧ s.main = .done) ∧
    ∃ tr s received, (throughput id 1024).Run (init Client.init true) tr s ∧
      s.main = .drain received ∧ (received : ℤ) < 1024 ∧ s.client.queued = [] := by
  refine ⟨?_,?_⟩
  · obtain ⟨_,_,_,_,hdone⟩ := (burst_boundary id Client.init ready_init true 1023).1 (by decide)
      [] _ .start
    exact hdone
  · obtain ⟨tr,s,r,hrun,_,hpc,hlt,hqueued,_⟩ :=
      (burst_boundary id Client.init ready_init true 1024).2 (by decide)
    exact ⟨tr,s,r,hrun,hpc,hlt,hqueued⟩

end WsClient.Bench
