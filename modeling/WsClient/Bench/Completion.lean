import WsClient.Bench.Script

/-!
# The suite comes to its end

A message weighs the less the further it has come, and what the script has still to bring weighs
more than what is under way: while the main thread waits, one of the other threads can go on, and
whoever goes on makes the whole lighter.
-/

namespace WsClient.Bench.Suite
open WsClient.Lib WsClient.Client WsClient.Session

/-- The steps the receiver thread has left at most until it reads, and after that until it is
gone. -/
def toExit (c : Client.State) : ℕ :=
  match c.receiver with
  | .exited => 0
  | .storeRunning => 1
  | _ => 2+c.toRead

/-- The steps the main thread has left at most until it says or hears something. -/
def State.round (tasks : List Task) (s : State) : ℕ :=
  match s.main with
  | .greeting i => 30*tasks.length+40+12*(51-i)
  | .greetingTry i => 30*tasks.length+46+12*(50-i)+s.client.queue.pop.left
  | .tasks rest => 30*rest.length+5
  | .exchange .next _ rest => 30*rest.length+30
  | .exchange (.write _) _ rest => 30*rest.length+29
  | .exchange (.spin _) _ rest => 30*rest.length+28
  | .exchange (.spinning _) _ rest =>
    30*rest.length+(if s.client.queue.pop.left = 0 then 20 else s.client.queue.pop.left)
  | .exchange (.record _ _) _ rest => 30*rest.length+31
  | .burst _ (.send _) rest => 30*rest.length+30
  | .burst _ (.write _) rest => 30*rest.length+29
  | .burst _ (.drain _) rest => 30*rest.length+25
  | .burst _ (.popping _) rest => 30*rest.length+16+s.client.queue.pop.left
  | .burst _ .done rest => 30*rest.length+10
  | .closeStore => 4
  | .closeStream => 3
  | .closeJoin => 2
  | .returned => 0

/-- What is left to do. -/
def State.work (tasks : List Task) (s : State) : ℕ :=
  100*(s.main.toCome tasks s.samples).length+50*s.wire.toServer.length+
    45*s.server.toList.length+40*s.wire.toClient.length+30*s.client.held.length+
    20*s.client.queued.length+toExit s.client+s.round tasks

variable {moved : Message → Message} {tasks : List Task} {tr es : List Event}
  {ces : List Client.Event} {s s' : State} {c : Client.State} {a : Action} {b : Client.Action}

/-- Some thread can go on, and what is left gets less. -/
def Advances (moved : Message → Message) (tasks : List Task) (s : State) : Prop :=
  ∃ a s' es, (suite moved tasks).step s a = some (s',es) ∧ s'.work tasks < s.work tasks

/-- The server can go on as long as it has a message or one is on its way to it. -/
theorem server_work (hbusy : s.server ≠ none ∨ s.wire.toServer ≠ []) :
    Advances moved tasks s := by
  refine ⟨.server,?_⟩
  cases hheld : s.server with
  | some m =>
    simp only [suite,step,echoStep,hheld,Option.map_some]
    refine ⟨_,_,rfl,?_⟩
    simp only [State.work,State.round,hheld,List.length_append,List.length_singleton,
      Option.toList,List.length_nil]
    omega
  | none =>
    cases hto : s.wire.toServer with
    | nil => exact absurd hto (hbusy.resolve_left fun hne => hne hheld)
    | cons m rest =>
      simp only [suite,step,echoStep,hheld,hto,Option.map_some]
      refine ⟨_,_,rfl,?_⟩
      simp only [State.work,State.round,hheld,hto,List.length_cons,Option.toList,List.length_nil]
      omega

/-- A receiver that waits takes what has come. -/
theorem read_work {msg : Message} {rest : List Message} (hpc : s.client.receiver = .read)
    (hwire : s.wire.toClient = msg :: rest) : Advances moved tasks s := by
  refine ⟨.read,?_⟩
  simp only [suite,step,hwire,State.onClient,Client.step,hpc,Option.map_some]
  refine ⟨_,_,rfl,?_⟩
  simp only [State.work,State.round,toExit,Client.State.held,Client.State.toRead,
    Client.State.queued,hpc,hwire,List.length_cons,List.length_nil]
  omega

/-- A step of the receiver thread towards its read or its end. -/
theorem receiver_work {l : List Client.Event} (hrun : (Client.client moved).Run Client.init l s.client)
    (hc : (Client.client moved).step s.client b = some (c,ces)) (hread : readMessages ces = [])
    (hexit : toExit c < toExit s.client) (hpop : c.queue.pop = s.client.queue.pop) :
    State.work tasks { s with client := c } < s.work tasks := by
  have hpipe := pipe_work hrun hc hread
  simp only [State.work,State.round,hpop]
  omega

theorem toExit_le (c : Client.State) : toExit c ≤ 2+c.toRead := by
  unfold toExit
  split <;> omega

theorem toExit_eq {c : Client.State} (h : c.receiver.left = false) : toExit c = 2+c.toRead := by
  unfold toExit
  split
  · next hpc => simp [hpc,ReceiverPc.left] at h
  · next hpc => simp [hpc,ReceiverPc.left] at h
  · rfl

/-- Server, wire and receiver thread have nothing to do. -/
structure Resting (s : State) : Prop where
  server : s.server = none
  toServer : s.wire.toServer = []
  receiver : (s.client.receiver = .read ∧ s.wire.toClient = []) ∨ s.client.receiver = .exited

theorem Books.rests (h : Books moved tasks tr s) : Advances moved tasks s ∨ Resting s := by
  by_cases hserver : s.server ≠ none ∨ s.wire.toServer ≠ []
  · exact .inl (server_work hserver)
  rw [not_or,not_not,not_not] at hserver
  cases hpc : s.client.receiver with
  | exited => exact .inr ⟨hserver.1,hserver.2,.inr hpc⟩
  | read =>
    cases hwire : s.wire.toClient with
    | nil => exact .inr ⟨hserver.1,hserver.2,.inl ⟨hpc,hwire⟩⟩
    | cons msg rest => exact .inl (read_work hpc hwire)
  | storeRunning =>
    left
    have hc : (Client.client moved).step s.client .receiver =
        some ({ s.client with running := false, receiver := .exited },[]) := by
      simp only [Client.client,Client.step,receiverStep,hpc]
    refine ⟨.receiver,_,_,Option.map_eq_some_iff.mpr ⟨_,hc,rfl⟩,?_⟩
    refine receiver_work h.run hc rfl ?_ rfl
    simp [toExit,hpc]
  | _ =>
    have hleft : s.client.receiver.left = false := by
      rw [hpc]
      rfl
    left
    rcases receiver_enabled h.run hleft (by simp [hpc]) with ⟨c,ces,hc⟩ | ⟨obs,c,ces,hc⟩
    · obtain ⟨hlt,_,hpop⟩ := receiver_toRead hc hleft
      obtain rfl := step_silent hc rfl
      refine ⟨.receiver,_,_,Option.map_eq_some_iff.mpr ⟨_,hc,rfl⟩,?_⟩
      refine receiver_work h.run hc rfl ?_ hpop
      have hle := toExit_le c
      rw [toExit_eq hleft]
      omega
    · obtain ⟨hlt,_,hpop⟩ := producer_toRead hc
      refine ⟨.producer obs,_,_,Option.map_eq_some_iff.mpr ⟨_,hc,rfl⟩,?_⟩
      refine receiver_work h.run hc (step_producer (run_account h.run) hc).1 ?_ hpop
      have hle := toExit_le c
      rw [toExit_eq hleft]
      omega

/-- With everything at rest before `close`, what is outstanding is in the queue. -/
theorem Books.queued_eq (h : Books moved tasks tr s) (hrest : Resting s)
    (hclosing : s.main.closing = false) : s.client.queued = s.main.outstanding := by
  have hpc : s.client.receiver = .read ∧ s.wire.toClient = [] := by
    rcases hrest.receiver with hread | hexit
    · exact hread
    · have hleft := (h.live hclosing).2
      rw [hexit] at hleft
      cases hleft
  have hheld : s.client.held = [] := by rw [Client.State.held,hpc.1]
  have hflight := h.inFlight_eq
  rw [State.inFlight_eq,State.abroad,hheld,hpc.2,hrest.server,hrest.toServer] at hflight
  simpa using hflight

theorem pop_left {α : Type*} {pc : SpscQueue.PopPc α} : pc.left = 0 ↔ pc = .idle := by
  cases pc <;> simp [SpscQueue.PopPc.left]

/-- A call of `try_pop` that has begun can go on. -/
theorem pop_enabled {l : List Client.Event} (h : (Client.client moved).Run Client.init l c)
    (hbusy : c.queue.pop ≠ .idle) :
    ∃ obs c' ces, (Client.client moved).step c (.consumer obs) = some (c',ces) := by
  obtain ⟨_,_,hrel⟩ := SpscQueue.run_refines (run_queue h)
  obtain ⟨q,fs,hq⟩ := hrel.pop_enabled hbusy
  refine ⟨c.queue.tail.newest,?_⟩
  simp only [Client.client,Client.step,Client.State.onQueue]
  rw [hq]
  exact ⟨_,_,rfl⟩

/-- A step of `try_pop` that answers nothing leaves it busy. -/
theorem pop_busy {obs : ℕ} {c' : Client.State}
    (hc : (Client.client moved).step c (.consumer obs) = some (c',ces)) (hces : ces = []) :
    c'.queue.pop.left ≠ 0 := by
  cases Client.step_transition hc with
  | call hcall _ => cases hcall.silent
  | consumer hq =>
    have hbusy := (SpscQueue.consumer_left hq).2.mp (List.map_eq_nil_iff.mp hces)
    exact mt pop_left.mp hbusy

theorem toExit_congr {c c' : Client.State} (hpc : c'.receiver = c.receiver)
    (hleft : c'.toRead = c.toRead) : toExit c' = toExit c := by
  rw [toExit,toExit,hpc,hleft]

/-- What a step of `try_pop` comes to: it goes on, or it answers, and then truly. -/
inductive Answers (s : State) (c : Client.State) : List Client.Event → Prop
  | goesOn : c.queue.pop.left ≠ 0 →
      30*c.held.length+20*c.queued.length ≤ 30*s.client.held.length+20*s.client.queued.length →
      Answers s c []
  | popped {slot msg} : s.client.queued ≠ [] →
      30*c.held.length+20*c.queued.length+20 ≤
        30*s.client.held.length+20*s.client.queued.length →
      Answers s c [.queue (.popped slot msg)]
  | empty : s.client.queued = [] →
      30*c.held.length+20*c.queued.length ≤ 30*s.client.held.length+20*s.client.queued.length →
      Answers s c [.queue .popEmpty]

theorem Books.answers (h : Books moved tasks tr s) {obs : ℕ}
    (hc : (Client.client moved).step s.client (.consumer obs) = some (c,ces)) :
    Answers s c ces := by
  have hread : readMessages ces = [] := by
    rcases step_consumer hc with rfl | ⟨slot,msg,rfl⟩ | rfl <;> rfl
  have hpipe := pipe_work h.run hc hread
  have hstep := queued_step h.run hc
  rcases step_consumer hc with rfl | ⟨slot,msg,rfl⟩ | rfl
  · have hnone : delivered [] = [] := rfl
    rw [hnone,List.length_nil,Nat.add_zero] at hpipe
    exact .goesOn (pop_busy hc rfl) hpipe
  · have hone : delivered [.queue (.popped slot msg)] = [msg] := rfl
    have hkept : kept [.queue (.popped slot msg)] = [] := rfl
    rw [hone,List.length_singleton,Nat.mul_add,← Nat.add_assoc] at hpipe
    refine .popped (fun hnil => ?_) hpipe
    rw [hnil,hkept,hone] at hstep
    simp at hstep
  · have hnone : delivered [.queue .popEmpty] = [] := rfl
    rw [hnone,List.length_nil,Nat.add_zero] at hpipe
    exact .empty (run_empty h.run hc (List.mem_singleton_self _)) hpipe

/-- The step of a `try_pop` that has begun: it is nearer to its end, or it has what comes next. -/
theorem Books.pop_advances (h : Books moved tasks tr s) (hpops : s.main.pops = true)
    (hbusy : s.client.queue.pop ≠ .idle) (hq : s.client.queued = s.main.outstanding) :
    Advances moved tasks s := by
  obtain ⟨obs,c,ces,hc⟩ := pop_enabled h.run hbusy
  have hs : (suite moved tasks).step s (.consumer obs) =
      some ({ s with client := c, main := s.main.after tasks ces },ces.map .client) := by
    simp only [suite,Suite.step,if_pos hpops]
    exact Option.map_eq_some_iff.mpr ⟨_,hc,rfl⟩
  refine ⟨_,_,_,hs,?_⟩
  obtain ⟨htoRead,hreceiver,_,hleft⟩ := consumer_toRead hc
  have hexit := toExit_congr hreceiver htoRead
  have hanswers := h.answers hc
  have hknows := h.knows
  have hbusy' := mt pop_left.mp hbusy
  cases hmain : s.main with
  | greetingTry i =>
    cases hanswers with
    | goesOn _ hpipe =>
      have hafter : (SuitePc.greetingTry i).after tasks [] = .greetingTry i := rfl
      simp only [State.work,State.round,hmain,hafter,hexit,SuitePc.toCome]
      omega
    | popped hne _ =>
      rw [hq,hmain] at hne
      exact absurd rfl hne
    | empty _ hpipe =>
      have hafter : (SuitePc.greetingTry i).after tasks [.queue .popEmpty] = .greeting (i+1) := rfl
      simp only [State.work,State.round,hmain,hafter,hexit,SuitePc.toCome]
      omega
  | exchange pc todo rest =>
    cases pc with
    | spinning payload =>
      cases hanswers with
      | goesOn hgoes hpipe =>
        have hafter : (SuitePc.exchange (.spinning payload) todo rest).after tasks [] =
            .exchange (.spinning payload) todo rest := rfl
        simp only [State.work,State.round,hmain,hafter,hexit,SuitePc.toCome,if_neg hgoes,
          if_neg hbusy']
        omega
      | @popped slot msg _ hpipe =>
        have hafter : (SuitePc.exchange (.spinning payload) todo rest).after tasks
            [.queue (.popped slot msg)] = .exchange (.record payload msg) todo rest := rfl
        simp only [State.work,State.round,hmain,hafter,hexit,SuitePc.toCome,List.length_cons]
        omega
      | empty hnil _ =>
        rw [hq,hmain] at hnil
        cases hnil
    | _ => simp [hmain,SuitePc.pops] at hpops
  | burst n pc rest =>
    cases pc with
    | popping r =>
      rw [hmain] at hknows
      have hr : (r : ℤ) < n := hknows.1
      cases hanswers with
      | goesOn _ hpipe =>
        have hafter : (SuitePc.burst n (.popping r) rest).after tasks [] =
            .burst n (.popping r) rest := rfl
        simp only [State.work,State.round,hmain,hafter,hexit,SuitePc.toCome]
        omega
      | @popped slot msg _ hpipe =>
        have hafter : (SuitePc.burst n (.popping r) rest).after tasks
            [.queue (.popped slot msg)] = .burst n (.drain (r+1)) rest := rfl
        simp only [State.work,State.round,hmain,hafter,hexit,SuitePc.toCome,burst_drop hr,
          List.map_cons,List.length_cons,List.cons_append]
        omega
      | empty hnil _ =>
        rw [hq,hmain] at hnil
        simp only [SuitePc.outstanding,burst_drop hr] at hnil
        cases hnil
    | _ => simp [hmain,SuitePc.pops] at hpops
  | _ => simp [hmain,SuitePc.pops] at hpops

/-- A call of `try_pop` can begin. -/
theorem call_enabled (moved : Message → Message) (hpop : c.queue.pop = .idle)
    (hb : (c.consumer = .idle ∧ (b = .tryReceive ∨ b = .spinReceive)) ∨
      (c.consumer = .spinReceive ∧ b = .spin)) :
    ∃ c', (Client.client moved).step c b = some (c',[]) ∧ c'.queue.pop.left = 4 ∧
      toExit c' = toExit c := by
  rcases hb with ⟨hidle,rfl | rfl⟩ | ⟨hspin,rfl⟩
  · simp only [Client.client,Client.step,hidle,Client.State.onQueue,SpscQueue.queue,SpscQueue.step,
      hpop]
    exact ⟨_,rfl,rfl,rfl⟩
  · simp only [Client.client,Client.step,hidle,Client.State.onQueue,SpscQueue.queue,SpscQueue.step,
      hpop]
    exact ⟨_,rfl,rfl,rfl⟩
  · simp only [Client.client,Client.step,hspin,Client.State.onQueue,SpscQueue.queue,SpscQueue.step,
      hpop]
    exact ⟨_,rfl,rfl,rfl⟩

theorem Books.call_weight (h : Books moved tasks tr s)
    (hc : (Client.client moved).step s.client b = some (c,[])) :
    30*c.held.length+20*c.queued.length ≤
      30*s.client.held.length+20*s.client.queued.length := by
  have hpipe := pipe_work h.run hc rfl
  have hnone : delivered [] = [] := rfl
  rwa [hnone,List.length_nil,Nat.add_zero] at hpipe

theorem Goes.round_lt {pc pc' : SuitePc} {t t' : Bool} {k k' : ℕ}
    (h : Goes tasks pc t k es pc' t' k') (hs : s.main = pc) (hs' : s'.main = pc') :
    s'.round tasks < s.round tasks := by
  cases h <;> simp only [State.round,hs,hs',List.length_cons,List.length_nil] <;> omega

theorem Goes.enabled {pc : SuitePc} {t : Bool} {k : ℕ}
    (h : Goes tasks s.main s.text s.samples es pc t k) : (suite moved tasks).step s .main =
      some ({ s with main := pc, text := t, samples := k },es) := by
  obtain ⟨client,text,closed,wire,server,main,samples⟩ := s
  cases h with
  | greeted hi => simp only [suite,Suite.step,mainStep,if_neg hi]
  | burstText hi =>
    simp only [suite,Suite.step,mainStep,Bench.mainStep,State.inBurst,if_pos hi]
    rfl
  | burstSent hi =>
    simp only [suite,Suite.step,mainStep,Bench.mainStep,State.inBurst,if_neg hi]
    rfl
  | drained hr =>
    simp only [suite,Suite.step,mainStep,Bench.mainStep,State.inBurst,if_neg hr]
    rfl
  | _ => rfl

/-- A step of the main thread by itself. -/
theorem Books.goes_advances (h : Books moved tasks tr s) {pc : SuitePc} {t : Bool} {k : ℕ}
    (hg : Goes tasks s.main s.text s.samples es pc t k) : Advances moved tasks s := by
  have hcome := congrArg List.length (hg.toCome h.knows)
  have hround : ({ s with main := pc, text := t, samples := k } : Suite.State).round tasks < s.round tasks :=
    hg.round_lt rfl rfl
  rw [List.length_append] at hcome
  refine ⟨_,_,_,hg.enabled,?_⟩
  simp only [State.work,hcome]
  omega

theorem Calls.enabled {pc : SuitePc} (h : Calls s.main b pc)
    (hc : (Client.client moved).step s.client b = some (c,[])) :
    (suite moved tasks).step s .main = some ({ s with client := c, main := pc },[]) := by
  obtain ⟨client,text,closed,wire,server,main,samples⟩ := s
  cases h with
  | greeting hi =>
    simp only [suite,Suite.step,mainStep,if_pos hi]
    exact Option.map_eq_some_iff.mpr ⟨_,hc,rfl⟩
  | drain hr =>
    simp only [suite,Suite.step,mainStep,Bench.mainStep,State.inBurst,if_pos hr]
    exact Option.map_eq_some_iff.mpr ⟨_,Option.map_eq_some_iff.mpr ⟨_,hc,rfl⟩,rfl⟩
  | _ =>
    simp only [suite,Suite.step,mainStep]
    exact Option.map_eq_some_iff.mpr ⟨_,hc,rfl⟩

theorem Writes.enabled {payload : List UInt8} {pc : SuitePc} (h : Writes s.main payload pc) :
    (suite moved tasks).step s .main = some ({ s with
      wire.toServer := s.wire.toServer++[⟨payload,s.text⟩]
      main := pc },[.sent ⟨payload,s.text⟩]) := by
  obtain ⟨client,text,closed,wire,server,main,samples⟩ := s
  cases h <;> rfl

/-- A message that is sent is one less to come. -/
theorem Books.write_advances (h : Books moved tasks tr s) {payload : List UInt8} {pc : SuitePc}
    (hw : Writes s.main payload pc) : Advances moved tasks s := by
  obtain ⟨_,_,hcome,_⟩ := hw.keeps (k := s.samples) h.knows
  have hround : ∀ s' : State, s'.main = pc → s'.round tasks ≤ s.round tasks+1 := by
    intro s' hs'
    generalize hs : s.main = start at hw
    cases hw <;> simp only [State.round,hs,hs'] <;> omega
  refine ⟨_,_,_,hw.enabled,?_⟩
  have hle := hround { s with
    wire.toServer := s.wire.toServer++[⟨payload,s.text⟩]
    main := pc } rfl
  dsimp only at hle
  simp only [State.work,hcome,List.length_cons,List.length_append,List.length_nil]
  omega

/-- A call of the client by the main thread. -/
theorem Books.call_advances (h : Books moved tasks tr s) {pc : SuitePc}
    (hp : Calls s.main b pc) (hc : (Client.client moved).step s.client b = some (c,[]))
    (hexit : toExit c = toExit s.client)
    (hround : State.round tasks { s with client := c, main := pc } < s.round tasks) :
    Advances moved tasks s := by
  obtain ⟨_,_,hcome,_⟩ := hp.keeps (k := s.samples) h.knows
  have hle := h.call_weight hc
  refine ⟨_,_,_,hp.enabled hc,?_⟩
  simp only [State.work,hcome,hexit]
  omega

/-- Before `close` the main thread can go on when everything else rests. -/
theorem Books.main_advances (h : Books moved tasks tr s) (hrest : Resting s)
    (hclosing : s.main.closing = false) : Advances moved tasks s := by
  have hq := h.queued_eq hrest hclosing
  have hcall := h.call
  have hknows := h.knows
  have hidle := (run_engaged h.run).idle
  have hcalling := (run_engaged h.run).calling
  cases hmain : s.main with
  | greeting i =>
    rw [hmain] at hcall
    by_cases hi : i < 50
    · obtain ⟨c,hc,hpop,hexit⟩ := call_enabled moved (b := .tryReceive) (hidle hcall)
        (.inl ⟨hcall,.inl rfl⟩)
      refine h.call_advances (by rw [hmain]; exact .greeting hi) hc hexit ?_
      simp only [State.round,hmain,hpop]
      omega
    · exact h.goes_advances (by rw [hmain]; exact .greeted hi)
  | greetingTry i => exact h.pop_advances (by rw [hmain]; rfl) (hcalling (by rw [hcall,hmain]; rfl)) hq
  | tasks rest =>
    cases rest with
    | nil => exact h.goes_advances (by rw [hmain]; exact .finished)
    | cons task rest =>
      cases task with
      | exchanges payloads => exact h.goes_advances (by rw [hmain]; exact .exchanges)
      | burst n => exact h.goes_advances (by rw [hmain]; exact .bursts)
  | exchange pc todo rest =>
    cases pc with
    | next =>
      cases todo with
      | nil => exact h.goes_advances (by rw [hmain]; exact .measured)
      | cons payload todo => exact h.goes_advances (by rw [hmain]; exact .setText)
    | write payload => exact h.write_advances (by rw [hmain]; exact .exchange)
    | spin payload =>
      rw [hmain] at hcall
      obtain ⟨c,hc,hpop,hexit⟩ := call_enabled moved (b := .spinReceive) (hidle hcall)
        (.inl ⟨hcall,.inr rfl⟩)
      refine h.call_advances (by rw [hmain]; exact .spin) hc hexit ?_
      simp [State.round,hmain,hpop]
    | spinning payload =>
      rw [hmain] at hcall
      by_cases hpop : s.client.queue.pop = .idle
      · obtain ⟨c,hc,hpop',hexit⟩ := call_enabled moved (b := .spin) hpop
          (.inr ⟨hcall,rfl⟩)
        refine h.call_advances (by rw [hmain]; exact .spinning) hc hexit ?_
        simp [State.round,hmain,hpop',pop_left.mpr hpop]
      · exact h.pop_advances (by rw [hmain]; rfl) hpop hq
    | record payload msg => exact h.goes_advances (by rw [hmain]; exact .record)
  | burst n pc rest =>
    cases pc with
    | send i =>
      by_cases hi : i < n
      · exact h.goes_advances (by rw [hmain]; exact .burstText hi)
      · exact h.goes_advances (by rw [hmain]; exact .burstSent hi)
    | write i => exact h.write_advances (by rw [hmain]; exact .burst)
    | drain r =>
      rw [hmain] at hcall
      by_cases hr : r < n
      · obtain ⟨c,hc,hpop,hexit⟩ := call_enabled moved (b := .tryReceive) (hidle hcall)
          (.inl ⟨hcall,.inl rfl⟩)
        refine h.call_advances (by rw [hmain]; exact .drain hr) hc hexit ?_
        simp only [State.round,hmain,hpop]
        omega
      · exact h.goes_advances (by rw [hmain]; exact .drained hr)
    | popping r => exact h.pop_advances (by rw [hmain]; rfl) (hcalling (by rw [hcall,hmain]; rfl)) hq
    | done => exact h.goes_advances (by rw [hmain]; exact .burstDone)
  | closeStore =>
    have hc : (Client.client moved).step s.client .close =
        some ({ s.client with running := false },[]) := rfl
    refine h.call_advances (by rw [hmain]; exact .close) hc rfl ?_
    simp [State.round,hmain]
  | _ => simp [hmain,SuitePc.closing] at hclosing

/-- Until `main` has returned, some thread can go on. -/
theorem Books.advances (h : Books moved tasks tr s) (hmain : s.main ≠ .returned) :
    Advances moved tasks s := by
  rcases h.rests with hadv | hrest
  · exact hadv
  cases hclosing : s.main.closing with
  | false => exact h.main_advances hrest hclosing
  | true =>
    cases hpc : s.main with
    | closeStream =>
      refine ⟨.main,{ s with closed := true, main := .closeJoin },[],?_,?_⟩
      · simp only [suite,Suite.step,mainStep,hpc]
      · simp [State.work,State.round,hpc,SuitePc.toCome]
    | closeJoin =>
      rcases hrest.receiver with ⟨hread,_⟩ | hexit
      · -- the read ends with an error, since the stream is closed
        have hclosed : s.closed = true := by rw [h.closed,hpc]; rfl
        have hc : (Client.client moved).step s.client .readError =
            some ({ s.client with receiver := .storeRunning },[]) := by
          simp only [Client.client,Client.step,hread]
        refine ⟨.readClosed,{ s with client := { s.client with receiver := .storeRunning } },[],?_,?_⟩
        · simp only [suite,Suite.step,if_pos hclosed]
          exact Option.map_eq_some_iff.mpr ⟨_,hc,rfl⟩
        · refine receiver_work h.run hc rfl ?_ rfl
          simp only [toExit,hread]
          omega
      · refine ⟨.main,{ s with main := .returned },[],?_,?_⟩
        · simp only [suite,Suite.step,mainStep,hpc,hexit]
        · simp [State.work,State.round,hpc,SuitePc.toCome]
    | returned => exact absurd hpc hmain
    | _ => simp [hpc,SuitePc.closing] at hclosing

theorem run_books (hfit : Fits tasks) (h : (suite moved tasks).Run init tr s) :
    Books moved tasks tr s := by
  refine h.invariant (I := Books moved tasks) ?_ fun _ _ _ _ _ hi _ hs => hi.step hs
  exact ⟨.start,by simp [clientTrace],rfl,rfl,rfl,hfit,rfl,fun _ => ⟨rfl,rfl⟩,rfl⟩

/-- The suite keeps to its script: over the echo server, whatever the loops are, as long as every
burst fits into the queue, the conversation is a part of the script in every interleaving; nothing
is dropped; where one loop ends and the next begins nothing is under way; `main` returns with the
script completed; and it can always come to that. -/
theorem suite_script (moved : Message → Message) {tasks : List Task} (hfit : Fits tasks)
    {tr : List Event} {s : State} (h : (suite moved tasks).Run init tr s) :
    talk tr <+: script tasks ∧
      (∀ msg, .client (.queue (.pushFull msg)) ∉ tr) ∧
      (∀ rest, s.main = .tasks rest → s.inFlight = []) ∧
      (s.main = .returned → talk tr = script tasks) ∧
      ∃ fs s', (suite moved tasks).Run s fs s' ∧ s'.main = .returned := by
  have hbooks := run_books hfit h
  refine ⟨⟨_,hbooks.script⟩,fun msg hm => ?_,fun rest hpc => ?_,fun hpc => ?_,?_⟩
  · exact hbooks.undropped msg (List.mem_filterMap.mpr ⟨_,hm,rfl⟩)
  · rw [hbooks.inFlight_eq,hpc]
    rfl
  · have hscript := hbooks.script
    rw [hpc] at hscript
    rwa [SuitePc.toCome,List.append_nil] at hscript
  · have hstep : ∀ tr s, Books moved tasks tr s → s.main ≠ .returned →
        ∃ a s' es, True ∧ (suite moved tasks).step s a = some (s',es) ∧
          Books moved tasks (tr++es) s' ∧ s'.work tasks < s.work tasks := by
      intro tr s hbooks hpc
      obtain ⟨a,s',es,hs,hwork⟩ := hbooks.advances hpc
      exact ⟨a,s',es,trivial,hs,hbooks.step hs,hwork⟩
    obtain ⟨fs,s',hrun,_,hdone⟩ := System.RunWhere.reaches (P := fun _ _ => True)
      (G := fun s => s.main = .returned) (State.work tasks) hstep hbooks
    exact ⟨fs,s',hrun,hdone⟩

theorem program_fits : Fits program := by
  intro n hn
  simp only [program,benchmarkSequentialRtt,benchmarkThroughput,benchmarkWarmupEffect,
    benchmarkMessageSizes,List.mem_append,List.mem_cons,List.mem_map,reduceCtorEq,and_false,
    exists_false,Task.burst.injEq,List.not_mem_nil,or_false,false_or] at hn
  subst hn
  decide

/-- The four benchmarks of `main`, run to the end. -/
theorem suite_script_program :
    ∃ tr s, (suite id program).Run init tr s ∧ s.main = .returned ∧ talk tr = script program := by
  obtain ⟨_,_,_,_,fs,s,hrun,hdone⟩ := suite_script id program_fits .start
  exact ⟨fs,s,hrun,hdone,(suite_script id program_fits hrun).2.2.2.1 hdone⟩

end WsClient.Bench.Suite
