import WsClient.Bench.Suite
import WsClient.Bench.Throughput

/-!
# The suite keeps to its script

Nothing tells an answer from another: a benchmark takes whatever comes next for the answer to its
message. Over the echo server everything that is under way is what the loops have still to
receive, so the conversation is the script, in every interleaving.
-/

namespace WsClient.Bench.Suite
open WsClient.Lib WsClient.Client WsClient.Session

/-- The steps of the main thread that concern nobody else; next to the position the kind `ws_`
writes and the samples. -/
inductive Goes (tasks : List Task) :
    SuitePc → Bool → ℕ → List Event → SuitePc → Bool → ℕ → Prop
  | greeted {i t k} : ¬i < 50 → Goes tasks (.greeting i) t k [] (.tasks tasks) t k
  | finished {t k} : Goes tasks (.tasks []) t k [] .closeStore t k
  | exchanges {payloads rest t k} : Goes tasks (.tasks (.exchanges payloads :: rest)) t k []
      (.exchange .next payloads rest) t 0
  | bursts {n rest t k} : Goes tasks (.tasks (.burst n :: rest)) t k [] (.burst n (.send 0) rest) t k
  | measured {rest t k} : Goes tasks (.exchange .next [] rest) t k [.measured k] (.tasks rest) t k
  | setText {payload todo rest t k} : Goes tasks (.exchange .next (payload :: todo) rest) t k []
      (.exchange (.write payload) todo rest) true k
  | record {payload msg todo rest t k} : Goes tasks (.exchange (.record payload msg) todo rest) t k []
      (.exchange .next todo rest) t (k+1)
  | burstText {n : ℤ} {i : ℕ} {rest t k} : i < n →
      Goes tasks (.burst n (.send i) rest) t k [] (.burst n (.write i) rest) true k
  | burstSent {n : ℤ} {i : ℕ} {rest t k} : ¬i < n →
      Goes tasks (.burst n (.send i) rest) t k [] (.burst n (.drain 0) rest) t k
  | drained {n : ℤ} {r : ℕ} {rest t k} : ¬r < n →
      Goes tasks (.burst n (.drain r) rest) t k [] (.burst n .done rest) t k
  | burstDone {n rest t k} : Goes tasks (.burst n .done rest) t k [] (.tasks rest) t k

/-- The writes of `send_text`. -/
inductive Writes : SuitePc → List UInt8 → SuitePc → Prop
  | exchange {payload todo rest} : Writes (.exchange (.write payload) todo rest) payload
      (.exchange (.spin payload) todo rest)
  | burst {n i rest} : Writes (.burst n (.write i) rest) (burstMessage i).payload
      (.burst n (.send (i+1)) rest)

/-- The calls on the client, and where each leaves the main thread. -/
inductive Calls : SuitePc → Client.Action → SuitePc → Prop
  | greeting {i} : i < 50 → Calls (.greeting i) .tryReceive (.greetingTry i)
  | spin {payload todo rest} : Calls (.exchange (.spin payload) todo rest) .spinReceive
      (.exchange (.spinning payload) todo rest)
  | spinning {payload todo rest} : Calls (.exchange (.spinning payload) todo rest) .spin
      (.exchange (.spinning payload) todo rest)
  | drain {n : ℤ} {r : ℕ} {rest} : r < n →
      Calls (.burst n (.drain r) rest) .tryReceive (.burst n (.popping r) rest)
  | close : Calls .closeStore .close .closeStream

/-- The `try_pop` that the main thread is in, and where each of its answers leaves it. -/
inductive Pops (tasks : List Task) : SuitePc → List Client.Event → SuitePc → Prop
  | goesOn {pc} : pc.pops = true → Pops tasks pc [] pc
  | greetingEmpty {i} : Pops tasks (.greetingTry i) [.queue .popEmpty] (.greeting (i+1))
  | greet {i slot msg} : Pops tasks (.greetingTry i) [.queue (.popped slot msg)] (.tasks tasks)
  | spinningEmpty {payload todo rest} : Pops tasks (.exchange (.spinning payload) todo rest)
      [.queue .popEmpty] (.exchange (.spinning payload) todo rest)
  | take {payload todo rest slot msg} : Pops tasks (.exchange (.spinning payload) todo rest)
      [.queue (.popped slot msg)] (.exchange (.record payload msg) todo rest)
  | drainEmpty {n r rest} : Pops tasks (.burst n (.popping r) rest) [.queue .popEmpty]
      (.burst n (.drain r) rest)
  | drain {n r rest slot msg} : Pops tasks (.burst n (.popping r) rest)
      [.queue (.popped slot msg)] (.burst n (.drain (r+1)) rest)

/-- A step of the suite by kind. -/
inductive Transition (moved : Message → Message) (tasks : List Task) (s : State) :
    Action → List Event → State → Prop
  | goes {es pc t k} : Goes tasks s.main s.text s.samples es pc t k →
      Transition moved tasks s .main es { s with main := pc, text := t, samples := k }
  | write {payload pc} : Writes s.main payload pc →
      Transition moved tasks s .main [.sent ⟨payload,s.text⟩] { s with
        wire.toServer := s.wire.toServer++[⟨payload,s.text⟩]
        main := pc }
  | call {b pc c} : Calls s.main b pc → (Client.client moved).step s.client b = some (c,[]) →
      Transition moved tasks s .main [] { s with client := c, main := pc }
  | closeStream : s.main = .closeStream →
      Transition moved tasks s .main [] { s with closed := true, main := .closeJoin }
  | closeJoin : s.main = .closeJoin → s.client.receiver = .exited →
      Transition moved tasks s .main [] { s with main := .returned }
  | pop {obs ces pc c} : Pops tasks s.main ces pc →
      (Client.client moved).step s.client (.consumer obs) = some (c,ces) →
      Transition moved tasks s (.consumer obs) (ces.map .client) { s with client := c, main := pc }
  | receiver {c} : (Client.client moved).step s.client .receiver = some (c,[]) →
      Transition moved tasks s .receiver [] { s with client := c }
  | producer {obs c ces} : (Client.client moved).step s.client (.producer obs) = some (c,ces) →
      Transition moved tasks s (.producer obs) (ces.map .client) { s with client := c }
  | read {msg rest c ces} : s.wire.toClient = msg :: rest →
      (Client.client moved).step s.client (.read msg.payload msg.isText) = some (c,ces) →
      Transition moved tasks s .read (ces.map .client) { s with client := c, wire.toClient := rest }
  | readClosed {c} : s.closed = true →
      (Client.client moved).step s.client .readError = some (c,[]) →
      Transition moved tasks s .readClosed [] { s with client := c }
  | server {wire server fs} : echoStep (s.wire,s.server) () = some ((wire,server),fs) →
      Transition moved tasks s .server [] { s with wire := wire, server := server }

variable {moved : Message → Message} {tasks : List Task} {tr es : List Event}
  {ces : List Client.Event} {s s' : State} {c : Client.State} {a : Action} {b : Client.Action}

theorem State.onClient_some {next : List Client.Event → SuitePc}
    (h : s.onClient moved b next = some (s',es)) :
    ∃ c ces, (Client.client moved).step s.client b = some (c,ces) ∧ es = ces.map .client ∧
      s' = { s with client := c, main := next ces } := by
  obtain ⟨⟨c,ces⟩,hc,he⟩ := Option.map_eq_some_iff.mp h
  cases he
  exact ⟨c,ces,hc,rfl,rfl⟩

/-- A call on the client is silent. -/
theorem Transition.of_call {pc : SuitePc} (hpc : Calls s.main b pc) (hb : b.silent = true)
    (hs : s.onClient moved b (fun _ => pc) = some (s',es)) :
    Transition moved tasks s .main es s' := by
  obtain ⟨c,ces,hc,rfl,rfl⟩ := State.onClient_some hs
  obtain rfl := step_silent hc hb
  exact .call hpc hc

theorem main_transition (hs : mainStep moved tasks s = some (s',es)) :
    Transition moved tasks s .main es s' := by
  obtain ⟨client,text,closed,wire,server,main,samples⟩ := s
  cases main with
  | greeting i =>
    simp only [mainStep] at hs
    split at hs
    · next hi => exact .of_call (.greeting hi) rfl hs
    · next hi =>
      cases hs
      exact .goes (.greeted hi)
  | tasks rest =>
    cases rest with
    | nil =>
      cases hs
      exact .goes .finished
    | cons task rest =>
      cases task with
      | exchanges payloads =>
        cases hs
        exact .goes .exchanges
      | burst n =>
        cases hs
        exact .goes .bursts
  | exchange pc todo rest =>
    cases pc with
    | next =>
      cases todo with
      | nil =>
        cases hs
        exact .goes .measured
      | cons payload todo =>
        cases hs
        exact .goes .setText
    | write payload =>
      cases hs
      exact .write .exchange
    | spin payload => exact .of_call .spin rfl hs
    | spinning payload => exact .of_call .spinning rfl hs
    | record payload msg =>
      cases hs
      exact .goes .record
  | burst n pc rest =>
    cases pc with
    | done =>
      cases hs
      exact .goes .burstDone
    | popping r => cases hs
    | send i =>
      obtain ⟨⟨b,bes⟩,hb,he⟩ := Option.map_eq_some_iff.mp hs
      simp only [Bench.mainStep,State.inBurst] at hb
      split at hb
      · next hi =>
        cases hb
        cases he
        exact .goes (.burstText hi)
      · next hi =>
        cases hb
        cases he
        exact .goes (.burstSent hi)
    | write i =>
      cases hs
      exact .write .burst
    | drain r =>
      obtain ⟨⟨b,bes⟩,hb,he⟩ := Option.map_eq_some_iff.mp hs
      simp only [Bench.mainStep,State.inBurst] at hb
      split at hb
      · next hr =>
        obtain ⟨c,bces,hc,rfl,rfl⟩ := Bench.State.onClient_some hb
        obtain rfl := step_silent hc rfl
        cases he
        exact .call (.drain hr) hc
      · next hr =>
        cases hb
        cases he
        exact .goes (.drained hr)
  | closeStore => exact .of_call .close rfl hs
  | closeStream =>
    cases hs
    exact .closeStream rfl
  | closeJoin =>
    simp only [mainStep] at hs
    split at hs <;> cases hs
    exact .closeJoin rfl ‹_›
  | greetingTry i => cases hs
  | returned => cases hs

/-- A step of `try_pop` goes on, yields a message or finds the queue empty. -/
theorem pop_transition {obs : ℕ} (hpc : s.main.pops = true)
    (hs : s.onClient moved (.consumer obs) (s.main.after tasks) = some (s',es)) :
    Transition moved tasks s (.consumer obs) es s' := by
  obtain ⟨c,ces,hc,rfl,rfl⟩ := State.onClient_some hs
  refine .pop ?_ hc
  obtain ⟨client,text,closed,wire,server,main,samples⟩ := s
  cases main with
  | greetingTry i =>
    rcases step_consumer hc with rfl | ⟨slot,msg,rfl⟩ | rfl
    · exact .goesOn rfl
    · exact .greet
    · exact .greetingEmpty
  | exchange pc todo rest =>
    cases pc with
    | spinning payload =>
      rcases step_consumer hc with rfl | ⟨slot,msg,rfl⟩ | rfl
      · exact .goesOn rfl
      · exact .take
      · exact .spinningEmpty
    | _ => cases hpc
  | burst n pc rest =>
    cases pc with
    | popping r =>
      rcases step_consumer hc with rfl | ⟨slot,msg,rfl⟩ | rfl
      · exact .goesOn rfl
      · exact .drain
      · exact .drainEmpty
    | _ => cases hpc
  | _ => cases hpc

theorem step_transition (hs : (suite moved tasks).step s a = some (s',es)) :
    Transition moved tasks s a es s' := by
  cases a with
  | main => exact main_transition hs
  | consumer obs =>
    simp only [suite,step] at hs
    split at hs
    · next hpc => exact pop_transition hpc hs
    · cases hs
  | receiver =>
    simp only [suite,step] at hs
    obtain ⟨c,ces,hc,rfl,rfl⟩ := State.onClient_some hs
    obtain rfl := step_silent hc rfl
    exact .receiver hc
  | producer obs =>
    simp only [suite,step] at hs
    obtain ⟨c,ces,hc,rfl,rfl⟩ := State.onClient_some hs
    exact .producer hc
  | read =>
    simp only [suite,step] at hs
    split at hs
    · cases hs
    · next msg rest hwire =>
      obtain ⟨⟨s₁,es₁⟩,hs₁,he⟩ := Option.map_eq_some_iff.mp hs
      obtain ⟨c,ces,hc,rfl,rfl⟩ := State.onClient_some hs₁
      cases he
      exact .read hwire hc
  | readClosed =>
    simp only [suite,step] at hs
    split at hs
    · next hclosed =>
      obtain ⟨c,ces,hc,rfl,rfl⟩ := State.onClient_some hs
      obtain rfl := step_silent hc rfl
      exact .readClosed hclosed hc
    · cases hs
  | server =>
    obtain ⟨⟨⟨wire,server⟩,fs⟩,hb,he⟩ := Option.map_eq_some_iff.mp hs
    cases he
    exact .server hb

/-- The bursts of the loops fit into the queue. -/
def Fits (rest : List Task) : Prop := ∀ n : ℤ, .burst n ∈ rest → n ≤ kQueueCapacity.val-1

/-- The conversation of a loop that has `samples` already, and of the loops after it. -/
def rounds (samples : ℕ) (todo : List (List UInt8)) (rest : List Task) : List Talk :=
  todo.flatMap echoed++.measured (samples+todo.length) :: script rest

namespace SuitePc

/-- What has been sent and not yet received. -/
def outstanding : SuitePc → List Message
  | .exchange (.spin payload) _ _ | .exchange (.spinning payload) _ _ => [⟨payload,true⟩]
  | .burst _ (.send i) _ | .burst _ (.write i) _ => (List.range i).map burstMessage
  | .burst n (.drain r) _ | .burst n (.popping r) _ => (Bench.burst n).drop r
  | _ => []

/-- The part of the script that is still to come. -/
def toCome (tasks : List Task) (samples : ℕ) : SuitePc → List Talk
  | .greeting _ | .greetingTry _ => script tasks
  | .tasks rest | .burst _ .done rest => script rest
  | .exchange .next todo rest => rounds samples todo rest
  | .exchange (.write payload) todo rest => echoed payload++rounds (samples+1) todo rest
  | .exchange (.spin payload) todo rest | .exchange (.spinning payload) todo rest =>
    .receive ⟨payload,true⟩ :: rounds (samples+1) todo rest
  | .exchange (.record _ _) todo rest => rounds (samples+1) todo rest
  | .burst n (.send i) rest | .burst n (.write i) rest =>
    ((Bench.burst n).drop i).map .send++(Bench.burst n).map .receive++script rest
  | .burst n (.drain r) rest | .burst n (.popping r) rest =>
    ((Bench.burst n).drop r).map .receive++script rest
  | .closeStore | .closeStream | .closeJoin | .returned => []

/-- What the main thread relies on where it stands. -/
def Knows (tasks : List Task) (text : Bool) : SuitePc → Prop
  | .greeting _ | .greetingTry _ => Fits tasks
  | .tasks rest => Fits rest
  | .exchange (.write _) _ rest => text = true ∧ Fits rest
  | .exchange _ _ rest => Fits rest
  | .burst n pc rest => pc.Knows n text ∧ n ≤ kQueueCapacity.val-1 ∧ Fits rest
  | _ => True

/-- The call of the client that the main thread is in. -/
def call : SuitePc → ConsumerPc
  | .greetingTry _ | .burst _ (.popping _) _ => .tryReceive
  | .exchange (.spinning _) _ _ => .spinReceive
  | _ => .idle

/-- `close` has stored `false` into `running_`. -/
def closing : SuitePc → Bool
  | .closeStream | .closeJoin | .returned => true
  | _ => false

/-- `ws_.close` has been called. -/
def closed : SuitePc → Bool
  | .closeJoin | .returned => true
  | _ => false

end SuitePc

/-- What the client does during the suite. -/
def clientTrace (tr : List Event) : List Client.Event :=
  tr.filterMap fun
    | .client event => some event
    | _ => none

/-- The messages sent, in order. -/
def sends (tr : List Event) : List Message :=
  tr.filterMap fun
    | .sent msg => some msg
    | _ => none

/-- The messages on the wire or with the server, oldest first. -/
def State.abroad (s : State) : List Message :=
  s.wire.toClient++s.server.toList++s.wire.toServer

/-- The books of the suite: what was sent is what the client has read and what is abroad, all of it
but what is outstanding was received, and what is still to come completes the script. -/
structure Books (moved : Message → Message) (tasks : List Task) (tr : List Event) (s : State) :
    Prop where
  run : (Client.client moved).Run Client.init (clientTrace tr) s.client
  undropped : ∀ msg, Client.Event.queue (.pushFull msg) ∉ clientTrace tr
  sent : sends tr = readMessages (clientTrace tr)++s.abroad
  received : sends tr = delivered (clientTrace tr)++s.main.outstanding
  script : talk tr++s.main.toCome tasks s.samples = script tasks
  knows : s.main.Knows tasks s.text
  call : s.client.consumer = s.main.call
  live : s.main.closing = false → s.client.running = true ∧ s.client.receiver.left = false
  closed : s.closed = s.main.closed

@[simp] theorem clientTrace_append (es fs : List Event) :
    clientTrace (es++fs) = clientTrace es++clientTrace fs :=
  List.filterMap_append

@[simp] theorem clientTrace_map (ces : List Client.Event) :
    clientTrace (ces.map .client) = ces := by
  rw [clientTrace,List.filterMap_map]
  exact List.filterMap_some

@[simp] theorem sends_append (es fs : List Event) : sends (es++fs) = sends es++sends fs :=
  List.filterMap_append

@[simp] theorem sends_map (ces : List Client.Event) : sends (ces.map .client) = [] := by
  rw [sends,List.filterMap_map]
  exact List.filterMap_eq_nil_iff.mpr fun _ _ => rfl

@[simp] theorem talk_append (es fs : List Event) : talk (es++fs) = talk es++talk fs :=
  List.filterMap_append

/-- Of what the client does the conversation has what it delivers. -/
theorem talk_map (ces : List Client.Event) :
    talk (ces.map .client) = (delivered ces).map .receive := by
  induction ces with
  | nil => rfl
  | cons e ces ih =>
    rw [List.map_cons,talk,delivered,List.filterMap_cons,List.filterMap_cons]
    cases e with
    | read msg => exact ih
    | queue e =>
      cases e with
      | popped slot msg => exact congrArg (Talk.receive msg :: ·) ih
      | _ => exact ih

theorem rounds_cons (k : ℕ) (payload : List UInt8) (todo : List (List UInt8)) (rest : List Task) :
    rounds k (payload :: todo) rest = echoed payload++rounds (k+1) todo rest := by
  have hlen : k+(todo.length+1) = k+1+todo.length := by omega
  simp only [rounds,List.flatMap_cons,List.length_cons,List.append_assoc,hlen]

theorem SuitePc.closing_of_closed {pc : SuitePc} (h : pc.closed = true) : pc.closing = true := by
  cases pc <;> first | rfl | cases h

theorem SuitePc.not_closed {pc : SuitePc} (h : pc.closing = false) : pc.closed = false := by
  cases pc <;> first | rfl | cases h

theorem burst_drop {n : ℤ} {i : ℕ} (h : i < n) :
    (Bench.burst n).drop i = burstMessage i :: (Bench.burst n).drop (i+1) := by
  have hlen : i < (Bench.burst n).length := by
    rw [Bench.burst,List.length_map,List.length_range]
    omega
  rw [List.drop_eq_getElem_cons hlen]
  simp only [Bench.burst,List.getElem_map,List.getElem_range]

theorem burst_drop_all {n : ℤ} {r : ℕ} (h : ¬r < n) : (Bench.burst n).drop r = [] := by
  refine List.drop_eq_nil_of_le ?_
  rw [Bench.burst,List.length_map,List.length_range]
  omega

theorem Fits.tail {task : Task} {rest : List Task} (h : Fits (task :: rest)) : Fits rest :=
  fun n hn => h n (List.mem_cons_of_mem _ hn)

namespace Goes

variable {pc pc' : SuitePc} {t t' : Bool} {k k' : ℕ}

theorem outstanding (h : Goes tasks pc t k es pc' t' k') (hk : pc.Knows tasks t) :
    pc'.outstanding = pc.outstanding := by
  cases h with
  | @burstSent n i rest t k hi =>
    -- the loop ends with all of the burst sent
    have hle : i ≤ n.toNat := hk.1
    have hlen : i = n.toNat := by omega
    rw [SuitePc.outstanding,SuitePc.outstanding,hlen]
    rfl
  | drained hr => exact (burst_drop_all hr).symm
  | _ => rfl

theorem toCome (h : Goes tasks pc t k es pc' t' k') (hk : pc.Knows tasks t) :
    pc.toCome tasks k = talk es++pc'.toCome tasks k' := by
  cases h with
  | exchanges =>
    simp only [SuitePc.toCome,script,rounds,Nat.zero_add]
    rfl
  | bursts =>
    simp only [SuitePc.toCome,script,List.drop_zero]
    rfl
  | setText =>
    simp only [SuitePc.toCome,rounds_cons]
    rfl
  | @burstSent n i rest t k hi =>
    simp only [SuitePc.toCome,burst_drop_all hi,List.drop_zero]
    rfl
  | drained hr =>
    simp only [SuitePc.toCome,burst_drop_all hr]
    rfl
  | _ => rfl

theorem knows (h : Goes tasks pc t k es pc' t' k') (hk : pc.Knows tasks t) :
    pc'.Knows tasks t' := by
  cases h with
  | finished => trivial
  | exchanges => exact hk.tail
  | bursts => exact ⟨Nat.zero_le _,hk _ List.mem_cons_self,hk.tail⟩
  | setText => exact ⟨rfl,hk⟩
  | burstText hi => exact ⟨⟨hi,rfl⟩,hk.2⟩
  | burstSent hi => exact ⟨Nat.zero_le _,hk.2⟩
  | drained hr => exact ⟨trivial,hk.2⟩
  | burstDone => exact hk.2.2
  | _ => exact hk

theorem quiet (h : Goes tasks pc t k es pc' t' k') :
    clientTrace es = [] ∧ sends es = [] ∧ pc'.call = pc.call ∧ pc.closing = false ∧
      pc'.closing = false := by
  cases h <;> exact ⟨rfl,rfl,rfl,rfl,rfl⟩

end Goes

namespace Writes

variable {pc pc' : SuitePc} {payload : List UInt8} {text : Bool} {k : ℕ}

/-- What is written is the next message of the script. -/
theorem keeps (h : Writes pc payload pc') (hk : pc.Knows tasks text) :
    text = true ∧ pc'.outstanding = pc.outstanding++[⟨payload,true⟩] ∧
      pc.toCome tasks k = .send ⟨payload,true⟩ :: pc'.toCome tasks k ∧ pc'.Knows tasks text ∧
      pc'.call = pc.call ∧ pc.closing = false ∧ pc'.closing = false := by
  cases h with
  | exchange => exact ⟨hk.1,rfl,rfl,hk.2,rfl,rfl,rfl⟩
  | @burst n i rest =>
    obtain ⟨⟨hi,htext⟩,hfit⟩ := hk
    refine ⟨htext,?_,?_,⟨?_,hfit⟩,rfl,rfl,rfl⟩
    · simp only [SuitePc.outstanding,List.range_succ,List.map_append]
      rfl
    · simp only [SuitePc.toCome,burst_drop hi]
      rfl
    · show i+1 ≤ n.toNat
      omega

end Writes

namespace Calls

variable {pc pc' : SuitePc} {text : Bool} {k : ℕ}

theorem keeps (h : Calls pc b pc') (hk : pc.Knows tasks text) :
    b.silent = true ∧ pc'.outstanding = pc.outstanding ∧
      pc.toCome tasks k = pc'.toCome tasks k ∧ pc'.Knows tasks text ∧ pc.closing = false := by
  cases h with
  | drain hr => exact ⟨rfl,rfl,rfl,⟨hr,hk.2⟩,rfl⟩
  | close => exact ⟨rfl,rfl,rfl,trivial,rfl⟩
  | _ => exact ⟨rfl,rfl,rfl,hk,rfl⟩

/-- Only the call of `close` clears `running_`. -/
theorem opened (h : Calls pc b pc') (hb : pc'.closing = false) :
    b ≠ .readError ∧ b ≠ .close := by
  cases h with
  | close => cases hb
  | _ => exact ⟨by simp,by simp⟩

theorem not_closed (h : Calls pc b pc') : pc'.closed = false := by
  cases h <;> rfl

/-- The client is in the call. -/
theorem call (h : Calls pc b pc') (hcall : c.consumer = pc.call)
    {c' : Client.State} (hc : (Client.client moved).step c b = some (c',ces)) :
    c'.consumer = pc'.call := by
  cases h with
  | greeting _ | drain _ =>
    cases Client.step_transition hc with
    | call hcall _ => exact hcall.of_tryReceive
  | spin =>
    cases Client.step_transition hc with
    | call hcall _ => exact hcall.of_spin (.inl rfl)
  | spinning =>
    cases Client.step_transition hc with
    | call hcall _ => exact hcall.of_spin (.inr rfl)
  | close =>
    cases Client.step_transition hc with
    | close => exact hcall
    | call hcall _ => exact absurd rfl hcall.ne_close

end Calls

namespace Pops

variable {pc pc' : SuitePc} {text : Bool} {k : ℕ}

/-- Given that a message received is the first of the outstanding ones, it is the next of the
script. -/
theorem keeps (h : Pops tasks pc ces pc') (hk : pc.Knows tasks text)
    (hfirst : delivered ces <+: pc.outstanding) :
    pc.outstanding = delivered ces++pc'.outstanding ∧
      pc.toCome tasks k = (delivered ces).map .receive++pc'.toCome tasks k ∧
      pc'.Knows tasks text ∧ pc.closing = false ∧ pc'.closing = false := by
  cases h with
  | goesOn hpc =>
    refine ⟨rfl,rfl,hk,?_,?_⟩ <;> cases pc <;> first | rfl | cases hpc
  | greetingEmpty => exact ⟨rfl,rfl,hk,rfl,rfl⟩
  | spinningEmpty => exact ⟨rfl,rfl,hk,rfl,rfl⟩
  | @drainEmpty n r rest =>
    obtain ⟨hr,hfit⟩ := hk
    refine ⟨rfl,rfl,⟨?_,hfit⟩,rfl,rfl⟩
    change (r : ℤ) < n at hr
    show r ≤ n.toNat
    omega
  | greet =>
    -- nothing is outstanding
    have hnil := List.prefix_nil.mp hfirst
    cases hnil
  | @take payload todo rest slot msg =>
    obtain ⟨l,hl⟩ := hfirst
    obtain ⟨rfl,rfl⟩ := List.cons.inj hl
    exact ⟨rfl,rfl,hk,rfl,rfl⟩
  | @drain n r rest slot msg =>
    obtain ⟨hr,hfit⟩ := hk
    change (r : ℤ) < n at hr
    obtain ⟨l,hl⟩ := hfirst
    simp only [SuitePc.outstanding,burst_drop hr] at hl
    obtain ⟨rfl,rfl⟩ := List.cons.inj hl
    refine ⟨burst_drop hr,?_,⟨?_,hfit⟩,rfl,rfl⟩
    · simp only [SuitePc.toCome,burst_drop hr]
      rfl
    · show r+1 ≤ n.toNat
      omega

theorem call (h : Pops tasks pc ces pc') :
    pc'.call = pc.call.after (ces.filterMap Client.Event.queue?) := by
  cases h with
  | goesOn _ => cases pc.call <;> rfl
  | _ => rfl

end Pops

theorem receiver_consumer {c' : Client.State}
    (hc : (Client.client moved).step c b = some (c',ces)) (hb : b = .receiver ∨ b = .readError) :
    c'.consumer = c.consumer := by
  cases Client.step_transition hc with
  | call hcall _ =>
    rcases hb with rfl | rfl
    · exact absurd rfl hcall.ne_receiver
    · exact absurd rfl hcall.ne_readError
  | consumer _ => rcases hb with hb | hb <;> cases hb
  | _ => rfl

theorem State.inFlight_eq (s : State) :
    s.inFlight = s.client.queued++s.client.held++s.abroad := by
  simp only [State.inFlight,State.abroad,List.append_assoc]

theorem SuitePc.outstanding_le {pc : SuitePc} {text : Bool} (hk : pc.Knows tasks text) :
    (pc.outstanding.length : ℤ) ≤ kQueueCapacity.val-1 := by
  have hcap : (kQueueCapacity.val : ℤ) = 1024 := rfl
  cases pc with
  | exchange pc todo rest => cases pc <;> simp [SuitePc.outstanding,hcap]
  | burst n pc rest =>
    obtain ⟨hk,hfit,_⟩ := hk
    cases pc with
    | send i =>
      have hi : i ≤ n.toNat := hk
      simp only [SuitePc.outstanding,List.length_map,List.length_range]
      omega
    | write i =>
      have hi : (i : ℤ) < n := hk.1
      simp only [SuitePc.outstanding,List.length_map,List.length_range]
      omega
    | drain r =>
      simp only [SuitePc.outstanding,Bench.burst,List.length_drop,List.length_map,
        List.length_range]
      omega
    | popping r =>
      simp only [SuitePc.outstanding,Bench.burst,List.length_drop,List.length_map,
        List.length_range]
      omega
    | done => simp [SuitePc.outstanding,hcap]
  | _ => simp [SuitePc.outstanding,hcap]

namespace Books

/-- What is under way is what the loops have still to receive. -/
theorem inFlight_eq (h : Books moved tasks tr s) : s.inFlight = s.main.outstanding := by
  have hsent := h.sent
  rw [run_undropped h.run h.undropped,h.received,List.append_assoc,List.append_assoc] at hsent
  rw [List.append_cancel_left hsent,State.inFlight_eq,List.append_assoc]

/-- Before `close` nothing has closed the stream. -/
theorem still (h : Books moved tasks tr s) {pc : SuitePc} (hclosing : s.main.closing = false)
    (hclosing' : pc.closing = false) : s.closed = pc.closed := by
  rw [h.closed,SuitePc.not_closed hclosing,SuitePc.not_closed hclosing']

/-- The queue has room for all of it. -/
theorem not_full (h : Books moved tasks tr s)
    (hc : (Client.client moved).step s.client b = some (c,ces)) (msg : Message) :
    .queue (.pushFull msg) ∉ ces := by
  intro hm
  have hfull := run_refused h.run hc hm
  have hone := step_refused (run_account h.run) hc hm
  have hheld := congrArg List.length (held_step h.run hc)
  rw [hone] at hheld
  change (s.client.held++[]).length = ([msg]++c.held).length at hheld
  rw [List.append_nil,List.length_append,List.length_singleton] at hheld
  have hflight := congrArg List.length h.inFlight_eq
  rw [State.inFlight_eq,List.length_append,List.length_append] at hflight
  have hle := SuitePc.outstanding_le h.knows
  omega

/-- A step of the client that fits the step of the main thread keeps the books. -/
theorem client (h : Books moved tasks tr s)
    (hc : (Client.client moved).step s.client b = some (s'.client,ces))
    (habroad : s.abroad = readMessages ces++s'.abroad)
    (hout : s.main.outstanding = delivered ces++s'.main.outstanding)
    (hcome : s.main.toCome tasks s.samples =
      (delivered ces).map .receive++s'.main.toCome tasks s'.samples)
    (hknows : s'.main.Knows tasks s'.text) (hcall : s'.client.consumer = s'.main.call)
    (hlive : s'.main.closing = false → s.main.closing = false ∧ b ≠ .readError ∧ b ≠ .close)
    (hclosed : s'.closed = s'.main.closed) : Books moved tasks (tr++ces.map .client) s' := by
  refine ⟨?_,?_,?_,?_,?_,hknows,hcall,?_,hclosed⟩
  · rw [clientTrace_append,clientTrace_map]
    exact h.run.step trivial hc
  · intro msg
    rw [clientTrace_append,clientTrace_map,List.mem_append,not_or]
    exact ⟨h.undropped msg,h.not_full hc msg⟩
  · rw [sends_append,sends_map,List.append_nil,h.sent,clientTrace_append,clientTrace_map,
      readMessages_append,List.append_assoc,habroad]
  · rw [sends_append,sends_map,List.append_nil,h.received,clientTrace_append,clientTrace_map,
      delivered_append,List.append_assoc,hout]
  · rw [talk_append,talk_map,List.append_assoc,← hcome]
    exact h.script
  · intro hclosing
    obtain ⟨hclosing,herror,hclose⟩ := hlive hclosing
    obtain ⟨hrunning,hreceiving⟩ := h.live hclosing
    exact receiving_step hc hrunning hreceiving herror hclose

/-- A step that leaves the client alone. -/
theorem outside (h : Books moved tasks tr s) (hclient : s'.client = s.client)
    (hes : clientTrace es = [] ∧ sends es = []) (habroad : s'.abroad = s.abroad)
    (hout : s'.main.outstanding = s.main.outstanding)
    (hcome : s.main.toCome tasks s.samples = talk es++s'.main.toCome tasks s'.samples)
    (hknows : s'.main.Knows tasks s'.text) (hcall : s'.main.call = s.main.call)
    (hlive : s'.main.closing = false → s.main.closing = false)
    (hclosed : s'.closed = s'.main.closed) : Books moved tasks (tr++es) s' := by
  have htrace : clientTrace (tr++es) = clientTrace tr := by
    rw [clientTrace_append,hes.1,List.append_nil]
  have hsends : sends (tr++es) = sends tr := by rw [sends_append,hes.2,List.append_nil]
  refine ⟨?_,?_,?_,?_,?_,hknows,?_,?_,hclosed⟩
  · rw [htrace,hclient]
    exact h.run
  · rw [htrace]
    exact h.undropped
  · rw [htrace,hsends,habroad]
    exact h.sent
  · rw [htrace,hsends,hout]
    exact h.received
  · rw [talk_append,List.append_assoc,← hcome]
    exact h.script
  · rw [hclient,hcall]
    exact h.call
  · rw [hclient]
    exact fun hclosing => h.live (hlive hclosing)

/-- The main thread writes the next message of the script. -/
theorem write (h : Books moved tasks tr s) {payload : List UInt8} {pc : SuitePc}
    (hw : Writes s.main payload pc) : Books moved tasks (tr++[.sent ⟨payload,s.text⟩]) { s with
      wire.toServer := s.wire.toServer++[⟨payload,s.text⟩]
      main := pc } := by
  obtain ⟨htext,hout,hcome,hknows,hcall,hclosing,hclosing'⟩ := hw.keeps (k := s.samples) h.knows
  rw [htext]
  have htrace : clientTrace (tr++[.sent ⟨payload,true⟩]) = clientTrace tr :=
    (clientTrace_append ..).trans (List.append_nil _)
  have hsends : sends (tr++[.sent ⟨payload,true⟩]) = sends tr++[⟨payload,true⟩] :=
    sends_append ..
  refine ⟨?_,?_,?_,?_,?_,?_,?_,?_,?_⟩
  · rw [htrace]
    exact h.run
  · rw [htrace]
    exact h.undropped
  · rw [htrace,hsends,h.sent]
    simp only [State.abroad,List.append_assoc]
  · rw [htrace,hsends,h.received,hout,List.append_assoc]
  · have hscript := h.script
    rw [hcome] at hscript
    rw [talk_append,List.append_assoc]
    exact hscript
  · exact htext ▸ hknows
  · exact h.call.trans hcall.symm
  · exact fun _ => h.live hclosing
  · exact h.still hclosing hclosing'

/-- The `try_pop` that the main thread is in. -/
theorem pop (h : Books moved tasks tr s) {obs : ℕ} {pc : SuitePc} (hp : Pops tasks s.main ces pc)
    (hc : (Client.client moved).step s.client (.consumer obs) = some (c,ces)) :
    Books moved tasks (tr++ces.map .client) { s with client := c, main := pc } := by
  -- what comes out of the pipe is the first of what is outstanding
  have hread : readMessages ces = [] := by
    rcases step_consumer hc with rfl | ⟨slot,msg,rfl⟩ | rfl <;> rfl
  have hpipe := pipe_step h.run hc (h.not_full hc)
  rw [hread,List.append_nil] at hpipe
  have hfirst : delivered ces <+: s.main.outstanding := by
    rw [← h.inFlight_eq,State.inFlight_eq,hpipe,List.append_assoc]
    exact List.prefix_append _ _
  obtain ⟨hout,hcome,hknows,hclosing,hclosing'⟩ := hp.keeps (k := s.samples) h.knows hfirst
  refine h.client hc (by rw [hread]; rfl) hout hcome hknows ?_ ?_ ?_
  · cases Client.step_transition hc with
    | call hcall _ => cases hcall.silent
    | consumer _ =>
      rw [hp.call,filterMap_queue,← h.call]
  · exact fun _ => ⟨hclosing,by simp,by simp⟩
  · exact h.still hclosing hclosing'

/-- A step of the receiver thread. -/
theorem receiver (h : Books moved tasks tr s)
    (hc : (Client.client moved).step s.client b = some (s'.client,ces))
    (habroad : s.abroad = readMessages ces++s'.abroad) (hdeliver : delivered ces = [])
    (hmain : s'.main = s.main) (htext : s'.text = s.text) (hsamples : s'.samples = s.samples)
    (hclosed : s'.closed = s.closed) (hcall : s'.client.consumer = s.client.consumer)
    (hb : b ≠ .close) (herror : b = .readError → s.main.closing = true) :
    Books moved tasks (tr++ces.map .client) s' := by
  refine h.client hc habroad ?_ ?_ ?_ ?_ ?_ ?_
  · rw [hdeliver,hmain]
    rfl
  · rw [hdeliver,hmain,hsamples]
    rfl
  · rw [hmain,htext]
    exact h.knows
  · rw [hmain,hcall]
    exact h.call
  · rw [hmain]
    intro hclosing
    refine ⟨hclosing,fun he => ?_,hb⟩
    rw [herror he] at hclosing
    cases hclosing
  · rw [hmain,hclosed]
    exact h.closed

/-- Every step keeps the books. -/
theorem step (h : Books moved tasks tr s) (hs : (suite moved tasks).step s a = some (s',es)) :
    Books moved tasks (tr++es) s' := by
  cases step_transition hs with
  | goes hg =>
    obtain ⟨htrace,hsends,hcall,hclosing,hclosing'⟩ := hg.quiet
    exact h.outside rfl ⟨htrace,hsends⟩ rfl (hg.outstanding h.knows) (hg.toCome h.knows)
      (hg.knows h.knows) hcall (fun _ => hclosing) (h.still hclosing hclosing')
  | write hw => exact h.write hw
  | call hp hc =>
    obtain ⟨hsilent,hout,hcome,hknows,hclosing⟩ := hp.keeps (k := s.samples) h.knows
    change Books moved tasks (tr++([] : List Client.Event).map .client) _
    refine h.client hc rfl hout.symm hcome hknows (hp.call h.call hc)
      (fun hc' => ⟨hclosing,hp.opened hc'⟩) ?_
    exact (h.closed.trans (SuitePc.not_closed hclosing)).trans hp.not_closed.symm
  | closeStream hpc =>
    refine h.outside rfl ⟨rfl,rfl⟩ rfl ?_ ?_ trivial ?_ (fun hc => by cases hc) rfl
    all_goals rw [hpc]
    all_goals rfl
  | closeJoin hpc _ =>
    have hclosed := h.closed
    rw [hpc] at hclosed
    refine h.outside rfl ⟨rfl,rfl⟩ rfl ?_ ?_ trivial ?_ (fun hc => by cases hc) hclosed
    all_goals rw [hpc]
    all_goals rfl
  | pop hp hc => exact h.pop hp hc
  | receiver hc =>
    change Books moved tasks (tr++([] : List Client.Event).map .client) _
    exact h.receiver hc rfl rfl rfl rfl rfl rfl (receiver_consumer hc (.inl rfl)) (by simp) (by simp)
  | producer hc =>
    obtain ⟨hread,hdeliver⟩ := step_producer (run_account h.run) hc
    exact h.receiver hc (by rw [hread]; rfl) hdeliver rfl rfl rfl rfl (producer_toRead hc).2.1
      (by simp) (by simp)
  | read hwire hc =>
    obtain rfl := step_read hc
    refine h.receiver hc ?_ rfl rfl rfl rfl rfl ?_ (by simp) (by simp)
    · simp only [State.abroad,hwire]
      rfl
    · cases Client.step_transition hc with
      | read _ => rfl
  | readClosed hclosed hc =>
    change Books moved tasks (tr++([] : List Client.Event).map .client) _
    exact h.receiver hc rfl rfl rfl rfl rfl rfl (receiver_consumer hc (.inr rfl)) (by simp)
      fun _ => SuitePc.closing_of_closed (h.closed.symm.trans hclosed)
  | server hb =>
    exact h.outside rfl ⟨rfl,rfl⟩ (echo_order hb) rfl rfl h.knows rfl id h.closed

end Books

end WsClient.Bench.Suite
