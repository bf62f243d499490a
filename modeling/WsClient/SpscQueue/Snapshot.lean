import WsClient.SpscQueue.Linearizability

/-!
# `empty` and `size_approx`

Any thread may ask a queue that others are using. A query loads one index and then the other,
and what it answers is compared with what the queue held between the beginning and the end of the
call.
-/

namespace WsClient.SpscQueue
open WsClient.Lib

/-- The two queries; `empty` loads `head_` first, `sizeApprox` loads `tail_` first. -/
inductive Query
  | empty
  | sizeApprox
  deriving DecidableEq, Repr

/-- Where a thread stands inside a query. -/
inductive QueryPc
  | idle
  | loadFirst (query : Query)
  | loadSecond (query : Query) (first : ℕ)
  deriving DecidableEq, Repr

/-- A ghost: the numbers of elements the queue has held since a call began, and the pushes and
pops that have completed since. -/
structure Span where
  sizes : List ℕ
  pushes : ℕ
  pops : ℕ
  deriving DecidableEq, Repr

/-- The queue and the threads that query it, numbered. -/
structure Watched (α : Type*) where
  queue : State α
  query : ℕ → QueryPc
  span : ℕ → Span

inductive QueryAction (α : Type*)
  | queue (a : Action α)
  | call (i : ℕ) (query : Query)
  | load (i : ℕ)
  deriving DecidableEq, Repr

/-- The result of a query by thread `i`, or an event of the queue. -/
inductive QueryEvent (α : Type*)
  | queue (e : Event α)
  | empty (i : ℕ) (result : Bool)
  | sizeApprox (i : ℕ) (result : ℕ)
  deriving DecidableEq, Repr

variable {α : Type*} (cap : Capacity) (moved : α → α)

/-- The number of elements in the queue. -/
def State.size (s : State α) : ℕ := (s.contents cap).length

def Span.extend (span : Span) (size : ℕ) (es : List (Event α)) : Span :=
  ⟨span.sizes++[size],span.pushes+(accepted es).length,span.pops+(delivered es).length⟩

/-- The next load of thread `i`. -/
def queryStep (s : Watched α) (i : ℕ) : Option (Watched α × List (QueryEvent α)) :=
  match s.query i with
  | .idle => none
  | .loadFirst .empty => some ({ s with
      query := Function.update s.query i (.loadSecond .empty s.queue.head.cur) },[])
  | .loadFirst .sizeApprox => some ({ s with
      query := Function.update s.query i (.loadSecond .sizeApprox s.queue.tail.cur) },[])
  | .loadSecond .empty head =>
    some ({ s with query := Function.update s.query i .idle },[.empty i (head == s.queue.tail.cur)])
  | .loadSecond .sizeApprox tail =>
    some ({ s with query := Function.update s.query i .idle },
      [.sizeApprox i (cap.distance s.queue.head.cur tail)])

def watchedStep (s : Watched α) : QueryAction α → Option (Watched α × List (QueryEvent α))
  | .queue a => (step cap .current moved s.queue a).map fun (queue,es) =>
    ({ s with queue := queue, span := fun i => (s.span i).extend (queue.size cap) es },
      es.map .queue)
  | .call i query =>
    if s.query i = .idle then
      some ({ s with
        query := Function.update s.query i (.loadFirst query)
        span := Function.update s.span i ⟨[s.queue.size cap],0,0⟩ },[])
    else none
  | .load i => queryStep cap s i

/-- The queue with its producer, its consumer and any number of threads that query it. -/
def watched : System (Watched α) (QueryAction α) (QueryEvent α) := ⟨watchedStep cap moved⟩

def Watched.init (zero : α) : Watched α := ⟨SpscQueue.init zero,fun _ => .idle,fun _ => ⟨[],0,0⟩⟩

/-- The instant at which `h` pops and `t` pushes had been done is one of the span. -/
structure Within (s : State α) (span : Span) (h t : ℕ) : Prop where
  le : h ≤ t
  held : t-h ∈ span.sizes
  head_le : h ≤ s.head.newest
  tail_le : t ≤ s.tail.newest
  pops : s.head.newest ≤ h+span.pops
  pushes : s.tail.newest ≤ t+span.pushes

/-- What a thread inside a query knows: the present is in its span, and so is the instant of its
first load. -/
def QueryPc.Knows (cap : Capacity) (s : State α) (span : Span) : QueryPc → Prop
  | .idle => True
  | .loadFirst _ => Within s span s.head.newest s.tail.newest
  | .loadSecond .empty head => Within s span s.head.newest s.tail.newest ∧
      ∃ h t, Within s span h t ∧ t < h+cap.val ∧ head = h % cap.val
  | .loadSecond .sizeApprox tail => Within s span s.head.newest s.tail.newest ∧
      ∃ h t, Within s span h t ∧ t < h+cap.val ∧ tail = t % cap.val

variable {cap moved} {s s' : State α} {a : Action α} {es : List (Event α)} {l : List (ℕ × α)}
  {span : Span} {h t i : ℕ} {pc : QueryPc}

theorem Rel.size_eq (hr : Rel cap s l) : s.size cap = s.tail.newest-s.head.newest := by
  rw [State.size,hr.contents_eq,List.length_map,hr.length_eq]

/-- The modification orders count the operations that have completed. -/
theorem step_newest (hs : (queue cap .current moved).step s a = some (s',es)) :
    s'.head.newest = s.head.newest+(delivered es).length ∧
      s'.tail.newest = s.tail.newest+(accepted es).length := by
  cases a with
  | tryPush item =>
    simp only [queue,step] at hs
    split at hs <;> cases hs
    exact ⟨rfl,rfl⟩
  | tryPop =>
    simp only [queue,step] at hs
    split at hs <;> cases hs
    exact ⟨rfl,rfl⟩
  | producer obs =>
    cases hpc : s.push with
    | idle => simp [queue,step,pushStep,hpc] at hs
    | loadHead item tail =>
      simp only [queue,step,pushStep,hpc] at hs
      split at hs
      · obtain ⟨head,_,hs⟩ := Option.map_eq_some_iff.mp hs
        split at hs <;> cases hs <;> exact ⟨rfl,rfl⟩
      · cases hs
    | storeTail item tail next_tail =>
      simp only [queue,step,pushStep,hpc,Option.some.injEq,Prod.mk.injEq] at hs
      obtain ⟨rfl,rfl⟩ := hs
      -- the push completes with this store
      exact ⟨rfl,Atomic.newest_store ..⟩
    | _ =>
      simp only [queue,step,pushStep,hpc,Option.some.injEq,Prod.mk.injEq] at hs
      obtain ⟨rfl,rfl⟩ := hs
      exact ⟨rfl,rfl⟩
  | consumer obs =>
    cases hpc : s.pop with
    | idle => simp [queue,step,popStep,hpc] at hs
    | loadTail head =>
      simp only [queue,step,popStep,hpc] at hs
      split at hs
      · obtain ⟨tail,_,hs⟩ := Option.map_eq_some_iff.mp hs
        split at hs <;> cases hs <;> exact ⟨rfl,rfl⟩
      · cases hs
    | storeHead head item =>
      simp only [queue,step,popStep,hpc,Option.some.injEq,Prod.mk.injEq] at hs
      obtain ⟨rfl,rfl⟩ := hs
      -- the pop completes with this store
      exact ⟨Atomic.newest_store ..,rfl⟩
    | _ =>
      simp only [queue,step,popStep,hpc,Option.some.injEq,Prod.mk.injEq] at hs
      obtain ⟨rfl,rfl⟩ := hs
      exact ⟨rfl,rfl⟩

/-- A later instant of the same call. -/
theorem Within.extend (hw : Within s span h t) {size : ℕ}
    (hhead : s'.head.newest = s.head.newest+(delivered es).length)
    (htail : s'.tail.newest = s.tail.newest+(accepted es).length) :
    Within s' (span.extend size es) h t := by
  have hpops := hw.pops
  have hpushes := hw.pushes
  have hh := hw.head_le
  have ht := hw.tail_le
  refine ⟨hw.le,List.mem_append_left _ hw.held,by omega,by omega,?_,?_⟩
  · simp only [Span.extend]
    omega
  · simp only [Span.extend]
    omega

theorem Rel.within_now (hr : Rel cap s l) {sizes : List ℕ} {pushes pops : ℕ}
    (hmem : s.size cap ∈ sizes) : Within s ⟨sizes,pushes,pops⟩ s.head.newest s.tail.newest := by
  rw [hr.size_eq] at hmem
  exact ⟨hr.head_le_tail,hmem,Nat.le_refl _,Nat.le_refl _,Nat.le_add_right _ _,Nat.le_add_right _ _⟩

/-- A step of the queue becomes one more instant of every call. -/
theorem QueryPc.Knows.extend (hk : pc.Knows cap s span) (hr' : Rel cap s' l)
    (hhead : s'.head.newest = s.head.newest+(delivered es).length)
    (htail : s'.tail.newest = s.tail.newest+(accepted es).length) :
    pc.Knows cap s' (span.extend (s'.size cap) es) := by
  have hnow : Within s' (span.extend (s'.size cap) es) s'.head.newest s'.tail.newest :=
    hr'.within_now (List.mem_append_right _ List.mem_cons_self)
  cases pc with
  | idle => trivial
  | loadFirst query => exact hnow
  | loadSecond query first =>
    cases query <;>
      (obtain ⟨_,h,t,hw,hlt,rfl⟩ := hk
       exact ⟨hnow,h,t,hw.extend hhead htail,hlt,rfl⟩)

/-- A run of the watched queue keeps what each thread knows. -/
theorem run_knows {zero : α} {tr : List (QueryEvent α)} {s : Watched α}
    (h : (watched cap moved).Run (Watched.init zero) tr s) :
    (∃ l, Rel cap s.queue l) ∧ ∀ i, (s.query i).Knows cap s.queue (s.span i) := by
  refine h.invariant (I := fun _ s => (∃ l, Rel cap s.queue l) ∧
    ∀ i, (s.query i).Knows cap s.queue (s.span i)) ⟨⟨[],rel_init zero⟩,fun _ => trivial⟩ ?_
  rintro tr s a s' es ⟨⟨l,hr⟩,hk⟩ _ hs
  cases a with
  | queue a =>
    obtain ⟨⟨queue,fs⟩,hstep,heq⟩ := Option.map_eq_some_iff.mp hs
    cases heq
    obtain ⟨l',_,hr'⟩ := hr.step_refines hstep
    obtain ⟨hhead,htail⟩ := step_newest hstep
    exact ⟨⟨l',hr'⟩,fun i => (hk i).extend hr' hhead htail⟩
  | call j query =>
    simp only [watched,watchedStep] at hs
    split at hs <;> cases hs
    refine ⟨⟨l,hr⟩,fun i => ?_⟩
    by_cases hij : i = j
    · subst hij
      simp only [Function.update_self]
      exact hr.within_now List.mem_cons_self
    · simp only [Function.update_of_ne hij]
      exact hk i
  | load j =>
    have hkj := hk j
    simp only [watched,watchedStep,queryStep] at hs
    refine ⟨⟨l,?_⟩,fun i => ?_⟩
    · split at hs <;> cases hs <;> exact hr
    · by_cases hij : i = j
      · subst hij
        split at hs
        · cases hs
        · next hpc =>
          cases hs
          rw [hpc] at hkj
          simp only [Function.update_self]
          exact ⟨hkj,_,_,hkj,hr.tail_lt,hr.head.cur_eq⟩
        · next hpc =>
          cases hs
          rw [hpc] at hkj
          simp only [Function.update_self]
          exact ⟨hkj,_,_,hkj,hr.tail_lt,hr.tail.cur_eq⟩
        · cases hs
          simp only [Function.update_self]
          trivial
        · cases hs
          simp only [Function.update_self]
          trivial
      · split at hs <;> cases hs <;> simp only [Function.update_of_ne hij] <;> exact hk i

/-- Equal slots at the two loads of `empty`: nothing was held at the first, or the tail has gone
round since. -/
theorem Within.of_mod_eq (hw : Within s span h t) (hr : Rel cap s l) (hlt : t < h+cap.val)
    (heq : h % cap.val = s.tail.newest % cap.val) :
    0 ∈ span.sizes ∨
      ((∃ n ∈ span.sizes, cap.val ≤ n+span.pushes) ∧ 0 < span.pops ∧ 0 < span.pushes) := by
  have hle := hw.le
  have htail := hw.tail_le
  have hpushes := hw.pushes
  have hpops := hw.pops
  have hroom := hr.tail_lt
  by_cases hround : s.tail.newest < h+cap.val
  · have hsame := cap.eq_of_mod_eq (by omega) hround heq
    have hheld := hw.held
    rw [show t-h = 0 by omega] at hheld
    exact .inl hheld
  · exact .inr ⟨⟨t-h,hw.held,by omega⟩,by omega,by omega⟩

/-- The two loads of `size_approx`: what was held at the first, less the pops since. -/
theorem Within.distance_eq (hw : Within s span h t) (hr : Rel cap s l) (hlt : t < h+cap.val) :
    let v := cap.distance (s.head.newest % cap.val) (t % cap.val)
    (∃ n ∈ span.sizes, ∃ p ≤ span.pops, v < cap.val ∧ (v+p) % cap.val = n % cap.val) ∧
      (span.pushes = 0 ∨ span.pops = 0 → v = s.tail.newest-s.head.newest ∨ v = t-h) := by
  intro v
  have hle := hw.le
  have hhead := hw.head_le
  have htail := hw.tail_le
  have hpushes := hw.pushes
  have hpops := hw.pops
  have hroom := hr.tail_lt
  have hcount := hr.head_le_tail
  constructor
  · refine ⟨t-h,hw.held,s.head.newest-h,by omega,cap.distance_lt _ _,?_⟩
    have hadd := cap.distance_add s.head.newest t
    apply Nat.ModEq.add_right_cancel' h
    calc v+(s.head.newest-h)+h = v+s.head.newest := by omega
      _ ≡ t [MOD cap.val] := hadd
      _ = t-h+h := by omega
  · rintro (hz | hz)
    · have hsame : t = s.tail.newest := by omega
      subst hsame
      exact .inl (cap.distance_eq hcount hroom)
    · have hsame : h = s.head.newest := by omega
      subst hsame
      exact .inr (cap.distance_eq hle hlt)

/-- What a query answers, compared with the instants of its call. Unless both a push and a pop
complete during the call, `empty` says that the queue was empty at one of them and `size_approx`
is the number held at one of them. In general a queue that is called empty though it never was has
had its tail go round, and `size_approx` is the number held at one instant less pops that have
completed since, modulo the capacity. -/
theorem snapshot_queries (cap : Capacity) (zero : α) (moved : α → α) {tr : List (QueryEvent α)}
    {s s' : Watched α} {i : ℕ} {es : List (QueryEvent α)}
    (h : (watched cap moved).Run (Watched.init zero) tr s)
    (hs : (watched cap moved).step s (.load i) = some (s',es)) :
    ((s.span i).pushes = 0 ∨ (s.span i).pops = 0 →
      (.empty i true ∈ es → 0 ∈ (s.span i).sizes) ∧
      ∀ v, .sizeApprox i v ∈ es → v ∈ (s.span i).sizes) ∧
    (.empty i true ∈ es → 0 ∈ (s.span i).sizes ∨
      ((∃ n ∈ (s.span i).sizes, cap.val ≤ n+(s.span i).pushes) ∧ 0 < (s.span i).pops ∧
        0 < (s.span i).pushes)) ∧
    ∀ v, .sizeApprox i v ∈ es → ∃ n ∈ (s.span i).sizes, ∃ p ≤ (s.span i).pops,
      v < cap.val ∧ (v+p) % cap.val = n % cap.val := by
  obtain ⟨⟨l,hr⟩,hk⟩ := run_knows h
  have hki := hk i
  simp only [watched,watchedStep,queryStep] at hs
  split at hs
  · cases hs
  · cases hs
    simp
  · cases hs
    simp
  · next hpc =>
    cases hs
    rw [hpc] at hki
    -- `empty` compares the head read first with the tail of now
    obtain ⟨_,h,t,hw,hlt,rfl⟩ := hki
    have hmain : QueryEvent.empty (α := α) i true ∈
        [QueryEvent.empty i (h % cap.val == s.queue.tail.cur)] →
        0 ∈ (s.span i).sizes ∨ ((∃ n ∈ (s.span i).sizes, cap.val ≤ n+(s.span i).pushes) ∧
          0 < (s.span i).pops ∧ 0 < (s.span i).pushes) := by
      intro hmem
      have hres : (h % cap.val == s.queue.tail.cur) = true := by simpa using hmem
      rw [beq_iff_eq,hr.tail.cur_eq] at hres
      exact hw.of_mod_eq hr hlt hres
    refine ⟨fun hquiet => ⟨fun hmem => ?_,by simp⟩,hmain,by simp⟩
    rcases hmain hmem with hzero | ⟨_,hpops,hpushes⟩
    · exact hzero
    · omega
  · next hpc =>
    cases hs
    rw [hpc] at hki
    obtain ⟨hnow,h,t,hw,hlt,rfl⟩ := hki
    -- `size_approx` subtracts the head of now from the tail read first
    rw [hr.head.cur_eq]
    obtain ⟨hgen,hone⟩ := hw.distance_eq hr hlt
    refine ⟨fun hquiet => ⟨by simp,fun v hv => ?_⟩,by simp,fun v hv => ?_⟩
    · obtain rfl : v = cap.distance (s.queue.head.newest % cap.val) (t % cap.val) := by
        simpa using hv
      rcases hone hquiet with heq | heq
      · rw [heq]
        exact hnow.held
      · rw [heq]
        exact hw.held
    · obtain rfl : v = cap.distance (s.queue.head.newest % cap.val) (t % cap.val) := by
        simpa using hv
      exact hgen

/-- A schedule of one push, and of one pop, on a queue that has neither to refuse. -/
def pushOnce (item obs : ℕ) : List (QueryAction ℕ) :=
  [.queue (.tryPush item),.queue (.producer obs),.queue (.producer obs),.queue (.producer obs),
    .queue (.producer obs)]

def popOnce (obs : ℕ) : List (QueryAction ℕ) :=
  [.queue .tryPop,.queue (.consumer obs),.queue (.consumer obs),.queue (.consumer obs),
    .queue (.consumer obs)]

/-- A push completes between the two loads of a `size_approx`, which answers for the first. -/
theorem snapshot_queries_push : ∃ tr s s', (watched capacity4 id).Run (Watched.init 0) tr s ∧
    (watched capacity4 id).step s (.load 0) = some (s',[.sizeApprox 0 0]) ∧
    0 ∈ (s.span 0).sizes := by
  have hrun : (watched capacity4 id).Run (Watched.init 0) [.queue (.pushed 0 7)] _ :=
    System.run_of_exec (l := [.call 0 .sizeApprox,.load 0]++pushOnce 7 0) rfl
  exact ⟨_,_,_,hrun,rfl,((@snapshot_queries _ capacity4 0 id _ _ _ 0 [.sizeApprox 0 0] hrun rfl).1
    (.inr rfl)).2 0 (by simp)⟩

/-- The queue holds two or three elements throughout, yet `empty` answers `true` and `size_approx`
answers 0: the indices move while they are loaded. -/
theorem snapshot_inconsistent : ∃ tr s, (watched capacity4 id).Run (Watched.init 0) tr s ∧
    .empty 0 true ∈ tr ∧ .sizeApprox 1 0 ∈ tr ∧
    (∀ n ∈ (s.span 0).sizes, 2 ≤ n) ∧ ∀ n ∈ (s.span 1).sizes, 2 ≤ n := by
  have hexec : ((watched capacity4 id).execWhere (fun _ _ => True) (Watched.init 0)
      (pushOnce 7 0++pushOnce 8 0++[.call 0 .empty,.load 0,.call 1 .sizeApprox,.load 1]++
        pushOnce 9 0++popOnce 3++pushOnce 10 1++[.load 0]++popOnce 4++[.load 1])).any
      (fun r => decide (.empty 0 true ∈ r.2 ∧ .sizeApprox 1 0 ∈ r.2 ∧
        (∀ n ∈ (r.1.span 0).sizes, 2 ≤ n) ∧ ∀ n ∈ (r.1.span 1).sizes, 2 ≤ n)) = true := by
    decide +kernel
  obtain ⟨s,tr,hrun,hs⟩ := System.exists_run_of_exec hexec
  obtain ⟨hempty,hsize,h0,h1⟩ : .empty 0 true ∈ tr ∧ .sizeApprox 1 0 ∈ tr ∧
      (∀ n ∈ (s.span 0).sizes, 2 ≤ n) ∧ ∀ n ∈ (s.span 1).sizes, 2 ≤ n := of_decide_eq_true hs
  exact ⟨tr,s,hrun,hempty,hsize,h0,h1⟩

end WsClient.SpscQueue
