import WsClient.Session.Stranding
import WsClient.MemoryPool.FreeList

/-!
# The pool in a session

`chat_session` takes a block from `msg_pool` for each message of a benchmark and gives it back
before the next: it is the same block every time, and the pool is full whenever a command is read.
A write that throws gives the block back on the way out.
-/

namespace WsClient.Session
open WsClient.Lib WsClient.Client

/-- The message of a benchmark as far as it fits a block. -/
def copied (i : ℕ) : List UInt8 := (benchMessage i).take kPoolBlockSize

/-- The message that the block in use is for, the block, and how much has been copied into it. -/
def ChatPc.hold : ChatPc → Option (ℕ × ℕ × ℕ)
  | .benchCopy i buf off => some (i,buf,off)
  | .setKind req | .write req | .spin req | .spinning req | .record req _ =>
    req.bench.map fun (i,buf) => (i,buf,(copied i).length)
  | .benchFree i buf => some (i,buf,(copied i).length)
  | _ => none

/-- The pool is full, or its first block is out and holds the beginning of the message. -/
def Holds (p : MemoryPool.Placement msgPool) (pool : MemoryPool.State) (free : List ℕ) :
    Option (ℕ × ℕ × ℕ) → Prop
  | none => free = msgPool.blocks p.address ∧ pool.out = []
  | some (i,buf,n) => buf :: free = msgPool.blocks p.address ∧ pool.out = [buf] ∧
      i < kBenchMessages ∧ n ≤ (copied i).length ∧ ∀ k (h : k < n) (h' : k < (copied i).length),
        pool.mem (buf+k) = (copied i)[k]

/-- What the main thread knows of the pool. -/
def Buffered {ρ : Type*} (p : MemoryPool.Placement msgPool) (s : State ρ) : Prop :=
  ∃ free, MemoryPool.Rel msgPool p s.pool free ∧ Holds p s.pool free s.chat.hold

/-- A step by what it does with the pool. -/
inductive PoolStep {ρ : Type*} (ndebug : Bool) (s s' : State ρ) : Prop
  | keep : s'.pool = s.pool → s'.chat.hold = s.chat.hold → PoolStep ndebug s s'
  | allocate {i} : s.chat = .bench i → i < kBenchMessages →
      s'.pool = ⟨s.pool.mem,(MemoryPool.allocate s.pool.mem s.pool.pool).2,s.pool.outAfter⟩ →
      s'.chat = (if (MemoryPool.allocate s.pool.mem s.pool.pool).1 = 0 then .isRunning
        else .benchCopy i (MemoryPool.allocate s.pool.mem s.pool.pool).1 0) →
      PoolStep ndebug s s'
  | copy {i buf off byte pes} : s.chat = .benchCopy i buf off → (copied i)[off]? = some byte →
      MemoryPool.step msgPool ndebug s.pool (.write buf off byte) = some (s'.pool,pes) →
      s'.chat = .benchCopy i buf (off+1) → PoolStep ndebug s s'
  | copied {i buf off} : s.chat = .benchCopy i buf off → (copied i)[off]? = none →
      s'.pool = s.pool → s'.chat = .setKind ⟨⟨benchMessage i,true⟩,some (i,buf)⟩ →
      PoolStep ndebug s s'
  | free {i buf n pes} : s.chat.hold = some (i,buf,n) →
      MemoryPool.step msgPool ndebug s.pool (.deallocate buf) = some (s'.pool,pes) →
      s'.chat.hold = none → PoolStep ndebug s s'

variable {ρ β : Type*} {moved : Message → Message} {ndebug : Bool}
  {server : System (Wire × ρ) β Empty} {s s' : State ρ} {es : List Event} {a : Action β}
  {p : MemoryPool.Placement msgPool}

/-- A call on the client concerns no block. -/
theorem PoolStep.of_client {b : Client.Action} {next : List Client.Event → ChatPc}
    (hs : s.onClient moved b next = some (s',es)) (hnext : ∀ ces, (next ces).hold = s.chat.hold) :
    PoolStep ndebug s s' := by
  obtain ⟨c,ces,_,_,rfl⟩ := State.onClient_some hs
  exact .keep rfl (hnext ces)

theorem ChatPc.after_hold (pc : ChatPc) (ces : List Client.Event) :
    (pc.after ces).hold = pc.hold := by
  unfold ChatPc.after
  split <;> rfl

theorem ChatPc.command_hold (input : List UInt8) : (ChatPc.command input).hold = none := by
  unfold ChatPc.command
  split_ifs <;> rfl

theorem chat_pool (hs : chatStep moved ndebug s = some (s',es)) : PoolStep ndebug s s' := by
  simp only [chatStep] at hs
  split at hs
  · next i hpc =>
    split at hs
    · exact .of_client hs fun _ => by rw [hpc]; rfl
    · cases hs
      exact .keep rfl (by rw [hpc]; rfl)
  · next hpc =>
    cases hs
    refine .keep rfl ?_
    rw [hpc]
    dsimp only
    split <;> rfl
  · next i hpc =>
    split at hs
    · next hi =>
      obtain ⟨⟨pool,pes⟩,hpool,he⟩ := Option.map_eq_some_iff.mp hs
      cases he
      cases hpool
      exact .allocate hpc hi rfl rfl
    · cases hs
      exact .keep rfl (by rw [hpc]; rfl)
  · next i buf off hpc =>
    split at hs
    · next byte hbyte =>
      obtain ⟨⟨pool,pes⟩,hpool,he⟩ := Option.map_eq_some_iff.mp hs
      cases he
      exact .copy hpc hbyte hpool rfl
    · next hnone =>
      cases hs
      exact .copied hpc hnone rfl rfl
  · next req hpc =>
    cases hs
    exact .keep rfl (by rw [hpc]; rfl)
  · next req hpc =>
    cases hs
    exact .keep rfl (by rw [hpc]; rfl)
  · next req hpc => exact .of_client hs fun _ => by rw [hpc]; rfl
  · next req hpc => exact .of_client hs fun _ => by rw [hpc]
  · next req response hpc =>
    split at hs
    · next hbench =>
      cases hs
      exact .keep rfl (by simp [hpc,ChatPc.hold,hbench])
    · next i buf hbench =>
      cases hs
      exact .keep rfl (by simp [hpc,ChatPc.hold,hbench])
  · next i buf hpc =>
    obtain ⟨⟨pool,pes⟩,hpool,he⟩ := Option.map_eq_some_iff.mp hs
    cases he
    exact .free (by rw [hpc]; rfl) hpool rfl
  · next hpc => exact .of_client hs fun _ => by rw [hpc]; rfl
  · next hpc =>
    cases hs
    exact .keep rfl (by rw [hpc]; rfl)
  · next hpc =>
    split at hs
    · cases hs
      exact .keep rfl (by rw [hpc]; rfl)
    · cases hs
  all_goals cases hs

theorem step_pool (hs : Session.step moved ndebug server s a = some (s',es)) :
    PoolStep ndebug s s' := by
  cases a with
  | chat => exact chat_pool hs
  | line input =>
    simp only [Session.step] at hs
    split at hs
    · next hpc =>
      cases hs
      exact .keep rfl (by rw [hpc]; exact ChatPc.command_hold _)
    all_goals
      first
      | cases hs
        done
      | next hpc =>
        cases hs
        exact .keep rfl (by rw [hpc]; rfl)
  | consumer obs =>
    simp only [Session.step] at hs
    split at hs
    · exact .of_client hs fun ces => ChatPc.after_hold _ ces
    · exact .of_client hs fun ces => ChatPc.after_hold _ ces
    · cases hs
  | receiver | producer | readError =>
    simp only [Session.step] at hs
    exact .of_client hs fun _ => rfl
  | read =>
    simp only [Session.step] at hs
    split at hs
    · cases hs
    · obtain ⟨⟨s₁,es₁⟩,h₁,he⟩ := Option.map_eq_some_iff.mp hs
      cases he
      obtain ⟨c,ces,_,_,rfl⟩ := State.onClient_some h₁
      exact .keep rfl rfl
  | server b =>
    obtain ⟨⟨⟨w,srv⟩,fs⟩,_,he⟩ := Option.map_eq_some_iff.mp hs
    cases he
    exact .keep rfl rfl

/-- An exception destroys `buf` on its way out of `chat_session`. -/
theorem network_pool {a : NetAction β}
    (hs : (network moved ndebug server).step s a = some (s',es)) : PoolStep ndebug s s' := by
  cases a with
  | session a => exact step_pool hs
  | writeError =>
    simp only [network,networkStep] at hs
    split at hs
    · next hpc =>
      cases hs
      exact .keep rfl (by rw [hpc]; rfl)
    · next hpc =>
      obtain ⟨⟨pool,pes⟩,hpool,he⟩ := Option.map_eq_some_iff.mp hs
      cases he
      exact .free (by rw [hpc]; rfl) hpool rfl
    · cases hs

theorem msgPool_fits : msgPool.NoOverflow := by
  simp only [MemoryPool.Layout.NoOverflow,msgPool,kPoolBlockSize,kMaxAlign,kPoolNumBlocks]
  omega

/-- The first block lies where the storage begins. -/
theorem blocks_head (L : MemoryPool.Layout) (storage : ℕ) :
    ∃ rest, L.blocks storage = storage :: rest := by
  obtain ⟨n,hn⟩ := Nat.exists_eq_succ_of_ne_zero L.numBlocks_pos.ne'
  have hfirst : L.block storage 0 = storage := by rw [MemoryPool.Layout.block,Nat.zero_mul,Nat.add_zero]
  rw [MemoryPool.Layout.blocks,hn,List.range_succ_eq_map,List.map_cons,hfirst]
  exact ⟨_,rfl⟩

theorem Buffered.step (h : Buffered p s) (hs : PoolStep ndebug s s') : Buffered p s' := by
  obtain ⟨free,hrel,hholds⟩ := h
  cases hs with
  | keep hpool hchat =>
    refine ⟨free,hpool ▸ hrel,?_⟩
    rw [hpool,hchat]
    exact hholds
  | @allocate i hpc hi hpool hchat =>
    rw [hpc] at hholds
    obtain ⟨hfree,hout⟩ : free = msgPool.blocks p.address ∧ s.pool.out = [] := hholds
    obtain ⟨rest,hblocks⟩ := blocks_head msgPool p.address
    have hne : p.address ≠ 0 := p.pos.ne'
    obtain ⟨free',hrun,hrel'⟩ := hrel.allocate_call
    rw [hfree,hblocks] at hrun
    -- the list is full, so its head is the first block
    have hptr : (MemoryPool.allocate s.pool.mem s.pool.pool).1 = p.address := by
      by_contra hother
      simp [MemoryPool.lifo,hother] at hrun
    have hrest : free' = rest := by simpa [MemoryPool.lifo,hptr,eq_comm] using hrun
    rw [hptr,if_neg hne] at hchat
    subst hrest
    rw [← hpool] at hrel'
    refine ⟨free',hrel',?_⟩
    rw [hchat]
    refine ⟨hblocks.symm,?_,hi,Nat.zero_le _,fun k hk => absurd hk (Nat.not_lt_zero _)⟩
    rw [hpool,MemoryPool.State.outAfter,hptr,if_neg hne,hout]
  | @copy i buf off byte pes hpc hbyte hpool hchat =>
    rw [hpc] at hholds
    obtain ⟨hblocks,hout,hi,hle,hbytes⟩ := hholds
    obtain ⟨free',hrun,hrel'⟩ := hrel.write msgPool_fits hpool
    simp only [MemoryPool.step] at hpool
    split at hpool
    · obtain ⟨hmem,hpes⟩ := Prod.mk.inj (Option.some.inj hpool)
      rw [← hpes] at hrun
      obtain rfl : free = free' := Option.some.inj hrun
      obtain ⟨hoff,hget⟩ := List.getElem?_eq_some_iff.mp hbyte
      refine ⟨free,hrel',?_⟩
      rw [hchat]
      refine ⟨hblocks,by rw [← hmem]; exact hout,hi,hoff,fun k hk hk' => ?_⟩
      rw [← hmem]
      rcases Nat.lt_succ_iff_lt_or_eq.mp hk with hlt | rfl
      · rw [← hbytes k hlt hk']
        exact Function.update_of_ne (by omega) _ _
      · rw [hget]
        exact Function.update_self _ _ _
    · cases hpool
  | @copied i buf off hpc hnone hpool hchat =>
    rw [hpc] at hholds
    obtain ⟨hblocks,hout,hi,hle,hbytes⟩ := hholds
    have hend : off = (copied i).length :=
      Nat.le_antisymm hle (List.getElem?_eq_none_iff.mp hnone)
    refine ⟨free,hpool ▸ hrel,?_⟩
    rw [hpool,hchat]
    exact ⟨hblocks,hout,hi,Nat.le_refl _,fun k hk hk' => hbytes k (by omega) hk'⟩
  | @free i buf n pes hhold hpool hnone =>
    rw [hhold] at hholds
    obtain ⟨hblocks,hout,_⟩ := hholds
    have hptr : buf ∈ s.pool.out := by simp [hout]
    obtain ⟨m,pool,hcall,_,hrel'⟩ := hrel.deallocate_call msgPool_fits ndebug hptr
    simp only [MemoryPool.step,hcall,hptr,or_true,if_true,Option.map_some,Option.some.injEq,
      Prod.mk.injEq] at hpool
    obtain ⟨hpool,_⟩ := hpool
    rw [hpool] at hrel'
    refine ⟨buf :: free,hrel',?_⟩
    rw [hnone]
    refine ⟨hblocks,?_⟩
    rw [← hpool,hout]
    simp

/-- The block in use can be given back: it is out. -/
theorem Buffered.release (h : Buffered p s) {i buf n : ℕ} (hhold : s.chat.hold = some (i,buf,n))
    (next : List MemoryPool.Event → ChatPc) :
    (s.onPool ndebug (.deallocate buf) next).isSome = true := by
  obtain ⟨free,hrel,hholds⟩ := h
  rw [hhold] at hholds
  have hmem : buf ∈ s.pool.out := by simp [hholds.2.1]
  obtain ⟨_,_,hcall,_⟩ := hrel.deallocate_call msgPool_fits ndebug hmem
  simp only [State.onPool,MemoryPool.step,Option.isSome_map,if_pos (Or.inr hmem),hcall]
  rfl

/-- A benchmark never finds the pool exhausted: for each message it gets the same block, the first
of the pool, writes only inside it, has the message in it while the message is on its way, and can
give it back, also where the write throws. Whenever the main thread is elsewhere, at the prompt and
in `pool` too, all blocks are free. -/
theorem bench_buffer (moved : Message → Message) (ndebug : Bool)
    (server : System (Wire × ρ) β Empty) (r : ρ) (p : MemoryPool.Placement msgPool) (m : ByteMem)
    {tr : List Event} (h : (network moved ndebug server).Run (init r p.address m) tr s) :
    (s.chat.hold = none → s.pool.pool.freeCount = kPoolNumBlocks ∧ s.pool.out = []) ∧
      (∀ i buf n, s.chat.hold = some (i,buf,n) → buf = p.address ∧ s.pool.out = [buf] ∧
        s.pool.pool.freeCount = kPoolNumBlocks-1 ∧ n ≤ kPoolBlockSize ∧
        ∀ k < n, (benchMessage i)[k]? = some (s.pool.mem (buf+k))) ∧
      (∀ i, s.chat = .bench i → i < kBenchMessages →
        ∃ s', chatStep moved ndebug s = some (s',[]) ∧ s'.chat = .benchCopy i p.address 0) ∧
      (∀ i buf off, s.chat = .benchCopy i buf off → (chatStep moved ndebug s).isSome = true) ∧
      (∀ i buf, s.chat = .benchFree i buf → (chatStep moved ndebug s).isSome = true) ∧
      ∀ req, s.chat = .write req →
        (networkStep moved ndebug server s .writeError).isSome = true := by
  have hbuffered : Buffered p s := by
    refine h.invariant (I := fun _ s => Buffered p s) ?_ fun _ _ _ _ _ hi _ hs =>
      hi.step (network_pool hs)
    exact ⟨_,MemoryPool.rel_start msgPool_fits p m,rfl,rfl⟩
  have ⟨free,hrel,hholds⟩ := hbuffered
  have hlength := hrel.length_add
  have hcount := hrel.count
  have hblocks : msgPool.numBlocks = kPoolNumBlocks := rfl
  rw [hblocks] at hlength
  refine ⟨fun hhold => ?_,fun i buf n hhold => ?_,fun i hpc hi => ?_,fun i buf off hpc => ?_,
    fun i buf hpc => ?_,fun req hpc => ?_⟩
  · rw [hhold] at hholds
    have hout : s.pool.out.length = 0 := by rw [hholds.2]; rfl
    exact ⟨by omega,hholds.2⟩
  · rw [hhold] at hholds
    obtain ⟨hfirst,hout,_,hle,hbytes⟩ := hholds
    obtain ⟨rest,hrest⟩ := blocks_head msgPool p.address
    have hone : s.pool.out.length = 1 := by rw [hout]; rfl
    have hfits : (copied i).length ≤ kPoolBlockSize := List.length_take_le _ _
    refine ⟨List.head_eq_of_cons_eq (hfirst.trans hrest),hout,by omega,hle.trans hfits,
      fun k hk => ?_⟩
    have hk' : k < (copied i).length := by omega
    have hget : (copied i)[k]? = (benchMessage i)[k]? := List.getElem?_take_of_lt (by omega)
    rw [← hget,List.getElem?_eq_getElem hk',hbytes k hk hk']
  · have hnone : s.chat.hold = none := by rw [hpc]; rfl
    rw [hnone] at hholds
    obtain ⟨rest,hrest⟩ := blocks_head msgPool p.address
    have hne : p.address ≠ 0 := p.pos.ne'
    have hptr : (MemoryPool.allocate s.pool.mem s.pool.pool).1 = p.address := by
      rw [MemoryPool.allocate_fst]
      have hchain := hrel.chain
      rw [hholds.1,hrest] at hchain
      exact hchain.1
    simp only [chatStep,hpc,if_pos hi,State.onPool,MemoryPool.step,Option.map_some,hptr,if_neg hne]
    exact ⟨_,rfl,rfl⟩
  · have hhold : s.chat.hold = some (i,buf,off) := by rw [hpc]; rfl
    rw [hhold] at hholds
    have hmem : buf ∈ s.pool.out := by simp [hholds.2.1]
    simp only [chatStep,hpc]
    split
    · next byte hbyte =>
      obtain ⟨hoff,_⟩ := List.getElem?_eq_some_iff.mp hbyte
      have hfits : ((benchMessage i).take kPoolBlockSize).length ≤ kPoolBlockSize :=
        List.length_take_le _ _
      have hblock : off < msgPool.blockSize := Nat.lt_of_lt_of_le hoff hfits
      simp only [State.onPool,MemoryPool.step,Option.isSome_map,if_pos (And.intro hmem hblock)]
      rfl
    · rfl
  · simp only [chatStep,hpc]
    exact hbuffered.release (by rw [hpc]; rfl) _
  · obtain ⟨msg,bench⟩ := req
    simp only [networkStep,hpc]
    cases bench with
    | none => rfl
    | some b => exact hbuffered.release (by rw [hpc]; rfl) _

theorem msgPool_end : 4096+msgPool.storageSize ≤ 2^64 := by decide +kernel

/-- The storage of `msg_pool` at address 4096. -/
def msgPool4096 : MemoryPool.Placement msgPool := ⟨4096,Nat.succ_pos 4095,msgPool_end⟩

/-- The write of the first message of a benchmark throws, and its block is free again. -/
theorem bench_buffer_thrown :
    ∃ tr s es s', (network id true echo).Run (init none msgPool4096.address fun _ => 0) tr s ∧
      (s.chat.hold = some (0,4096,7) ∧
        ∀ k < 7, (benchMessage 0)[k]? = some (s.pool.mem (4096+k))) ∧
      (network id true echo).step s .writeError = some (s',es) ∧
      s'.pool.pool.freeCount = kPoolNumBlocks := by
  have hexec : ((session id true echo).execWhere (fun _ _ => True)
      (init none msgPool4096.address fun _ => 0)
      (System.schedule [(100,[.chat,.consumer 0,.consumer 0]),(2,[.chat]),
        (1,[.line (some (bytes "bench"))]),(10,[.chat])])).any
      (fun r => decide (r.1.chat.hold = some (0,4096,7)) &&
        ((network id true echo).step r.1 .writeError).any
          fun q => decide (q.1.chat.hold = none)) = true := by
    decide +kernel
  obtain ⟨s,tr,hsession,hs⟩ := System.exists_run_of_exec hexec
  have hrun := network_of_session hsession
  rw [Bool.and_eq_true] at hs
  have hhold : s.chat.hold = some (0,4096,7) := of_decide_eq_true hs.1
  obtain ⟨⟨s',es⟩,hthrow,hnone⟩ := (Option.any_eq_true _ _).mp hs.2
  have hnone : s'.chat.hold = none := of_decide_eq_true hnone
  have hbefore := bench_buffer id true echo none msgPool4096 _ hrun
  have hafter := bench_buffer id true echo none msgPool4096 _ (hrun.step trivial hthrow)
  exact ⟨tr,s,es,s',hrun,⟨hhold,(hbefore.2.1 _ _ _ hhold).2.2.2.2⟩,hthrow,(hafter.1 hnone).1⟩

end WsClient.Session
