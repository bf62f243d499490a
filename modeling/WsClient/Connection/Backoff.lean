import WsClient.Connection.Threads
import Mathlib.Data.Rat.Cast.Lemmas
import Mathlib.Algebra.Order.Ring.Nat

/-!
# The rounds of `reconnect_loop`

Attempt `i` is announced with its backoff `min (initial * m ^ (i-1)) max`, slept for, and made
once. The loop ends with the first success, after the last allowed attempt, or when it finds
`should_run_` false.
-/

namespace WsClient.Connection
open WsClient.Lib

/-- The next step of the loop, or `should_run_` becoming false. -/
inductive LoopAction
  | thread (ok : Bool)
  | stop
  deriving DecidableEq, Repr

def reconnectLoopStep (cfg : ConnectionConfig) :
    Members × LoopPc → LoopAction → Option ((Members × LoopPc) × List Event)
  | (m,pc), .stop => some (({ m with shouldRun := false },pc),[])
  | (_,.ret), .thread _ => none
  | (m,pc), .thread ok =>
    (loopStep cfg m pc ok).map fun e => ((e.members.hold e.spawn,e.pc),e.events)

/-- A call of `reconnect_loop`. -/
def reconnectLoop (cfg : ConnectionConfig) : System (Members × LoopPc) LoopAction Event :=
  ⟨reconnectLoopStep cfg⟩

/-- The backoff of attempt `i`, counted from 1, for an integer multiplier `m`. -/
def backoffMs (cfg : ConnectionConfig) (m i : ℕ) : ℕ :=
  min (cfg.initialBackoffMs.toNat*m^(i-1)) cfg.maxBackoffMs.toNat

/-- How far the loop has come: `fails` attempts have failed, and the next is in the making. -/
inductive Round
  | between (fails : ℕ)
  | announced (fails : ℕ)
  | slept (fails : ℕ)
  | attempting (fails : ℕ)
  | called (fails : ℕ)
  | connected (fails : ℕ)
  | refused (fails : ℕ)
  | gaveUp (fails : ℕ)
  deriving DecidableEq, Repr

/-- The attempts made. -/
def Round.attempts : Round → ℕ
  | .between fails | .announced fails | .slept fails | .refused fails | .gaveUp fails => fails
  | .attempting fails | .called fails | .connected fails => fails+1

def Event.attempt : Event → Bool
  | .construct _ _ _ => true
  | _ => false

variable {cfg : ConnectionConfig} {m k : ℕ} {b : UInt32} {ok : Bool} {t t' : Round}
  {es : List Event} {mem mem' : Members} {pc pc' : LoopPc}

theorem toNat_min (a b : UInt32) : (min a b).toNat = min a.toNat b.toNat := by
  rw [UInt32.min_def]
  split
  · next h => exact (Nat.min_eq_left (UInt32.le_iff_toNat_le.mp h)).symm
  · next h => exact (Nat.min_eq_right (Nat.le_of_not_le fun hab => h (UInt32.le_iff_toNat_le.mpr hab))).symm

/-- Between rounds: `k` attempts have failed, and `b` is the backoff of the next. -/
structure Between (cfg : ConnectionConfig) (m k : ℕ) (b : UInt32) (t : Round) : Prop where
  round : t = .between k
  backoff : b.toNat = backoffMs cfg m (k+1)
  allowed : 0 < cfg.maxReconnectTries → k ≤ cfg.maxReconnectTries

/-- In the round of attempt `k+1`, with backoff `b`. -/
structure InRound (cfg : ConnectionConfig) (m k : ℕ) (mem : Members) (b : UInt32) : Prop where
  count : mem.reconnectCount = k+1
  backoff : b.toNat = backoffMs cfg m (k+1)
  allowed : 0 < cfg.maxReconnectTries → k+1 ≤ cfg.maxReconnectTries

/-- The loop is done: connected, out of attempts, or stopped. -/
def Round.Done (cfg : ConnectionConfig) (mem : Members) (t : Round) : Prop :=
  (∃ i, t = .connected i ∧ mem.state = .connected ∧ mem.reconnectCount = 0) ∨
    (∃ k : ℕ, t = .gaveUp k ∧ 0 < cfg.maxReconnectTries ∧ cfg.maxReconnectTries = k ∧
      mem.state = .disconnected) ∨
    ∃ k, t = .between k ∧ mem.shouldRun = false

/-- What the loop has done where it stands. -/
def LoopPc.Reached (cfg : ConnectionConfig) (m : ℕ) (mem : Members) (t : Round) : LoopPc → Prop
  | .loadRun b | .readCount b => ∃ k, Between cfg m k b t ∧ mem.reconnectCount = k
  | .writeCount b count => ∃ k, Between cfg m k b t ∧ mem.reconnectCount = k ∧ count = k
  | .checkLimit b => ∃ k, Between cfg m k b t ∧ mem.reconnectCount = k+1
  | .onReconnect b => ∃ k, InRound cfg m k mem b ∧ t = .between k
  | .sleep b => ∃ k, InRound cfg m k mem b ∧ t = .announced k
  | .tryConnect b .create => ∃ k, InRound cfg m k mem b ∧ t = .slept k
  | .tryConnect b .connect =>
    ∃ k, InRound cfg m k mem b ∧ t = .attempting k ∧ mem.client.isSome = true
  | .tryConnect b .onConnect => ∃ k, InRound cfg m k mem b ∧ t = .attempting k
  | .tryConnect b .reset =>
    ∃ k, InRound cfg m k mem b ∧ (t = .attempting k ∨ t = .called k)
  | .scaleBackoff b => ∃ k, InRound cfg m k mem b ∧ t = .between (k+1)
  | .storeDisconnected =>
    ∃ k : ℕ, t = .between k ∧ 0 < cfg.maxReconnectTries ∧ cfg.maxReconnectTries = k
  | .onDisconnect => ∃ k : ℕ, t = .refused k ∧ 0 < cfg.maxReconnectTries ∧
      cfg.maxReconnectTries = k ∧ mem.state = .disconnected
  | .storeConnected => ∃ i, t = .called i
  | .resetCount => ∃ i, t = .connected i ∧ mem.state = .connected
  | .checkHeartbeat | .spawnHeartbeat | .checkMonitor | .spawnMonitor =>
    ∃ i, t = .connected i ∧ mem.state = .connected ∧ mem.reconnectCount = 0
  | .ret => t.Done cfg mem

/-- `should_run_` becoming false disturbs nothing. -/
theorem LoopPc.Reached.stop (h : pc.Reached cfg m mem t) :
    pc.Reached cfg m { mem with shouldRun := false } t := by
  cases pc with
  | ret =>
    rcases h with hc | hg | ⟨k,ht,_⟩
    · exact .inl hc
    · exact .inr (.inl hg)
    · exact .inr (.inr ⟨k,ht,rfl⟩)
  | tryConnect b pc =>
    cases pc <;> (obtain ⟨k,hr,ht⟩ := h; exact ⟨k,⟨hr.count,hr.backoff,hr.allowed⟩,ht⟩)
  | onReconnect b =>
    obtain ⟨k,hr,ht⟩ := h
    exact ⟨k,⟨hr.count,hr.backoff,hr.allowed⟩,ht⟩
  | sleep b =>
    obtain ⟨k,hr,ht⟩ := h
    exact ⟨k,⟨hr.count,hr.backoff,hr.allowed⟩,ht⟩
  | scaleBackoff b =>
    obtain ⟨k,hr,ht⟩ := h
    exact ⟨k,⟨hr.count,hr.backoff,hr.allowed⟩,ht⟩
  | _ => exact h

/-- Until it returns, a step of `reconnect_loop`'s thread is one of its body. -/
theorem reconnectLoop_thread {pc : LoopPc} (hne : pc ≠ .ret) (ok : Bool) :
    (reconnectLoop cfg).step (mem,pc) (.thread ok) =
      (loopStep cfg mem pc ok).map fun e => ((e.members.hold e.spawn,e.pc),e.events) := by
  cases pc <;> first | rfl | exact absurd rfl hne

/-- A step of `reconnect_loop` is a step of its thread, or `should_run_` becoming false. -/
theorem reconnectLoop_cases {s s' : Members × LoopPc} {a : LoopAction}
    (hs : (reconnectLoop cfg).step s a = some (s',es)) :
    (a = .stop ∧ s' = ({ s.1 with shouldRun := false },s.2) ∧ es = []) ∨
      ∃ ok e, a = .thread ok ∧ s.2 ≠ .ret ∧ loopStep cfg s.1 s.2 ok = some e ∧
        s' = (e.members.hold e.spawn,e.pc) ∧ es = e.events := by
  obtain ⟨mem,pc⟩ := s
  cases a with
  | stop =>
    cases hs
    exact .inl ⟨rfl,rfl,rfl⟩
  | thread ok =>
    by_cases hpc : pc = .ret
    · subst hpc
      cases hs
    · rw [reconnectLoop_thread hpc] at hs
      obtain ⟨e,he,heq⟩ := Option.map_eq_some_iff.mp hs
      cases heq
      exact .inr ⟨ok,e,rfl,hpc,he,rfl,rfl⟩

/-- Two attempts are allowed, with every other default. -/
def twoTries : ConnectionConfig := { host := "localhost", port := "8765", maxReconnectTries := 2 }

end WsClient.Connection
