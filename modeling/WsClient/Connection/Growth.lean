import WsClient.Connection.Backoff
import WsClient.Lib.Growth
import Mathlib.Data.Rat.Floor

/-!
# The backoff from round to round

Each failed attempt scales the backoff, truncates it and caps it. Whether it stays within the cap
and within `uint32_t` is decided by the configuration and the number of attempts left; whether it
grows to the cap, by the configuration alone.
-/

namespace WsClient.Connection
open WsClient.Lib

/-- The backoff that is announced or slept for. -/
def Event.backoff : Event → Option UInt32
  | .onReconnect _ backoffMs => some backoffMs
  | .slept ms => some ms
  | _ => none

/-- The failed attempts of a run. -/
def failures (tr : List Event) : ℕ := tr.countP (· == .connectFailed)

/-- The attempts that are left at a count: what the limit leaves, if there is one, and no more than
`int` can count. -/
def ConnectionConfig.triesLeft (cfg : ConnectionConfig) (count : ℤ) : ℕ :=
  ((if 0 < cfg.maxReconnectTries then min cfg.maxReconnectTries (2^31-1) else 2^31-1)-count).toNat

/-- The attempts that a call of `reconnect_loop` may make when it is entered with these members. -/
def ConnectionConfig.attemptsLeft (cfg : ConnectionConfig) (m : Members) : ℕ :=
  if m.shouldRun then cfg.triesLeft m.reconnectCount else 0

/-- Of `n` attempts `fails` have failed, and the backoff of the round is good; after the round's own
failure it is still to be scaled. -/
def LoopPc.Backs (cfg : ConnectionConfig) (Good : ℕ → UInt32 → Prop) (n : ℕ) (m : Members)
    (fails : ℕ) : LoopPc → Prop
  | .loadRun b => Good fails b ∧ fails+cfg.attemptsLeft m ≤ n
  | .readCount b => Good fails b ∧ fails+cfg.triesLeft m.reconnectCount ≤ n
  | .writeCount b count => Good fails b ∧ fails+cfg.triesLeft count ≤ n
  | .checkLimit b => Good fails b ∧ fails+cfg.triesLeft (m.reconnectCount-1) ≤ n ∧
      m.reconnectCount < 2^31
  | .onReconnect b | .sleep b | .tryConnect b _ =>
    Good fails b ∧ fails+cfg.triesLeft m.reconnectCount < n
  | .scaleBackoff b =>
    (∃ k, fails = k+1 ∧ Good k b) ∧ fails+cfg.triesLeft m.reconnectCount ≤ n
  | _ => True

variable {cfg : ConnectionConfig} {m : Members} {pc : LoopPc} {b b' : UInt32} {ok : Bool}
  {n fails k : ℕ} {count : ℤ} {tr es : List Event} {s : Members × LoopPc}
  {Good : ℕ → UInt32 → Prop}

theorem failures_append : failures (tr++es) = failures tr+failures es := List.countP_append

/-- An attempt that passes the check is one of those that were left. -/
theorem triesLeft_pred (hcount : count < 2^31)
    (hlimit : ¬(cfg.maxReconnectTries > 0 ∧ count > cfg.maxReconnectTries)) :
    cfg.triesLeft (count-1) = cfg.triesLeft count+1 := by
  rw [ConnectionConfig.triesLeft,ConnectionConfig.triesLeft]
  split <;> omega

theorem attemptsLeft_le : cfg.attemptsLeft m ≤ cfg.triesLeft m.reconnectCount := by
  rw [ConnectionConfig.attemptsLeft]
  split
  · exact Nat.le_refl _
  · exact Nat.zero_le _

/-- Stopped, no attempt is left. -/
theorem LoopPc.Backs.stop (h : pc.Backs cfg Good n m fails) :
    pc.Backs cfg Good n { m with shouldRun := false } fails := by
  cases pc with
  | loadRun b => exact ⟨h.1,(Nat.le_add_right _ _).trans h.2⟩
  | _ => exact h

/-- A step of the loop keeps the backoff good, if a failed attempt does. -/
theorem loopStep_backs (hnext : ∀ k b b', Good k b → cfg.nextBackoff b = some b' → Good (k+1) b')
    {e : Effect LoopPc} (h : pc.Backs cfg Good n m fails) (hs : loopStep cfg m pc ok = some e) :
    e.pc.Backs cfg Good n (e.members.hold e.spawn) (fails+failures e.events) ∧
      ∀ ev ∈ e.events, ∀ b, ev.backoff = some b → ∃ k < n, Good k b := by
  cases pc with
  | tryConnect b pc =>
    obtain ⟨e₀,he₀,rfl⟩ := Option.map_eq_some_iff.mp hs
    cases pc with
    | create =>
      cases he₀
      exact ⟨h,by simp [Effect.map,Event.backoff]⟩
    | connect =>
      obtain ⟨c,_,rfl⟩ := Option.map_eq_some_iff.mp he₀
      cases ok <;> exact ⟨h,by simp [Effect.map]⟩
    | onConnect =>
      cases he₀
      cases ok
      · exact ⟨h,by simp [Effect.map,Event.backoff]⟩
      · exact ⟨trivial,by simp [Effect.map,Event.backoff]⟩
    | reset =>
      cases he₀
      refine ⟨⟨⟨fails,rfl,h.1⟩,?_⟩,by simp [Effect.map,Event.backoff]⟩
      have hlt := h.2
      change fails+1+cfg.triesLeft m.reconnectCount ≤ n
      omega
  | writeCount b count =>
    simp only [loopStep] at hs
    split at hs <;> cases hs
    next hcount =>
      refine ⟨⟨h.1,?_,?_⟩,by simp⟩
      · change fails+cfg.triesLeft (count+1-1) ≤ n
        rw [Int.add_sub_cancel]
        exact h.2
      · change count+1 < 2^31
        omega
  | scaleBackoff b =>
    -- the only step that changes the backoff
    obtain ⟨b',hb',rfl⟩ := Option.map_eq_some_iff.mp hs
    obtain ⟨⟨k,rfl,hgood⟩,hle⟩ := h
    exact ⟨⟨hnext k b b' hgood hb',(Nat.add_le_add_left attemptsLeft_le _).trans hle⟩,by simp⟩
  | onReconnect b =>
    cases hs
    refine ⟨h,?_⟩
    intro ev hev b' hb'
    cases List.mem_singleton.mp hev
    cases hb'
    exact ⟨fails,(Nat.le_add_right _ _).trans_lt h.2,h.1⟩
  | sleep b =>
    cases hs
    refine ⟨h,?_⟩
    intro ev hev b' hb'
    cases List.mem_singleton.mp hev
    cases hb'
    exact ⟨fails,(Nat.le_add_right _ _).trans_lt h.2,h.1⟩
  | loadRun b =>
    cases hs
    cases hrun : m.shouldRun with
    | false => exact ⟨trivial,by simp⟩
    | true =>
      have hle := h.2
      rw [ConnectionConfig.attemptsLeft,if_pos hrun] at hle
      exact ⟨⟨h.1,hle⟩,by simp⟩
  | checkLimit b =>
    -- the check lets an attempt through that was left
    cases hs
    dsimp only
    split
    · exact ⟨trivial,by simp⟩
    · next hlimit =>
      obtain ⟨hgood,hle,hcount⟩ := h
      rw [triesLeft_pred hcount hlimit] at hle
      exact ⟨⟨hgood,hle⟩,by simp⟩
  | readCount b =>
    cases hs
    exact ⟨h,by simp⟩
  | resetCount =>
    cases hs
    dsimp only
    split <;> exact ⟨trivial,by simp⟩
  | checkHeartbeat =>
    cases hs
    dsimp only
    split <;> exact ⟨trivial,by simp⟩
  | checkMonitor =>
    cases hs
    dsimp only
    split <;> exact ⟨trivial,by simp⟩
  | _ =>
    cases hs
    exact ⟨trivial,by simp [Event.backoff]⟩

/-- Proof rule: what the initial backoff satisfies and every failed attempt preserves holds of all
the backoffs of a call of `reconnect_loop`, each of them in one of the rounds that were left. -/
theorem run_backs (h₀ : Good 0 cfg.initialBackoffMs)
    (hnext : ∀ k b b', Good k b → cfg.nextBackoff b = some b' → Good (k+1) b')
    (h : (reconnectLoop cfg).Run (m,.loadRun cfg.initialBackoffMs) tr s) :
    s.2.Backs cfg Good (cfg.attemptsLeft m) s.1 (failures tr) ∧
      ∀ ev ∈ tr, ∀ b, ev.backoff = some b → ∃ k < cfg.attemptsLeft m, Good k b := by
  refine h.invariant (I := fun tr s => s.2.Backs cfg Good (cfg.attemptsLeft m) s.1 (failures tr) ∧
    ∀ ev ∈ tr, ∀ b, ev.backoff = some b → ∃ k < cfg.attemptsLeft m, Good k b)
    ⟨⟨h₀,(Nat.zero_add _).le⟩,by simp⟩ ?_
  rintro tr s a s' es ⟨hb,htr⟩ _ hs
  rcases reconnectLoop_cases hs with ⟨_,rfl,rfl⟩ | ⟨ok,e,_,_,he,rfl,rfl⟩
  · rw [List.append_nil]
    exact ⟨hb.stop,htr⟩
  · obtain ⟨hb',hes⟩ := loopStep_backs hnext hb he
    refine ⟨by rw [failures_append]; exact hb',?_⟩
    intro ev hev
    rcases List.mem_append.mp hev with hev | hev
    · exact htr ev hev
    · exact hes ev hev

/-! ## The arithmetic of one round -/

/-- `static_cast<uint32_t>` truncates what fits. -/
theorem toUint32?_of_lt {x : ℚ} (h0 : 0 ≤ x) (h : x < 2^32) :
    toUint32? x = some (UInt32.ofNat ⌊x⌋₊) := by
  have htrunc : x.num.tdiv x.den = ⌊x⌋ := by
    rw [Int.tdiv_eq_ediv_of_nonneg (Rat.num_nonneg.mpr h0),Rat.floor_def']
  have hfloor : ⌊x⌋ < 2^32 := by
    rw [Int.floor_lt]
    exact_mod_cast h
  rw [toUint32?,htrunc]
  exact if_pos ⟨Int.floor_nonneg.mpr h0,hfloor⟩

/-- The product of the backoff and the multiplier, as it is converted. -/
def ConnectionConfig.scaled (cfg : ConnectionConfig) (backoffMs : UInt32) : ℚ :=
  backoffMs.toNat*cfg.backoffMultiplier

/-- A failed attempt is a step of capped growth as long as the product fits. -/
theorem nextBackoff_capped (hq : 1 ≤ cfg.backoffMultiplier) (h : cfg.scaled b < 2^32) :
    ∃ b', cfg.nextBackoff b = some b' ∧ b'.toNat =
      scaleCapped cfg.backoffMultiplier cfg.maxBackoffMs.toNat b.toNat := by
  have h0 : 0 ≤ cfg.scaled b := mul_nonneg (Nat.cast_nonneg _) (zero_le_one.trans hq)
  have hfit : ⌊cfg.scaled b⌋₊ < 2^32 := by
    rw [Nat.floor_lt h0]
    exact_mod_cast h
  refine ⟨min (UInt32.ofNat ⌊cfg.scaled b⌋₊) cfg.maxBackoffMs,?_,?_⟩
  · rw [ConnectionConfig.nextBackoff]
    change (toUint32? (cfg.scaled b)).map _ = _
    rw [toUint32?_of_lt h0 h]
    rfl
  · rw [toNat_min,UInt32.toNat_ofNat_of_lt' hfit]
    rfl

/-- The backoff after `i` failed attempts, while the products fit. -/
def ConnectionConfig.growth (cfg : ConnectionConfig) (i : ℕ) : ℕ :=
  (scaleCapped cfg.backoffMultiplier cfg.maxBackoffMs.toNat)^[i] cfg.initialBackoffMs.toNat

/-! ## Runs of failed attempts -/

/-- Entered with these members, the loop may make `k` attempts. -/
structure Room (cfg : ConnectionConfig) (m : Members) (k : ℕ) : Prop where
  running : m.shouldRun = true
  count : m.reconnectCount+k < 2^31
  allowed : 0 < cfg.maxReconnectTries → m.reconnectCount+k ≤ cfg.maxReconnectTries

theorem Room.of_le (hk : 0 < k) (h : k ≤ cfg.attemptsLeft m) : Room cfg m k := by
  rw [ConnectionConfig.attemptsLeft] at h
  split at h
  · next hrun =>
    rw [ConnectionConfig.triesLeft] at h
    refine ⟨hrun,?_,fun hpos => ?_⟩
    · split at h <;> omega
    · rw [if_pos hpos] at h
      omega
  · omega

/-- After `j` of the attempts there is room for the next. -/
theorem Room.next {m' : Members} {j : ℕ} (h : Room cfg m k) (hj : j < k)
    (hgo : m'.shouldRun = true) (hcount : m'.reconnectCount = m.reconnectCount+j) :
    Room cfg m' (0+1) := by
  refine ⟨hgo,?_,fun hpos => ?_⟩
  · have hlt := h.count
    push_cast
    omega
  · have hle := h.allowed hpos
    push_cast
    omega

/-- The members after a failed attempt. -/
def Members.afterFailure (m : Members) : Members := { m with
  reconnectCount := m.reconnectCount+1
  client := none
  generation := m.generation+1 }

/-- A round whose attempt fails. -/
theorem failed_round {m₀ : Members} {b₀ : UInt32} (hroom : Room cfg m (k+1))
    (h : (reconnectLoop cfg).Run (m₀,.loadRun b₀) tr (m,.loadRun b)) :
    ∃ es, (reconnectLoop cfg).Run (m₀,.loadRun b₀) (tr++es) (m.afterFailure,.scaleBackoff b) ∧
      .slept b ∈ es := by
  have hcount : m.reconnectCount < 2^31-1 := by
    have hlt := hroom.count
    push_cast at hlt
    omega
  have hlimit : ¬(0 < cfg.maxReconnectTries ∧ cfg.maxReconnectTries < m.reconnectCount+1) := by
    rintro ⟨hpos,hlt⟩
    have hle := hroom.allowed hpos
    push_cast at hle
    omega
  have hgo : (reconnectLoop cfg).step (m,.loadRun b) (.thread true) =
      some ((m,.readCount b),[]) := by
    change some ((m,if m.shouldRun then LoopPc.readCount b else .ret),[]) = _
    rw [if_pos hroom.running]
  have hwrite : (reconnectLoop cfg).step (m,.writeCount b m.reconnectCount) (.thread true) =
      some (({ m with reconnectCount := m.reconnectCount+1 },.checkLimit b),[]) := by
    change Option.map _ (ite (m.reconnectCount < 2^31-1) _ _) = _
    rw [if_pos hcount]
    rfl
  have hallow : (reconnectLoop cfg).step ({ m with reconnectCount := m.reconnectCount+1 },
      .checkLimit b) (.thread true) =
        some (({ m with reconnectCount := m.reconnectCount+1 },.onReconnect b),[]) := by
    change some (({ m with reconnectCount := m.reconnectCount+1 },if 0 < cfg.maxReconnectTries ∧
      cfg.maxReconnectTries < m.reconnectCount+1 then LoopPc.storeDisconnected else _),[]) = _
    rw [if_neg hlimit]
  have hattempt : (reconnectLoop cfg).execWhere (fun _ _ => True)
      ({ m with reconnectCount := m.reconnectCount+1 },.onReconnect b)
      [.thread true,.thread true,.thread true,.thread false,.thread true] =
        some ((m.afterFailure,.scaleBackoff b),[.onReconnect (m.reconnectCount+1) b,.slept b,
          .construct cfg.host cfg.port {},.connectFailed]) := rfl
  have hread : (reconnectLoop cfg).step (m,.readCount b) (.thread true) =
      some ((m,.writeCount b m.reconnectCount),[]) := rfl
  have hrun := (((h.step trivial hgo).step trivial hread).step trivial hwrite).step trivial hallow
  simp only [List.append_nil] at hrun
  exact ⟨_,hrun.exec hattempt,by simp⟩

/-- As long as the products fit, failed attempts follow capped growth. -/
theorem failed_rounds (hq : 1 ≤ cfg.backoffMultiplier) (hroom : Room cfg m k) {j : ℕ}
    (hj : j ≤ k) (hfit : ∀ i < j, (cfg.growth i : ℚ)*cfg.backoffMultiplier < 2^32) :
    ∃ tr m' b, (reconnectLoop cfg).Run (m,.loadRun cfg.initialBackoffMs) tr (m',.loadRun b) ∧
      b.toNat = cfg.growth j ∧ m'.shouldRun = true ∧ m'.reconnectCount = m.reconnectCount+j := by
  induction j with
  | zero => exact ⟨[],m,_,.start,rfl,hroom.running,by simp⟩
  | succ j ih =>
    obtain ⟨tr,m',b,hrun,hb,hgo,hcount⟩ := ih (by omega) fun i hi => hfit i (by omega)
    obtain ⟨es,hrun',_⟩ := failed_round (hroom.next hj hgo hcount) hrun
    have hscaled : cfg.scaled b < 2^32 := by
      rw [ConnectionConfig.scaled,hb]
      exact hfit j (by omega)
    obtain ⟨b',hb',hval⟩ := nextBackoff_capped hq hscaled
    have hstep : (reconnectLoop cfg).step (m'.afterFailure,.scaleBackoff b) (.thread true) =
        some ((m'.afterFailure,.loadRun b'),[]) := by
      simp [reconnectLoop,reconnectLoopStep,loopStep,hb',Members.hold]
    refine ⟨_,_,b',hrun'.step trivial hstep,?_,hgo,?_⟩
    · rw [hval,hb,ConnectionConfig.growth,ConnectionConfig.growth,Function.iterate_succ_apply']
    · rw [Members.afterFailure,hcount]
      push_cast
      ring

/-- What the claimed range is, at any point of a call of `reconnect_loop`: no backoff was above the
cap, and the product that is to be converted fits. -/
structure InRange (cfg : ConnectionConfig) (tr : List Event) (s : Members × LoopPc) : Prop where
  capped : ∀ e ∈ tr, ∀ b, e.backoff = some b → b ≤ cfg.maxBackoffMs
  fits : ∀ b, s.2 = .scaleBackoff b → cfg.scaled b < 2^32

theorem nextBackoff_le (h : cfg.nextBackoff b = some b') : b' ≤ cfg.maxBackoffMs := by
  obtain ⟨scaled,_,rfl⟩ := Option.map_eq_some_iff.mp h
  rw [UInt32.le_iff_toNat_le,toNat_min]
  exact Nat.min_le_right _ _

/-- The backoff of a round that is one of `n` is capped, and is that of capped growth. -/
def Paced (cfg : ConnectionConfig) (n k : ℕ) (b : UInt32) : Prop :=
  k < n → b ≤ cfg.maxBackoffMs ∧ b.toNat = cfg.growth k

theorem Paced.next (h : Paced cfg n k b) (hq : 1 ≤ cfg.backoffMultiplier)
    (hfit : ∀ i < n, (cfg.growth i : ℚ)*cfg.backoffMultiplier < 2^32)
    (hb' : cfg.nextBackoff b = some b') : Paced cfg n (k+1) b' := by
  intro hk
  obtain ⟨_,hb⟩ := h (by omega)
  have hscaled : cfg.scaled b < 2^32 := by
    rw [ConnectionConfig.scaled,hb]
    exact hfit k (by omega)
  obtain ⟨b'',hb'',hval⟩ := nextBackoff_capped hq hscaled
  obtain rfl := Option.some.inj (hb'.symm.trans hb'')
  refine ⟨nextBackoff_le hb',?_⟩
  rw [hval,hb,ConnectionConfig.growth,ConnectionConfig.growth,Function.iterate_succ_apply']

/-- What fits in every round that is left keeps the call in range. -/
theorem InRange.of_fits (hq : 1 ≤ cfg.backoffMultiplier)
    (hle : 0 < cfg.attemptsLeft m → cfg.initialBackoffMs ≤ cfg.maxBackoffMs)
    (hfit : ∀ i < cfg.attemptsLeft m, (cfg.growth i : ℚ)*cfg.backoffMultiplier < 2^32)
    (h : (reconnectLoop cfg).Run (m,.loadRun cfg.initialBackoffMs) tr s) : InRange cfg tr s := by
  have h₀ : Paced cfg (cfg.attemptsLeft m) 0 cfg.initialBackoffMs := fun hpos => ⟨hle hpos,rfl⟩
  have hnext : ∀ k b b', Paced cfg (cfg.attemptsLeft m) k b → cfg.nextBackoff b = some b' →
      Paced cfg (cfg.attemptsLeft m) (k+1) b' := fun k b b' hb hb' => hb.next hq hfit hb'
  obtain ⟨hb,htr⟩ := run_backs h₀ hnext h
  refine ⟨?_,?_⟩
  · intro e he b hb
    obtain ⟨k,hk,hpaced⟩ := htr e he b hb
    exact (hpaced hk).1
  · intro b hpc
    rw [hpc] at hb
    obtain ⟨⟨k,hk,hpaced⟩,hn⟩ := hb
    have hlt : k < cfg.attemptsLeft m := by omega
    rw [ConnectionConfig.scaled,(hpaced hlt).2]
    exact hfit k hlt

/-- An initial backoff above the cap is slept for in the first round. -/
theorem out_of_range_of_gt (hgt : cfg.maxBackoffMs < cfg.initialBackoffMs) (hroom : Room cfg m 1) :
    ∃ tr s, (reconnectLoop cfg).Run (m,.loadRun cfg.initialBackoffMs) tr s ∧
      ¬InRange cfg tr s := by
  obtain ⟨es,hrun,hslept⟩ := failed_round hroom .start
  refine ⟨_,_,hrun,fun h => ?_⟩
  exact absurd (h.capped _ hslept _ rfl) (UInt32.not_le.mpr hgt)

/-- The first product that is too large is computed. -/
theorem out_of_range_of_growth (hq : 1 ≤ cfg.backoffMultiplier) {j : ℕ}
    (hj : 2^32 ≤ (cfg.growth j : ℚ)*cfg.backoffMultiplier)
    (hfit : ∀ i < j, (cfg.growth i : ℚ)*cfg.backoffMultiplier < 2^32)
    (hroom : Room cfg m (j+1)) :
    ∃ tr s, (reconnectLoop cfg).Run (m,.loadRun cfg.initialBackoffMs) tr s ∧
      ¬InRange cfg tr s := by
  obtain ⟨tr,m',b,hrun,hb,hgo,hcount⟩ := failed_rounds hq hroom (Nat.le_succ j) hfit
  obtain ⟨es,hrun',_⟩ := failed_round (hroom.next (Nat.lt_succ_self j) hgo hcount) hrun
  refine ⟨_,_,hrun',fun h => ?_⟩
  have hlt := h.fits b rfl
  rw [ConnectionConfig.scaled,hb] at hlt
  exact absurd hlt (not_lt.mpr hj)

/-- The backoffs of `n` attempts stay in range: there is none, or the initial value is within the
cap, and the cap can be scaled or `n` multiplications do not get as far. -/
def ConnectionConfig.StaysInRange (cfg : ConnectionConfig) (n : ℕ) : Prop :=
  n = 0 ∨ cfg.initialBackoffMs ≤ cfg.maxBackoffMs ∧
    (cfg.maxBackoffMs.toNat*cfg.backoffMultiplier < 2^32 ∨
      (scale cfg.backoffMultiplier)^[n] cfg.initialBackoffMs.toNat < 2^32)

/-- The products of the rounds, bounded by that of the cap or by growth without it. -/
theorem growth_fits_iff (hq : 1 ≤ cfg.backoffMultiplier)
    (hle : cfg.initialBackoffMs ≤ cfg.maxBackoffMs) :
    (∀ i < n, (cfg.growth i : ℚ)*cfg.backoffMultiplier < 2^32) ↔
      cfg.maxBackoffMs.toNat*cfg.backoffMultiplier < 2^32 ∨
        (scale cfg.backoffMultiplier)^[n] cfg.initialBackoffMs.toNat < 2^32 := by
  have hfits := iterate_scaleCapped_fits (n := n) hq (UInt32.le_iff_toNat_le.mp hle)
    cfg.maxBackoffMs.toNat_lt
  push_cast at hfits
  exact hfits

/-- In every call of `reconnect_loop` every backoff is at most the cap and every product fits,
exactly if the configuration stays in range for the attempts that the call may make. -/
theorem backoff_in_range (cfg : ConnectionConfig) (hq : 1 ≤ cfg.backoffMultiplier) (m : Members) :
    (∀ tr s, (reconnectLoop cfg).Run (m,.loadRun cfg.initialBackoffMs) tr s → InRange cfg tr s) ↔
      cfg.StaysInRange (cfg.attemptsLeft m) := by
  constructor
  · intro hall
    by_contra hnot
    obtain ⟨hne,hout⟩ := not_or.mp hnot
    have hpos : 0 < cfg.attemptsLeft m := Nat.pos_of_ne_zero hne
    by_cases hle : cfg.initialBackoffMs ≤ cfg.maxBackoffMs
    · have hex : ∃ i, i < cfg.attemptsLeft m ∧
          2^32 ≤ (cfg.growth i : ℚ)*cfg.backoffMultiplier := by
        by_contra hfit
        push Not at hfit
        exact hout ⟨hle,(growth_fits_iff hq hle).mp hfit⟩
      -- the first product that does not fit
      obtain ⟨hlt,hbig⟩ := Nat.find_spec hex
      obtain ⟨tr,s,hrun,hbad⟩ := out_of_range_of_growth hq hbig
        (fun i hi => not_le.mp fun h => Nat.find_min hex hi ⟨by omega,h⟩)
        (.of_le (Nat.succ_pos _) hlt)
      exact hbad (hall tr s hrun)
    · obtain ⟨tr,s,hrun,hbad⟩ := out_of_range_of_gt (UInt32.not_le.mp hle)
        (.of_le Nat.one_pos hpos)
      exact hbad (hall tr s hrun)
  · intro hstays tr s hrun
    refine .of_fits hq ?_ ?_ hrun
    · intro hpos
      exact (hstays.resolve_left hpos.ne').1
    · rcases hstays with hzero | ⟨hle,hfits⟩
      · rw [hzero]
        simp
      · exact (growth_fits_iff hq hle).mpr hfits

/-- The cap cannot be scaled. -/
def wideCap (tries : ℤ) : ConnectionConfig :=
  { host := "localhost", port := "8765", maxReconnectTries := tries, maxBackoffMs := 4294967295 }

/-- Ten attempts do not get as far as such a cap, forty do. -/
theorem backoff_in_range_wide :
    (∀ tr s, (reconnectLoop (wideCap 10)).Run
      ({ init.members with shouldRun := true },.loadRun 100) tr s → InRange (wideCap 10) tr s) ∧
    ¬∀ tr s, (reconnectLoop (wideCap 40)).Run
      ({ init.members with shouldRun := true },.loadRun 100) tr s → InRange (wideCap 40) tr s := by
  have hscale : ∀ n : ℕ, (scale (2 : ℚ))^[n] 100 = 100*2^n := fun n =>
    iterate_scale_natCast (K := ℚ) (x := 100) 2
  constructor
  · refine (backoff_in_range (wideCap 10) (by norm_num [wideCap]) _).mpr (.inr ⟨by decide,.inr ?_⟩)
    change (scale (2 : ℚ))^[10] 100 < 2^32
    rw [hscale]
    decide
  · intro hall
    rcases (backoff_in_range (wideCap 40) (by norm_num [wideCap]) _).mp hall with
      hzero | ⟨_,hcap | hgrowth⟩
    · exact absurd hzero (by decide)
    · change ((4294967295 : ℕ) : ℚ)*2 < 2^32 at hcap
      norm_num at hcap
    · change (scale (2 : ℚ))^[40] 100 < 2^32 at hgrowth
      rw [hscale] at hgrowth
      exact absurd hgrowth (by decide)

/-- The cap is below the initial backoff. -/
def lowCap : ConnectionConfig :=
  { host := "localhost", port := "8765", initialBackoffMs := 1000, maxBackoffMs := 500 }

/-- The first product does not fit. -/
def highCap : ConnectionConfig :=
  { host := "localhost", port := "8765", initialBackoffMs := 2147483648, maxBackoffMs := 4294967295 }

/-- The first round sleeps for more than the cap, or its product does not fit. -/
theorem backoff_leaves_range :
    (∃ m tr s, (reconnectLoop lowCap).Run (m,.loadRun lowCap.initialBackoffMs) tr s ∧
      ¬InRange lowCap tr s) ∧
    ∃ m tr s, (reconnectLoop highCap).Run (m,.loadRun highCap.initialBackoffMs) tr s ∧
      ¬InRange highCap tr s := by
  have hroom : ∀ cfg : ConnectionConfig, cfg.maxReconnectTries = 10 →
      Room cfg { init.members with shouldRun := true } 1 := by
    intro cfg htries
    exact ⟨rfl,by decide,fun _ => by rw [htries]; decide⟩
  constructor
  · exact ⟨_,out_of_range_of_gt (by decide) (hroom lowCap rfl)⟩
  · refine ⟨_,out_of_range_of_growth (j := 0) ?_ ?_ ?_ (hroom highCap rfl)⟩
    · norm_num [highCap]
    · change (2 : ℚ)^32 ≤ ((2147483648 : ℕ) : ℚ)*2
      norm_num
    · simp

/-! ## Growth to the cap -/

/-- Each failed attempt moves the backoff up until it is the cap, where it stays, and enough of
them bring it there. -/
structure GrowsToCap (cfg : ConnectionConfig) : Prop where
  grows : ∀ m tr mem b, (reconnectLoop cfg).Run (m,.loadRun cfg.initialBackoffMs) tr
    (mem,.scaleBackoff b) → ∃ b', (∀ ok, (reconnectLoop cfg).step (mem,.scaleBackoff b)
      (.thread ok) = some ((mem,.loadRun b'),[])) ∧
      (b ≠ cfg.maxBackoffMs → b < b' ∧ b' ≤ cfg.maxBackoffMs) ∧
      (b = cfg.maxBackoffMs → b' = cfg.maxBackoffMs)
  reaches : ∃ k, ∀ m tr mem b, (reconnectLoop cfg).Run (m,.loadRun cfg.initialBackoffMs) tr
    (mem,.loadRun b) → k ≤ failures tr → b = cfg.maxBackoffMs

theorem scaleBackoff_step {mem : Members} (h : cfg.nextBackoff b = some b') :
    (reconnectLoop cfg).step (mem,.scaleBackoff b) (.thread ok) = some ((mem,.loadRun b'),[]) := by
  simp [reconnectLoop,reconnectLoopStep,loopStep,h,Members.hold]

/-- One failed attempt, from a backoff that the multiplier moves. -/
theorem nextBackoff_grows (hq : 1 ≤ cfg.backoffMultiplier)
    (hfits : cfg.maxBackoffMs.toNat*cfg.backoffMultiplier < 2^32) (hb : b ≤ cfg.maxBackoffMs)
    (hgain : b ≠ cfg.maxBackoffMs → 1 ≤ (b.toNat : ℚ)*(cfg.backoffMultiplier-1)) :
    ∃ b', cfg.nextBackoff b = some b' ∧
      (b ≠ cfg.maxBackoffMs → b < b' ∧ b' ≤ cfg.maxBackoffMs) ∧
      (b = cfg.maxBackoffMs → b' = cfg.maxBackoffMs) := by
  have hle : b.toNat ≤ cfg.maxBackoffMs.toNat := UInt32.le_iff_toNat_le.mp hb
  have hscaled : cfg.scaled b < 2^32 :=
    lt_of_le_of_lt (mul_le_mul_of_nonneg_right (Nat.cast_le.mpr hle) (zero_le_one.trans hq)) hfits
  obtain ⟨b',hb',hval⟩ := nextBackoff_capped hq hscaled
  refine ⟨b',hb',fun hne => ⟨?_,nextBackoff_le hb'⟩,?_⟩
  · have hlt : b.toNat < cfg.maxBackoffMs.toNat :=
      lt_of_le_of_ne hle fun h => hne (UInt32.toNat_inj.mp h)
    rw [UInt32.lt_iff_toNat_lt,hval]
    exact lt_scaleCapped (hgain hne) hlt
  · rintro rfl
    rw [scaleCapped_cap hq] at hval
    exact UInt32.toNat_inj.mp hval

/-- After `k` failures the backoff has gained `k`, as far as the cap. -/
def Gained (cfg : ConnectionConfig) (k : ℕ) (b : UInt32) : Prop :=
  min (cfg.initialBackoffMs.toNat+k) cfg.maxBackoffMs.toNat ≤ b.toNat ∧ b ≤ cfg.maxBackoffMs

/-- Below the cap a gained backoff is at least the initial one, so the multiplier moves it. -/
theorem Gained.gain (h : Gained cfg k b) (hq : 1 ≤ cfg.backoffMultiplier)
    (hgrow : cfg.initialBackoffMs = cfg.maxBackoffMs ∨
      1 ≤ (cfg.initialBackoffMs.toNat : ℚ)*(cfg.backoffMultiplier-1))
    (hne : b ≠ cfg.maxBackoffMs) : 1 ≤ (b.toNat : ℚ)*(cfg.backoffMultiplier-1) := by
  have hle := UInt32.le_iff_toNat_le.mp h.2
  have hlt : b.toNat ≠ cfg.maxBackoffMs.toNat := fun heq => hne (UInt32.toNat_inj.mp heq)
  have hlow := h.1
  rcases hgrow with heq | hgrow
  · rw [heq] at hlow
    omega
  · exact excess_mono hq hgrow (by omega)

theorem Gained.next (h : Gained cfg k b) (hq : 1 ≤ cfg.backoffMultiplier)
    (hfits : cfg.maxBackoffMs.toNat*cfg.backoffMultiplier < 2^32)
    (hgrow : cfg.initialBackoffMs = cfg.maxBackoffMs ∨
      1 ≤ (cfg.initialBackoffMs.toNat : ℚ)*(cfg.backoffMultiplier-1))
    (hb' : cfg.nextBackoff b = some b') : Gained cfg (k+1) b' := by
  obtain ⟨b'',hb'',hlt,hcap⟩ := nextBackoff_grows hq hfits h.2 (h.gain hq hgrow)
  obtain rfl := Option.some.inj (hb'.symm.trans hb'')
  refine ⟨?_,nextBackoff_le hb'⟩
  by_cases heq : b = cfg.maxBackoffMs
  · rw [hcap heq]
    exact Nat.min_le_right _ _
  · have hstep := UInt32.lt_iff_toNat_lt.mp (hlt heq).1
    have hlow := h.1
    omega

/-- If the initial backoff gains less than a millisecond, already the first failure leaves it where
it was. -/
theorem GrowsToCap.gains (h : GrowsToCap cfg) (hle : cfg.initialBackoffMs ≤ cfg.maxBackoffMs)
    (hq : 1 ≤ cfg.backoffMultiplier)
    (hfits : cfg.maxBackoffMs.toNat*cfg.backoffMultiplier < 2^32) :
    cfg.initialBackoffMs = cfg.maxBackoffMs ∨
      1 ≤ (cfg.initialBackoffMs.toNat : ℚ)*(cfg.backoffMultiplier-1) := by
  by_contra hnot
  rw [not_or,not_le] at hnot
  have hroom : Room cfg { init.members with shouldRun := true } 1 := by
    refine ⟨rfl,by decide,fun hN => ?_⟩
    change (0 : ℤ)+1 ≤ cfg.maxReconnectTries
    omega
  obtain ⟨es,hrun,_⟩ := failed_round hroom .start
  obtain ⟨b',hstep,hlt,_⟩ := h.grows _ _ _ _ hrun
  have hscaled : cfg.scaled cfg.initialBackoffMs < 2^32 :=
    lt_of_le_of_lt (mul_le_mul_of_nonneg_right
      (Nat.cast_le.mpr (UInt32.le_iff_toNat_le.mp hle)) (zero_le_one.trans hq)) hfits
  obtain ⟨b'',hb'',hval⟩ := nextBackoff_capped hq hscaled
  have heq := (hstep true).symm.trans (scaleBackoff_step hb'')
  cases heq
  rw [scaleCapped_eq_self hq hnot.2 (UInt32.le_iff_toNat_le.mp hle)] at hval
  have hself := UInt32.lt_iff_toNat_lt.mp (hlt hnot.1).1
  omega

/-- Where the backoff may grow without leaving its range, it does so exactly if the cap is reached
already or the initial backoff gains at least one millisecond. -/
theorem backoff_grows_iff (cfg : ConnectionConfig)
    (hle : cfg.initialBackoffMs ≤ cfg.maxBackoffMs) (hq : 1 < cfg.backoffMultiplier)
    (hfits : cfg.maxBackoffMs.toNat*cfg.backoffMultiplier < 2^32) :
    GrowsToCap cfg ↔ cfg.initialBackoffMs = cfg.maxBackoffMs ∨
      1 ≤ (cfg.initialBackoffMs.toNat : ℚ)*(cfg.backoffMultiplier-1) := by
  refine ⟨fun h => h.gains hle hq.le hfits,fun hgrow => ?_⟩
  have h₀ : Gained cfg 0 cfg.initialBackoffMs := ⟨Nat.min_le_left _ _,hle⟩
  have hnext : ∀ k b b', Gained cfg k b → cfg.nextBackoff b = some b' → Gained cfg (k+1) b' :=
    fun k b b' hg hb' => hg.next hq.le hfits hgrow hb'
  constructor
  · intro m tr mem b hrun
    obtain ⟨⟨k,_,hg⟩,_⟩ := (run_backs h₀ hnext hrun).1
    obtain ⟨b',hb',hgrows⟩ := nextBackoff_grows hq.le hfits hg.2 (hg.gain hq.le hgrow)
    exact ⟨b',fun ok => scaleBackoff_step hb',hgrows⟩
  · refine ⟨cfg.maxBackoffMs.toNat-cfg.initialBackoffMs.toNat,?_⟩
    intro m tr mem b hrun hk
    have hg : Gained cfg (failures tr) b := (run_backs h₀ hnext hrun).1.1
    have hlow := hg.1
    have hhigh := UInt32.le_iff_toNat_le.mp hg.2
    exact UInt32.toNat_inj.mp (by omega)

/-- The shipped backoffs grow. -/
theorem backoff_grows_shipped : GrowsToCap twoTries :=
  (backoff_grows_iff twoTries (by decide) (by norm_num [twoTries])
    (by change ((30000 : ℕ) : ℚ)*2 < 2^32; norm_num)).mpr
    (.inr (by change (1 : ℚ) ≤ ((100 : ℕ) : ℚ)*(2-1); norm_num))

/-- One millisecond times one and a half is one millisecond. -/
def halfAgain : ConnectionConfig :=
  { host := "localhost", port := "8765", initialBackoffMs := 1, backoffMultiplier := 3/2 }

theorem backoff_stalls : ¬GrowsToCap halfAgain := by
  intro h
  rcases h.gains (by decide) (by norm_num [halfAgain])
    (by change ((30000 : ℕ) : ℚ)*(3/2) < 2^32; norm_num) with heq | hgain
  · exact absurd heq (by decide)
  · change (1 : ℚ) ≤ ((1 : ℕ) : ℚ)*(3/2-1) at hgain
    norm_num at hgain

end WsClient.Connection
