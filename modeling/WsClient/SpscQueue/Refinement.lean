import WsClient.SpscQueue.Model
import Mathlib.Data.Nat.ModEq

/-!
# `SPSCQueue` refines the bounded queue

The wrapped indices are the unbounded counts of pops and pushes modulo the capacity, and the
counts form a chain: stale head ≤ head ≤ stale tail ≤ tail ≤ stale head + capacity - 1.
-/

namespace WsClient.SpscQueue
open WsClient.Lib

namespace Capacity

variable (cap : Capacity)

theorem exists_pow : ∃ k, k < 64 ∧ cap.val = 2^k := by
  obtain ⟨k,hk⟩ := (Nat.and_sub_one_eq_zero_iff_isPowerOfTwo (Nat.pos_iff_ne_zero.mp cap.pos)).mp
    cap.pow2
  refine ⟨k,?_,hk⟩
  have hf := cap.fits
  rw [hk] at hf
  exact (Nat.pow_lt_pow_iff_right (by omega)).mp hf

theorem val_dvd : cap.val ∣ 2^64 := by
  obtain ⟨k,hk,he⟩ := cap.exists_pow
  rw [he]
  exact Nat.pow_dvd_pow 2 (by omega)

/-- The mask is the remainder by the capacity, also after wrapping at the word size. -/
theorem mask_eq (i : ℕ) : i % 2^64 &&& cap.kMask = i % cap.val := by
  obtain ⟨k,hk,he⟩ := cap.exists_pow
  rw [kMask,he,Nat.and_two_pow_sub_one_eq_mod,Nat.mod_mod_of_dvd _ (he ▸ cap.val_dvd)]

theorem next_eq (i : ℕ) : cap.next i = (i+1) % cap.val := cap.mask_eq (i+1)

theorem next_mod (i : ℕ) : cap.next (i % cap.val) = (i+1) % cap.val := by
  rw [next_eq,Nat.mod_add_mod]

/-- Positions less than a capacity apart share a slot only when they are equal. -/
theorem eq_of_mod_eq {i j : ℕ} (hij : i ≤ j) (hj : j < i+cap.val)
    (h : i % cap.val = j % cap.val) : i = j := by
  have hd : cap.val ∣ j-i := (Nat.modEq_iff_dvd' hij).mp h
  have hz := Nat.eq_zero_of_dvd_of_lt hd (by omega)
  omega

theorem distance_lt (i j : ℕ) : cap.distance i j < cap.val := by
  rw [distance,mask_eq]
  exact Nat.mod_lt _ cap.pos

/-- Whatever the two positions are, the distance leads from the slot of one to the slot of the
other. -/
theorem distance_add (i j : ℕ) :
    (cap.distance (i % cap.val) (j % cap.val)+i) % cap.val = j % cap.val := by
  have hlt := Nat.mod_lt i cap.pos
  have hf := cap.fits
  obtain ⟨c,hc⟩ := cap.val_dvd
  have hre : j % cap.val+2^64-i % cap.val+i = j % cap.val+cap.val*(c+i/cap.val) := by
    have hi := Nat.div_add_mod i cap.val
    rw [Nat.mul_add,← hc]
    omega
  rw [distance,mask_eq,Nat.mod_add_mod,hre,Nat.add_mul_mod_self_left,Nat.mod_mod]

theorem distance_eq {i j : ℕ} (hij : i ≤ j) (hj : j < i+cap.val) :
    cap.distance (i % cap.val) (j % cap.val) = j-i := by
  have hsum := cap.distance_add i j
  have hback : (j-i+i) % cap.val = j % cap.val := by rw [Nat.sub_add_cancel hij]
  have heq := Nat.ModEq.add_right_cancel' i (hsum.trans hback.symm)
  rw [Nat.ModEq,Nat.mod_eq_of_lt (cap.distance_lt _ _),
    Nat.mod_eq_of_lt (by omega : j-i < cap.val)] at heq
  exact heq

end Capacity

variable {α : Type*} {cap : Capacity} {vis : Visibility} {moved : α → α}

/-- What the producer knows at each point of `try_push`. -/
def PushOk (cap : Capacity) (s : State α) : Prop :=
  match s.push with
  | .idle => True
  | .loadTail _ => True
  | .loadHead _ tail => tail = s.tail.newest % cap.val
  | .write _ tail next_tail => tail = s.tail.newest % cap.val ∧
      next_tail = (s.tail.newest+1) % cap.val ∧ s.tail.newest+1 ≤ s.seenHead+(cap.val-1)
  | .storeTail item tail next_tail => tail = s.tail.newest % cap.val ∧
      next_tail = (s.tail.newest+1) % cap.val ∧ s.tail.newest+1 ≤ s.seenHead+(cap.val-1) ∧
      s.buffer tail = item

/-- What the consumer knows at each point of `try_pop`. -/
def PopOk (cap : Capacity) (s : State α) : Prop :=
  match s.pop with
  | .idle => True
  | .loadHead => True
  | .loadTail head => head = s.head.newest % cap.val
  | .read head => head = s.head.newest % cap.val ∧ s.head.newest < s.seenTail
  | .storeHead head _ => head = s.head.newest % cap.val ∧ s.head.newest < s.seenTail

/-- The numbers of the items in the queue: those pushed and not yet popped. -/
def State.window (s : State α) : List ℕ :=
  List.range' s.head.newest (s.tail.newest-s.head.newest)

/-- Item number `i` with its slot. -/
def State.tagged (cap : Capacity) (s : State α) (i : ℕ) : ℕ × α :=
  (i % cap.val,s.slotItem (i % cap.val))

/-- The simulation relation between the queue in memory and the abstract list of items. -/
structure Rel (cap : Capacity) (s : State α) (l : List (ℕ × α)) : Prop where
  head : s.head.Follows (· % cap.val)
  tail : s.tail.Follows (· % cap.val)
  seenHead_le : s.seenHead ≤ s.head.newest
  head_le : s.head.newest ≤ s.seenTail
  seenTail_le : s.seenTail ≤ s.tail.newest
  tail_le : s.tail.newest ≤ s.seenHead+(cap.val-1)
  push : PushOk cap s
  pop : PopOk cap s
  held : l = s.window.map (s.tagged cap)

theorem mem_window {s : State α} {i : ℕ} (hle : s.head.newest ≤ s.tail.newest) :
    i ∈ s.window ↔ s.head.newest ≤ i ∧ i < s.tail.newest := by
  rw [State.window,List.mem_range'_1]
  omega

theorem rel_init (zero : α) : Rel cap (init zero) ([] : List (ℕ × α)) where
  head := Atomic.follows_new (f := (· % cap.val))
  tail := Atomic.follows_new (f := (· % cap.val))
  seenHead_le := Nat.le_refl _
  head_le := Nat.le_refl _
  seenTail_le := Nat.le_refl _
  tail_le := Nat.zero_le _
  push := trivial
  pop := trivial
  held := rfl

namespace Rel

variable {s s' : State α} {l : List (ℕ × α)} (h : Rel cap s l)
include h

theorem head_le_tail : s.head.newest ≤ s.tail.newest := h.head_le.trans h.seenTail_le

theorem tail_lt : s.tail.newest < s.head.newest+cap.val := by
  have h1 := h.tail_le
  have h2 := h.seenHead_le
  have h3 := cap.pos
  omega

theorem length_eq : l.length = s.tail.newest-s.head.newest := by
  rw [h.held,List.length_map,State.window,List.length_range']

theorem length_le : l.length ≤ cap.val-1 := by
  rw [h.length_eq]
  have h1 := h.tail_lt
  omega

/-- The simulation relation reads the queue's contents off indices and slots. -/
theorem contents_eq : s.contents cap = l.map Prod.snd := by
  have hle := h.head_le_tail
  rw [State.contents,h.head.cur_eq,h.tail.cur_eq,cap.distance_eq hle h.tail_lt,h.held,
    State.window,List.range'_eq_map_range,List.map_map,List.map_map]
  apply List.map_congr_left
  intro i _
  simp [State.tagged]

/-- A window item keeps its slot and value when neither changes under it. -/
theorem held_of_window_eq (hw : s'.window = s.window)
    (hi : ∀ i, s.head.newest ≤ i → i < s.tail.newest → s'.tagged cap i = s.tagged cap i) :
    l = s'.window.map (s'.tagged cap) := by
  rw [h.held,hw]
  apply List.map_congr_left
  intro i hm
  have hb := (mem_window h.head_le_tail).mp hm
  exact (hi i hb.1 hb.2).symm

/-- The next slot to write is not the slot of an item in the queue. -/
theorem tail_slot_ne {i : ℕ} (hi : s.head.newest ≤ i) (hlt : i < s.tail.newest) :
    i % cap.val ≠ s.tail.newest % cap.val := by
  intro he
  have ht := h.tail_lt
  have := cap.eq_of_mod_eq (Nat.le_of_lt hlt) (by omega) he
  omega

/-- Only the oldest item in the queue is in the slot the consumer reads next. -/
theorem head_slot_ne {i : ℕ} (hi : s.head.newest < i) (hlt : i < s.tail.newest) :
    i % cap.val ≠ s.head.newest % cap.val := by
  intro he
  have ht := h.tail_lt
  have := cap.eq_of_mod_eq (Nat.le_of_lt hi) (by omega) he.symm
  omega

theorem readSlot_eq {j : ℕ} (hj : s.readSlot = some j) :
    j = s.head.newest % cap.val ∧ s.head.newest < s.tail.newest := by
  have hp := h.pop
  have ht := h.seenTail_le
  cases hc : s.pop with
  | read head =>
    simp only [PopOk,hc] at hp
    simp only [State.readSlot,hc,Option.some.injEq] at hj
    exact ⟨hj ▸ hp.1,by omega⟩
  | storeHead head item =>
    simp only [PopOk,hc] at hp
    simp only [State.readSlot,hc,Option.some.injEq] at hj
    exact ⟨hj ▸ hp.1,by omega⟩
  | idle => simp [State.readSlot,hc] at hj
  | loadHead => simp [State.readSlot,hc] at hj
  | loadTail head => simp [State.readSlot,hc] at hj

theorem writeSlot_eq {j : ℕ} (hj : s.writeSlot = some j) : j = s.tail.newest % cap.val := by
  have hp := h.push
  cases hc : s.push with
  | write item tail next_tail =>
    simp only [PushOk,hc] at hp
    simp only [State.writeSlot,hc,Option.some.injEq] at hj
    exact hj ▸ hp.1
  | storeTail item tail next_tail =>
    simp only [PushOk,hc] at hp
    simp only [State.writeSlot,hc,Option.some.injEq] at hj
    exact hj ▸ hp.1
  | idle => simp [State.writeSlot,hc] at hj
  | loadTail item => simp [State.writeSlot,hc] at hj
  | loadHead item tail => simp [State.writeSlot,hc] at hj

/-- A slot the consumer has not moved an item out of shows what is stored in it. -/
theorem slotItem_eq {j : ℕ} (hj : j ≠ s.head.newest % cap.val) : s.slotItem j = s.buffer j := by
  have hp := h.pop
  cases hc : s.pop with
  | storeHead head item =>
    simp only [PopOk,hc] at hp
    simp only [State.slotItem,hc]
    exact if_neg (hp.1 ▸ hj)
  | idle => simp [State.slotItem,hc]
  | loadHead => simp [State.slotItem,hc]
  | loadTail head => simp [State.slotItem,hc]
  | read head => simp [State.slotItem,hc]

end Rel

/-- The abstract queue: refusals are exact when loads return the current value. -/
noncomputable abbrev fifo (α : Type*) (cap : Capacity) (vis : Visibility) :
    Automaton (List (ℕ × α)) (FifoEvent (ℕ × α)) :=
  boundedFifo (ℕ × α) (cap.val-1) (vis = .current)

namespace Rel

variable {s s' : State α} {l : List (ℕ × α)} {obs : ℕ} {es : List (Event α)}

/-- A fullness check that reads position `obs` of `head_`. -/
theorem full_iff (h : Rel cap s l) (hlo : s.seenHead ≤ obs) (hhi : obs ≤ s.head.newest) :
    cap.next (s.tail.newest % cap.val) = obs % cap.val ↔ s.tail.newest+1 = obs+cap.val := by
  have h1 := h.tail_le
  have h2 := h.head_le_tail
  have h3 := cap.pos
  rw [cap.next_mod]
  constructor
  · intro he
    by_contra hne
    have := cap.eq_of_mod_eq (by omega) (by omega) he.symm
    omega
  · intro he
    rw [he,Nat.add_mod_right]

/-- An emptiness check that reads position `obs` of `tail_`. -/
theorem empty_iff (h : Rel cap s l) (hlo : s.seenTail ≤ obs) (hhi : obs ≤ s.tail.newest) :
    s.head.newest % cap.val = obs % cap.val ↔ s.head.newest = obs := by
  have h1 := h.head_le
  have h2 := h.tail_lt
  constructor
  · exact cap.eq_of_mod_eq (by omega) (by omega)
  · exact fun he => he ▸ rfl

theorem push_loadHead (h : Rel cap s l) {item : α} {tail : ℕ} (hpc : s.push = .loadHead item tail)
    (hs : pushStep cap vis s obs = some (s',es)) :
    ∃ l', (fifo α cap vis).run l (es.map Event.toFifo) = some l' ∧ Rel cap s' l' := by
  have htail : tail = s.tail.newest % cap.val := by
    have hp := h.push
    simpa only [PushOk,hpc] using hp
  simp only [pushStep,hpc] at hs
  split at hs
  · next hv =>
    obtain ⟨hlo,hhi⟩ := hv.bounds h.seenHead_le
    have hfull := h.full_iff hlo hhi
    have hle := h.tail_le
    have hpos := cap.pos
    rw [h.head obs hhi,Option.map_some,Option.some.injEq,htail] at hs
    split at hs
    · next he =>
      cases hs
      have hsum := hfull.mp he
      refine ⟨l,?_,⟨h.head,h.tail,hhi,h.head_le,h.seenTail_le,?_,trivial,h.pop,h.held⟩⟩
      · -- an exact refusal reads the newest head, so the window is as long as it can be
        have hn : vis = .current → l.length = cap.val-1 := by
          intro hc
          subst hc
          have ho : obs = s.head.newest := hv
          rw [h.length_eq]
          omega
        simp only [List.map_cons,List.map_nil,Event.toFifo,Automaton.run_cons]
        rw [boundedFifo.next_full.mpr ⟨hn,rfl⟩]
        rfl
      · change s.tail.newest ≤ obs+(cap.val-1)
        omega
    · next he =>
      cases hs
      have hne : s.tail.newest+1 ≠ obs+cap.val := fun hc => he (hfull.mpr hc)
      refine ⟨l,rfl,⟨h.head,h.tail,hhi,h.head_le,h.seenTail_le,?_,?_,h.pop,h.held⟩⟩
      · change s.tail.newest ≤ obs+(cap.val-1)
        omega
      · refine ⟨rfl,cap.next_mod _,?_⟩
        change s.tail.newest+1 ≤ obs+(cap.val-1)
        omega
  · cases hs

theorem push_write (h : Rel cap s l) {item : α} {tail next_tail : ℕ}
    (hpc : s.push = .write item tail next_tail)
    (hs : pushStep cap vis s obs = some (s',es)) : es = [] ∧ Rel cap s' l := by
  have hp := h.push
  simp only [PushOk,hpc] at hp
  obtain ⟨ht,hn,hroom⟩ := hp
  simp only [pushStep,hpc,Option.some.injEq,Prod.mk.injEq] at hs
  obtain ⟨rfl,rfl⟩ := hs
  refine ⟨rfl,⟨h.head,h.tail,h.seenHead_le,h.head_le,h.seenTail_le,h.tail_le,?_,h.pop,?_⟩⟩
  · exact ⟨ht,hn,hroom,Function.update_self ..⟩
  · -- the slot written to is outside the window
    refine h.held_of_window_eq rfl fun i hi hlt => ?_
    have hne : i % cap.val ≠ tail := ht ▸ h.tail_slot_ne hi hlt
    cases hc : s.pop <;> simp [State.tagged,State.slotItem,hc,Function.update_of_ne hne]

theorem push_storeTail (h : Rel cap s l) {item : α} {tail next_tail : ℕ}
    (hpc : s.push = .storeTail item tail next_tail)
    (hs : pushStep cap vis s obs = some (s',es)) :
    ∃ l', (fifo α cap vis).run l (es.map Event.toFifo) = some l' ∧ Rel cap s' l' := by
  have hp := h.push
  simp only [PushOk,hpc] at hp
  obtain ⟨ht,hn,hroom,hitem⟩ := hp
  simp only [pushStep,hpc,Option.some.injEq,Prod.mk.injEq] at hs
  obtain ⟨rfl,rfl⟩ := hs
  have hle := h.head_le_tail
  have hseen := h.seenHead_le
  refine ⟨l++[(tail,item)],?_,⟨h.head,?_,h.seenHead_le,h.head_le,?_,?_,trivial,h.pop,?_⟩⟩
  · have hlt : l.length < cap.val-1 := by
      rw [h.length_eq]
      omega
    simp only [List.map_cons,List.map_nil,Event.toFifo,Automaton.run_cons]
    rw [boundedFifo.next_push.mpr ⟨hlt,rfl⟩]
    rfl
  · change (s.tail.store next_tail).Follows _
    exact hn ▸ h.tail.store
  · change s.seenTail ≤ (s.tail.store next_tail).newest
    have := h.seenTail_le
    rw [Atomic.newest_store]
    omega
  · change (s.tail.store next_tail).newest ≤ s.seenHead+(cap.val-1)
    rw [Atomic.newest_store]
    exact hroom
  · -- a consumer past its read has moved out another slot's item, not the one just written
    have hshow : s.slotItem tail = item := by
      by_cases heq : s.tail.newest = s.head.newest
      · have hidle : s.readSlot = none := by
          cases hr : s.readSlot with
          | none => rfl
          | some j =>
            have := (h.readSlot_eq hr).2
            omega
        have hb : s.slotItem tail = s.buffer tail := by
          cases hc : s.pop <;> simp_all [State.slotItem,State.readSlot]
        rw [hb,hitem]
      · have hne : tail ≠ s.head.newest % cap.val :=
          fun he => h.tail_slot_ne (Nat.le_refl _) (by omega) (he.symm.trans ht)
        rw [h.slotItem_eq hne,hitem]
    have hw : List.range' s.head.newest (s.tail.newest+1-s.head.newest) =
        s.window++[s.tail.newest] := by
      rw [State.window,show s.tail.newest+1-s.head.newest = s.tail.newest-s.head.newest+1 by omega,
        List.range'_1_concat,show s.head.newest+(s.tail.newest-s.head.newest) = s.tail.newest by omega]
    simp only [State.window,Atomic.newest_store]
    rw [hw,List.map_append,h.held]
    congr 1
    rw [List.map_cons,List.map_nil,List.cons.injEq,Prod.mk.injEq]
    refine ⟨⟨ht,?_⟩,rfl⟩
    change item = s.slotItem (s.tail.newest % cap.val)
    rw [← ht,hshow]

theorem push_refines (h : Rel cap s l) (hs : pushStep cap vis s obs = some (s',es)) :
    ∃ l', (fifo α cap vis).run l (es.map Event.toFifo) = some l' ∧ Rel cap s' l' := by
  cases hpc : s.push with
  | idle => simp [pushStep,hpc] at hs
  | loadTail item =>
    simp only [pushStep,hpc,Option.some.injEq,Prod.mk.injEq] at hs
    obtain ⟨rfl,rfl⟩ := hs
    exact ⟨l,rfl,⟨h.head,h.tail,h.seenHead_le,h.head_le,h.seenTail_le,h.tail_le,
      h.tail.cur_eq,h.pop,h.held⟩⟩
  | loadHead item tail => exact h.push_loadHead hpc hs
  | write item tail next_tail =>
    obtain ⟨rfl,hr⟩ := h.push_write hpc hs
    exact ⟨l,rfl,hr⟩
  | storeTail item tail next_tail => exact h.push_storeTail hpc hs

theorem pop_loadTail (h : Rel cap s l) {head : ℕ} (hpc : s.pop = .loadTail head)
    (hs : popStep cap vis moved s obs = some (s',es)) :
    ∃ l', (fifo α cap vis).run l (es.map Event.toFifo) = some l' ∧ Rel cap s' l' := by
  have hhead : head = s.head.newest % cap.val := by
    have hp := h.pop
    simpa only [PopOk,hpc] using hp
  simp only [popStep,hpc] at hs
  split at hs
  · next hv =>
    obtain ⟨hlo,hhi⟩ := hv.bounds h.seenTail_le
    have hempty := h.empty_iff hlo hhi
    have hle := h.head_le
    rw [h.tail obs hhi,Option.map_some,Option.some.injEq,hhead] at hs
    split at hs
    · next he =>
      cases hs
      -- an empty answer has read a tail that equals the head
      have heq := hempty.mp he
      refine ⟨l,?_,⟨h.head,h.tail,h.seenHead_le,Nat.le_of_eq heq,hhi,h.tail_le,h.push,trivial,?_⟩⟩
      · -- an exact refusal reads the newest tail, so there is nothing between the indices
        have hn : vis = .current → l = [] := by
          intro hc
          subst hc
          have ho : obs = s.tail.newest := hv
          apply List.eq_nil_of_length_eq_zero
          rw [h.length_eq]
          omega
        simp only [List.map_cons,List.map_nil,Event.toFifo,Automaton.run_cons]
        rw [boundedFifo.next_empty.mpr ⟨hn,rfl⟩]
        rfl
      · exact h.held_of_window_eq rfl fun i _ _ => by simp [State.tagged,State.slotItem,hpc]
    · next he =>
      cases hs
      have hne : s.head.newest ≠ obs := fun hc => he (hempty.mpr hc)
      have hlt : s.head.newest < obs := by omega
      refine ⟨l,rfl,⟨h.head,h.tail,h.seenHead_le,hlt.le,hhi,h.tail_le,h.push,⟨rfl,hlt⟩,?_⟩⟩
      exact h.held_of_window_eq rfl fun i _ _ => by simp [State.tagged,State.slotItem,hpc]
  · cases hs

theorem pop_read (h : Rel cap s l) {head : ℕ} (hpc : s.pop = .read head)
    (hs : popStep cap vis moved s obs = some (s',es)) : es = [] ∧ Rel cap s' l := by
  have hp := h.pop
  simp only [PopOk,hpc] at hp
  obtain ⟨hh,hlt⟩ := hp
  have htl := h.seenTail_le
  simp only [popStep,hpc,Option.some.injEq,Prod.mk.injEq] at hs
  obtain ⟨rfl,rfl⟩ := hs
  refine ⟨rfl,⟨h.head,h.tail,h.seenHead_le,h.head_le,h.seenTail_le,h.tail_le,?_,⟨hh,hlt⟩,?_⟩⟩
  · -- the slot moved out of is not the one a push has filled
    have hpush := h.push
    cases hc : s.push with
    | storeTail item tail next_tail =>
      simp only [PushOk,hc] at hpush ⊢
      obtain ⟨ht,hn,hroom,hitem⟩ := hpush
      refine ⟨ht,hn,hroom,?_⟩
      have hne : tail ≠ head := by
        rw [ht,hh]
        exact (h.tail_slot_ne (Nat.le_refl _) (by omega)).symm
      rw [Function.update_of_ne hne,hitem]
    | idle => trivial
    | loadTail item => trivial
    | loadHead item tail => simpa only [PushOk,hc] using hpush
    | write item tail next_tail => simpa only [PushOk,hc] using hpush
  · refine h.held_of_window_eq rfl fun i _ _ => ?_
    by_cases he : i % cap.val = head
    · simp [State.tagged,State.slotItem,hpc,he]
    · simp [State.tagged,State.slotItem,hpc,he]

theorem pop_storeHead (h : Rel cap s l) {head : ℕ} {item : α} (hpc : s.pop = .storeHead head item)
    (hs : popStep cap vis moved s obs = some (s',es)) :
    ∃ l', (fifo α cap vis).run l (es.map Event.toFifo) = some l' ∧ Rel cap s' l' := by
  have hp := h.pop
  simp only [PopOk,hpc] at hp
  obtain ⟨hh,hlt⟩ := hp
  have htl := h.seenTail_le
  have hseen := h.seenHead_le
  simp only [popStep,hpc,Option.some.injEq,Prod.mk.injEq] at hs
  obtain ⟨rfl,rfl⟩ := hs
  have hw : s.window = s.head.newest ::
      List.range' (s.head.newest+1) (s.tail.newest-(s.head.newest+1)) := by
    rw [State.window,show s.tail.newest-s.head.newest = s.tail.newest-(s.head.newest+1)+1 by omega,
      List.range'_succ]
  refine ⟨(List.range' (s.head.newest+1) (s.tail.newest-(s.head.newest+1))).map (s.tagged cap),
    ?_,⟨?_,h.tail,?_,?_,h.seenTail_le,h.tail_le,h.push,trivial,?_⟩⟩
  · have hl : l = (head,item) :: (List.range' (s.head.newest+1)
        (s.tail.newest-(s.head.newest+1))).map (s.tagged cap) := by
      rw [h.held,hw,List.map_cons,List.cons.injEq]
      refine ⟨?_,rfl⟩
      simp [State.tagged,State.slotItem,hpc,hh]
    simp only [List.map_cons,List.map_nil,Event.toFifo,Automaton.run_cons]
    rw [boundedFifo.next_pop.mpr hl]
    rfl
  · change (s.head.store (cap.next head)).Follows _
    rw [hh,cap.next_mod]
    exact h.head.store
  · change s.seenHead ≤ (s.head.store (cap.next head)).newest
    rw [Atomic.newest_store]
    omega
  · change (s.head.store (cap.next head)).newest ≤ s.seenTail
    rw [Atomic.newest_store]
    exact hlt
  · simp only [State.window,Atomic.newest_store]
    apply List.map_congr_left
    intro i hi
    rw [List.mem_range'_1] at hi
    -- only the slot just given back showed an item other than the one stored in it
    have hne : i % cap.val ≠ head := hh ▸ h.head_slot_ne (by omega) (by omega)
    simp [State.tagged,State.slotItem,hpc,hne]

theorem pop_refines (h : Rel cap s l) (hs : popStep cap vis moved s obs = some (s',es)) :
    ∃ l', (fifo α cap vis).run l (es.map Event.toFifo) = some l' ∧ Rel cap s' l' := by
  cases hpc : s.pop with
  | idle => simp [popStep,hpc] at hs
  | loadHead =>
    simp only [popStep,hpc,Option.some.injEq,Prod.mk.injEq] at hs
    obtain ⟨rfl,rfl⟩ := hs
    refine ⟨l,rfl,⟨h.head,h.tail,h.seenHead_le,h.head_le,h.seenTail_le,h.tail_le,h.push,
      h.head.cur_eq,?_⟩⟩
    exact h.held_of_window_eq rfl fun i _ _ => by simp [State.tagged,State.slotItem,hpc]
  | loadTail head => exact h.pop_loadTail hpc hs
  | read head =>
    obtain ⟨rfl,hr⟩ := h.pop_read hpc hs
    exact ⟨l,rfl,hr⟩
  | storeHead head item => exact h.pop_storeHead hpc hs

/-- Every step of either thread is a step of the abstract queue or leaves it alone. -/
theorem step_refines (h : Rel cap s l) {a : Action α}
    (hs : (queue cap vis moved).step s a = some (s',es)) :
    ∃ l', (fifo α cap vis).run l (es.map Event.toFifo) = some l' ∧ Rel cap s' l' := by
  cases a with
  | tryPush item =>
    simp only [queue,step] at hs
    split at hs
    · cases hs
      exact ⟨l,rfl,⟨h.head,h.tail,h.seenHead_le,h.head_le,h.seenTail_le,h.tail_le,trivial,
        h.pop,h.held⟩⟩
    · cases hs
  | producer obs => exact h.push_refines hs
  | tryPop =>
    simp only [queue,step] at hs
    split at hs
    · next hpc =>
      cases hs
      refine ⟨l,rfl,⟨h.head,h.tail,h.seenHead_le,h.head_le,h.seenTail_le,h.tail_le,h.push,
        trivial,?_⟩⟩
      exact h.held_of_window_eq rfl fun i _ _ => by simp [State.tagged,State.slotItem,hpc]
    · cases hs
  | consumer obs => exact h.pop_refines hs

end Rel

end WsClient.SpscQueue
