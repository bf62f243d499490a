import Mathlib.Data.List.Basic
import Mathlib.Logic.Relation

/-!
# Happens-before and data races

A trace of memory accesses in the order in which they take effect. An access happens before
another one through program order and through loads that acquire what a store has released; a data
race is a pair of conflicting accesses that it does not order.

`Handover` is the pattern of a counter: one thread uses numbered locations, counting up with a
release store after each use, and the other thread acquires the count.
-/

namespace WsClient.Lib

/-- `std::memory_order`, as far as loads and stores use it. -/
inductive MemoryOrder
  | relaxed
  | acquire
  | release
  deriving DecidableEq, Repr

/-- An access to an atomic variable of `χ`, with its memory order and the position in the
variable's modification order, or to a location of `κ` that is not atomic. -/
inductive Access (χ κ : Type*)
  | load (x : χ) (order : MemoryOrder) (pos : ℕ)
  | store (x : χ) (order : MemoryOrder) (pos : ℕ)
  | read (loc : κ)
  | write (loc : κ)
  deriving DecidableEq, Repr

/-- An access by a thread. -/
structure MemEvent (τ χ κ : Type*) where
  thread : τ
  access : Access χ κ
  deriving DecidableEq, Repr

namespace Access

variable {χ κ : Type*}

/-- The location, where it is not atomic. -/
def loc? : Access χ κ → Option κ
  | .read loc | .write loc => some loc
  | _ => none

def writes : Access χ κ → Bool
  | .write _ => true
  | _ => false

/-- A release store whose value the acquire load `b` reads. -/
def SynchronizesWith (a b : Access χ κ) : Prop :=
  ∃ x pos, a = .store x .release pos ∧ b = .load x .acquire pos

/-- Both are at one location that is not atomic, and one of them writes. -/
def Conflicts (a b : Access χ κ) : Prop :=
  ∃ loc, a.loc? = some loc ∧ b.loc? = some loc ∧ (a.writes = true ∨ b.writes = true)

end Access

variable {τ χ κ : Type*}

/-- Program order, or synchronisation. -/
def Direct (tr : List (MemEvent τ χ κ)) (i j : ℕ) : Prop :=
  i < j ∧ ∃ e f, tr[i]? = some e ∧ tr[j]? = some f ∧
    (e.thread = f.thread ∨ e.access.SynchronizesWith f.access)

/-- The access at index `i` happens before the one at index `j`. -/
def HappensBefore (tr : List (MemEvent τ χ κ)) : ℕ → ℕ → Prop := Relation.TransGen (Direct tr)

/-- A data race: conflicting accesses by two threads in no order. -/
def Race (tr : List (MemEvent τ χ κ)) (i j : ℕ) : Prop :=
  i < j ∧ ∃ e f, tr[i]? = some e ∧ tr[j]? = some f ∧ e.thread ≠ f.thread ∧
    e.access.Conflicts f.access ∧ ¬HappensBefore tr i j

def RaceFree (tr : List (MemEvent τ χ κ)) : Prop := ∀ i j, ¬Race tr i j

/-- Access `i` happens before whatever thread `t` does next. -/
def Known (tr : List (MemEvent τ χ κ)) (t : τ) (i : ℕ) : Prop :=
  ∃ j e, tr[j]? = some e ∧ e.thread = t ∧ (i = j ∨ HappensBefore tr i j)

/-- Access `i` happens before the release store that made position `pos` of `x`, or is it. -/
def Released (tr : List (MemEvent τ χ κ)) (x : χ) (pos i : ℕ) : Prop :=
  ∃ j e, tr[j]? = some e ∧ e.access = .store x .release pos ∧ (i = j ∨ HappensBefore tr i j)

section append

variable {tr : List (MemEvent τ χ κ)} {e f : MemEvent τ χ κ} {i j pos : ℕ} {t : τ} {x : χ}

theorem getElem?_concat : (tr++[e])[i]? = some f ↔
    tr[i]? = some f ∨ i = tr.length ∧ f = e := by
  rcases Nat.lt_trichotomy i tr.length with hlt | rfl | hgt
  · rw [List.getElem?_append_left hlt]
    exact ⟨.inl,fun h => h.resolve_right fun he => absurd he.1 (Nat.ne_of_lt hlt)⟩
  · rw [List.getElem?_concat_length,List.getElem?_eq_none (Nat.le_refl _)]
    simp [eq_comm]
  · have hlen : (tr++[e]).length ≤ i := by
      rw [List.length_append]
      exact hgt
    rw [List.getElem?_eq_none hlen,List.getElem?_eq_none (Nat.le_of_lt hgt)]
    simp [Nat.ne_of_gt hgt]

theorem getElem?_concat_of_some (h : tr[i]? = some f) : (tr++[e])[i]? = some f :=
  getElem?_concat.mpr (.inl h)

theorem Direct.concat (h : Direct tr i j) : Direct (tr++[e]) i j := by
  obtain ⟨hlt,a,b,ha,hb,hor⟩ := h
  exact ⟨hlt,a,b,getElem?_concat_of_some ha,getElem?_concat_of_some hb,hor⟩

theorem HappensBefore.concat (h : HappensBefore tr i j) : HappensBefore (tr++[e]) i j :=
  Relation.TransGen.mono (fun _ _ (hd : Direct tr _ _) => hd.concat) _ _ h

theorem Known.concat (h : Known tr t i) : Known (tr++[e]) t i := by
  obtain ⟨j,a,ha,ht,hor⟩ := h
  exact ⟨j,a,getElem?_concat_of_some ha,ht,hor.imp_right HappensBefore.concat⟩

theorem Released.concat (h : Released tr x pos i) : Released (tr++[e]) x pos i := by
  obtain ⟨j,a,ha,hs,hor⟩ := h
  exact ⟨j,a,getElem?_concat_of_some ha,hs,hor.imp_right HappensBefore.concat⟩

theorem known_of_thread (h : tr[i]? = some e) : Known tr e.thread i := ⟨i,e,h,rfl,.inl rfl⟩

theorem getElem?_last : (tr++[e])[tr.length]? = some e := getElem?_concat.mpr (.inr ⟨rfl,rfl⟩)

/-- What a thread knows happens before its next access. -/
theorem Known.happensBefore (h : Known tr e.thread i) : HappensBefore (tr++[e]) i tr.length := by
  obtain ⟨j,a,ha,ht,hor⟩ := h
  have hj : j < tr.length := (List.getElem?_eq_some_iff.mp ha).1
  have hd : Direct (tr++[e]) j tr.length :=
    ⟨hj,a,e,getElem?_concat_of_some ha,getElem?_last,.inl ht⟩
  rcases hor with rfl | hb
  · exact .single hd
  · exact .tail hb.concat hd

/-- A release store passes on what its thread knows. -/
theorem Known.release (h : Known tr e.thread i) (he : e.access = .store x .release pos) :
    Released (tr++[e]) x pos i :=
  ⟨tr.length,e,getElem?_last,he,.inr h.happensBefore⟩

/-- An acquire load takes over what the store it reads has released. -/
theorem Released.acquire (h : Released tr x pos i) (he : e.access = .load x .acquire pos) :
    Known (tr++[e]) e.thread i := by
  obtain ⟨j,a,ha,hs,hor⟩ := h
  have hj : j < tr.length := (List.getElem?_eq_some_iff.mp ha).1
  have hd : Direct (tr++[e]) j tr.length :=
    ⟨hj,a,e,getElem?_concat_of_some ha,getElem?_last,.inr ⟨x,pos,hs,he⟩⟩
  refine ⟨tr.length,e,getElem?_last,rfl,.inr ?_⟩
  rcases hor with rfl | hb
  · exact .single hd
  · exact .tail hb.concat hd

theorem raceFree_nil : RaceFree ([] : List (MemEvent τ χ κ)) := by
  rintro i j ⟨_,a,_,ha,_⟩
  cases ha

/-- Proof rule: a trace has no race if each thread knows, at each access, the conflicting ones that
other threads have made. -/
theorem RaceFree.concat (h : RaceFree tr)
    (hknown : ∀ i a, tr[i]? = some a → a.thread ≠ e.thread → a.access.Conflicts e.access →
      Known tr e.thread i) : RaceFree (tr++[e]) := by
  rintro i j ⟨hlt,a,b,ha,hb,hne,hconf,hnot⟩
  rcases getElem?_concat.mp hb with hb | ⟨rfl,rfl⟩
  · -- both accesses are old
    rcases getElem?_concat.mp ha with ha | ⟨rfl,_⟩
    · exact h i j ⟨hlt,a,b,ha,hb,hne,hconf,fun hhb => hnot hhb.concat⟩
    · have hj : j < tr.length := (List.getElem?_eq_some_iff.mp hb).1
      omega
  · rcases getElem?_concat.mp ha with ha | ⟨rfl,_⟩
    · exact hnot (hknown i a ha hne hconf).happensBefore
    · exact absurd hlt (Nat.lt_irrefl _)

theorem RaceFree.concat_of_atomic (h : RaceFree tr) (he : e.access.loc? = none) :
    RaceFree (tr++[e]) := by
  refine h.concat fun i a _ _ hconf => ?_
  obtain ⟨loc,_,hloc,_⟩ := hconf
  rw [he] at hloc
  cases hloc

/-- Into a thread that synchronises with no other one, happens-before leads only from itself. -/
theorem HappensBefore.thread_eq {a b : MemEvent τ χ κ} (h : HappensBefore tr i j)
    (hnone : ∀ a ∈ tr, ∀ b ∈ tr, a.access.SynchronizesWith b.access → b.thread = t → a.thread = t)
    (ha : tr[i]? = some a) (hb : tr[j]? = some b) (ht : b.thread = t) : a.thread = t := by
  induction h generalizing b with
  | single hd =>
    obtain ⟨_,a',b',ha',hb',hor⟩ := hd
    cases ha.symm.trans ha'
    cases hb.symm.trans hb'
    rcases hor with he | hs
    · exact he.trans ht
    · exact hnone _ (List.mem_of_getElem? ha) _ (List.mem_of_getElem? hb) hs ht
  | tail _ hd ih =>
    obtain ⟨_,c,b',hc,hb',hor⟩ := hd
    cases hb.symm.trans hb'
    refine ih hc ?_
    rcases hor with he | hs
    · exact he.trans ht
    · exact hnone _ (List.mem_of_getElem? hc) _ (List.mem_of_getElem? hb) hs ht

/-- Accesses of the two parts of a trace race if they conflict and the thread of the second one
synchronizes with no other. -/
theorem not_raceFree_append {us vs : List (MemEvent τ χ κ)} {a b : MemEvent τ χ κ} (ha : a ∈ us)
    (hb : b ∈ vs) (hne : a.thread ≠ b.thread) (hconf : a.access.Conflicts b.access)
    (hnone : ∀ c ∈ us++vs, ∀ d ∈ us++vs, c.access.SynchronizesWith d.access →
      d.thread = b.thread → c.thread = b.thread) : ¬RaceFree (us++vs) := by
  intro hfree
  obtain ⟨i,hi,hia⟩ := List.getElem_of_mem ha
  obtain ⟨j,hj,hjb⟩ := List.getElem_of_mem hb
  have hat : (us++vs)[i]? = some a := by
    rw [List.getElem?_append_left hi,List.getElem?_eq_getElem hi,hia]
  have hbt : (us++vs)[us.length+j]? = some b := by
    rw [List.getElem?_append_right (Nat.le_add_right _ _),Nat.add_sub_cancel_left,
      List.getElem?_eq_getElem hj,hjb]
  exact hfree i (us.length+j) ⟨by omega,a,b,hat,hbt,hne,hconf,
    fun hhb => hne (hhb.thread_eq hnone hat hbt rfl)⟩

end append

/-- Thread `t` uses the locations `slot 0`, `slot 1`, .. below `slot done`, the stores to `x` up to
position `n` have released the uses below them, and `u` knows the uses below `m`. -/
def Handover (tr : List (MemEvent τ χ κ)) (t u : τ) (x : χ) (slot : ℕ → κ) (done n m : ℕ) : Prop :=
  ∀ i e loc, tr[i]? = some e → e.thread = t → e.access.loc? = some loc →
    ∃ k, loc = slot k ∧ k < done ∧ (∀ pos, k < pos → pos ≤ n → Released tr x pos i) ∧
      (k < m → Known tr u i)

namespace Handover

variable {tr : List (MemEvent τ χ κ)} {e : MemEvent τ χ κ} {t u : τ} {x : χ} {slot : ℕ → κ}
  {done n m : ℕ}

theorem nil : Handover ([] : List (MemEvent τ χ κ)) t u x slot done n m := by
  intro i e loc he
  cases he

/-- Accesses other than those of `t` to the locations. -/
theorem other (h : Handover tr t u x slot done n m) (he : e.thread = t → e.access.loc? = none) :
    Handover (tr++[e]) t u x slot done n m := by
  intro i a loc ha ht hloc
  rcases getElem?_concat.mp ha with ha | ⟨rfl,rfl⟩
  · obtain ⟨k,hk,hlt,hrel,hknown⟩ := h i a loc ha ht hloc
    exact ⟨k,hk,hlt,fun pos hlo hhi => (hrel pos hlo hhi).concat,fun hm => (hknown hm).concat⟩
  · rw [he ht] at hloc
    cases hloc

/-- Use number `n`. -/
theorem use (h : Handover tr t u x slot done n m) (he : e.access.loc? = some (slot n))
    (hdone : done ≤ n+1) (hm : m ≤ n) : Handover (tr++[e]) t u x slot (n+1) n m := by
  intro i a loc ha ht hloc
  rcases getElem?_concat.mp ha with ha | ⟨rfl,rfl⟩
  · obtain ⟨k,hk,hlt,hrel,hknown⟩ := h i a loc ha ht hloc
    exact ⟨k,hk,Nat.lt_of_lt_of_le hlt hdone,fun pos hlo hhi => (hrel pos hlo hhi).concat,
      fun hm => (hknown hm).concat⟩
  · rw [he] at hloc
    exact ⟨n,(Option.some.inj hloc).symm,Nat.lt_succ_self n,fun pos hlo hhi => by omega,
      fun hk => by omega⟩

/-- The store that counts the last use releases it, with all earlier ones. -/
theorem count (h : Handover tr t u x slot done n m) (ht : e.thread = t)
    (he : e.access = .store x .release (n+1)) : Handover (tr++[e]) t u x slot done (n+1) m := by
  intro i a loc ha hat hloc
  rcases getElem?_concat.mp ha with ha | ⟨rfl,rfl⟩
  · obtain ⟨k,hk,hlt,hrel,hknown⟩ := h i a loc ha hat hloc
    refine ⟨k,hk,hlt,fun pos hlo hhi => ?_,fun hm => (hknown hm).concat⟩
    rcases Nat.lt_or_ge n pos with hlast | hle
    · obtain rfl : pos = n+1 := by omega
      have hown : Known tr e.thread i := by
        rw [ht,← hat]
        exact known_of_thread ha
      exact hown.release he
    · exact (hrel pos hlo hle).concat
  · rw [he] at hloc
    cases hloc

/-- The load that reads count `pos` acquires the uses below it. -/
theorem see {pos : ℕ} (h : Handover tr t u x slot done n m) (hu : e.thread = u)
    (he : e.access = .load x .acquire pos) (hpos : pos ≤ n) :
    Handover (tr++[e]) t u x slot done n pos := by
  intro i a loc ha hat hloc
  rcases getElem?_concat.mp ha with ha | ⟨rfl,rfl⟩
  · obtain ⟨k,hk,hlt,hrel,_⟩ := h i a loc ha hat hloc
    refine ⟨k,hk,hlt,fun p hlo hhi => (hrel p hlo hhi).concat,fun hlow => ?_⟩
    rw [← hu]
    exact (hrel pos hlow hpos).acquire he
  · rw [he] at hloc
    cases hloc

/-- The other thread's access to a location is ordered after the uses of it, if it knows them. -/
theorem known (h : Handover tr t u x slot done n m) {i : ℕ} {a b : MemEvent τ χ κ} {j : ℕ}
    (ha : tr[i]? = some a) (ht : a.thread = t) (hconf : a.access.Conflicts b.access)
    (hb : b.access.loc? = some (slot j)) (hm : ∀ k < done, slot k = slot j → k < m) :
    Known tr u i := by
  obtain ⟨loc,hloc,hloc',_⟩ := hconf
  obtain rfl : slot j = loc := Option.some.inj (hb.symm.trans hloc')
  obtain ⟨k,hk,hlt,_,hknown⟩ := h i a _ ha ht hloc
  exact hknown (hm k hlt hk.symm)

end Handover

end WsClient.Lib
