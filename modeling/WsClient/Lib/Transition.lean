import Mathlib.Data.List.Basic

/-!
# Machines driven by a schedule

A `System` is a partial step function: a state and an action (which thread moves next, and
what the environment answers) give the next state and the events the step emits. A run is
any sequence of enabled steps, so a statement about all runs is a statement about all
interleavings. An `Automaton` is a specification: a partial transition function on events.
`System.RunWhere.refines` carries a step-by-step simulation to whole runs.
-/

namespace WsClient.Lib

/-- A machine over states `σ`; `step s a = none` when the action is not enabled. -/
structure System (σ α ε : Type*) where
  step : σ → α → Option (σ × List ε)

/-- A specification automaton over events `ε`. -/
structure Automaton (τ ε : Type*) where
  next : τ → ε → Option τ

namespace Automaton

variable {τ ε : Type*} (A : Automaton τ ε)

/-- The state after a list of events, if the automaton accepts it. -/
def run (t : τ) : List ε → Option τ
  | [] => some t
  | e :: es => (A.next t e).bind fun u => run u es

@[simp] theorem run_nil (t : τ) : A.run t [] = some t := rfl

@[simp] theorem run_cons (t : τ) (e : ε) (es : List ε) :
    A.run t (e :: es) = (A.next t e).bind fun u => A.run u es := rfl

theorem run_append (t : τ) (es fs : List ε) :
    A.run t (es++fs) = (A.run t es).bind fun u => A.run u fs := by
  induction es generalizing t with
  | nil => rfl
  | cons e es ih =>
    cases h : A.next t e with
    | none => simp [h]
    | some u => simp [h,ih]

theorem run_append_of_eq {t u : τ} {es fs : List ε} (h : A.run t es = some u) :
    A.run t (es++fs) = A.run u fs := by
  rw [run_append,h]
  rfl

/-- Split an accepted trace at any point. -/
theorem run_append_some {t v : τ} {es fs : List ε} (h : A.run t (es++fs) = some v) :
    ∃ u, A.run t es = some u ∧ A.run u fs = some v := by
  rw [run_append] at h
  exact Option.bind_eq_some_iff.mp h

/-- An accepted trace, cut before an event. -/
theorem run_cut {t v : τ} {pre post : List ε} {e : ε} (h : A.run t (pre++e :: post) = some v) :
    ∃ u w, A.run t pre = some u ∧ A.next u e = some w ∧ A.run w post = some v := by
  obtain ⟨u,hu,he⟩ := A.run_append_some h
  obtain ⟨w,hw,hpost⟩ := Option.bind_eq_some_iff.mp he
  exact ⟨u,w,hu,hw,hpost⟩

/-- What every transition preserves of the events so far holds of every accepted trace. -/
theorem run_invariant {S : List ε → τ → Prop} {t u : τ} {es : List ε} (h₀ : S [] t)
    (hstep : ∀ fs v e w, S fs v → A.next v e = some w → S (fs++[e]) w)
    (h : A.run t es = some u) : S es u := by
  suffices hall : ∀ fs t, S fs t → A.run t es = some u → S (fs++es) u from hall [] t h₀ h
  clear h₀ h
  induction es with
  | nil =>
    intro fs t hs h
    cases h
    rwa [List.append_nil]
  | cons e es ih =>
    intro fs t hs h
    obtain ⟨w,hw,h⟩ := Option.bind_eq_some_iff.mp h
    have hnext := ih (fs++[e]) w (hstep fs t e w hs hw) h
    rwa [List.append_assoc] at hnext

end Automaton

namespace System

variable {σ α ε : Type*} (M : System σ α ε)

/-- Runs from `s₀` all of whose steps satisfy `P` on the state before the step and the
action taken. The list is the trace of emitted events. -/
inductive RunWhere (P : σ → α → Prop) (s₀ : σ) : List ε → σ → Prop
  | start : RunWhere P s₀ [] s₀
  | step {tr : List ε} {s s' : σ} {a : α} {es : List ε} :
      RunWhere P s₀ tr s → P s a → M.step s a = some (s',es) → RunWhere P s₀ (tr++es) s'

/-- All runs from `s₀`. -/
abbrev Run (s₀ : σ) (tr : List ε) (s : σ) : Prop := M.RunWhere (fun _ _ => True) s₀ tr s

variable {M} {P : σ → α → Prop} {s₀ s : σ} {tr : List ε}

/-- One-step preservation of a statement about trace and state gives it on every run. -/
theorem RunWhere.invariant {I : List ε → σ → Prop} (h₀ : I [] s₀)
    (hstep : ∀ tr s a s' es, I tr s → P s a → M.step s a = some (s',es) → I (tr++es) s')
    (h : M.RunWhere P s₀ tr s) : I tr s := by
  induction h with
  | start => exact h₀
  | step _ hp hs ih => exact hstep _ _ _ _ _ ih hp hs

theorem RunWhere.mono {Q : σ → α → Prop} (h : M.RunWhere P s₀ tr s)
    (hpq : ∀ s a, P s a → Q s a) : M.RunWhere Q s₀ tr s := by
  induction h with
  | start => exact .start
  | step _ hp hs ih => exact .step ih (hpq _ _ hp) hs

/-- A run goes on from where another one ends. -/
theorem RunWhere.append {s' : σ} {fs : List ε} (h : M.RunWhere P s₀ tr s)
    (h' : M.RunWhere P s fs s') : M.RunWhere P s₀ (tr++fs) s' := by
  induction h' with
  | start => rwa [List.append_nil]
  | step _ hp hs ih =>
    rw [← List.append_assoc]
    exact ih.step hp hs

/-- Proof rule: where some allowed step decreases a measure until the goal is reached, the goal
can be reached from every state that satisfies the invariant. -/
theorem RunWhere.reaches {I : List ε → σ → Prop} {G : σ → Prop} (μ : σ → ℕ)
    (hstep : ∀ tr s, I tr s → ¬G s → ∃ a s' es, P s a ∧ M.step s a = some (s',es) ∧
      I (tr++es) s' ∧ μ s' < μ s)
    (h : I tr s) : ∃ fs s', M.RunWhere P s fs s' ∧ I (tr++fs) s' ∧ G s' := by
  -- the measure bounds how many steps are left to choose
  induction hn : μ s using Nat.strongRecOn generalizing tr s with
  | ind n ih =>
    by_cases hg : G s
    · refine ⟨[],s,.start,?_,hg⟩
      rwa [List.append_nil]
    · obtain ⟨a,s',es,hp,hs,hi,hlt⟩ := hstep tr s h hg
      obtain ⟨fs,s'',hrun,hi',hg'⟩ := ih (μ s') (hn ▸ hlt) hi rfl
      refine ⟨es++fs,s'',?_,?_,hg'⟩
      · exact (RunWhere.start.step hp hs).append hrun
      · rwa [← List.append_assoc]

/-- A step-by-step simulation `R` by a specification automaton: every trace is accepted,
and `R` relates the states reached. -/
theorem RunWhere.refines {τ δ : Type*} {A : Automaton τ δ} {R : σ → τ → Prop}
    {g : ε → Option δ} {t₀ : τ} (h₀ : R s₀ t₀)
    (hstep : ∀ s t a s' es, R s t → P s a → M.step s a = some (s',es) →
      ∃ t', A.run t (es.filterMap g) = some t' ∧ R s' t')
    (h : M.RunWhere P s₀ tr s) : ∃ t, A.run t₀ (tr.filterMap g) = some t ∧ R s t := by
  induction h with
  | start => exact ⟨t₀,rfl,h₀⟩
  | step _ hp hs ih =>
    obtain ⟨t,hrun,hr⟩ := ih
    obtain ⟨t',hrun',hr'⟩ := hstep _ t _ _ _ hr hp hs
    refine ⟨t',?_,hr'⟩
    rw [List.filterMap_append,A.run_append_of_eq hrun]
    exact hrun'

/-- A component of a larger machine: when every step either moves the component by one of
its own steps, with the component's events, or leaves it alone, runs project. -/
theorem RunWhere.project {τ β δ : Type*} {N : System τ β δ} {f : σ → τ} {g : ε → Option δ}
    (hstep : ∀ s a s' es, P s a → M.step s a = some (s',es) →
      (f s' = f s ∧ es.filterMap g = []) ∨
        ∃ b, N.step (f s) b = some (f s',es.filterMap g))
    (h : M.RunWhere P s₀ tr s) : N.Run (f s₀) (tr.filterMap g) (f s) := by
  induction h with
  | start => exact .start
  | step _ hp hs ih =>
    rw [List.filterMap_append]
    rcases hstep _ _ _ _ hp hs with ⟨hf,he⟩ | ⟨b,hb⟩
    · rw [hf,he,List.append_nil]
      exact ih
    · exact .step ih trivial hb

section exec

variable (M) (P) [∀ s a, Decidable (P s a)]

/-- A schedule in blocks, each with the number of times it is repeated. -/
def schedule : List (ℕ × List α) → List α
  | [] => []
  | (n,block) :: rest => n.rec (schedule rest) fun _ l => block.foldr List.cons l

/-- Follow an explicit schedule, refusing steps that are disabled or violate `P`. -/
def execWhere (s : σ) : List α → Option (σ × List ε)
  | [] => some (s,[])
  | a :: as =>
    if P s a then
      match M.step s a with
      | none => none
      | some (s',es) =>
        match execWhere s' as with
        | none => none
        | some (s'',fs) => some (s'',es++fs)
    else none

variable {M P}

theorem RunWhere.exec {as : List α} {s' : σ} {fs : List ε} (h : M.RunWhere P s₀ tr s)
    (he : M.execWhere P s as = some (s',fs)) : M.RunWhere P s₀ (tr++fs) s' := by
  induction as generalizing s tr fs with
  | nil =>
    simp only [execWhere,Option.some.injEq,Prod.mk.injEq] at he
    obtain ⟨rfl,rfl⟩ := he
    simpa using h
  | cons a as ih =>
    simp only [execWhere] at he
    split at he
    · next hp =>
      split at he
      · cases he
      · next s₁ es hs =>
        split at he
        · cases he
        · next s₂ gs hg =>
          simp only [Option.some.injEq,Prod.mk.injEq] at he
          obtain ⟨rfl,rfl⟩ := he
          rw [← List.append_assoc]
          exact ih (h.step hp hs) hg
    · cases he

theorem run_of_exec {l : List α} {s' : σ} {fs : List ε} (he : M.execWhere P s l = some (s',fs)) :
    M.RunWhere P s fs s' :=
  RunWhere.exec .start he

/-- Proof rule: an answer is at most as many steps of one's own away as a measure says, if each
of them lowers it and a step of chance raises it by no more than `k`. The invariant may speak of
what the rest of the schedule holds. -/
theorem exec_answers {I : List α → σ → Prop} (busy : σ → ℕ) (own chance : α → Bool) (k : ℕ)
    (answer : ε → Prop)
    (hstep : ∀ s a l s' es, I (a :: l) s → P s a → M.step s a = some (s',es) →
      (∃ e ∈ es, answer e) ∨ I l s' ∧ busy s'+(own a).toNat ≤ busy s+k*(chance a).toNat)
    {l : List α} {s' : σ} {fs : List ε} (hi : I l s) (he : M.execWhere P s l = some (s',fs)) :
    (∃ e ∈ fs, answer e) ∨ I [] s' ∧ busy s'+l.countP own ≤ busy s+k*l.countP chance := by
  induction l generalizing s fs with
  | nil =>
    cases he
    exact .inr ⟨hi,Nat.le_refl _⟩
  | cons a l ih =>
    simp only [execWhere] at he
    split at he
    · next hp =>
      split at he
      · cases he
      · next s₁ es hs =>
        split at he
        · cases he
        · next s₂ gs hg =>
          cases he
          rcases hstep _ _ _ _ _ hi hp hs with ⟨e,hmem,hans⟩ | ⟨hi₁,hle⟩
          · exact .inl ⟨e,List.mem_append_left _ hmem,hans⟩
          · rcases ih hi₁ hg with ⟨e,hmem,hans⟩ | ⟨hi',hrest⟩
            · exact .inl ⟨e,List.mem_append_right _ hmem,hans⟩
            · have hcount : ∀ p : α → Bool, (a :: l).countP p = l.countP p+(p a).toNat := by
                intro p
                rw [List.countP_cons]
                cases p a <;> rfl
              rw [hcount own,hcount chance,Nat.mul_add]
              exact .inr ⟨hi',by omega⟩
    · cases he

/-- Proof rule: a measure that no step raises and every step of one's own lowers bounds how many
steps of one's own a run has. -/
theorem exec_measure {I : σ → Prop} (μ : σ → ℕ) (own : α → Bool)
    (hstep : ∀ s a s' es, I s → P s a → M.step s a = some (s',es) →
      I s' ∧ μ s'+(own a).toNat ≤ μ s)
    {l : List α} {s' : σ} {fs : List ε} (hi : I s) (he : M.execWhere P s l = some (s',fs)) :
    I s' ∧ μ s'+l.countP own ≤ μ s := by
  have hrule := exec_answers (I := fun _ s => I s) μ own (fun _ => false) 0 (fun _ => False)
    (fun s a _ s' es hi hp hs => .inr (by simpa using hstep s a s' es hi hp hs)) hi he
  simpa using hrule

/-- A schedule whose outcome passes a check is a run that does. -/
theorem exists_run_of_exec {l : List α} {p : σ × List ε → Bool}
    (h : (M.execWhere P s l).any p = true) : ∃ s' fs, M.RunWhere P s fs s' ∧ p (s',fs) = true := by
  obtain ⟨⟨s',fs⟩,he,hp⟩ := (Option.any_eq_true _ _).mp h
  exact ⟨s',fs,run_of_exec he,hp⟩

end exec

end System

end WsClient.Lib
