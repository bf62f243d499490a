import Mathlib.Data.List.Basic

/-!
# Monitors

Data behind a mutex, with one condition variable. `wait` gives the mutex up and falls asleep in one
step; whoever is woken has to take the mutex again and test what it has been waiting for. Two
rules: only the holder of the mutex is inside, and a sleeper whose condition has come to hold is
owed a notification.
-/

namespace WsClient.Lib

/-- The holder of the mutex, the threads asleep in `wait`, and the data. -/
structure Monitor (θ σ : Type*) where
  owner : Option θ
  asleep : List θ
  data : σ

namespace Monitor

variable {θ σ : Type*}

/-- Taking the mutex, which blocks while it is held. -/
def lock (m : Monitor θ σ) (t : θ) : Option (Monitor θ σ) :=
  match m.owner with
  | none => some { m with owner := some t }
  | some _ => none

def unlock (m : Monitor θ σ) : Monitor θ σ := { m with owner := none }

def update (m : Monitor θ σ) (f : σ → σ) : Monitor θ σ := { m with data := f m.data }

/-- `wait` up to the point where the thread sleeps. -/
def wait (m : Monitor θ σ) (t : θ) : Monitor θ σ :=
  { m with owner := none, asleep := t :: m.asleep }

/-- The end of a sleep, notified or spurious. -/
def wake [DecidableEq θ] (m : Monitor θ σ) (t : θ) : Monitor θ σ := { m with asleep := m.asleep.erase t }

/-- `notify_one`, which wakes one of the sleepers, if there are any. -/
def notifyOne [DecidableEq θ] (m : Monitor θ σ) : Monitor θ σ :=
  match m.asleep with
  | [] => m
  | t :: _ => m.wake t

variable {m m' : Monitor θ σ} {t u : θ} {inside inside' : θ → Prop}

theorem notifyOne_frame [DecidableEq θ] :
    m.notifyOne.owner = m.owner ∧ m.notifyOne.data = m.data := by
  unfold notifyOne
  split <;> exact ⟨rfl,rfl⟩

/-- A thread is inside exactly when it holds the mutex. -/
def Guards (inside : θ → Prop) (m : Monitor θ σ) : Prop := ∀ t, inside t ↔ m.owner = some t

theorem Guards.exclusive (h : Guards inside m) (ht : inside t) (hu : inside u) : t = u :=
  Option.some.inj (((h t).mp ht).symm.trans ((h u).mp hu))

theorem lock_some (h : m.lock t = some m') :
    m.owner = none ∧ m' = { m with owner := some t } := by
  unfold lock at h
  split at h
  · next howner =>
    cases h
    exact ⟨howner,rfl⟩
  · cases h

/-- The mutex is taken when nobody holds it. -/
theorem Guards.lock (h : Guards inside m) (hfree : m.owner = none) (howner : m'.owner = some t)
    (hin : ∀ u, inside' u ↔ u = t ∨ inside u) : Guards inside' m' := by
  intro u
  rw [hin,h u,hfree,howner]
  simp [eq_comm]

/-- The holder gives the mutex up. -/
theorem Guards.leave (h : Guards inside m) (ht : inside t) (howner : m'.owner = none)
    (hin : ∀ u, inside' u ↔ inside u ∧ u ≠ t) : Guards inside' m' := by
  intro u
  rw [hin,howner]
  refine iff_of_false (fun hu => hu.2 ?_) (by simp)
  exact h.exclusive hu.1 ht

theorem Guards.keep (h : Guards inside m) (howner : m'.owner = m.owner)
    (hin : ∀ u, inside' u ↔ inside u) : Guards inside' m' := by
  intro u
  rw [hin,howner]
  exact h u

/-- The only thread that ever waits is `t`, and when it sleeps although the data is as it wants
it, somebody owes it a notification. -/
def Attended (awaited : σ → Prop) (owed : Prop) (t : θ) (m : Monitor θ σ) : Prop :=
  (∀ u ∈ m.asleep, u = t) ∧ m.asleep.Nodup ∧ (t ∈ m.asleep → ¬awaited m.data ∨ owed)

variable {awaited : σ → Prop} {owed owed' : Prop}

theorem Attended.keep (h : Attended awaited owed t m) (hasleep : m'.asleep = m.asleep)
    (hdata : m'.data = m.data) (howed : owed → owed') : Attended awaited owed' t m' := by
  obtain ⟨honly,hnodup,hsleep⟩ := h
  refine ⟨?_,?_,?_⟩ <;> rw [hasleep]
  · exact honly
  · exact hnodup
  · rw [hdata]
    exact fun ht => (hsleep ht).imp_right howed

/-- While the thread is awake nothing is owed to it. -/
theorem Attended.awake (h : Attended awaited owed t m) (hasleep : m'.asleep = m.asleep)
    (hawake : t ∉ m.asleep) : Attended awaited owed' t m' := by
  obtain ⟨honly,hnodup,_⟩ := h
  rw [Attended,hasleep]
  exact ⟨honly,hnodup,fun ht => absurd ht hawake⟩

/-- A change of the data is made good by a notification that is owed from then on. -/
theorem Attended.update (h : Attended awaited owed t m) (hasleep : m'.asleep = m.asleep)
    (howed : owed') : Attended awaited owed' t m' := by
  obtain ⟨honly,hnodup,_⟩ := h
  rw [Attended,hasleep]
  exact ⟨honly,hnodup,fun _ => .inr howed⟩

/-- The thread has tested the data before it falls asleep. -/
theorem Attended.wait (h : Attended awaited owed t m) (hawake : t ∉ m.asleep)
    (hdata : ¬awaited m.data) : Attended awaited owed' t (m.wait t) := by
  obtain ⟨honly,hnodup,_⟩ := h
  refine ⟨?_,List.nodup_cons.mpr ⟨hawake,hnodup⟩,fun _ => .inl hdata⟩
  intro u hu
  rcases List.mem_cons.mp hu with hu | hu
  · exact hu
  · exact honly u hu

theorem Attended.not_asleep_wake [DecidableEq θ] (h : Attended awaited owed t m) :
    (m.wake t).asleep = [] := by
  obtain ⟨honly,hnodup,_⟩ := h
  cases hl : m.asleep with
  | nil => simp [Monitor.wake,hl]
  | cons u l =>
    have hu : u = t := honly u (by simp [hl])
    subst hu
    cases l with
    | nil => simp [Monitor.wake,hl]
    | cons v l =>
      have hv : v = u := honly v (by simp [hl])
      subst hv
      rw [hl] at hnodup
      simp at hnodup

theorem Attended.wake [DecidableEq θ] (h : Attended awaited owed t m) :
    Attended awaited owed' t (m.wake t) := by
  rw [Attended,h.not_asleep_wake]
  simp

/-- With a single thread that waits, `notify_one` is enough: afterwards nobody sleeps. -/
theorem Attended.not_asleep_notifyOne [DecidableEq θ] (h : Attended awaited owed t m) :
    m.notifyOne.asleep = [] := by
  unfold Monitor.notifyOne
  split
  · next hl => exact hl
  · next u l hl =>
    have hu : u = t := h.1 u (by simp [hl])
    rw [hu]
    exact h.not_asleep_wake

theorem Attended.notifyOne [DecidableEq θ] (h : Attended awaited owed t m) :
    Attended awaited owed' t m.notifyOne := by
  rw [Attended,h.not_asleep_notifyOne]
  simp

end Monitor

end WsClient.Lib
