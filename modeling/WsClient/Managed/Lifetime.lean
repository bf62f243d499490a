import WsClient.Managed.Model

/-!
# The client outlives the session

The manager's threads reset `client_` after a loss, and know nothing of the reference that
`chat_session` holds. As long as they do not reset it before `chat_session` has returned, the
client it was given stays the manager's; once they do, it never is again. What leads them to such
a reset is told apart in `WsClient.Managed.Handover`.
-/

namespace WsClient.Managed
open WsClient.Lib WsClient.Client

/-- Runs in which no thread resets `client_` while `chat_session` runs. -/
def Kept {ρ β : Type*} (s : State ρ) : Action β → Prop
  | .manager a => s.main.pc = .managed .session → s.session.chat ≠ .returned →
      (a.position s.main.manager).any Connection.Driver.resets = false
  | _ => True

instance {ρ β : Type*} : ∀ (s : State ρ) (a : Action β), Decidable (Kept s a) := by
  intro s a
  unfold Kept
  split <;> infer_instance

/-- The manager as one of its own runs leaves it, with the numbers of its clients. -/
structure Manager (s : Connection.State) : Prop where
  solo : Connection.Solo s
  owned : Connection.Owned s.driver s.members
  numbered : ∀ g, s.members.current = some g → g < s.members.generation

variable {ρ β : Type*} {sslEnabled : Bool} {argv : List String} {moved : Message → Message}
  {ndebug : Bool} {server : System (Session.Wire × ρ) β Empty} {srv : ρ} {s s' : State ρ}
  {a : Action β} {es : List Event}

section manager

variable {cfg : Connection.ConnectionConfig} {m m' : Connection.State} {b : Connection.Action}
  {mes : List Connection.Event}

theorem Manager.step (h : Manager m) (ho : Connection.Once m b)
    (ht : Connection.Transition cfg m b mes m') : Manager m' := by
  refine ⟨h.solo.step ho ht,h.owned.transition h.solo ho ht,fun g hg => ?_⟩
  have hr := ht.renumbers
  rcases hr.current g hg with hsame | ⟨_,_,hnew⟩
  · exact Nat.lt_of_lt_of_le (h.numbered g hsame) hr.generation
  · exact hnew

theorem manager_init : Manager Connection.init := by
  refine ⟨Connection.solo_init,.of_offline rfl rfl (by simp [Connection.init]),fun g hg => ?_⟩
  cases hg

/-- The end of the receiver thread is a step of the manager, or changes nothing. -/
theorem lost_eq (m : Connection.Members) :
    lost m = m ∨ ∃ c, m.client = some c ∧
      lost m = { m with client := some { c with running := false } } := by
  cases hc : m.client with
  | none =>
    refine .inl ?_
    rw [lost,hc]
    show { m with client := none } = m
    rw [← hc]
  | some c => exact .inr ⟨c,rfl,by rw [lost,hc]; rfl⟩

theorem Manager.lost (h : Manager m) (cfg : Connection.ConnectionConfig) :
    Manager { m with members := Managed.lost m.members } := by
  rcases lost_eq m.members with heq | ⟨c,hc,heq⟩
  · rw [heq]
    exact h
  · rw [heq]
    have ht : Connection.Transition cfg m .loss [] { m with
        members := { m.members with client := some { c with running := false } } } := .loss hc
    exact h.step (fun hb => by cases hb) ht

theorem exists_current (h : m.members.client.isSome = true) : ∃ g, m.members.current = some g := by
  obtain ⟨c,hc⟩ := Option.isSome_iff_exists.mp h
  exact ⟨c.generation,by rw [Connection.Members.current,hc]; rfl⟩

theorem lost_current (m : Connection.Members) : (lost m).current = m.current := by
  rcases lost_eq m with heq | ⟨c,hc,heq⟩
  · rw [heq]
  · rw [heq,Connection.Members.current,Connection.Members.current,hc]
    rfl

end manager

section main

variable {t t' : Main.State} {mes : List Main.Event}

/-- A step of the manager's threads while `main` stands still. -/
theorem main_manager {b : Connection.Action}
    (hs : Main.step sslEnabled argv t (.manager b) = some (t',mes)) :
    t'.pc = t.pc ∧ t'.args = t.args ∧ b ≠ .start ∧ (∃ pc, t.pc = .managed pc) ∧
      ∃ ces, (Connection.manager t.args.connConfig).step t.manager b = some (t'.manager,ces) ∧
        mes = ces.map .manager := by
  simp only [Main.step] at hs
  split at hs
  · cases hs
  · cases hpc : t.pc with
    | managed pc =>
      cases b with
      | start => simp [hpc] at hs
      | stop => simp [hpc] at hs
      | _ =>
        simp only [hpc] at hs
        obtain ⟨⟨mgr,ces⟩,hb,he⟩ := Option.map_eq_some_iff.mp hs
        cases he
        exact ⟨rfl,rfl,by simp,⟨pc,rfl⟩,ces,hb,rfl⟩
    | _ => simp [hpc] at hs

/-- What a step of `main` does to the manager, and where it leads. -/
structure MainFrame (t t' : Main.State) : Prop where
  manager : t'.manager = t.manager ∨ ∃ b ces,
    (Connection.manager t.args.connConfig).step t.manager b = some (t'.manager,ces) ∧
      (b = .start → t.pc = .managed .start)
  session : t'.pc = .managed .session →
    t.pc = .managed .deref ∧ t'.manager = t.manager ∧ t.manager.members.client.isSome = true
  fresh : t'.pc = .parseArgs ∨ t'.pc = .managed .start → t.pc = .parseArgs ∧ t'.manager = t.manager

/-- A step that leaves the manager alone and stays away from the session. -/
theorem frame_pc (hm : t'.manager = t.manager) (hsession : t'.pc ≠ .managed .session)
    (hparse : t'.pc ≠ .parseArgs) (hstart : t'.pc = .managed .start → t.pc = .parseArgs) :
    MainFrame t t' where
  manager := .inl hm
  session h := absurd h hsession
  fresh h := ⟨hstart (h.resolve_left hparse),hm⟩

/-- A call of the manager. -/
theorem frame_manager {b : Connection.Action} {pc : Main.Pc}
    (hs : t.onManager b pc = some (t',mes)) (hb : b = .start → t.pc = .managed .start)
    (hsession : pc ≠ .managed .session) (hparse : pc ≠ .parseArgs)
    (hstart : pc ≠ .managed .start) : MainFrame t t' := by
  obtain ⟨⟨mgr,ces⟩,hstep,he⟩ := Option.map_eq_some_iff.mp hs
  cases he
  refine ⟨.inr ⟨b,ces,hstep,hb⟩,fun h => absurd h hsession,fun h => ?_⟩
  exact absurd (h.resolve_left hparse) hstart

theorem managed_frame {ok : Bool} {pc : Main.ManagedPc} (hpc : t.pc = .managed pc)
    (hs : Main.managedStep t ok pc = some (t',mes)) : MainFrame t t' := by
  cases pc with
  | start => exact frame_manager hs (fun _ => hpc) (by simp) (by simp) (by simp)
  | stop => exact frame_manager hs (fun hb => by cases hb) (by simp) (by simp) (by simp)
  | starting =>
    simp only [Main.managedStep] at hs
    split at hs <;> cases hs
    exact frame_pc rfl (by simp) (by simp) (by simp)
  | stopping =>
    simp only [Main.managedStep] at hs
    split at hs <;> cases hs
    refine frame_pc rfl ?_ ?_ ?_
    all_goals
      dsimp only
      split <;> simp
  | poll i =>
    cases hs
    refine frame_pc rfl ?_ ?_ ?_
    all_goals
      dsimp only
      split <;> simp
  | isConnected =>
    cases hs
    refine frame_pc rfl ?_ ?_ ?_
    all_goals
      dsimp only
      split <;> simp
  | client =>
    cases hs
    refine frame_pc rfl ?_ ?_ ?_
    all_goals
      dsimp only
      split <;> simp
  | session =>
    cases hs
    cases ok
    · exact frame_pc rfl (by simp) (by simp) (by simp)
    · exact frame_pc rfl (by simp) (by simp) (by simp)
  | deref =>
    cases hs
    cases hc : t.manager.members.client.isSome with
    | false => exact frame_pc rfl (by simp) (by simp) (by simp)
    | true => exact ⟨.inl rfl,fun _ => ⟨hpc,rfl,hc⟩,by simp⟩

theorem dispatch_pc (sslEnabled : Bool) (args : Main.CliArgs) :
    Main.Pc.dispatch sslEnabled args ≠ .managed .session ∧
      Main.Pc.dispatch sslEnabled args ≠ .parseArgs := by
  rw [Main.Pc.dispatch]
  split
  · simp
  · split
    · split <;> simp
    · simp

theorem main_frame {ok : Bool} (hs : Main.step sslEnabled argv t (.main ok) = some (t',mes)) :
    MainFrame t t' := by
  simp only [Main.step] at hs
  split at hs
  · cases hs
  · cases hpc : t.pc with
    | parseArgs =>
      simp only [hpc] at hs
      split at hs <;> cases hs
      · exact frame_pc rfl (by simp) (by simp) (by simp)
      · exact frame_pc rfl (dispatch_pc _ _).1 (dispatch_pc _ _).2 fun _ => hpc
    | managed pc =>
      simp only [hpc] at hs
      exact managed_frame hpc hs
    | direct type pc =>
      simp only [hpc] at hs
      cases pc
      all_goals
        cases ok <;> cases hs <;> exact frame_pc rfl (by simp) (by simp) (by simp)
    | exited code => simp [hpc] at hs
    | terminated => simp [hpc] at hs

end main

/-- A step of the program by kind. -/
inductive Transition (sslEnabled : Bool) (argv : List String) (moved : Message → Message)
    (ndebug : Bool) (server : System (Session.Wire × ρ) β Empty) (srv : ρ) (s : State ρ) :
    Action β → List Event → State ρ → Prop
  | main {ok s' es} : s.main.pc ≠ .managed .deref →
      s.onMain sslEnabled argv srv (.main ok) = some (s',es) →
      Transition sslEnabled argv moved ndebug server srv s (.main ok) es s'
  | deref {ok s' es} : s.main.pc = .managed .deref →
      s.onMain sslEnabled argv srv (.main ok) = some (s',es) →
      Transition sslEnabled argv moved ndebug server srv s (.main ok) es
        { s' with given := s.main.manager.members.current.getD 0 }
  | manager {b s' es} : s.onMain sslEnabled argv srv (.manager b) = some (s',es) →
      Transition sslEnabled argv moved ndebug server srv s (.manager b) es s'
  | session {b s' es} : s.onSession moved ndebug server b = some (s',es) →
      Transition sslEnabled argv moved ndebug server srv s (.session b) es s'
  | dangling {b} : Transition sslEnabled argv moved ndebug server srv s (.session b) []
      { s with main.pc := .terminated }

theorem step_transition
    (hs : (program sslEnabled argv moved ndebug server srv).step s a = some (s',es)) :
    Transition sslEnabled argv moved ndebug server srv s a es s' := by
  cases a with
  | main ok =>
    simp only [program,step] at hs
    split at hs
    · next hpc =>
      obtain ⟨⟨s₁,es₁⟩,h₁,he⟩ := Option.map_eq_some_iff.mp hs
      cases he
      exact .deref hpc h₁
    · next hpc =>
      by_cases hleave : if ok then s.session.chat = .returned else s.session.chat.writes = true
      · rw [if_pos hleave] at hs
        exact .main (by simp [hpc]) hs
      · rw [if_neg hleave] at hs
        cases hs
    · next hpc _ => exact .main hpc hs
  | manager b =>
    cases b with
    | loss => cases hs
    | _ =>
      simp only [program,step] at hs
      split at hs
      · cases hs
      · exact .manager hs
  | session b =>
    simp only [program,step] at hs
    split at hs
    · split at hs
      · cases hs
      · -- a step of the main thread, with the client it was given or with one that is gone
        split at hs
        · split at hs
          · cases hs
          · split at hs
            · cases hs
              exact .dangling
            · exact .session hs
        · exact .session hs
    · cases hs

/-- The manager runs as such, and `chat_session` was given a client that it has created. -/
structure Tracked (s : State ρ) : Prop where
  manager : Manager s.main.manager
  fresh : s.main.pc = .parseArgs ∨ s.main.pc = .managed .start → s.main.manager = Connection.init
  given : s.main.pc = .managed .session → s.given < s.main.manager.members.generation

/-- Before `start` is called no thread of the manager's runs. -/
theorem init_step {cfg : Connection.ConnectionConfig} {b : Connection.Action} (hb : b ≠ .start) :
    (Connection.manager cfg).step Connection.init b = none := by
  cases b with
  | start => exact absurd rfl hb
  | _ => rfl

theorem onMain_some {b : Main.Action} (hs : s.onMain sslEnabled argv srv b = some (s',es)) :
    ∃ t mes, Main.step sslEnabled argv s.main b = some (t,mes) ∧ es = mes.map .main ∧
      s' = { s with
        main := t
        session := pinged mes
          (follow srv s.main.manager.members t.manager.members s.session) } := by
  obtain ⟨⟨t,mes⟩,ht,he⟩ := Option.map_eq_some_iff.mp hs
  cases he
  exact ⟨t,mes,ht,rfl,rfl⟩

theorem onSession_some {b : Session.Action β}
    (hs : s.onSession moved ndebug server b = some (s',es)) :
    ∃ t tes, (Session.session moved ndebug server).step s.session b = some (t,tes) ∧
      es = tes.map .session ∧ s' = { s with
        session := t
        main.manager.members :=
          if t.client.running then s.main.manager.members
          else lost s.main.manager.members } := by
  obtain ⟨⟨t,tes⟩,ht,he⟩ := Option.map_eq_some_iff.mp hs
  cases he
  exact ⟨t,tes,ht,rfl,rfl⟩

namespace Tracked

/-- A step of `main`, which comes to `chat_session` only with a client. -/
theorem onMain (h : Tracked s) {ok : Bool}
    (hs : s.onMain sslEnabled argv srv (.main ok) = some (s',es)) :
    Manager s'.main.manager ∧
      (s'.main.pc = .parseArgs ∨ s'.main.pc = .managed .start →
        s'.main.manager = Connection.init) ∧
      (s'.main.pc = .managed .session → s.main.pc = .managed .deref ∧
        s'.main.manager = s.main.manager ∧ s.main.manager.members.client.isSome = true) := by
  obtain ⟨t,mes,ht,rfl,rfl⟩ := onMain_some hs
  have hf := main_frame ht
  refine ⟨?_,fun hpc => ?_,hf.session⟩
  · rcases hf.manager with hm | ⟨b,ces,hb,hstart⟩
    · show Manager t.manager
      rw [hm]
      exact h.manager
    · refine h.manager.step (fun hcall => ?_) (Connection.step_transition hb)
      rw [h.fresh (.inr (hstart hcall))]
      rfl
  · obtain ⟨hparse,hm⟩ := hf.fresh hpc
    exact hm.trans (h.fresh (.inl hparse))

/-- A step of the manager's threads. -/
theorem onManager (h : Tracked s) {b : Connection.Action}
    (hs : s.onMain sslEnabled argv srv (.manager b) = some (s',es)) :
    Tracked s' ∧ s'.given = s.given ∧ s'.main.pc = s.main.pc ∧ ∃ ces,
      Connection.Transition s.main.args.connConfig s.main.manager b ces s'.main.manager := by
  obtain ⟨t,mes,ht,rfl,rfl⟩ := onMain_some hs
  obtain ⟨hpc,_,hb,_,ces,hstep,_⟩ := main_manager ht
  have htrans := Connection.step_transition hstep
  refine ⟨⟨h.manager.step (fun hcall => absurd hcall hb) htrans,fun hstart => ?_,fun hin => ?_⟩,
    rfl,hpc,ces,htrans⟩
  · rw [hpc] at hstart
    rw [h.fresh hstart,init_step hb] at hstep
    cases hstep
  · rw [hpc] at hin
    exact Nat.lt_of_lt_of_le (h.given hin) htrans.renumbers.generation

/-- A step of the session, which tells the manager of the receiver's end at most. -/
theorem onSession (h : Tracked s) {b : Session.Action β}
    (hs : s.onSession moved ndebug server b = some (s',es)) :
    Tracked s' ∧ s'.given = s.given ∧ s'.main.pc = s.main.pc ∧
      s'.main.manager.members.current = s.main.manager.members.current ∧
      s'.main.manager.members.generation = s.main.manager.members.generation := by
  obtain ⟨t,tes,ht,rfl,rfl⟩ := onSession_some hs
  cases hrun : t.client.running with
  | true => exact ⟨⟨h.manager,h.fresh,h.given⟩,rfl,rfl,rfl,rfl⟩
  | false =>
    refine ⟨⟨h.manager.lost s.main.args.connConfig,fun hpc => ?_,h.given⟩,rfl,rfl,
      lost_current _,rfl⟩
    have hinit := h.fresh hpc
    show { s.main.manager with members := lost s.main.manager.members } = Connection.init
    rw [hinit]
    rfl

theorem step (h : Tracked s)
    (hs : (program sslEnabled argv moved ndebug server srv).step s a = some (s',es)) :
    Tracked s' := by
  cases step_transition hs with
  | main hne hmain =>
    obtain ⟨hmgr,hfresh,hsession⟩ := h.onMain hmain
    exact ⟨hmgr,hfresh,fun hpc => absurd (hsession hpc).1 hne⟩
  | deref hpc hmain =>
    obtain ⟨hmgr,hfresh,hsession⟩ := h.onMain hmain
    refine ⟨hmgr,hfresh,fun hpc' => ?_⟩
    obtain ⟨_,hm,hsome⟩ := hsession hpc'
    obtain ⟨g,hcur⟩ := exists_current hsome
    show s.main.manager.members.current.getD 0 < _
    rw [hcur,hm]
    exact h.manager.numbered _ hcur
  | manager hmgr => exact (h.onManager hmgr).1
  | session hsession => exact (h.onSession hsession).1
  | dangling => exact ⟨h.manager,by simp,by simp⟩

end Tracked

@[simp] theorem follow_chat (m m' : Connection.Members) (t : Session.State ρ) :
    (follow srv m m' t).chat = t.chat := by
  unfold follow
  split
  · rfl
  · split
    · split <;> rfl
    · rfl

@[simp] theorem pinged_chat (mes : List Main.Event) (t : Session.State ρ) :
    (pinged mes t).chat = t.chat := by
  unfold pinged
  split <;> rfl

/-- Nothing follows the return of `chat_session`. -/
theorem returned_step {t t' : Session.State ρ} {b : Session.Action β} {tes : List Session.Event}
    (hs : (Session.session moved ndebug server).step t b = some (t',tes))
    (h : t.chat = .returned) : t'.chat = .returned := by
  cases Session.step_transition hs with
  | chat hg | line hg => exact absurd h hg.live
  | call hpc _ =>
    rw [h] at hpc
    cases hpc
  | write hpc => cases h.symm.trans hpc
  | note hpc => cases h.symm.trans hpc
  | pop hpc _ =>
    rw [h] at hpc
    cases hpc
  | _ => exact h

/-- The client `chat_session` was given is still the manager's, until it has returned. -/
def Alive (s : State ρ) : Prop :=
  s.main.pc = .managed .session → s.session.chat ≠ .returned →
    s.main.manager.members.current = some s.given

theorem Alive.step (h : Alive s) (htr : Tracked s) (hp : Kept s a)
    (hs : (program sslEnabled argv moved ndebug server srv).step s a = some (s',es)) :
    Alive s' := by
  intro hpc' hchat'
  cases step_transition hs with
  | main hne hmain => exact absurd ((htr.onMain hmain).2.2 hpc').1 hne
  | deref hpc hmain =>
    obtain ⟨_,hm,hsome⟩ := (htr.onMain hmain).2.2 hpc'
    obtain ⟨g,hcur⟩ := exists_current hsome
    show _ = some (s.main.manager.members.current.getD 0)
    rw [hm,hcur]
    rfl
  | manager hmgr =>
    obtain ⟨_,hgiven,hpc,ces,ht⟩ := htr.onManager hmgr
    obtain ⟨t,mes,hmain,_,rfl⟩ := onMain_some hmgr
    rw [hpc] at hpc'
    have hchat : s.session.chat ≠ .returned := by simpa using hchat'
    have hreset := hp hpc' hchat
    have hb := (main_manager hmain).2.2.1
    exact ht.keeps htr.manager.solo htr.manager.owned (fun hcall => absurd hcall hb) hreset
      (h hpc' hchat)
  | session hsession =>
    obtain ⟨_,hgiven,hpc,hcur,_⟩ := htr.onSession hsession
    obtain ⟨t,tes,hstep,_,rfl⟩ := onSession_some hsession
    have hchat : s.session.chat ≠ .returned := fun hret => hchat' (returned_step hstep hret)
    exact hcur.trans (h hpc' hchat)
  | dangling => cases hpc'

/-- `main` has called `chat_session`. -/
def called : Main.Pc → Bool
  | .managed .session | .managed .stop | .managed .stopping | .exited _ | .terminated => true
  | _ => false

/-- `main` calls `chat_session` once. -/
theorem main_called {t t' : Main.State} {ok : Bool} {mes : List Main.Event}
    (hs : Main.step sslEnabled argv t (.main ok) = some (t',mes)) (h : called t.pc = true) :
    called t'.pc = true ∧ t'.pc ≠ .managed .session := by
  simp only [Main.step] at hs
  split at hs
  · cases hs
  · cases hpc : t.pc with
    | managed pc =>
      rw [hpc] at h
      simp only [hpc] at hs
      cases pc with
      | session =>
        -- the call ends here, and none of the following steps leads back
        cases hs
        cases ok
        · exact ⟨rfl,by simp⟩
        · exact ⟨rfl,by simp⟩
      | stop =>
        obtain ⟨⟨mgr,ces⟩,_,he⟩ := Option.map_eq_some_iff.mp hs
        cases he
        exact ⟨rfl,by simp⟩
      | stopping =>
        simp only [Main.managedStep] at hs
        split at hs <;> cases hs
        dsimp only
        split
        · exact ⟨rfl,by simp⟩
        · exact ⟨rfl,by simp⟩
      | _ => cases h
    | exited code => simp [hpc] at hs
    | terminated => simp [hpc] at hs
    | _ =>
      rw [hpc] at h
      cases h

/-- The client `chat_session` was given is gone, and what `client_` points to is newer. -/
structure Dangling (s : State ρ) : Prop where
  tracked : Tracked s
  called : called s.main.pc = true
  newer : s.main.pc = .managed .session →
    ∀ g, s.main.manager.members.current = some g → s.given < g

theorem Dangling.step (h : Dangling s)
    (hs : (program sslEnabled argv moved ndebug server srv).step s a = some (s',es)) :
    Dangling s' := by
  have htr := h.tracked.step hs
  cases step_transition hs with
  | main _ hmain =>
    obtain ⟨t,mes,ht,_,rfl⟩ := onMain_some hmain
    obtain ⟨hcalled,hne⟩ := main_called ht h.called
    exact ⟨htr,hcalled,fun hpc => absurd hpc hne⟩
  | deref hpc _ =>
    have hcalled := h.called
    rw [hpc] at hcalled
    cases hcalled
  | manager hmgr =>
    obtain ⟨_,hgiven,hpc,ces,ht⟩ := h.tracked.onManager hmgr
    refine ⟨htr,by rw [hpc]; exact h.called,fun hin g hg => ?_⟩
    rw [hpc] at hin
    rw [hgiven]
    rcases ht.renumbers.current g hg with hsame | ⟨_,hnew,_⟩
    · exact h.newer hin g hsame
    · exact Nat.lt_of_lt_of_le (h.tracked.given hin) hnew
  | session hsession =>
    obtain ⟨_,hgiven,hpc,hcur,_⟩ := h.tracked.onSession hsession
    refine ⟨htr,by rw [hpc]; exact h.called,fun hin g hg => ?_⟩
    rw [hpc] at hin
    rw [hcur] at hg
    rw [hgiven]
    exact h.newer hin g hg
  | dangling => exact ⟨htr,rfl,fun hpc => by cases hpc⟩

/-- A reset while `chat_session` runs. -/
theorem dangling_of_reset (h : Tracked s) (hp : ¬Kept s a)
    (hs : (program sslEnabled argv moved ndebug server srv).step s a = some (s',es)) :
    s'.main.pc = .managed .session ∧ s'.session.chat ≠ .returned ∧ Dangling s' := by
  cases a with
  | main ok => exact absurd trivial hp
  | session b => exact absurd trivial hp
  | manager b =>
    simp only [Kept,Classical.not_imp] at hp
    obtain ⟨hpc,hchat,hreset⟩ := hp
    have htr := h.step hs
    cases step_transition hs with
    | manager hmgr =>
      obtain ⟨_,_,hpc',_⟩ := h.onManager hmgr
      obtain ⟨t,mes,hmain,_,rfl⟩ := onMain_some hmgr
      obtain ⟨_,_,_,_,ces,hstep,_⟩ := main_manager hmain
      have hnone := (Connection.step_resets hstep (by simpa using hreset)).1
      have hin := hpc'.trans hpc
      refine ⟨hin,by simpa using hchat,htr,by rw [hin]; rfl,fun _ g hg => ?_⟩
      rw [Connection.Members.current,hnone] at hg
      cases hg

theorem tracked_init {storage : ℕ} {m : ByteMem} : Tracked (init srv storage m) :=
  ⟨manager_init,fun _ => rfl,fun h => by cases h⟩

/-- As long as no thread resets `client_` while `chat_session` runs, every call it makes is on
the client it was given, which is still the manager's; after such a reset no call is. -/
theorem client_outlives_session (sslEnabled : Bool) (argv : List String)
    (moved : Message → Message) (ndebug : Bool) (server : System (Session.Wire × ρ) β Empty)
    (srv : ρ) (storage : ℕ) (m : ByteMem) {tr : List Event} {s : State ρ}
    (h : (program sslEnabled argv moved ndebug server srv).RunWhere Kept
      (init srv storage m) tr s) :
    (s.main.pc = .managed .session → s.session.chat.calls = true →
        s.main.manager.members.current = some s.given) ∧
      ∀ a s' es, (program sslEnabled argv moved ndebug server srv).step s a = some (s',es) →
        ¬Kept s a → s'.main.pc = .managed .session ∧ s'.session.chat ≠ .returned ∧
          ∀ tr' s'', (program sslEnabled argv moved ndebug server srv).Run s' tr' s'' →
            s''.main.pc = .managed .session →
            s''.main.manager.members.current ≠ some s''.given := by
  have hinv : Tracked s ∧ Alive s := by
    refine h.invariant (I := fun _ s => Tracked s ∧ Alive s) ⟨tracked_init,?_⟩ ?_
    · intro hpc
      cases hpc
    · rintro tr s a s' es ⟨htr,halive⟩ hp hs
      exact ⟨htr.step hs,halive.step htr hp hs⟩
  obtain ⟨htr,halive⟩ := hinv
  refine ⟨fun hpc hcalls => halive hpc fun hret => ?_,fun a s' es hs hp => ?_⟩
  · rw [hret] at hcalls
    cases hcalls
  · obtain ⟨hpc,hchat,hdangling⟩ := dangling_of_reset htr hp hs
    refine ⟨hpc,hchat,fun tr' s'' hrest hpc'' hcur => ?_⟩
    have hend : Dangling s'' := hrest.invariant (I := fun _ s => Dangling s) hdangling
      fun _ _ _ _ _ hd _ hs => hd.step hs
    exact lt_irrefl _ (hend.newer hpc'' _ hcur)

/-- The connection is lost and found to be lost, and `chat_session` polls for a greeting. -/
theorem client_outlives_session_loss :
    ∃ tr s, (program false ["websocket_client","--reconnect"] id true Session.echo none).RunWhere
        Kept (init none 4096 fun _ => 0) tr s ∧ s.main.pc = .managed .session ∧
      s.session.chat.calls = true ∧ s.main.manager.members.state = .reconnecting ∧
      s.main.manager.members.current = some s.given := by
  have hexec : ((program false ["websocket_client","--reconnect"] id true Session.echo
      none).execWhere Kept (init none 4096 fun _ => 0)
      (System.schedule [(2,[.main true]),(9,[.manager (.user true)]),(5,[.main true]),
        (2,[.session .receiver]),(1,[.session .readError,.session .receiver]),
        (6,[.manager (.monitor true)]),(1,[.session .chat])])).any
      (fun r => decide (r.1.main.pc = .managed .session ∧ r.1.session.chat.calls = true ∧
        r.1.main.manager.members.state = .reconnecting)) = true := by
    decide +kernel
  obtain ⟨s,tr,hrun,hs⟩ := System.exists_run_of_exec hexec
  have hin : s.main.pc = .managed .session ∧ s.session.chat.calls = true ∧
      s.main.manager.members.state = .reconnecting := of_decide_eq_true hs
  exact ⟨tr,s,hrun,hin.1,hin.2.1,hin.2.2,
    (client_outlives_session _ _ _ _ _ _ _ _ hrun).1 hin.1 hin.2.1⟩

/-- The connection is lost while `chat_session` runs, and the monitor thread resets `client_`. -/
theorem client_reset_under_session :
    ¬∀ sslEnabled argv moved ndebug storage m tr s,
      (program sslEnabled argv moved ndebug Session.echo none).Run (init none storage m) tr s →
      s.main.pc = .managed .session → s.session.chat.calls = true →
      s.main.manager.members.current = some s.given := by
  intro hall
  have hexec : ((program false ["websocket_client","--reconnect"] id true Session.echo
      none).execWhere (fun _ _ => True) (init none 4096 fun _ => 0)
      (System.schedule [(2,[.main true]),(9,[.manager (.user true)]),(5,[.main true]),
        (2,[.session .receiver]),(1,[.session .readError,.session .receiver]),
        (8,[.manager (.monitor true)])])).any
      (fun r => decide (r.1.main.pc = .managed .session ∧ r.1.session.chat.calls = true ∧
        r.1.main.manager.members.current = none)) = true := by
    decide +kernel
  obtain ⟨s,tr,hrun,hs⟩ := System.exists_run_of_exec hexec
  have hlost : s.main.pc = .managed .session ∧ s.session.chat.calls = true ∧
      s.main.manager.members.current = none := of_decide_eq_true hs
  have hcur := hall false _ id true 4096 _ tr s hrun hlost.1 hlost.2.1
  rw [hlost.2.2] at hcur
  cases hcur

end WsClient.Managed
