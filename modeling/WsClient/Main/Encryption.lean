import WsClient.Main.Model

/-!
# `--ssl` and what becomes of it

`main` looks at `auto_reconnect` before it looks at `use_ssl`, and a manager creates plaintext
clients only: `--ssl` is honoured unless `--reconnect` is processed as well.
-/

namespace WsClient.Main
open WsClient.Lib

/-- The client that `main` creates with `--ssl`. -/
def CliArgs.secureClient (args : CliArgs) : Event :=
  .construct .secureWebSocketClient args.host args.port args.clientConfig

/-- Nothing was created that speaks plaintext, and success means that a client over TLS was
created. -/
structure Encrypted (args : CliArgs) (tr : List Event) (s : State) : Prop where
  secure : ∀ e ∈ tr, e.plaintext = false
  exit : s.pc = .exited 0 → args.secureClient ∈ tr

/-- The runs of the TLS mode: what has been created where `main` stands. -/
inductive Tls (args : CliArgs) : List Event → Pc → Prop
  | parseArgs : Tls args [] .parseArgs
  | create : Tls args [] (.direct .secureWebSocketClient .create)
  | created {pc : DirectPc} (h : pc ≠ .create) :
      Tls args [args.secureClient] (.direct .secureWebSocketClient pc)
  | failed : Tls args [] (.exited 1)
  | exited {code : ℕ} : Tls args [args.secureClient] (.exited code)

variable {sslEnabled : Bool} {argv : List String} {args : CliArgs} {tr es : List Event}
  {s s' : State} {a : Action}

theorem Tls.encrypted (h : Tls args tr s.pc) : Encrypted args tr s := by
  generalize hpc : s.pc = pc at h
  cases h with
  | parseArgs => exact ⟨by simp,by simp [hpc]⟩
  | create => exact ⟨by simp,by simp [hpc]⟩
  | created hne => exact ⟨by simp [CliArgs.secureClient,Event.plaintext],by simp [hpc]⟩
  | failed => exact ⟨by simp,by simp [hpc]⟩
  | exited => exact ⟨by simp [CliArgs.secureClient,Event.plaintext],by simp⟩

/-- A step of the TLS mode stays in it. -/
theorem Tls.step (h : Tls args tr s.pc) (hargs : s.pc = .parseArgs ∨ s.args = args)
    (hparse : Main.parseArgs argv = .ok args) (hssl : args.useSsl = true)
    (hreconnect : args.autoReconnect = false)
    (hs : (main sslEnabled argv).step s a = some (s',es)) :
    Tls args (tr++es) s'.pc ∧ s'.args = args := by
  simp only [main,Main.step] at hs
  split at hs
  · cases hs
  · generalize hpc : s.pc = pc at h hs
    cases a with
    | manager a =>
      cases h <;> cases hs
    | main ok =>
      cases h with
      | parseArgs =>
        rw [hparse] at hs
        cases hs
        refine ⟨?_,rfl⟩
        rw [Pc.dispatch,hreconnect,hssl]
        cases sslEnabled with
        | true => exact .create
        | false => exact .failed
      | create =>
        have hargs := hargs.resolve_left (by simp [hpc])
        cases ok <;> cases hs
        · exact ⟨.failed,hargs⟩
        · refine ⟨?_,hargs⟩
          rw [hargs]
          exact .created (by simp)
      | @created pc hne =>
        -- `connect` or `chat_session` may throw, and either way `main` returns
        have hargs := hargs.resolve_left (by simp [hpc])
        cases pc with
        | create => exact absurd rfl hne
        | connect =>
          cases ok <;> cases hs
          · exact ⟨.exited,hargs⟩
          · exact ⟨.created (by simp),hargs⟩
        | session =>
          cases hs
          exact ⟨.exited,hargs⟩
      | failed => cases hs
      | exited => cases hs

/-- With `--reconnect`, `main` comes to a manager that creates a plaintext client, with the
defaults of `ClientConfig`. -/
theorem construct_of_reconnect (sslEnabled : Bool) (hparse : parseArgs argv = .ok args)
    (hreconnect : args.autoReconnect = true) :
    ∃ tr s, (main sslEnabled argv).Run init tr s ∧
      .manager (.construct args.host args.port {}) ∈ tr := by
  have hdispatch : (main sslEnabled argv).step init (.main true) =
      some (⟨args,.managed .start,Connection.init⟩,[]) := by
    simp [main,Main.step,init,Connection.init,hparse,Pc.dispatch,hreconnect]
  have hrun : (main sslEnabled argv).Run init ([]++[]++[.manager (.setState .connecting),
      .manager (.construct args.host args.port {})]) _ :=
    (System.RunWhere.start.step trivial hdispatch).exec (show (main sslEnabled argv).execWhere _ _
      [.main true,.manager (.user true),.manager (.user true),.manager (.user true)] = _ from rfl)
  exact ⟨_,_,hrun,by simp⟩

/-- Whatever the arguments around it, `--ssl` is honoured, in a build with TLS and in one
without, exactly when no argument is processed as `--reconnect`. -/
theorem encrypted_iff (sslEnabled : Bool) {argv : List String} {args : CliArgs}
    (hparse : parseArgs argv = .ok args) (hssl : args.useSsl = true) :
    (∀ tr s, (main sslEnabled argv).Run init tr s → Encrypted args tr s) ↔
      "--reconnect" ∉ processed argv := by
  rw [← (parseArgs_flags hparse).1]
  constructor
  · intro hall hreconnect
    obtain ⟨tr,s,hrun,he⟩ := construct_of_reconnect sslEnabled hparse hreconnect
    have hplain := (hall tr s hrun).secure _ he
    cases hplain
  · intro hreconnect tr s hrun
    have hoff : args.autoReconnect = false := Bool.eq_false_iff.mpr hreconnect
    have htls : Tls args tr s.pc ∧ (s.pc = .parseArgs ∨ s.args = args) := by
      refine hrun.invariant (I := fun tr s => Tls args tr s.pc ∧
        (s.pc = .parseArgs ∨ s.args = args)) ⟨.parseArgs,.inl rfl⟩ ?_
      rintro tr s a s' es ⟨ht,hargs⟩ _ hs
      obtain ⟨ht',hargs'⟩ := ht.step hargs hparse hssl hoff hs
      exact ⟨ht',.inr hargs'⟩
    exact htls.1.encrypted

/-- `--ssl` alone. -/
theorem encrypted_iff_ssl :
    ∃ args, parseArgs ["websocket_client","--ssl"] = .ok args ∧ args.useSsl = true ∧
      ∀ tr s, (main true ["websocket_client","--ssl"]).Run init tr s → Encrypted args tr s :=
  ⟨{ useSsl := true, port := "443" },by decide +kernel,rfl,
    (encrypted_iff true (by decide +kernel) rfl).mpr (by decide +kernel)⟩

/-- `--ssl --reconnect` downgrades. -/
theorem reconnect_downgrades :
    ¬∀ sslEnabled argv args, parseArgs argv = .ok args → args.useSsl = true →
      ∀ tr s, (main sslEnabled argv).Run init tr s → Encrypted args tr s := by
  intro hall
  have hparse : parseArgs ["websocket_client","--ssl","--reconnect"] =
      .ok { useSsl := true, port := "443", autoReconnect := true } := by decide +kernel
  obtain ⟨tr,s,hrun,he⟩ := construct_of_reconnect true hparse rfl
  have hplain := (hall _ _ _ hparse rfl tr s hrun).secure _ he
  cases hplain

end WsClient.Main
