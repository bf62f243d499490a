import WsClient.Main.Args
import Mathlib.Data.List.Permutation
import Mathlib.Data.List.TakeWhile

/-!
# The options in every order

An argument vector put together from option groups, each used at most once, and what `parse_args`
makes of it: each group acts on the fields of its own, only `--ssl` also looks at the port.
-/

namespace WsClient.Main

/-- An option as it stands on the command line, with its value. -/
inductive OptionGroup where
  | host (host : String)
  | port (port : String)
  | ssl
  | pin (core : Option Int32)
  | reconnect
  deriving DecidableEq

/-- The arguments of a group; a core is written in decimal. -/
def OptionGroup.argv : OptionGroup → List String
  | .host value => ["--host",value]
  | .port value => ["--port",value]
  | .ssl => ["--ssl"]
  | .pin (some core) => ["--pin",toString core.toInt]
  | .pin none => ["--pin"]
  | .reconnect => ["--reconnect"]

/-- The options that a user chooses, each or none of them. -/
structure Options where
  host : Option String
  port : Option String
  ssl : Bool
  pin : Option (Option Int32)
  reconnect : Bool

namespace Options

/-- The chosen options in one order. -/
def groups (options : Options) : List OptionGroup :=
  (options.host.map .host).toList++(options.port.map .port).toList++
    (if options.ssl then [.ssl] else [])++(options.pin.map .pin).toList++
    (if options.reconnect then [.reconnect] else [])

/-- The arguments that the options stand for. -/
def args (options : Options) : CliArgs where
  host := options.host.getD "echo.websocket.events"
  port := options.port.getD (if options.ssl then "443" else "80")
  pinThread := options.pin.isSome
  pinCore := (options.pin.join.map Int32.toInt).getD (-1)
  autoReconnect := options.reconnect
  useSsl := options.ssl

end Options

section Decimal

variable {s : String} {c : Char} {l : List Char} {n : ℕ}

theorem foldl_digits (h : ∀ c ∈ l, c.isDigit = true) (n : ℕ) :
    l.foldl (fun n c => 10*n+((c.toNat : ℤ)-48)) (n : ℤ) = Nat.ofDigitChars 10 l n := by
  induction l generalizing n with
  | nil => rw [Nat.ofDigitChars_nil]; rfl
  | cons c l ih =>
    have hc : 48 ≤ c.toNat := (Char.isDigit_iff_toNat.mp (h c List.mem_cons_self)).1
    rw [List.foldl_cons,Nat.ofDigitChars_cons,← ih fun c hc => h c (List.mem_cons_of_mem _ hc)]
    congr 1
    change 10*(n : ℤ)+((c.toNat : ℤ)-48) = ((10*n+(c.toNat-48) : ℕ) : ℤ)
    omega

/-- A number is read back from its digits. -/
theorem digits?_toDigits (n : ℕ) : digits? (Nat.toDigits 10 n) = some (n : ℤ) := by
  have hdigit : ∀ c ∈ Nat.toDigits 10 n, c.isDigit = true := fun c hc =>
    Nat.isDigit_of_mem_toDigits (by decide) (by decide) hc
  have hfold := foldl_digits hdigit 0
  rw [Nat.ofDigitChars_ten_toDigits] at hfold
  have hself : (Nat.toDigits 10 n).takeWhile Char.isDigit = Nat.toDigits 10 n :=
    List.takeWhile_eq_self_iff.mpr hdigit
  rw [digits?,hself]
  split
  · next hnil => exact absurd hnil Nat.toDigits_ne_nil
  · exact congrArg some hfold

theorem stoi_of_digit (hs : s.toList = c :: l) (hc : c.isDigit = true) :
    stoi s = (digits? (c :: l)).bind toInt? := by
  have hrange : 48 ≤ c.toNat ∧ c.toNat ≤ 57 := Char.isDigit_iff_toNat.mp hc
  have hspace : isSpace c = false := by
    rw [isSpace]
    simp only [Bool.or_eq_false_iff,Bool.and_eq_false_iff,beq_eq_false_iff_ne,decide_eq_false_iff_not]
    omega
  rw [stoi,hs,List.dropWhile_cons_of_neg (by rw [hspace]; exact Bool.false_ne_true)]
  split
  · next heq =>
    cases heq
    exact absurd hc (by decide)
  · next heq =>
    cases heq
    exact absurd hc (by decide)
  · rfl

theorem digits?_repr : digits? n.repr.toList = some (n : ℤ) := by
  rw [Nat.toList_repr,digits?_toDigits]

/-- `std::stoi` reads every `int` back from its decimal form. -/
theorem stoi_toString (core : Int32) : stoi (toString core.toInt) = some core.toInt := by
  have hrange : toInt? core.toInt = some core.toInt := if_pos ⟨core.le_toInt,core.toInt_lt⟩
  generalize core.toInt = x at hrange ⊢
  cases x with
  | ofNat n =>
    obtain ⟨c,l,hl⟩ := List.exists_cons_of_ne_nil (Nat.toDigits_ne_nil (n := n) (b := 10))
    have hc : c.isDigit = true :=
      Nat.isDigit_of_mem_toDigits (by decide) (by decide) (hl ▸ List.mem_cons_self)
    have hs : (toString (Int.ofNat n)).toList = c :: l := by
      rw [← hl]
      exact Nat.toList_repr
    rw [stoi_of_digit hs hc,← hl,digits?_toDigits,Option.bind_some]
    exact hrange
  | negSucc n =>
    have hs : (toString (Int.negSucc n)).toList = '-' :: (n+1).repr.toList := by
      change ("-"++(n+1).repr).toList = _
      rw [String.toList_append]
      rfl
    rw [stoi,hs,List.dropWhile_cons_of_neg (by decide)]
    change (digits? (n+1).repr.toList).bind _ = _
    rw [digits?_repr,Option.bind_some]
    exact hrange

end Decimal

section Groups

variable {α : Type} {args args' : CliArgs} {group : OptionGroup} {gs : List OptionGroup}
  {options : Options} {i : ℕ} {word : String}

/-- What one group does to the arguments. -/
def OptionGroup.apply (args : CliArgs) : OptionGroup → CliArgs
  | .host value => { args with host := value }
  | .port value => { args with port := value }
  | .ssl => { args with useSsl := true, port := if args.port = "80" then "443" else args.port }
  | .pin (some core) => { args with pinThread := true, pinCore := core.toInt }
  | .pin none => { args with pinThread := true }
  | .reconnect => { args with autoReconnect := true }

/-- A group starts with the word of its option, which is no number. -/
theorem stoi_head (h : (gs.flatMap OptionGroup.argv).head? = some word) : stoi word = none := by
  cases gs with
  | nil => cases h
  | cons group gs =>
    cases group with
    | pin core => cases core <;> cases h <;> decide
    | _ => cases h; decide

/-- The loop takes the groups one after the other. -/
theorem parseFrom_groups :
    parseFrom args i false (gs.flatMap OptionGroup.argv) = .ok (gs.foldl OptionGroup.apply args) := by
  induction gs generalizing args i with
  | nil => rfl
  | cons group gs ih =>
    rw [List.flatMap_cons,List.foldl_cons,← ih (i := i+group.argv.length)]
    cases group with
    | pin core =>
      cases core with
      | some core =>
        simp only [OptionGroup.argv,List.cons_append,List.nil_append,parseFrom,List.head?_cons,parseArg,
          stoi_toString]
        rfl
      | none =>
        simp only [OptionGroup.argv,List.cons_append,List.nil_append,parseFrom]
        cases hnext : (gs.flatMap OptionGroup.argv).head? with
        | none => rfl
        | some word =>
          simp only [parseArg,stoi_head hnext]
          rfl
    | _ => rfl

/-- Only the groups of `touches` change the field `f`, and by nothing but its own value. -/
structure Decides (touches : OptionGroup → Bool) (f : CliArgs → α) : Prop where
  keep : ∀ args group, touches group = false → f (OptionGroup.apply args group) = f args
  congr : ∀ args args' group, f args = f args' →
    f (OptionGroup.apply args group) = f (OptionGroup.apply args' group)

variable {touches : OptionGroup → Bool} {f : CliArgs → α}

theorem Decides.foldl_congr (hd : Decides touches f) (h : f args = f args') :
    f (gs.foldl OptionGroup.apply args) = f (gs.foldl OptionGroup.apply args') := by
  induction gs generalizing args args' with
  | nil => exact h
  | cons group gs ih => exact ih (hd.congr _ _ _ h)

theorem Decides.foldl_filter (hd : Decides touches f) :
    f (gs.foldl OptionGroup.apply args) =
      f ((gs.filter touches).foldl OptionGroup.apply args) := by
  induction gs generalizing args with
  | nil => rfl
  | cons group gs ih =>
    by_cases ht : touches group = true
    · rw [List.filter_cons_of_pos ht,List.foldl_cons,List.foldl_cons,ih]
    · rw [List.filter_cons_of_neg ht,List.foldl_cons,ih]
      exact hd.foldl_congr (hd.keep _ _ (by simpa using ht))

/-- A field that one option decides has that option's value in every order. -/
theorem Decides.foldl_perm (hd : Decides touches f) (args : CliArgs) (h : gs.Perm options.groups)
    {o : Option OptionGroup} (ho : options.groups.filter touches = o.toList) :
    f (gs.foldl OptionGroup.apply args) = f (o.toList.foldl OptionGroup.apply args) := by
  have hperm : (gs.filter touches).Perm o.toList := by
    rw [← ho]
    exact h.filter touches
  have hgs : gs.filter touches = o.toList := by
    cases o with
    | none => exact hperm.eq_nil
    | some group => exact List.perm_singleton.mp hperm
  rw [hd.foldl_filter,hgs]

def OptionGroup.isHost : OptionGroup → Bool
  | .host _ => true
  | _ => false

def OptionGroup.isPin : OptionGroup → Bool
  | .pin _ => true
  | _ => false

/-- The two options that set the port. -/
def OptionGroup.setsPort : OptionGroup → Bool
  | .port _ => true
  | .ssl => true
  | _ => false

theorem decides_host : Decides OptionGroup.isHost CliArgs.host := by
  constructor
  · rintro args (_ | _ | _ | (_ | _) | _) ht <;> first | rfl | cases ht
  · rintro args args' (_ | _ | _ | (_ | _) | _) h <;> first | exact h | rfl

theorem decides_pin :
    Decides OptionGroup.isPin fun args => (args.pinThread,args.pinCore) := by
  constructor
  · rintro args (_ | _ | _ | (_ | _) | _) ht <;> first | rfl | cases ht
  · intro args args' group h
    obtain ⟨hthread,hcore⟩ := Prod.mk.inj h
    rcases group with _ | _ | _ | (_ | _) | _ <;> simp only [OptionGroup.apply,hthread,hcore]

theorem decides_reconnect : Decides (· == .reconnect) CliArgs.autoReconnect := by
  constructor
  · rintro args (_ | _ | _ | (_ | _) | _) ht <;> first | rfl | cases ht
  · rintro args args' (_ | _ | _ | (_ | _) | _) h <;> first | exact h | rfl

theorem decides_ssl : Decides (· == .ssl) CliArgs.useSsl := by
  constructor
  · rintro args (_ | _ | _ | (_ | _) | _) ht <;> first | rfl | cases ht
  · rintro args args' (_ | _ | _ | (_ | _) | _) h <;> first | exact h | rfl

theorem decides_port : Decides OptionGroup.setsPort CliArgs.port := by
  constructor
  · rintro args (_ | _ | _ | (_ | _) | _) ht <;> first | rfl | cases ht
  · rintro args args' (_ | _ | _ | (_ | _) | _) h <;> first | exact h | rfl | skip
    rw [OptionGroup.apply,OptionGroup.apply,h]

/-- Every field but the port has the value chosen for it. -/
theorem foldl_groups (h : gs.Perm options.groups) :
    gs.foldl OptionGroup.apply {} =
      { options.args with port := (gs.foldl OptionGroup.apply {}).port } := by
  obtain ⟨host,port,ssl,pin,reconnect⟩ := options
  have hhost := decides_host.foldl_perm {} h (o := host.map .host)
    (by cases host <;> cases port <;> cases ssl <;> cases pin <;> cases reconnect <;> rfl)
  have hssl := decides_ssl.foldl_perm {} h (o := if ssl then some .ssl else none)
    (by cases host <;> cases port <;> cases ssl <;> cases pin <;> cases reconnect <;> rfl)
  have hpin := decides_pin.foldl_perm {} h (o := pin.map .pin)
    (by cases host <;> cases port <;> cases ssl <;> cases pin <;> cases reconnect <;> rfl)
  have hreconnect := decides_reconnect.foldl_perm {} h
    (o := if reconnect then some .reconnect else none)
    (by cases host <;> cases port <;> cases ssl <;> cases pin <;> cases reconnect <;> rfl)
  obtain ⟨hthread,hcore⟩ := Prod.mk.inj hpin
  generalize gs.foldl OptionGroup.apply {} = args at *
  obtain ⟨host',port',thread',core',reconnect',ssl'⟩ := args
  simp only [Options.args,CliArgs.mk.injEq,true_and]
  refine ⟨hhost.trans ?_,hthread.trans ?_,hcore.trans ?_,hreconnect.trans ?_,hssl.trans ?_⟩
  · cases host <;> rfl
  · rcases pin with _ | _ | _ <;> rfl
  · rcases pin with _ | _ | _ <;> rfl
  · cases reconnect <;> rfl
  · cases ssl <;> rfl

/-- The port is the chosen one unless `--ssl` still finds a chosen "80". -/
theorem port_groups (h : gs.Perm options.groups) :
    (gs.foldl OptionGroup.apply {}).port = options.args.port ↔
      ¬ [OptionGroup.port "80",.ssl].Sublist gs := by
  rw [decides_port.foldl_filter]
  have hsub : [OptionGroup.port "80",.ssl].Sublist gs ↔
      [OptionGroup.port "80",.ssl].Sublist (gs.filter OptionGroup.setsPort) :=
    ⟨fun h => h.filter OptionGroup.setsPort,fun h => h.trans List.filter_sublist⟩
  have hperm := h.filter OptionGroup.setsPort
  have hgroups : options.groups.filter OptionGroup.setsPort =
      (options.port.map .port).toList++if options.ssl then [.ssl] else [] := by
    rcases options with ⟨_ | _,_ | _,_ | _,_ | _,_ | _⟩ <;> rfl
  rw [hgroups] at hperm
  rw [hsub]
  generalize gs.filter OptionGroup.setsPort = setting at *
  obtain ⟨host,port,ssl,pin,reconnect⟩ := options
  cases port with
  | none =>
    cases ssl with
    | false =>
      cases hperm.eq_nil
      exact ⟨fun _ => by decide,fun _ => rfl⟩
    | true =>
      cases List.perm_singleton.mp hperm
      exact ⟨fun _ => by decide,fun _ => rfl⟩
  | some port =>
    cases ssl with
    | false =>
      cases List.perm_singleton.mp hperm
      exact ⟨fun _ h => absurd h.length_le (by simp),fun _ => rfl⟩
    | true =>
      rcases List.perm_pair.mp hperm with rfl | rfl
      -- the port first: `--ssl` compares it with the default
      · change (if port = "80" then "443" else port) = port ↔ _
        by_cases hport : port = "80"
        · subst hport
          exact ⟨fun h => absurd h (by decide),fun h => absurd (List.Sublist.refl _) h⟩
        · rw [if_neg hport]
          refine ⟨fun _ h => hport ?_,fun _ => rfl⟩
          have heq := h.eq_of_length rfl
          cases heq
          rfl
      · refine ⟨fun _ h => ?_,fun _ => rfl⟩
        have heq := h.eq_of_length rfl
        cases heq

/-- `parse_args` recovers the options in every order, except one: a chosen port that equals the
default is changed by an `--ssl` after it. -/
theorem parse_args_recovers (program : String) (h : gs.Perm options.groups) :
    parseArgs (program :: gs.flatMap OptionGroup.argv) = .ok options.args ↔
      ¬ [OptionGroup.port "80",.ssl].Sublist gs := by
  rw [← port_groups h,parseArgs,List.tail_cons,parseFrom_groups,foldl_groups h]
  constructor
  · intro heq
    exact congrArg CliArgs.port (Except.ok.inj heq)
  · intro hport
    rw [hport]

theorem parse_args_recovers_ssl :
    parseArgs ("websocket_client" :: [OptionGroup.ssl,.port "80"].flatMap OptionGroup.argv) =
        .ok (Options.mk none (some "80") true none false).args ↔
      ¬ [OptionGroup.port "80",.ssl].Sublist [.ssl,.port "80"] :=
  parse_args_recovers "websocket_client" (List.Perm.swap _ _ _)

/-- With the groups the other way round the port is not the one that was asked for. -/
theorem port_80_lost :
    [OptionGroup.port "80",.ssl].Perm (Options.mk none (some "80") true none false).groups ∧
      parseArgs ("websocket_client" :: [OptionGroup.port "80",.ssl].flatMap OptionGroup.argv) =
        .ok { port := "443", useSsl := true } ∧
      parseArgs ("websocket_client" :: [OptionGroup.port "80",.ssl].flatMap OptionGroup.argv) ≠
        .ok (Options.mk none (some "80") true none false).args := by
  decide

end Groups

end WsClient.Main
