import Mathlib.Data.List.Basic
import Mathlib.Algebra.Ring.Int.Defs

/-!
# `parse_args`

The loop over `argv`, one argument at a time. An option with a value steps over the argument it
has taken; an argument that no option takes may be the host or the port by its position.
-/

namespace WsClient.Main

/-- `CliArgs`, with its defaults. -/
structure CliArgs where
  host : String := "echo.websocket.events"
  port : String := "80"
  pinThread : Bool := false
  pinCore : ℤ := -1
  autoReconnect : Bool := false
  useSsl : Bool := false
  deriving DecidableEq, Repr

/-- `std::isspace`. -/
def isSpace (c : Char) : Bool := c.toNat == 32 || (9 ≤ c.toNat && c.toNat ≤ 13)

/-- The number at the start of `l`, which must begin with a digit. -/
def digits? (l : List Char) : Option ℤ :=
  match l.takeWhile Char.isDigit with
  | [] => none
  | ds => some (ds.foldl (fun n c => 10*n+(c.toNat-48)) (0 : ℤ))

/-- The value as an `int`. -/
def toInt? (n : ℤ) : Option ℤ := if -2^31 ≤ n ∧ n < 2^31 then some n else none

/-- `std::stoi`, where `none` is an exception: what follows the number is ignored. -/
def stoi (s : String) : Option ℤ :=
  match s.toList.dropWhile isSpace with
  | '-' :: l => (digits? l).bind fun n => toInt? (-n)
  | '+' :: l => (digits? l).bind toInt?
  | l => (digits? l).bind toInt?

/-- The body of the loop for `argv[i] = arg`, with `next` for `argv[i+1]`: the arguments so
far and whether `++i` has been done, or `std::exit`. -/
def parseArg (args : CliArgs) (i : ℕ) (arg : String) (next : Option String) :
    Except ℕ (CliArgs × Bool) :=
  match arg, next with
  | "--host", some host => .ok ({ args with host := host },true)
  | "--port", some port => .ok ({ args with port := port },true)
  | "--pin", some core =>
    -- an argument that is no number is left to the next round
    match stoi core with
    | some core => .ok ({ args with pinThread := true, pinCore := core },true)
    | none => .ok ({ args with pinThread := true },false)
  | "--pin", none => .ok ({ args with pinThread := true },false)
  | "--reconnect", _ => .ok ({ args with autoReconnect := true },false)
  | "--ssl", _ =>
    .ok ({ args with useSsl := true, port := if args.port = "80" then "443" else args.port },false)
  | "--help", _ | "-h", _ => .error 0
  | arg, _ =>
    if args.host = "echo.websocket.events" ∧ i = 1 then .ok ({ args with host := arg },false)
    else if args.port = "80" ∧ i = 2 then .ok ({ args with port := arg },false)
    else .ok (args,false)

/-- The loop from `argv[i]` on; `skip` when `++i` has stepped over `argv[i]`. -/
def parseFrom (args : CliArgs) (i : ℕ) : Bool → List String → Except ℕ CliArgs
  | _, [] => .ok args
  | true, _ :: rest => parseFrom args (i+1) false rest
  | false, arg :: rest =>
    match parseArg args i arg rest.head? with
    | .error code => .error code
    | .ok (args,skip) => parseFrom args (i+1) skip rest

/-- `parse_args`; `argv[0]` is the program. -/
def parseArgs (argv : List String) : Except ℕ CliArgs := parseFrom {} 1 false argv.tail

/-- `arg` takes the argument after it for its value. -/
def takesNext (arg : String) (next : Option String) : Bool :=
  match arg, next with
  | "--host", some _ => true
  | "--port", some _ => true
  | "--pin", some core => (stoi core).isSome
  | _, _ => false

/-- The arguments that are not values of an option. -/
def processedFrom : Bool → List String → List String
  | _, [] => []
  | true, _ :: rest => processedFrom false rest
  | false, arg :: rest => arg :: processedFrom (takesNext arg rest.head?) rest

/-- The arguments of `argv` that are processed as options, or by their position. -/
def processed (argv : List String) : List String := processedFrom false argv.tail

variable {args args' : CliArgs} {i : ℕ} {arg : String} {next : Option String} {skip : Bool}
  {l : List String}

theorem parseArg_cases (h : parseArg args i arg next = .ok (args',skip)) :
    skip = takesNext arg next ∧
      args'.autoReconnect = (args.autoReconnect || "--reconnect" == arg) ∧
      args'.useSsl = (args.useSsl || "--ssl" == arg) ∧
      args'.pinThread = (args.pinThread || "--pin" == arg) ∧
      (args'.pinThread = false → args'.pinCore = args.pinCore) := by
  unfold parseArg at h
  split at h
  case h_3 core =>
    split at h
    · next hc =>
      cases h
      simp [takesNext,hc]
    · next hc =>
      cases h
      simp [takesNext,hc]
  case h_7 => cases h
  case h_8 => cases h
  -- no option: the argument may be the host or the port, and sets no flag
  case h_9 hreconnect hssl hhelp hh hhost hport hpin hpin' =>
    have hskip : takesNext arg next = false := by
      unfold takesNext
      split
      · exact (hhost _ rfl rfl).elim
      · exact (hport _ rfl rfl).elim
      · exact (hpin _ rfl rfl).elim
      · rfl
    have hnopin : "--pin" ≠ arg := by
      rintro rfl
      cases next with
      | none => exact hpin' rfl rfl
      | some core => exact hpin core rfl rfl
    rw [hskip,beq_eq_false_iff_ne.mpr (Ne.symm hreconnect),
      beq_eq_false_iff_ne.mpr (Ne.symm hssl),beq_eq_false_iff_ne.mpr hnopin,Bool.or_false,
      Bool.or_false,Bool.or_false]
    split at h
    · cases h
      exact ⟨rfl,rfl,rfl,rfl,fun _ => rfl⟩
    · split at h <;> cases h <;> exact ⟨rfl,rfl,rfl,rfl,fun _ => rfl⟩
  all_goals
    cases h
    simp [takesNext]

/-- The flags that the loop has left, and the core that no `--pin` has changed. -/
theorem parseFrom_flags (h : parseFrom args i skip l = .ok args') :
    args'.autoReconnect = (args.autoReconnect || (processedFrom skip l).contains "--reconnect") ∧
      args'.useSsl = (args.useSsl || (processedFrom skip l).contains "--ssl") ∧
      args'.pinThread = (args.pinThread || (processedFrom skip l).contains "--pin") ∧
      (args'.pinThread = false → args'.pinCore = args.pinCore) := by
  induction l generalizing args i skip with
  | nil =>
    cases skip <;> cases h <;> simp [processedFrom]
  | cons arg rest ih =>
    cases skip with
    | true => exact ih h
    | false =>
      simp only [parseFrom] at h
      split at h
      · cases h
      · next args₁ skip₁ h₁ =>
        obtain ⟨rfl,hreconnect,hssl,hpin,hcore⟩ := parseArg_cases h₁
        obtain ⟨hr,hs,hp,hc⟩ := ih h
        refine ⟨?_,?_,?_,?_⟩
        · rw [hr,hreconnect,processedFrom,List.contains_cons,Bool.or_assoc]
        · rw [hs,hssl,processedFrom,List.contains_cons,Bool.or_assoc]
        · rw [hp,hpin,processedFrom,List.contains_cons,Bool.or_assoc]
        · intro hoff
          rw [hc hoff]
          rw [hp,Bool.or_eq_false_iff] at hoff
          exact hcore hoff.1

/-- The flags say which options were processed, whatever surrounds them. -/
theorem parseArgs_flags {argv : List String} (h : parseArgs argv = .ok args) :
    (args.autoReconnect = true ↔ "--reconnect" ∈ processed argv) ∧
      (args.useSsl = true ↔ "--ssl" ∈ processed argv) ∧
      (args.pinThread = true ↔ "--pin" ∈ processed argv) ∧
      (args.pinThread = false → args.pinCore = -1) := by
  obtain ⟨hr,hs,hp,hc⟩ := parseFrom_flags h
  refine ⟨?_,?_,?_,hc⟩
  · simp [hr,processed]
  · simp [hs,processed]
  · simp [hp,processed]

end WsClient.Main
