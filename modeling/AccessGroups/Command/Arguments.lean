import AccessGroups.Command.Address
import AccessGroups.Entry
import AccessGroups.Resource
import AccessGroups.Settings

/-!
# The command line

A command line names one of four commands with its positional arguments and options. An option is
written as `--name value` or `--name=value`; in the first form the value must not look like an
option. Two hyphens end the options. Options that the command line leaves out may be given by
environment variables.

## Main definitions

* `Command.Request`: a command with its arguments.
* `Command.Invocation`: a request with the location of the database.
* `Command.parse?`: reading a command line; there is no result if it is refused.
-/

namespace AccessGroups.Command

/-- Parts of the settings of the sweep that the command line replaces. -/
structure Overrides where
  interval : Option Nat := none
  initialDelay : Option Nat := none
  jitter : Option Nat := none
  operator : Option UserId := none
  deriving DecidableEq, Repr

/-- A command with its arguments. -/
inductive Request where
  | serve (overrides : Overrides) (metricsAddress : Option SocketAddress)
  | sweep (overrides : Overrides)
  | check (group : GroupId) (user : UserId) (units : List UnitId) (privilege : Privilege)
  | deleteResource (kind : ResourceKind) (resource : ResourceId)
  deriving DecidableEq, Repr

/-- A request with the location of the database. -/
structure Invocation where
  databaseUrl : String
  request : Request
  deriving DecidableEq, Repr

/-- The arguments of one command, sorted out. -/
structure Sorted where
  /-- Positional arguments in their order. -/
  positional : List String := []
  /-- Options with their values in their order. -/
  options : List (String × String) := []
  deriving DecidableEq, Repr

/-- The text is a single hyphen or does not begin with one, so that it can be a value. -/
def isPlain (arg : String) : Bool :=
  arg = "-" || !"-".isPrefixOf arg

/-- An option with the value that is attached to it, if there is one. -/
def splitLong? (arg : String) : Option (String × Option String) :=
  match arg.toList with
  | '-' :: '-' :: rest =>
    let name := String.ofList (rest.takeWhile (· ≠ '='))
    match rest.dropWhile (· ≠ '=') with
    | _ :: value => some (name, some (String.ofList value))
    | [] => some (name, none)
  | _ => none

/-- Sort out the arguments of a command that has the options `known`. -/
def sortOut? (known : List String) (s : Sorted) : List String → Option Sorted
  | [] => some s
  | arg :: rest =>
    if arg = "--" then some { s with positional := s.positional ++ rest }
    else if isPlain arg then sortOut? known { s with positional := s.positional ++ [arg] } rest
    else
      match splitLong? arg with
      | none => none
      | some (name, attached) =>
        if name ∉ known then none
        else
          match attached, rest with
          | some value, rest =>
            sortOut? known { s with options := s.options ++ [(name, value)] } rest
          | none, value :: rest =>
            if isPlain value then
              sortOut? known { s with options := s.options ++ [(name, value)] } rest
            else none
          | none, [] => none

/-- The values of an option in their order. -/
def Sorted.values (s : Sorted) (name : String) : List String :=
  (s.options.filter fun o => o.1 = name).map fun o => o.2

/-- The value of an option that may be given at most once; the outer result is missing if it is
given more often. -/
def Sorted.single? (s : Sorted) (name : String) : Option (Option String) :=
  match s.values name with
  | [] => some none
  | [value] => some (some value)
  | _ => none

/-- A value of the command line or else of an environment variable, read; it is refused if it cannot
be read. -/
def Sorted.read? {α : Type} (s : Sorted) (env : Environment) (name variableName : String)
    (read : String → Option α) : Option (Option α) := do
  match (← s.single? name).or (env variableName) with
  | none => return none
  | some text => return some (← read text)

/-! ### Commands -/

/-- The option for the location of the database. -/
def databaseOption : String := "database-url"

/-- The options of each command. -/
def optionsOf (name : String) : Option (List String) :=
  if name = "serve" then
    some ["interval-secs", "initial-delay-secs", "jitter-secs", "fallback-operator",
      "metrics-addr", databaseOption]
  else if name = "sweep" then some ["fallback-operator", databaseOption]
  else if name = "check" then some ["user", "unit", "privilege", databaseOption]
  else if name = "delete-resource" then some [databaseOption]
  else none

/-- An identifier. -/
def readId? {family : IdFamily} (text : String) : Option (Identifier family) :=
  (Decimal.readInt64? text).map Identifier.mk

/-- The operator given on the command line or by its variable. -/
def operator? (s : Sorted) (env : Environment) : Option (Option UserId) :=
  s.read? env "fallback-operator" Variable.operator.name readId?

/-- The request of a command. -/
def request? (env : Environment) (name : String) (s : Sorted) : Option Request :=
  if name = "serve" then do
    let [] := s.positional | none
    let interval ← s.read? env "interval-secs" Variable.interval.name Decimal.readWord?
    let initialDelay ← s.read? env "initial-delay-secs" Variable.initialDelay.name
      Decimal.readWord?
    let jitter ← s.read? env "jitter-secs" Variable.jitter.name Decimal.readWord?
    let operator ← operator? s env
    let address ← s.read? env "metrics-addr" "WARDEN_METRICS_ADDR" SocketAddress.ofText?
    return .serve { interval, initialDelay, jitter, operator } address
  else if name = "sweep" then do
    let [] := s.positional | none
    return .sweep { operator := ← operator? s env }
  else if name = "check" then do
    let [group] := s.positional | none
    let user ← (← s.single? "user").bind readId?
    let units ← (s.values "unit").mapM readId?
    let privilege ← Privilege.ofName? ((← s.single? "privilege").getD "read")
    return .check (← readId? group) user units privilege
  else do
    let [kind, resource] := s.positional | none
    return .deleteResource (← ResourceKind.ofName? kind) (← readId? resource)

/-- The options before the command, the command and the arguments after it. -/
def splitCommand? (s : Sorted) : List String → Option (Sorted × String × List String)
  | [] => none
  | arg :: rest =>
    if isPlain arg then some (s, arg, rest)
    else
      match splitLong? arg with
      | none => none
      | some (name, attached) =>
        if name ≠ databaseOption then none
        else
          match attached, rest with
          | some value, rest =>
            splitCommand? { s with options := s.options ++ [(name, value)] } rest
          | none, value :: rest =>
            if isPlain value then
              splitCommand? { s with options := s.options ++ [(name, value)] } rest
            else none
          | none, [] => none

/-- The location that is used if none is given. -/
def defaultUrl : String := "sqlite://warden.db?mode=rwc"

/-- Read a command line. A location after the command wins over one before it. -/
def parse? (env : Environment) (args : List String) : Option Invocation := do
  let (before, name, rest) ← splitCommand? {} args
  let known ← optionsOf name
  let after ← sortOut? known {} rest
  let outer ← before.single? databaseOption
  let inner ← after.single? databaseOption
  let request ← request? env name after
  return ⟨((inner.or outer).or (env "DATABASE_URL")).getD defaultUrl, request⟩

end AccessGroups.Command
