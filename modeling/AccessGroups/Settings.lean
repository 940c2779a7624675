import AccessGroups.Id
import AccessGroups.Text.Blank
import AccessGroups.Text.Decimal
import AccessGroups.Text.Lower
import AccessGroups.Text.Quoted
import AccessGroups.Time.Duration

/-!
# Settings

The timing of the sweep, the operator who owns the entries that the sweep makes up, and the bypass
of access checks. Each setting has an environment variable; a variable that is not set leaves the
default. Blanks around a value do not matter.

## Main definitions

* `SweepSettings`, with `SweepSettings.ofEnvironment` and `SweepSettings.validate`.
* `AccessSettings`, with `AccessSettings.ofEnvironment`.
* `SettingError`: why settings are refused.
-/

namespace AccessGroups

/-- The environment variables of the settings. -/
inductive Variable where
  | interval
  | initialDelay
  | jitter
  | operator
  | bypass
  deriving DecidableEq, Repr

/-- The name of the variable. -/
def Variable.name : Variable → String
  | .interval => "WARDEN_SWEEP_INTERVAL_SECS"
  | .initialDelay => "WARDEN_SWEEP_INITIAL_DELAY_SECS"
  | .jitter => "WARDEN_SWEEP_JITTER_SECS"
  | .operator => "WARDEN_FALLBACK_OPERATOR_ID"
  | .bypass => "WARDEN_ACCESS_BYPASS"

/-- The texts of the variables that are set. -/
abbrev Environment := String → Option String

/-- The longest interval, delay or jitter in seconds: thirty days. -/
def maxPeriodSecs : Nat := 30 * 24 * 60 * 60

/-- The longest interval, delay or jitter. -/
def maxPeriod : Duration :=
  ⟨maxPeriodSecs * 1000000000, by decide⟩

/-- Why settings are refused. -/
inductive SettingError where
  | invalidNumber (v : Variable) (text : String)
  | invalidBool (v : Variable) (text : String)
  | zeroInterval
  | outOfRange (v : Variable) (secs : Nat)
  | invalidOperator (id : UserId)
  deriving DecidableEq, Repr

namespace SettingError

/-- The cause in words. -/
def message : SettingError → String
  | .invalidNumber v text => "Invalid number for " ++ v.name ++ ": " ++ text
  | .invalidBool v text =>
    "Invalid boolean for " ++ v.name ++ ": " ++ text ++ ". Expected true/false/1/0"
  | .zeroInterval => "Sweep interval must be greater than zero"
  | .outOfRange v secs =>
    v.name ++ " must be at most " ++ toString maxPeriodSecs ++ " seconds, got " ++ toString secs
  | .invalidOperator id => "Fallback operator id must be positive, got " ++ id.text

/-- The cause in diagnostic form. -/
def diagnostic : SettingError → String
  | .invalidNumber v text =>
    "InvalidNumber \x7b var: " ++ Text.Quoted.ofString v.name ++ ", value: " ++
      Text.Quoted.ofString text ++ " \x7d"
  | .invalidBool v text =>
    "InvalidBool \x7b var: " ++ Text.Quoted.ofString v.name ++ ", value: " ++
      Text.Quoted.ofString text ++ " \x7d"
  | .zeroInterval => "ZeroInterval"
  | .outOfRange v secs =>
    "OutOfRange \x7b var: " ++ Text.Quoted.ofString v.name ++ ", value: " ++ toString secs ++
      ", max_secs: " ++ toString maxPeriodSecs ++ " \x7d"
  | .invalidOperator id => "InvalidOperator(" ++ id.text ++ ")"

end SettingError

/-! ### The sweep -/

/-- The timing of the sweep and the owner of the entries that it makes up. -/
structure SweepSettings where
  interval : Duration
  initialDelay : Duration
  jitter : Duration
  operator : UserId
  deriving DecidableEq

namespace SweepSettings

/-- A sweep every hour after half a minute and at most another hour, on behalf of user 1. -/
def default : SweepSettings where
  interval := .ofSecs 3600
  initialDelay := .ofSecs 30
  jitter := .ofSecs 3600
  operator := ⟨1⟩

instance : Inhabited SweepSettings := ⟨default⟩

/-- A period that is not longer than `maxPeriod`. -/
def checkPeriod (v : Variable) (d : Duration) : Except SettingError Unit :=
  if maxPeriod < d then .error (.outOfRange v d.secs) else .ok ()

/-- The interval is positive, no period is too long, and the operator is a valid user. -/
def validate (s : SweepSettings) : Except SettingError Unit := do
  if s.interval.isZero then throw .zeroInterval
  checkPeriod .interval s.interval
  checkPeriod .initialDelay s.initialDelay
  checkPeriod .jitter s.jitter
  if ¬ s.operator.IsValid then throw (.invalidOperator s.operator)

/-- A number of seconds, or the default if the variable is not set. -/
def readPeriod (env : Environment) (v : Variable) (default : Duration) :
    Except SettingError Duration :=
  match env v.name with
  | none => .ok default
  | some text =>
    match Decimal.readWord? (Text.trim text) with
    | none => .error (.invalidNumber v text)
    | some secs => .ok (.ofSecs secs.toUInt64)

/-- The operator, or the default if the variable is not set. -/
def readOperator (env : Environment) (default : UserId) : Except SettingError UserId :=
  match env Variable.operator.name with
  | none => .ok default
  | some text =>
    match Decimal.readInt64? (Text.trim text) with
    | none => .error (.invalidNumber .operator text)
    | some id => .ok ⟨id⟩

/-- The settings that the variables give, before they are validated. The operator is read first. -/
def read (env : Environment) : Except SettingError SweepSettings := do
  let operator ← readOperator env default.operator
  let interval ← readPeriod env .interval default.interval
  let initialDelay ← readPeriod env .initialDelay default.initialDelay
  let jitter ← readPeriod env .jitter default.jitter
  return { interval, initialDelay, jitter, operator }

/-- The valid settings that the variables give. -/
def ofEnvironment (env : Environment) : Except SettingError SweepSettings := do
  let settings ← read env
  settings.validate
  return settings

end SweepSettings

/-! ### Access checks -/

/-- Whether access checks are bypassed. -/
structure AccessSettings where
  bypass : Bool
  deriving DecidableEq

namespace AccessSettings

instance : Inhabited AccessSettings := ⟨⟨false⟩⟩

/-- The value of a switch. Only ASCII letters have an ASCII letter of these words as their lower
case, so that their case map is enough. -/
def switch? (text : String) : Option Bool :=
  let word := Text.lower (Text.trim text)
  if word = "true" || word = "1" then some true
  else if word = "false" || word = "0" || word = "" then some false
  else none

/-- The settings that the variables give. -/
def ofEnvironment (env : Environment) : Except SettingError AccessSettings :=
  match env Variable.bypass.name with
  | none => .ok ⟨false⟩
  | some text =>
    match switch? text with
    | none => .error (.invalidBool .bypass text)
    | some bypass => .ok ⟨bypass⟩

end AccessSettings

end AccessGroups
