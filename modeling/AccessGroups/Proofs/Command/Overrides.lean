import AccessGroups.Command.Run

/-!
# Settings of a command

A setting of a command is what the command line gives, or else what the environment says, or else
the default. A command with the settings that this comes to is refused in two cases: if they cannot
be read or are not valid, and also if the environment alone cannot be read or is not valid, even
where the command line replaces what is wrong with it.

## Main definitions

* `SweepSettings.Valid`: the settings pass the check.
* `Command.choose`: a setting that can be given in two places.
* `Command.Overrides.settings?`: the settings of a command, chosen one by one.

## Main results

* `SweepSettings.validate_eq_ok_iff`: the check is passed by the valid settings.
* `SweepSettings.ofEnvironment_eq_ok_iff`: the settings of an environment.
* `Command.mergeSettings_eq_ok_iff`: when a command has settings, and which.
-/

namespace AccessGroups

namespace SweepSettings

variable {env : Environment} {s : SweepSettings}

/-- The interval is positive, no period is longer than the longest one, and the operator is a user
that there can be. -/
structure Valid (s : SweepSettings) : Prop where
  positive : s.interval.isZero = false
  interval : s.interval ≤ maxPeriod
  initialDelay : s.initialDelay ≤ maxPeriod
  jitter : s.jitter ≤ maxPeriod
  operator : s.operator.IsValid

theorem checkPeriod_eq_ok_iff {v : Variable} {d : Duration} :
    checkPeriod v d = .ok () ↔ d ≤ maxPeriod := by
  have hle : d ≤ maxPeriod ↔ ¬ maxPeriod < d := Nat.not_lt.symm
  rw [checkPeriod, hle]
  split <;> simp_all

/-- What follows a step is done with its result. -/
theorem bind_eq_ok_iff {α β : Type} {x : Except SettingError α} {f : α → Except SettingError β}
    {b : β} : x >>= f = .ok b ↔ ∃ a, x = .ok a ∧ f a = .ok b := by
  cases x <;> simp [bind, Except.bind]

theorem validate_eq_ok_iff : s.validate = .ok () ↔ s.Valid := by
  have hbind (x y : Except SettingError Unit) :
      (x >>= fun _ => y) = .ok () ↔ x = .ok () ∧ y = .ok () :=
    bind_eq_ok_iff.trans ⟨fun ⟨_, hx, hy⟩ => ⟨hx, hy⟩, fun ⟨hx, hy⟩ => ⟨(), hx, hy⟩⟩
  have hguard (p : Prop) [Decidable p] (e : SettingError) (f : Unit → Except SettingError Unit) :
      (if p then throw e >>= f else f ()) = .ok () ↔ ¬ p ∧ f () = .ok () := by
    split <;> simp_all [throw, throwThe, MonadExceptOf.throw, bind, Except.bind]
  have hlast (p : Prop) [Decidable p] (e : SettingError) :
      (if p then throw e else pure () : Except SettingError Unit) = .ok () ↔ ¬ p := by
    split <;> simp_all [throw, throwThe, MonadExceptOf.throw, pure, Except.pure]
  rw [validate, hguard, hbind, hbind, hbind, hlast, checkPeriod_eq_ok_iff, checkPeriod_eq_ok_iff,
    checkPeriod_eq_ok_iff, Decidable.not_not, Bool.not_eq_true]
  exact ⟨fun ⟨h₁, h₂, h₃, h₄, h₅⟩ => ⟨h₁, h₂, h₃, h₄, h₅⟩, fun h => ⟨h.1, h.2, h.3, h.4, h.5⟩⟩

/-- Settings that are checked and then returned. -/
theorem checked_eq_ok_iff {t : SweepSettings} :
    (t.validate >>= fun _ => pure t) = .ok s ↔ t = s ∧ s.Valid := by
  rw [bind_eq_ok_iff]
  constructor
  · rintro ⟨⟨⟩, hvalid, heq⟩
    obtain rfl := Except.ok.inj heq
    exact ⟨rfl, validate_eq_ok_iff.1 hvalid⟩
  · rintro ⟨rfl, hvalid⟩
    exact ⟨(), validate_eq_ok_iff.2 hvalid, rfl⟩

end SweepSettings

namespace Command

/-- What is given, or else what a text says that may be set, or else the default. There is none if
the text has to be read and cannot be. -/
def choose {α : Type} (given : Option α) (text : Option String) (read : String → Option α)
    (default : α) : Option α :=
  match given, text with
  | some a, _ => some a
  | none, some text => read text
  | none, none => some default

/-- A number of seconds with blanks around it. -/
def period? (text : String) : Option Duration :=
  (Decimal.readWord? (Text.trim text)).map fun secs => .ofSecs secs.toUInt64

/-- A user with blanks around it. -/
def user? (text : String) : Option UserId :=
  (Decimal.readInt64? (Text.trim text)).map Identifier.mk

variable {env : Environment} {o : Overrides} {s e : SweepSettings}

namespace Overrides

/-- The period that the command line gives. -/
def period (secs : Option Nat) : Option Duration :=
  secs.map fun n => Duration.ofSecs n.toUInt64

/-- The settings, each one chosen between the command line, its variable and its default. -/
def settings? (env : Environment) (o : Overrides) : Option SweepSettings := do
  let interval ← choose (period o.interval) (env Variable.interval.name) period?
    SweepSettings.default.interval
  let initialDelay ← choose (period o.initialDelay) (env Variable.initialDelay.name) period?
    SweepSettings.default.initialDelay
  let jitter ← choose (period o.jitter) (env Variable.jitter.name) period?
    SweepSettings.default.jitter
  let operator ← choose o.operator (env Variable.operator.name) user?
    SweepSettings.default.operator
  return { interval, initialDelay, jitter, operator }

/-- Settings with the parts that the command line replaces. -/
def replacing (o : Overrides) (s : SweepSettings) : SweepSettings where
  interval := (period o.interval).getD s.interval
  initialDelay := (period o.initialDelay).getD s.initialDelay
  jitter := (period o.jitter).getD s.jitter
  operator := o.operator.getD s.operator

end Overrides

open Overrides (period)

theorem settings?_eq_some_iff : o.settings? env = some s ↔
    choose (period o.interval) (env Variable.interval.name) period?
        SweepSettings.default.interval = some s.interval ∧
      choose (period o.initialDelay) (env Variable.initialDelay.name) period?
        SweepSettings.default.initialDelay = some s.initialDelay ∧
      choose (period o.jitter) (env Variable.jitter.name) period?
        SweepSettings.default.jitter = some s.jitter ∧
      choose o.operator (env Variable.operator.name) user?
        SweepSettings.default.operator = some s.operator := by
  simp only [Overrides.settings?, bind, Option.bind_eq_some_iff, pure, Option.some.injEq]
  constructor
  · rintro ⟨interval, h₁, initialDelay, h₂, jitter, h₃, operator, h₄, rfl⟩
    exact ⟨h₁, h₂, h₃, h₄⟩
  · rintro ⟨h₁, h₂, h₃, h₄⟩
    exact ⟨_, h₁, _, h₂, _, h₃, _, h₄, rfl⟩

theorem choose_of_environment {α : Type} {given : Option α} {text : Option String}
    {read : String → Option α} {default a : α} (h : choose none text read default = some a) :
    choose given text read default = some (given.getD a) := by
  cases given with
  | none => exact h
  | some b => rfl

/-- What the command line replaces does not have to be read. -/
theorem settings?_replacing (h : Overrides.settings? env {} = some e) :
    o.settings? env = some (o.replacing e) := by
  obtain ⟨hinterval, hdelay, hjitter, hoperator⟩ := settings?_eq_some_iff.1 h
  exact settings?_eq_some_iff.2 ⟨choose_of_environment hinterval, choose_of_environment hdelay,
    choose_of_environment hjitter, choose_of_environment hoperator⟩

end Command

namespace SweepSettings

open Command

variable {env : Environment} {s : SweepSettings}

theorem readPeriod_eq_ok_iff {v : Variable} {default d : Duration} :
    readPeriod env v default = .ok d ↔ choose none (env v.name) period? default = some d := by
  rw [readPeriod]
  cases env v.name with
  | none => simp [choose]
  | some text =>
    dsimp only [choose, period?]
    cases Decimal.readWord? (Text.trim text) <;> simp

theorem readOperator_eq_ok_iff {default id : UserId} :
    readOperator env default = .ok id ↔
      choose none (env Variable.operator.name) user? default = some id := by
  rw [readOperator]
  cases env Variable.operator.name with
  | none => simp [choose]
  | some text =>
    dsimp only [choose, user?]
    cases Decimal.readInt64? (Text.trim text) <;> simp

theorem read_eq_ok_iff : read env = .ok s ↔ Overrides.settings? env {} = some s := by
  simp only [read, bind_eq_ok_iff, readOperator_eq_ok_iff, readPeriod_eq_ok_iff, pure, Except.pure,
    Except.ok.injEq]
  rw [settings?_eq_some_iff]
  constructor
  · rintro ⟨operator, h₁, interval, h₂, initialDelay, h₃, jitter, h₄, rfl⟩
    exact ⟨h₂, h₃, h₄, h₁⟩
  · rintro ⟨h₁, h₂, h₃, h₄⟩
    exact ⟨_, h₄, _, h₁, _, h₂, _, h₃, rfl⟩

/-- An environment has settings if what is set can be read and the settings are valid. -/
theorem ofEnvironment_eq_ok_iff :
    ofEnvironment env = .ok s ↔ Overrides.settings? env {} = some s ∧ s.Valid := by
  have hread : ofEnvironment env = read env >>= fun t => t.validate >>= fun _ => pure t := rfl
  rw [hread, bind_eq_ok_iff, ← read_eq_ok_iff]
  simp only [checked_eq_ok_iff]
  exact ⟨fun ⟨_, ht, heq, hvalid⟩ => ⟨heq ▸ ht, hvalid⟩, fun ⟨hs, hvalid⟩ => ⟨s, hs, rfl, hvalid⟩⟩

end SweepSettings

namespace Command

variable {env : Environment} {o : Overrides} {s : SweepSettings}

/-- **A command has the settings of the command line, or else of the environment, or else the
default ones**, and none but these. It has them if they can be read and are valid, and the settings
of the environment without the command line can be read and are valid too. -/
theorem mergeSettings_eq_ok_iff (env : Environment) (o : Overrides) (s : SweepSettings) :
    mergeSettings env o = .ok s ↔ (o.settings? env = some s ∧ s.Valid) ∧
      ∃ e, Overrides.settings? env {} = some e ∧ e.Valid := by
  have hmerge : mergeSettings env o = SweepSettings.ofEnvironment env >>= fun e =>
      (o.replacing e).validate >>= fun _ => pure (o.replacing e) := rfl
  rw [hmerge, SweepSettings.bind_eq_ok_iff]
  simp only [SweepSettings.checked_eq_ok_iff, SweepSettings.ofEnvironment_eq_ok_iff]
  constructor
  · rintro ⟨e, ⟨hread, hvalid⟩, rfl, hmerged⟩
    exact ⟨⟨settings?_replacing hread, hmerged⟩, e, hread, hvalid⟩
  · rintro ⟨⟨hsettings, hmerged⟩, e, hread, hvalid⟩
    have hsame : o.replacing e = s := by
      rw [settings?_replacing hread] at hsettings
      exact Option.some.inj hsettings
    exact ⟨e, ⟨hread, hvalid⟩, hsame, hmerged⟩

/-- A variable that cannot be read is not made good by the command line. -/
example : mergeSettings (fun name => if name = Variable.interval.name then some "soon" else none)
    { interval := some 60 } = .error (.invalidNumber .interval "soon") := by
  cbv

end Command

end AccessGroups
