import AccessGroups.Proofs.Command.Overrides
import AccessGroups.Proofs.Text.Numeral

/-!
# The language of the variables

The four variables of the sweep are texts, and most texts are no settings. Those that are write a
number of seconds for each period and an identifier for the operator, in decimal with blanks around
it; a variable that is not set stands for its default. A number has to fit in its word before it is
compared with a bound, so that a period that is far too long is no number at all.

Several things can be wrong at once, and one of them is told. Every variable is read before any
number is compared with a bound. The operator is read first and compared last.

## Main definitions

* `Period`: the three periods, with the variable and the default of each.
* `SweepSettings.Sets`, `SweepSettings.SetsOperator`: what a variable sets.
* `SweepSettings.Acceptable`: the settings that the variables set, within their bounds.
* `SweepSettings.Fault`: what is wrong with the variables, with its place in the order in which it
  is looked for.
* `SweepSettings.Checks`: a step looks for what can be wrong between two places.

## Main results

* `SweepSettings.ofEnvironment_iff`: the settings of an environment are those that it sets, and the
  error is the first fault.
-/

namespace AccessGroups

open Text (Writes Sign)

/-- The periods of the sweep. -/
inductive Period where
  | interval
  | initialDelay
  | jitter
  deriving DecidableEq, Repr

namespace Period

/-- The variable of the period. -/
def toVariable : Period → Variable
  | interval => .interval
  | initialDelay => .initialDelay
  | jitter => .jitter

/-- The seconds of the period if its variable is not set. -/
def defaultSecs : Period → Nat
  | interval => 3600
  | initialDelay => 30
  | jitter => 3600

/-- The length of the period. -/
def duration (s : SweepSettings) : Period → Duration
  | interval => s.interval
  | initialDelay => s.initialDelay
  | jitter => s.jitter

/-- The place of the period among the others. -/
def place : Period → Fin 3
  | interval => 0
  | initialDelay => 1
  | jitter => 2

theorem place_inj {p q : Period} : p.place = q.place ↔ p = q := by
  cases p <;> cases q <;> decide

end Period

namespace SweepSettings

variable {env : Environment} {s : SweepSettings} {p : Period} {text : String} {secs : Nat}
  {id : UserId} {e : SettingError}

/-! ### What the variables set -/

/-- The variable of the period, if it is set, writes a number of seconds within 64 bits; otherwise
these are the default. -/
def Sets (env : Environment) (p : Period) (secs : Nat) : Prop :=
  match env p.toVariable.name with
  | none => secs = p.defaultSecs
  | some text => Writes Sign.unsigned text secs ∧ secs < 2 ^ 64

/-- The variable of the operator, if it is set, writes the identifier; otherwise it is the first
user. -/
def SetsOperator (env : Environment) (id : UserId) : Prop :=
  match env Variable.operator.name with
  | none => id.val.toInt = 1
  | some text => Writes Sign.signed text id.val.toInt

/-- The variables set these settings, and they are within their bounds: an interval of at least a
second, no period of more than thirty days, and a positive operator. -/
structure Acceptable (env : Environment) (s : SweepSettings) : Prop where
  periods : ∀ p, ∃ secs, Sets env p secs ∧ (p.duration s).nanos = secs * 1000000000 ∧ secs ≤ 2592000
  positive : 1000000000 ≤ s.interval.nanos
  operatorSet : SetsOperator env s.operator
  operator_pos : 0 < s.operator.val.toInt

/-- What is wrong with the variables, with its place in the order in which it is looked for: a
variable that writes no number of its range, an interval of no time, a period of more than thirty
days, an operator that is not positive. -/
inductive Fault (env : Environment) : Nat → SettingError → Prop where
  | operatorUnreadable {text : String} (hset : env Variable.operator.name = some text)
      (hnone : ∀ id : UserId, ¬ Writes Sign.signed text id.val.toInt) :
      Fault env 0 (.invalidNumber .operator text)
  | periodUnreadable {p : Period} {text : String} (hset : env p.toVariable.name = some text)
      (hnone : ∀ secs : Nat, Writes Sign.unsigned text secs → 2 ^ 64 ≤ secs) :
      Fault env (1 + p.place) (.invalidNumber p.toVariable text)
  | intervalZero (hsets : Sets env .interval 0) : Fault env 4 .zeroInterval
  | periodTooLong {p : Period} {secs : Nat} (hsets : Sets env p secs) (hlong : 2592000 < secs) :
      Fault env (5 + p.place) (.outOfRange p.toVariable secs)
  | operatorInvalid {id : UserId} (hsets : SetsOperator env id) (hle : id.val.toInt ≤ 0) :
      Fault env 8 (.invalidOperator id)

/-! ### Reading one variable -/

theorem Sets.eq {secs' : Nat} (h : Sets env p secs) (h' : Sets env p secs') : secs = secs' := by
  unfold Sets at h h'
  cases hset : env p.toVariable.name with
  | none =>
    simp only [hset] at h h'
    exact h.trans h'.symm
  | some text =>
    simp only [hset] at h h'
    exact Option.some.inj ((Text.readWord?_trim_eq_some_iff.2 h).symm.trans
      (Text.readWord?_trim_eq_some_iff.2 h'))

theorem SetsOperator.eq {id' : UserId} (h : SetsOperator env id) (h' : SetsOperator env id') :
    id = id' := by
  unfold SetsOperator at h h'
  cases hset : env Variable.operator.name with
  | none =>
    simp only [hset] at h h'
    exact Identifier.eq_iff_toInt.2 (h.trans h'.symm)
  | some text =>
    simp only [hset] at h h'
    exact Identifier.ext (Option.some.inj ((Text.readInt64?_trim_eq_some_iff.2 h).symm.trans
      (Text.readInt64?_trim_eq_some_iff.2 h')))

theorem Sets.lt (h : Sets env p secs) : secs < 2 ^ 64 := by
  unfold Sets at h
  cases hset : env p.toVariable.name with
  | none =>
    simp only [hset] at h
    subst h
    cases p <;> decide
  | some text =>
    simp only [hset] at h
    exact h.2

theorem nanos_ofSecs (h : secs < 2 ^ 64) :
    (Duration.ofSecs secs.toUInt64).nanos = secs * 1000000000 :=
  congrArg (· * 1000000000) (UInt64.toNat_ofNat_of_lt' h)

/-- A period is read from its variable, unless that cannot be read. -/
theorem readPeriod_cases (env : Environment) (p : Period) :
    (∃ secs, Sets env p secs ∧
      readPeriod env p.toVariable (p.duration default) = .ok (.ofSecs secs.toUInt64)) ∨
    ∃ text, Fault env (1 + p.place) (.invalidNumber p.toVariable text) ∧
      readPeriod env p.toVariable (p.duration default) =
        .error (.invalidNumber p.toVariable text) := by
  unfold readPeriod
  cases hset : env p.toVariable.name with
  | none =>
    refine .inl ⟨p.defaultSecs, by simp [Sets, hset], ?_⟩
    cases p <;> rfl
  | some text =>
    dsimp only
    cases hread : Decimal.readWord? (Text.trim text) with
    | none =>
      refine .inr ⟨text, .periodUnreadable hset fun secs hwrites => ?_, rfl⟩
      by_contra hlt
      exact Option.some_ne_none secs
        ((Text.readWord?_trim_eq_some_iff.2 ⟨hwrites, Nat.lt_of_not_le hlt⟩).symm.trans hread)
    | some secs =>
      refine .inl ⟨secs, ?_, rfl⟩
      simpa only [Sets, hset] using Text.readWord?_trim_eq_some_iff.1 hread

/-- The operator is read from its variable, unless that cannot be read. -/
theorem readOperator_cases (env : Environment) :
    (∃ id, SetsOperator env id ∧ readOperator env default.operator = .ok id) ∨
    ∃ text, Fault env 0 (.invalidNumber .operator text) ∧
      readOperator env default.operator = .error (.invalidNumber .operator text) := by
  unfold readOperator
  cases hset : env Variable.operator.name with
  | none => exact .inl ⟨default.operator, by simp [SetsOperator, hset]; rfl, rfl⟩
  | some text =>
    dsimp only
    cases hread : Decimal.readInt64? (Text.trim text) with
    | none =>
      refine .inr ⟨text, .operatorUnreadable hset fun id hwrites => ?_, rfl⟩
      exact Option.some_ne_none id.val
        ((Text.readInt64?_trim_eq_some_iff.2 hwrites).symm.trans hread)
    | some id =>
      refine .inl ⟨⟨id⟩, ?_, rfl⟩
      simpa only [SetsOperator, hset] using Text.readInt64?_trim_eq_some_iff.1 hread

theorem not_unreadable_of_sets {text : String} (h : Sets env p secs)
    (hset : env p.toVariable.name = some text) :
    ¬ ∀ secs : Nat, Writes Sign.unsigned text secs → 2 ^ 64 ≤ secs := by
  intro hnone
  simp only [Sets, hset] at h
  exact absurd (hnone secs h.1) (Nat.not_le_of_lt h.2)

theorem not_unreadable_of_setsOperator {text : String} (h : SetsOperator env id)
    (hset : env Variable.operator.name = some text) :
    ¬ ∀ id : UserId, ¬ Writes Sign.signed text id.val.toInt := by
  intro hnone
  simp only [SetsOperator, hset] at h
  exact hnone id h

/-! ### One check after another -/

/-- Nothing is wrong of what is looked for before the place `k`. -/
def Clear (env : Environment) (k : Nat) : Prop :=
  ∀ j e, Fault env j e → k ≤ j

/-- The step looks for what can be wrong from the place `lo` up to `hi`: if nothing is wrong before,
it fails with the first fault, or else nothing is wrong before `hi`. -/
def Checks {α : Type} (env : Environment) (lo hi : Nat) (x : Except SettingError α) : Prop :=
  Clear env lo → match x with
    | .error e => ∃ k, Fault env k e ∧ Clear env k
    | .ok _ => Clear env hi

section Checks

variable {α β : Type} {lo mid hi : Nat} {x : Except SettingError α} {a : α}

theorem Checks.bind {f : α → Except SettingError β} (h : Checks env lo mid x)
    (hf : ∀ a, x = .ok a → Checks env mid hi (f a)) : Checks env lo hi (x >>= f) := by
  intro hclear
  cases x with
  | error e => exact h hclear
  | ok a => exact hf a rfl (h hclear)

theorem checks_error (h : Fault env lo e) : Checks env lo hi (.error e : Except SettingError α) :=
  fun hclear => ⟨lo, h, hclear⟩

theorem checks_ok (h : ∀ e, ¬ Fault env lo e) : Checks env lo (lo + 1) (.ok a) := by
  intro hclear j e hfault
  refine Nat.lt_of_le_of_ne (hclear j e hfault) fun heq => ?_
  exact h e (heq ▸ hfault)

end Checks

/-- A condition that ends the steps with an error. -/
theorem checks_guard {α : Type} {lo hi : Nat} {c : Prop} [Decidable c]
    {f : Unit → Except SettingError α} (hfault : c → Fault env lo e)
    (hclear : ¬ c → ∀ e, ¬ Fault env lo e) (hf : ¬ c → Checks env (lo + 1) hi (f ())) :
    Checks env lo hi (if c then throw e >>= f else f ()) := by
  by_cases hc : c
  · rw [if_pos hc]
    exact checks_error (hfault hc)
  · rw [if_neg hc]
    exact (checks_ok (a := ()) (hclear hc)).bind fun _ _ => hf hc

/-- At each place there is one fault at most. -/
theorem Fault.unique {e' : SettingError} {k : Nat} (h : Fault env k e) (h' : Fault env k e') :
    e = e' := by
  generalize hk : k = j at h'
  cases h with
  | operatorUnreadable hset =>
    cases h' with
    | operatorUnreadable hset' => rw [Option.some.inj (hset.symm.trans hset')]
    | periodUnreadable | intervalZero | periodTooLong | operatorInvalid => omega
  | periodUnreadable hset =>
    cases h' with
    | periodUnreadable hset' =>
      obtain rfl := Period.place_inj.1 (Fin.ext (Nat.add_left_cancel hk))
      rw [Option.some.inj (hset.symm.trans hset')]
    | operatorUnreadable | intervalZero | periodTooLong | operatorInvalid => omega
  | intervalZero =>
    cases h' with
    | intervalZero => rfl
    | operatorUnreadable | periodUnreadable | periodTooLong | operatorInvalid => omega
  | periodTooLong hsets =>
    cases h' with
    | periodTooLong hsets' =>
      obtain rfl := Period.place_inj.1 (Fin.ext (Nat.add_left_cancel hk))
      rw [hsets.eq hsets']
    | operatorUnreadable | periodUnreadable | intervalZero | operatorInvalid => omega
  | operatorInvalid hsets =>
    cases h' with
    | operatorInvalid hsets' => rw [hsets.eq hsets']
    | operatorUnreadable | periodUnreadable | intervalZero | periodTooLong => omega

theorem Fault.lt {k : Nat} (h : Fault env k e) : k < 9 := by
  cases h <;> omega

/-! ### Reading the variables -/

theorem checks_readOperator (env : Environment) :
    Checks env 0 1 (readOperator env default.operator) := by
  obtain ⟨id, hsets, hread⟩ | ⟨text, hfault, hread⟩ := readOperator_cases env
  · rw [hread]
    refine checks_ok fun e hfault => ?_
    generalize hk : 0 = k at hfault
    cases hfault with
    | operatorUnreadable hset hnone => exact not_unreadable_of_setsOperator hsets hset hnone
    | periodUnreadable | intervalZero | periodTooLong | operatorInvalid => omega
  · rw [hread]
    exact checks_error hfault

theorem checks_readPeriod (env : Environment) (p : Period) :
    Checks env (1 + p.place) (1 + p.place + 1)
      (readPeriod env p.toVariable (p.duration default)) := by
  obtain ⟨secs, hsets, hread⟩ | ⟨text, hfault, hread⟩ := readPeriod_cases env p
  · rw [hread]
    refine checks_ok fun e hfault => ?_
    generalize hk : 1 + (p.place : Nat) = k at hfault
    cases hfault with
    | periodUnreadable hset hnone =>
      obtain rfl := Period.place_inj.1 (Fin.ext (Nat.add_left_cancel hk))
      exact not_unreadable_of_sets hsets hset hnone
    | operatorUnreadable | intervalZero | periodTooLong | operatorInvalid => omega
  · rw [hread]
    exact checks_error hfault

theorem checks_read (env : Environment) : Checks env 0 4 (read env) :=
  (checks_readOperator env).bind fun _ _ => (checks_readPeriod env .interval).bind fun _ _ =>
    (checks_readPeriod env .initialDelay).bind fun _ _ =>
      (checks_readPeriod env .jitter).bind fun _ _ hclear => hclear

/-- The settings are what the variables set. -/
structure Told (env : Environment) (s : SweepSettings) : Prop where
  period : ∀ p, ∃ secs, Sets env p secs ∧ (p.duration s).nanos = secs * 1000000000
  operator : SetsOperator env s.operator

theorem exists_sets_of_readPeriod {d : Duration}
    (h : readPeriod env p.toVariable (p.duration default) = .ok d) :
    ∃ secs, Sets env p secs ∧ d.nanos = secs * 1000000000 := by
  obtain ⟨secs, hsets, hread⟩ | ⟨text, -, hread⟩ := readPeriod_cases env p
  · obtain rfl := Except.ok.inj (hread.symm.trans h)
    exact ⟨secs, hsets, nanos_ofSecs hsets.lt⟩
  · cases hread.symm.trans h

theorem told_of_read (h : read env = .ok s) : Told env s := by
  simp only [read, bind_eq_ok_iff] at h
  obtain ⟨operator, hoperator, interval, hinterval, delay, hdelay, jitter, hjitter, hs⟩ := h
  obtain rfl := Except.ok.inj hs
  refine ⟨fun p => ?_, ?_⟩
  · cases p with
    | interval => exact exists_sets_of_readPeriod (p := .interval) hinterval
    | initialDelay => exact exists_sets_of_readPeriod (p := .initialDelay) hdelay
    | jitter => exact exists_sets_of_readPeriod (p := .jitter) hjitter
  · obtain ⟨id, hsets, hread⟩ | ⟨text, -, hread⟩ := readOperator_cases env
    · obtain rfl := Except.ok.inj (hread.symm.trans hoperator)
      exact hsets
    · cases hread.symm.trans hoperator

/-! ### Checking the settings -/

theorem Told.checks_period (h : Told env s) (p : Period) :
    Checks env (5 + p.place) (5 + p.place + 1) (checkPeriod p.toVariable (p.duration s)) := by
  obtain ⟨secs, hsets, hnanos⟩ := h.period p
  have hlong : maxPeriod < p.duration s ↔ 2592000 < secs := by
    have hmax : maxPeriod.nanos = 2592000 * 1000000000 := rfl
    have hlt : maxPeriod < p.duration s ↔ maxPeriod.nanos < (p.duration s).nanos := Iff.rfl
    rw [hlt, hnanos, hmax]
    omega
  have hsecs : (p.duration s).secs = secs := by
    rw [Duration.secs, hnanos]
    omega
  rw [checkPeriod, hsecs]
  by_cases hc : maxPeriod < p.duration s
  · rw [if_pos hc]
    exact checks_error (.periodTooLong hsets (hlong.1 hc))
  · rw [if_neg hc]
    refine checks_ok fun e hfault => ?_
    generalize hk : 5 + (p.place : Nat) = k at hfault
    cases hfault with
    | periodTooLong hsets' hlong' =>
      obtain rfl := Period.place_inj.1 (Fin.ext (Nat.add_left_cancel hk))
      exact hc (hlong.2 (hsets.eq hsets' ▸ hlong'))
    | operatorUnreadable | periodUnreadable | intervalZero | operatorInvalid => omega

theorem Told.not_intervalZero (h : Told env s) (hpos : ¬ s.interval.isZero = true)
    (e : SettingError) : ¬ Fault env 4 e := by
  intro hfault
  generalize hk : 4 = k at hfault
  cases hfault with
  | intervalZero hsets =>
    obtain ⟨secs, hsets', hnanos⟩ := h.period .interval
    obtain rfl := hsets.eq hsets'
    exact hpos (decide_eq_true (hnanos.trans (Nat.zero_mul _)))
  | operatorUnreadable | periodUnreadable | periodTooLong | operatorInvalid => omega

theorem Told.not_operatorInvalid (h : Told env s) (hvalid : s.operator.IsValid)
    (e : SettingError) : ¬ Fault env 8 e := by
  intro hfault
  generalize hk : 8 = k at hfault
  cases hfault with
  | operatorInvalid hsets hle =>
    obtain rfl := hsets.eq h.operator
    exact absurd (Int64.lt_iff_toInt_lt.1 hvalid) (Int.not_lt.2 hle)
  | operatorUnreadable | periodUnreadable | intervalZero | periodTooLong => omega

theorem Told.checks_validate (h : Told env s) : Checks env 4 9 s.validate := by
  rw [validate]
  refine checks_guard (fun hzero => ?_) h.not_intervalZero fun _ => ?_
  · obtain ⟨secs, hsets, hnanos⟩ := h.period .interval
    have hsecs : secs = 0 := by
      have hzero' : s.interval.nanos = 0 := of_decide_eq_true hzero
      exact (Nat.mul_eq_zero.1 (hnanos.symm.trans hzero')).resolve_right (by decide)
    exact .intervalZero (hsecs ▸ hsets)
  · refine (h.checks_period .interval).bind fun _ _ => (h.checks_period .initialDelay).bind
      fun _ _ => (h.checks_period .jitter).bind fun _ _ => ?_
    by_cases hvalid : s.operator.IsValid
    · rw [if_neg (not_not_intro hvalid)]
      exact checks_ok (h.not_operatorInvalid hvalid)
    · rw [if_pos hvalid]
      refine checks_error (.operatorInvalid h.operator (Int.not_lt.1 fun hpos => hvalid ?_))
      exact Int64.lt_iff_toInt_lt.2 hpos

/-! ### The settings of an environment -/

theorem checks_ofEnvironment (env : Environment) : Checks env 0 9 (ofEnvironment env) :=
  (checks_read env).bind fun _ hread => (told_of_read hread).checks_validate.bind
    fun _ _ hclear => hclear

theorem first_of_eq_error (h : ofEnvironment env = .error e) :
    ∃ k, Fault env k e ∧ Clear env k := by
  have hchecks := checks_ofEnvironment env fun j _ _ => Nat.zero_le j
  rwa [h] at hchecks

theorem not_fault_of_eq_ok (h : ofEnvironment env = .ok s) (k : Nat) (e : SettingError) :
    ¬ Fault env k e := by
  have hchecks := checks_ofEnvironment env fun j _ _ => Nat.zero_le j
  rw [h] at hchecks
  exact fun hfault => absurd (hchecks k e hfault) (Nat.not_le_of_lt hfault.lt)

theorem Acceptable.not_fault (h : Acceptable env s) (k : Nat) (e : SettingError) :
    ¬ Fault env k e := by
  rintro (⟨hset, hnone⟩ | ⟨hset, hnone⟩ | ⟨hsets⟩ | ⟨hsets, hlong⟩ | ⟨hsets, hle⟩)
  · exact not_unreadable_of_setsOperator h.operatorSet hset hnone
  · obtain ⟨secs, hsets, -⟩ := h.periods _
    exact not_unreadable_of_sets hsets hset hnone
  · obtain ⟨secs, hsets', hnanos, -⟩ := h.periods .interval
    obtain rfl := hsets.eq hsets'
    have hpos : 1000000000 ≤ (Period.duration s .interval).nanos := h.positive
    omega
  · obtain ⟨secs, hsets', -, hle⟩ := h.periods _
    exact absurd (hsets.eq hsets' ▸ hle) (Nat.not_le_of_lt hlong)
  · exact absurd h.operator_pos (Int.not_lt.2 (hsets.eq h.operatorSet ▸ hle))

theorem acceptable_of_eq_ok (h : ofEnvironment env = .ok s) : Acceptable env s := by
  have hread : read env = .ok s := read_eq_ok_iff.2 (ofEnvironment_eq_ok_iff.1 h).1
  have htold := told_of_read hread
  refine ⟨fun p => ?_, ?_, htold.operator, ?_⟩
  · obtain ⟨secs, hsets, hnanos⟩ := htold.period p
    refine ⟨secs, hsets, hnanos, Nat.not_lt.1 fun hlong => ?_⟩
    exact not_fault_of_eq_ok h _ _ (.periodTooLong hsets hlong)
  · obtain ⟨secs, hsets, hnanos⟩ := htold.period .interval
    have hpos : secs ≠ 0 := fun hzero => not_fault_of_eq_ok h _ _ (.intervalZero (hzero ▸ hsets))
    have hlong : 1000000000 ≤ (Period.duration s .interval).nanos := by omega
    exact hlong
  · refine Int.not_le.1 fun hle => ?_
    exact not_fault_of_eq_ok h _ _ (.operatorInvalid htold.operator hle)

theorem Acceptable.eq {t : SweepSettings} (hs : Acceptable env s) (ht : Acceptable env t) :
    s = t := by
  have hperiod (p : Period) : p.duration s = p.duration t := by
    obtain ⟨secs, hsets, hnanos, -⟩ := hs.periods p
    obtain ⟨secs', hsets', hnanos', -⟩ := ht.periods p
    exact Duration.ext (by rw [hnanos, hnanos', hsets.eq hsets'])
  have hoperator := hs.operatorSet.eq ht.operatorSet
  cases s
  cases t
  congr
  · exact hperiod .interval
  · exact hperiod .initialDelay
  · exact hperiod .jitter

/-- **An environment has the settings that its variables set, if they are within their bounds, and
otherwise the error is the first fault.** The settings are valid, and there is a timetable with
them. -/
theorem ofEnvironment_iff (env : Environment) :
    (∀ s, ofEnvironment env = .ok s ↔ Acceptable env s) ∧
      (∀ s, Acceptable env s → s.validate = .ok () ∧ ∃ t, Timetable.ofSettings s = .ok t ∧
        t.interval = s.interval ∧ t.initialDelay = s.initialDelay ∧ t.jitter = s.jitter) ∧
      ∀ e, ofEnvironment env = .error e ↔
        ∃ k, Fault env k e ∧ ∀ j e', Fault env j e' → k ≤ j := by
  have hok (s : SweepSettings) : ofEnvironment env = .ok s ↔ Acceptable env s := by
    refine ⟨acceptable_of_eq_ok, fun h => ?_⟩
    cases hresult : ofEnvironment env with
    | ok t => rw [(acceptable_of_eq_ok hresult).eq h]
    | error e =>
      obtain ⟨k, hfault, -⟩ := first_of_eq_error hresult
      exact absurd hfault (h.not_fault k e)
  refine ⟨hok, fun s h => ?_, fun e => ⟨first_of_eq_error, ?_⟩⟩
  · have hvalid := (ofEnvironment_eq_ok_iff.1 ((hok s).2 h)).2
    have hpos : s.interval.nanos ≠ 0 := by
      have := h.positive
      omega
    refine ⟨validate_eq_ok_iff.2 hvalid, ⟨s.interval, s.initialDelay, s.jitter, hpos⟩, ?_,
      rfl, rfl, rfl⟩
    exact dif_pos hpos
  · rintro ⟨k, hfault, hclear⟩
    cases hresult : ofEnvironment env with
    | ok s => exact absurd hfault (not_fault_of_eq_ok hresult k e)
    | error e' =>
      obtain ⟨k', hfault', hclear'⟩ := first_of_eq_error hresult
      obtain rfl := Nat.le_antisymm (hclear k' e' hfault') (hclear' k e hfault)
      rw [hfault'.unique hfault]

/-- A minute with a wide blank, a sign and zeros before it, and user 7 before a line break. -/
def spelled : Environment := fun name =>
  if name = Variable.interval.name then some "\u3000+0060"
  else if name = Variable.operator.name then some "7\n"
  else none

/-- An operator that is not positive, and an interval that does not fit in its word. -/
def garbled : Environment := fun name =>
  if name = Variable.interval.name then some " 18446744073709551616"
  else if name = Variable.operator.name then some "-0"
  else none

theorem ofEnvironment_iff_spelled :
    Acceptable spelled { default with interval := .ofSecs 60, operator := ⟨7⟩ } ∧
      ∃ k, Fault garbled k (.invalidNumber .interval " 18446744073709551616") ∧
        ∀ j e, Fault garbled j e → k ≤ j := by
  have hspelled : ofEnvironment spelled =
      .ok { default with interval := .ofSecs 60, operator := ⟨7⟩ } := by decide +kernel
  have hgarbled : ofEnvironment garbled =
      .error (.invalidNumber .interval " 18446744073709551616") := by decide +kernel
  exact ⟨((ofEnvironment_iff spelled).1 _).1 hspelled,
    ((ofEnvironment_iff garbled).2.2 _).1 hgarbled⟩

end SweepSettings

end AccessGroups
