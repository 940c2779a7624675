import AccessGroups.Proofs.Program.Stateful
import AccessGroups.Proofs.Program.Watched
import AccessGroups.Proofs.Service.Access

/-!
# What the access check asks, and what it makes of it

The check asks for the current user, then for the rows of the group, and for the units of the user
only at the end. Here the source of principals may answer anything, and may answer differently each
time. What the check decides is nevertheless what the rows, the user and the units come to without
any order: it grants the mask when one row covers every bit of it and names the user or one of the
units. It fails when something that it needs cannot be told, and it needs the units only if a row
with a unit could still grant the mask and none with the user does.

## Main definitions

* `Resolver`, `World.consult`: a source of principals of any behaviour, and a run that consults it.
* `Told`, `World.told`: what a check would be told.
* `Told.Fails`, `Told.Grants`: the plain meaning of a check.

## Main results

* `Privileges.covers_iff`: what it is to cover a mask.
* `Access.satisfies_consult`: the check has its plain meaning, and asks for nothing in vain.
-/

namespace AccessGroups

/-- The bit of a privilege. -/
def Privileges.bit (p : Privileges) : Privilege → Bool
  | .read => p.read
  | .modify => p.modify
  | .create => p.create
  | .delete => p.delete

/-- A mask is covered when every bit of it is set. -/
theorem Privileges.covers_iff {p mask : Privileges} :
    p.covers mask = true ↔ ∀ b, mask.bit b = true → p.bit b = true := by
  simp only [covers, Bool.and_eq_true, Bool.or_eq_true, Bool.not_eq_true', ← Bool.not_eq_true,
    ← imp_iff_not_or]
  constructor
  · rintro ⟨⟨⟨hread, hmodify⟩, hcreate⟩, hdelete⟩ (_ | _ | _ | _)
    · exact hread
    · exact hmodify
    · exact hcreate
    · exact hdelete
  · exact fun h => ⟨⟨⟨h .read, h .modify⟩, h .create⟩, h .delete⟩

/-- The rows of a group, or why they cannot be read. -/
def Backend.rowsOf (b : Backend) (g : GroupId) : Except StoreError (List Entry) :=
  match b with
  | .memory s _ => .ok (s.entries.rows.filter fun e => e.group = g)
  | .database _ d => d.entriesOrError.map fun t => t.rows.filter fun e => e.group = g

/-- Every store answers when it is asked for the rows of a group. -/
theorem Backend.performStore_findGroup (b : Backend) (g : GroupId) :
    b.performStore (.findGroup g) = some (b.rowsOf g, b) := by
  cases b with
  | memory s r => rfl
  | database tables d =>
    cases hrows : d.entriesOrError with
    | error e =>
      simp [performStore, rowsOf, Database.performStore, Database.refuse, hrows, Except.map]
    | ok t =>
      simp [performStore, rowsOf, Database.performStore, Database.performRows, hrows, Except.map]

/-! ### Sources of principals -/

/-- A source of principals. What it answers may depend on all that was asked before. -/
abbrev Resolver : Type :=
  List Exchange → (c : PrincipalCall) → c.Answer

/-- The source with another answer about units. -/
def Resolver.withUnits (resolver : Resolver) (answer : Except PrincipalError (List UnitId)) :
    Resolver
  | asked, .currentUser => resolver asked .currentUser
  | _, .unitsOf _ => answer

/-- Answer an operation, with a call about principals put to the source. -/
def Watch.consult (d : Disturbance) (resolver : Resolver) (w : Watch) (op : Op) :
    Option op.Answer × Watch :=
  match op with
  | .call (.principal c) =>
    (some (resolver w.exchanges c), w.note (.principal c) (resolver w.exchanges c))
  | op => w.handle d op

/-- Run a program that consults a source of principals, and watch it. -/
def World.consult {α : Type} (w : World) (d : Disturbance) (resolver : Resolver) (p : Prog α) :
    Option α × Watch :=
  p.runIn (Watch.consult d resolver) { world := w }

/-- The calls that were made. -/
def Watch.calls (w : Watch) : List Call :=
  w.exchanges.map Exchange.call

/-- The call asks for the units of a user. -/
def Call.isUnitsOf : Call → Bool
  | .principal (.unitsOf _) => true
  | _ => false

/-! ### The plain meaning of a check -/

/-- What a check would be told: the current user, the rows of the group, and the units of a user. -/
structure Told where
  user : Except PrincipalError UserId
  rows : Except StoreError (List Entry)
  units : UserId → Except PrincipalError (List UnitId)

/-- What a check in a world would be told. The rows cannot be read if the second call fails, or if
the store does not have them. -/
def World.told (w : World) (d : Disturbance) (resolver : Resolver) (g : GroupId) : Told :=
  let user := resolver [] .currentUser
  let rows := (d.fault 1).elim (w.backend.rowsOf g) .error
  let asked := [⟨.principal .currentUser, user⟩, ⟨.store (.findGroup g), rows⟩]
  ⟨user, rows, fun user => resolver asked (.unitsOf user)⟩

namespace Told

variable {t : Told} {mask : Privileges} {user : UserId} {rows : List Entry}

/-- The check fails because something that it needs cannot be told. -/
inductive Fails (t : Told) (mask : Privileges) : ServiceError → Prop
  /-- The current user. -/
  | user {e} (h : t.user = .error e) : Fails t mask (.principal e)
  /-- The rows of the group. -/
  | rows {user e} (huser : t.user = .ok user) (h : t.rows = .error e) : Fails t mask (.store e)
  /-- The units, where no row covers the mask and names the user but some with a unit covers it. -/
  | units {user rows e} (huser : t.user = .ok user) (hrows : t.rows = .ok rows)
      (hnamed : ¬ ∃ row ∈ rows, row.user = some user ∧ row.privileges.covers mask = true)
      (hunit : ∃ row ∈ rows, row.unit.isSome = true ∧ row.privileges.covers mask = true)
      (h : t.units user = .error e) : Fails t mask (.principal e)

/-- Some row covers every bit of the mask, and names the current user or one of the units. -/
def Grants (t : Told) (mask : Privileges) : Prop :=
  ∃ user rows, t.user = .ok user ∧ t.rows = .ok rows ∧
    ∃ row ∈ rows, (∀ b, mask.bit b = true → row.privileges.bit b = true) ∧
      (row.user = some user ∨ ∃ units, t.units user = .ok units ∧
        ∃ unit ∈ units, row.unit = some unit)

/-- Where user and rows are told, only the units can be missing. -/
theorem fails_iff (huser : t.user = .ok user) (hrows : t.rows = .ok rows) (e : ServiceError) :
    t.Fails mask e ↔
      (¬ ∃ row ∈ rows, row.user = some user ∧ row.privileges.covers mask = true) ∧
        (∃ row ∈ rows, row.unit.isSome = true ∧ row.privileges.covers mask = true) ∧
          ∃ cause, t.units user = .error cause ∧ e = .principal cause := by
  constructor
  · intro hfails
    cases hfails with
    | user h' => cases huser.symm.trans h'
    | rows _ h' => cases hrows.symm.trans h'
    | units huser' hrows' hnamed hunit h' =>
      cases huser.symm.trans huser'
      cases hrows.symm.trans hrows'
      exact ⟨hnamed, hunit, _, h', rfl⟩
  · rintro ⟨hnamed, hunit, cause, h', rfl⟩
    exact .units huser hrows hnamed hunit h'

/-- A mask is granted because a row names the user or because one names a unit. -/
theorem grants_iff (huser : t.user = .ok user) (hrows : t.rows = .ok rows) : t.Grants mask ↔
    (∃ row ∈ rows, row.user = some user ∧ row.privileges.covers mask = true) ∨
      ∃ units, t.units user = .ok units ∧
        (Access.candidateUnits rows mask).any units.contains = true := by
  simp only [Grants, Access.any_candidateUnits_iff, ← Privileges.covers_iff]
  constructor
  · rintro ⟨user', rows', huser', hrows', row, hrow, hcovers, hallowed⟩
    cases huser.symm.trans huser'
    cases hrows.symm.trans hrows'
    rcases hallowed with hnamed | ⟨units, htold, hunit⟩
    · exact .inl ⟨row, hrow, hnamed, hcovers⟩
    · exact .inr ⟨units, htold, row, hrow, hcovers, hunit⟩
  · rintro (⟨row, hrow, hnamed, hcovers⟩ | ⟨units, htold, row, hrow, hcovers, hunit⟩)
    · exact ⟨user, rows, huser, hrows, row, hrow, hcovers, .inl hnamed⟩
    · exact ⟨user, rows, huser, hrows, row, hrow, hcovers, .inr ⟨units, htold, hunit⟩⟩

end Told

namespace Access

variable {d : Disturbance} {resolver : Resolver} {w : World} {g : GroupId} {mask : Privileges}
  {user : UserId} {rows : List Entry}

theorem candidateUnits_eq_nil_iff : candidateUnits rows mask = [] ↔
    ¬ ∃ row ∈ rows, row.unit.isSome = true ∧ row.privileges.covers mask = true := by
  rw [List.eq_nil_iff_forall_not_mem]
  constructor
  · rintro hnone ⟨row, hrow, hunit, hcovers⟩
    obtain ⟨unit, heq⟩ := Option.isSome_iff_exists.1 hunit
    exact hnone unit (mem_candidateUnits.2 ⟨row, hrow, hcovers, heq⟩)
  · intro hnone unit hunit
    obtain ⟨row, hrow, hcovers, heq⟩ := mem_candidateUnits.1 hunit
    exact hnone ⟨row, hrow, Option.isSome_of_eq_some heq, hcovers⟩

/-- What is left of a check when it has been told the current user and the rows. -/
def judge (user : UserId) (rows : List Entry) (mask : Privileges) :
    Prog (Except ServiceError Bool) := do
  if rows.any fun e => e.user = some user && e.privileges.covers mask then
    return .ok true
  if (candidateUnits rows mask).isEmpty then return .ok false
  match ← Prog.principal (.unitsOf user) with
  | .error e => return .error (.principal e)
  | .ok units => return .ok ((candidateUnits rows mask).any units.contains)

/-- The rows are told by the second call, whatever the first one was. -/
theorem consult_findGroup (d : Disturbance) (resolver : Resolver) (g : GroupId) {u : Watch}
    (hbackend : u.world.backend = w.backend)
    (hlength : u.exchanges.length = 1) :
    ∃ v, u.consult d resolver (.call (.store (.findGroup g))) =
        (some (w.told d resolver g).rows, v) ∧
      v.exchanges = u.exchanges ++ [⟨.store (.findGroup g), (w.told d resolver g).rows⟩] := by
  have hconsult : u.consult d resolver (.call (.store (.findGroup g))) =
      u.answer d (.store (.findGroup g)) := rfl
  rw [hconsult, Watch.answer, hlength, World.told]
  cases d.fault 1 with
  | some e => exact ⟨_, rfl, rfl⟩
  | none =>
    have hanswer : u.world.answer (.store (.findGroup g)) =
        (some (w.backend.rowsOf g), u.world) := by
      rw [World.answer, hbackend, Backend.performStore_findGroup, ← hbackend]
    rw [Option.bind_none, Watch.reach, hanswer]
    exact ⟨_, rfl, rfl⟩

/-- A check that cannot be told the current user asks no further. -/
theorem consult_of_user_error (mask : Privileges) {e : PrincipalError}
    (h : (w.told d resolver g).user = .error e) :
    (w.consult d resolver (satisfies ⟨false⟩ g mask)).1 = some (.error (.principal e)) ∧
      (w.consult d resolver (satisfies ⟨false⟩ g mask)).2.calls = [.principal .currentUser] := by
  have huser : resolver [] .currentUser = .error e := h
  have hstep : ({ world := w } : Watch).consult d resolver (.call (.principal .currentUser)) =
      (some (.error e), ({ world := w } : Watch).note (.principal .currentUser) (.error e)) := by
    rw [Watch.consult, huser]
  simp only [World.consult, satisfies, Prog.principal, Prog.perform, Prog.step_bind,
    Prog.runIn_eq, Bool.false_eq_true, if_false, Prog.runFrom_step hstep]
  exact ⟨rfl, rfl⟩

/-- A check that is told the current user goes on with what it is told about the rows. -/
theorem consult_of_user (mask : Privileges) (h : (w.told d resolver g).user = .ok user) :
    ∃ v : Watch, v.exchanges = [⟨.principal .currentUser, .ok user⟩,
        ⟨.store (.findGroup g), (w.told d resolver g).rows⟩] ∧
      w.consult d resolver (satisfies ⟨false⟩ g mask) =
        Prog.runIn (Watch.consult d resolver) (match (w.told d resolver g).rows with
          | .error e => .done (.error (.store e))
          | .ok rows => judge user rows mask) v := by
  have huser : resolver [] .currentUser = .ok user := h
  have hstep : ({ world := w } : Watch).consult d resolver (.call (.principal .currentUser)) =
      (some (.ok user), ({ world := w } : Watch).note (.principal .currentUser) (.ok user)) := by
    rw [Watch.consult, huser]
  obtain ⟨v, hfind, hexchanges⟩ := consult_findGroup d resolver g
    (show (({ world := w } : Watch).note (.principal .currentUser) (.ok user)).world.backend =
      w.backend from rfl) rfl
  refine ⟨v, hexchanges, ?_⟩
  simp only [World.consult, satisfies, Prog.principal, Prog.store, Prog.perform, Prog.step_bind,
    Prog.done_bind, Prog.runIn_eq, Bool.false_eq_true, if_false, Prog.runFrom_step hstep]
  rw [Prog.runFrom_step hfind]
  cases (w.told d resolver g).rows with
  | error e => rfl
  | ok rows => rfl

/-- A check that cannot be told the rows asks no further. -/
theorem consult_of_rows_error (mask : Privileges) {e : StoreError}
    (huser : (w.told d resolver g).user = .ok user) (h : (w.told d resolver g).rows = .error e) :
    (w.consult d resolver (satisfies ⟨false⟩ g mask)).1 = some (.error (.store e)) ∧
      (w.consult d resolver (satisfies ⟨false⟩ g mask)).2.calls =
        [.principal .currentUser, .store (.findGroup g)] := by
  obtain ⟨v, hexchanges, heq⟩ := consult_of_user mask huser
  rw [heq, h]
  refine ⟨rfl, ?_⟩
  change v.calls = _
  rw [Watch.calls, hexchanges]
  rfl

/-- A check that finds a row for the current user, or none with a unit, has its answer. -/
theorem consult_of_settled (huser : (w.told d resolver g).user = .ok user)
    (hrows : (w.told d resolver g).rows = .ok rows)
    (h : (∃ row ∈ rows, row.user = some user ∧ row.privileges.covers mask = true) ∨
      ¬ ∃ row ∈ rows, row.unit.isSome = true ∧ row.privileges.covers mask = true) :
    ∃ b, (w.consult d resolver (satisfies ⟨false⟩ g mask)).1 = some (.ok b) ∧
      (b = true ↔ ∃ row ∈ rows, row.user = some user ∧ row.privileges.covers mask = true) ∧
      (w.consult d resolver (satisfies ⟨false⟩ g mask)).2.calls =
        [.principal .currentUser, .store (.findGroup g)] := by
  obtain ⟨v, hexchanges, heq⟩ := consult_of_user mask huser
  have hcalls : v.calls = [.principal .currentUser, .store (.findGroup g)] := by
    rw [Watch.calls, hexchanges]
    rfl
  have hnamed : (rows.any fun e => e.user = some user && e.privileges.covers mask) = true ↔
      ∃ row ∈ rows, row.user = some user ∧ row.privileges.covers mask = true := by
    simp
  rw [heq, hrows]
  dsimp only
  rw [judge]
  split
  · next hsome => exact ⟨true, rfl, iff_of_true rfl (hnamed.1 hsome), hcalls⟩
  · next hnone =>
    rw [hnamed] at hnone
    rw [candidateUnits_eq_nil_iff.2 (h.resolve_left hnone)]
    exact ⟨false, rfl, iff_of_false Bool.false_ne_true hnone, hcalls⟩

/-- A check that finds no row for the current user, but some with a unit, asks for the units. -/
theorem consult_of_unsettled (huser : (w.told d resolver g).user = .ok user)
    (hrows : (w.told d resolver g).rows = .ok rows)
    (hnamed : ¬ ∃ row ∈ rows, row.user = some user ∧ row.privileges.covers mask = true)
    (hunit : ∃ row ∈ rows, row.unit.isSome = true ∧ row.privileges.covers mask = true) :
    (w.consult d resolver (satisfies ⟨false⟩ g mask)).1 =
        some (match (w.told d resolver g).units user with
          | .error e => .error (.principal e)
          | .ok units => .ok ((candidateUnits rows mask).any units.contains)) ∧
      (w.consult d resolver (satisfies ⟨false⟩ g mask)).2.calls =
        [.principal .currentUser, .store (.findGroup g), .principal (.unitsOf user)] := by
  obtain ⟨v, hexchanges, heq⟩ := consult_of_user mask huser
  have hany : (rows.any fun e => e.user = some user && e.privileges.covers mask) = false := by
    simpa using hnamed
  have hcandidates : (candidateUnits rows mask).isEmpty = false :=
    List.isEmpty_eq_false_iff.2 fun hnil => candidateUnits_eq_nil_iff.1 hnil hunit
  have hunits : resolver v.exchanges (.unitsOf user) = (w.told d resolver g).units user := by
    have hfirst : resolver [] .currentUser = .ok user := huser
    rw [hexchanges, World.told, hfirst]
  have hstep : v.consult d resolver (.call (.principal (.unitsOf user))) =
      (some ((w.told d resolver g).units user),
        v.note (.principal (.unitsOf user)) ((w.told d resolver g).units user)) := by
    rw [Watch.consult, hunits]
  rw [heq, hrows]
  simp only [judge, hany, hcandidates, Prog.principal, Prog.perform, Prog.step_bind,
    Prog.done_bind, Prog.runIn_eq, Bool.false_eq_true, if_false, Prog.runFrom_step hstep]
  cases (w.told d resolver g).units user with
  | error e =>
    refine ⟨rfl, ?_⟩
    simp [Watch.calls, Watch.note, hexchanges]
  | ok units =>
    refine ⟨rfl, ?_⟩
    simp [Watch.calls, Watch.note, hexchanges]

/-! ### The check against its plain meaning -/

/-- What the check decides depends on which units the source of principals names. -/
def UnitsMatter (w : World) (d : Disturbance) (resolver : Resolver) (g : GroupId)
    (mask : Privileges) : Prop :=
  ∃ units units' : List UnitId,
    (w.consult d (resolver.withUnits (.ok units)) (satisfies ⟨false⟩ g mask)).1 ≠
      (w.consult d (resolver.withUnits (.ok units')) (satisfies ⟨false⟩ g mask)).1

/-- The check ends with the result that it is to have, and asks for units once at most, and not in
vain. -/
structure Plain (w : World) (d : Disturbance) (resolver : Resolver) (g : GroupId)
    (mask : Privileges) (x : Except ServiceError Bool) : Prop where
  result : (w.consult d resolver (satisfies ⟨false⟩ g mask)).1 = some x
  fails : ∀ e, x = .error e ↔ (w.told d resolver g).Fails mask e
  grants : ∀ b, x = .ok b → (b = true ↔ (w.told d resolver g).Grants mask)
  once : (w.consult d resolver (satisfies ⟨false⟩ g mask)).2.calls.countP Call.isUnitsOf ≤ 1
  needed : (∃ c ∈ (w.consult d resolver (satisfies ⟨false⟩ g mask)).2.calls,
    c.isUnitsOf = true) ↔ UnitsMatter w d resolver g mask

variable {x : Except ServiceError Bool}

/-- A check that does not ask for units, and has the same result whatever they are. -/
theorem Plain.of_unasked
    (hresult : (w.consult d resolver (satisfies ⟨false⟩ g mask)).1 = some x)
    (hfails : ∀ e, x = .error e ↔ (w.told d resolver g).Fails mask e)
    (hgrants : ∀ b, x = .ok b → (b = true ↔ (w.told d resolver g).Grants mask))
    (hcalls : (w.consult d resolver (satisfies ⟨false⟩ g mask)).2.calls.any Call.isUnitsOf = false)
    (hsame : ∀ answer, (w.consult d (resolver.withUnits answer) (satisfies ⟨false⟩ g mask)).1 =
      some x) : Plain w d resolver g mask x := by
  have hunasked := List.any_eq_false.1 hcalls
  refine ⟨hresult, hfails, hgrants, ?_, iff_of_false ?_ ?_⟩
  · rw [List.countP_eq_zero.2 hunasked]
    exact Nat.zero_le 1
  · rintro ⟨c, hc, hunits⟩
    exact hunasked c hc hunits
  · rintro ⟨units, units', hne⟩
    exact hne ((hsame _).trans (hsame _).symm)

theorem plain_of_user_error {e : PrincipalError} (h : (w.told d resolver g).user = .error e) :
    Plain w d resolver g mask (.error (.principal e)) := by
  obtain ⟨hresult, hcalls⟩ := consult_of_user_error mask h
  refine .of_unasked hresult (fun e' => ⟨?_, fun hfails => ?_⟩) nofun (by rw [hcalls]; rfl)
    fun answer => ?_
  · rintro ⟨⟩
    exact .user h
  · cases hfails with
    | user h' => cases h.symm.trans h'; rfl
    | rows huser _ => cases h.symm.trans huser
    | units huser _ _ _ _ => cases h.symm.trans huser
  · have htold : (w.told d (resolver.withUnits answer) g).user = .error e := h
    exact (consult_of_user_error mask htold).1

theorem plain_of_rows_error {e : StoreError} (huser : (w.told d resolver g).user = .ok user)
    (h : (w.told d resolver g).rows = .error e) :
    Plain w d resolver g mask (.error (.store e)) := by
  obtain ⟨hresult, hcalls⟩ := consult_of_rows_error mask huser h
  refine .of_unasked hresult (fun e' => ⟨?_, fun hfails => ?_⟩) nofun (by rw [hcalls]; rfl)
    fun answer => ?_
  · rintro ⟨⟩
    exact .rows huser h
  · cases hfails with
    | user h' => cases huser.symm.trans h'
    | rows _ h' => cases h.symm.trans h'; rfl
    | units _ hrows _ _ _ => cases h.symm.trans hrows
  · have htold : (w.told d (resolver.withUnits answer) g).user = .ok user := huser
    exact (consult_of_rows_error mask htold h).1

theorem plain_of_settled (huser : (w.told d resolver g).user = .ok user)
    (hrows : (w.told d resolver g).rows = .ok rows)
    (h : (∃ row ∈ rows, row.user = some user ∧ row.privileges.covers mask = true) ∨
      ¬ ∃ row ∈ rows, row.unit.isSome = true ∧ row.privileges.covers mask = true) :
    ∃ x, Plain w d resolver g mask x := by
  obtain ⟨b, hresult, hnamed, hcalls⟩ := consult_of_settled huser hrows h
  refine ⟨.ok b, .of_unasked hresult (fun e => ⟨nofun, fun hfails => ?_⟩) ?_
    (by rw [hcalls]; rfl) fun answer => ?_⟩
  · obtain ⟨hnone, hunit, -⟩ := (Told.fails_iff huser hrows e).1 hfails
    exact (h.elim hnone fun h => h hunit).elim
  · rintro _ ⟨⟩
    rw [Told.grants_iff huser hrows, hnamed, iff_self_or]
    rintro ⟨units, -, hany⟩
    refine h.resolve_right fun hnone => ?_
    rw [candidateUnits_eq_nil_iff.2 hnone] at hany
    cases hany
  · have htold : (w.told d (resolver.withUnits answer) g).user = .ok user := huser
    obtain ⟨b', hresult', hnamed', -⟩ := consult_of_settled htold hrows h
    rw [hresult', Bool.eq_iff_iff.2 (hnamed'.trans hnamed.symm)]

theorem unitsMatter_of_unsettled (huser : (w.told d resolver g).user = .ok user)
    (hrows : (w.told d resolver g).rows = .ok rows)
    (hnamed : ¬ ∃ row ∈ rows, row.user = some user ∧ row.privileges.covers mask = true)
    (hunit : ∃ row ∈ rows, row.unit.isSome = true ∧ row.privileges.covers mask = true) :
    UnitsMatter w d resolver g mask := by
  have hresult (units : List UnitId) :
      (w.consult d (resolver.withUnits (.ok units)) (satisfies ⟨false⟩ g mask)).1 =
        some (.ok ((candidateUnits rows mask).any units.contains)) := by
    have htold : (w.told d (resolver.withUnits (.ok units)) g).user = .ok user := huser
    exact (consult_of_unsettled htold hrows hnamed hunit).1
  obtain ⟨unit, hcandidate⟩ := List.exists_mem_of_ne_nil _ fun hnil =>
    candidateUnits_eq_nil_iff.1 hnil hunit
  have hnone : (candidateUnits rows mask).any ([] : List UnitId).contains = false :=
    List.any_eq_false.2 fun _ _ => Bool.false_ne_true
  have hone : (candidateUnits rows mask).any [unit].contains = true :=
    List.any_eq_true.2 ⟨unit, hcandidate, by simp⟩
  refine ⟨[], [unit], ?_⟩
  rw [hresult, hresult, hnone, hone]
  nofun

theorem plain_of_unsettled (huser : (w.told d resolver g).user = .ok user)
    (hrows : (w.told d resolver g).rows = .ok rows)
    (hnamed : ¬ ∃ row ∈ rows, row.user = some user ∧ row.privileges.covers mask = true)
    (hunit : ∃ row ∈ rows, row.unit.isSome = true ∧ row.privileges.covers mask = true) :
    ∃ x, Plain w d resolver g mask x := by
  obtain ⟨hresult, hcalls⟩ := consult_of_unsettled huser hrows hnamed hunit
  have hneeded : (∃ c ∈ (w.consult d resolver (satisfies ⟨false⟩ g mask)).2.calls,
      c.isUnitsOf = true) ↔ UnitsMatter w d resolver g mask := by
    refine iff_of_true ⟨.principal (.unitsOf user), ?_, rfl⟩
      (unitsMatter_of_unsettled huser hrows hnamed hunit)
    rw [hcalls]
    simp
  have honce : (w.consult d resolver (satisfies ⟨false⟩ g mask)).2.calls.countP
      Call.isUnitsOf ≤ 1 := by
    rw [hcalls]
    exact Nat.le_refl 1
  cases htold : (w.told d resolver g).units user with
  | error cause =>
    rw [htold] at hresult
    refine ⟨_, hresult, fun e => ?_, nofun, honce, hneeded⟩
    rw [Told.fails_iff huser hrows e, and_iff_right hnamed, and_iff_right hunit, htold]
    simp [eq_comm]
  | ok units =>
    rw [htold] at hresult
    refine ⟨_, hresult, fun e => ?_, ?_, honce, hneeded⟩
    · rw [Told.fails_iff huser hrows e, htold]
      simp
    · rintro _ ⟨⟩
      rw [Told.grants_iff huser hrows, or_iff_right hnamed, htold]
      simp

/-- **The lazy check means what the plain one does.** Whatever is stored and whatever the source of
principals does, a check that is not bypassed fails exactly with what it needs and cannot be told,
and otherwise grants the mask exactly if one row covers every bit of it and names the current user
or one of the units. It asks for units once at most, and exactly if the answer can change the
result. A check that is bypassed grants everything and asks for nothing. -/
theorem satisfies_consult (settings : AccessSettings) (w : World) (d : Disturbance)
    (resolver : Resolver) (g : GroupId) (mask : Privileges) :
    (settings.bypass = true →
      (w.consult d resolver (satisfies settings g mask)).1 = some (.ok true) ∧
        (w.consult d resolver (satisfies settings g mask)).2.calls = []) ∧
    (settings.bypass = false → ∃ x,
      (w.consult d resolver (satisfies settings g mask)).1 = some x ∧
        (∀ e, x = .error e ↔ (w.told d resolver g).Fails mask e) ∧
        (∀ b, x = .ok b → (b = true ↔ (w.told d resolver g).Grants mask)) ∧
        (w.consult d resolver (satisfies settings g mask)).2.calls.countP Call.isUnitsOf ≤ 1 ∧
        ((∃ c ∈ (w.consult d resolver (satisfies settings g mask)).2.calls, c.isUnitsOf = true) ↔
          UnitsMatter w d resolver g mask)) := by
  obtain ⟨bypass⟩ := settings
  refine ⟨?_, ?_⟩
  · rintro ⟨⟩
    exact ⟨rfl, rfl⟩
  · rintro ⟨⟩
    have hplain : ∃ x, Plain w d resolver g mask x := by
      cases huser : (w.told d resolver g).user with
      | error e => exact ⟨_, plain_of_user_error huser⟩
      | ok user =>
        cases hrows : (w.told d resolver g).rows with
        | error e => exact ⟨_, plain_of_rows_error huser hrows⟩
        | ok rows =>
          by_cases h : (∃ row ∈ rows, row.user = some user ∧
            row.privileges.covers mask = true) ∨
              ¬ ∃ row ∈ rows, row.unit.isSome = true ∧ row.privileges.covers mask = true
          · exact plain_of_settled huser hrows h
          · obtain ⟨hnamed, hunit⟩ := not_or.1 h
            exact plain_of_unsettled huser hrows hnamed (not_not.1 hunit)
    obtain ⟨x, hx⟩ := hplain
    exact ⟨x, hx.result, hx.fails, hx.grants, hx.once, hx.needed⟩

/-- A world in which the user 2 may read in the group 4, and the unit 9 may do everything. -/
def staffed : World where
  backend := .memory
    { entries := .ofRows [⟨⟨⟨4⟩, some ⟨2⟩, none, Privilege.read.mask⟩, ⟨1⟩⟩,
        ⟨⟨⟨4⟩, none, some ⟨9⟩, .full⟩, ⟨2⟩⟩]
      nextEntry := 3 }
    {}

/-- The user 2 is in the unit 9. -/
def staff : Resolver
  | _, .currentUser => .ok ⟨2⟩
  | _, .unitsOf _ => .ok [⟨9⟩]

theorem satisfies_consult_staffed :
    (staffed.told {} staff ⟨4⟩).Grants Privilege.delete.mask ∧
      UnitsMatter staffed {} staff ⟨4⟩ Privilege.delete.mask ∧
        ¬ UnitsMatter staffed {} staff ⟨4⟩ Privilege.read.mask := by
  obtain ⟨x, hresult, -, hgrants, -, hneeded⟩ :=
    (satisfies_consult ⟨false⟩ staffed {} staff ⟨4⟩ Privilege.delete.mask).2 rfl
  obtain ⟨-, -, -, -, -, hunneeded⟩ :=
    (satisfies_consult ⟨false⟩ staffed {} staff ⟨4⟩ Privilege.read.mask).2 rfl
  obtain rfl : x = .ok true := Option.some.inj (hresult.symm.trans (by decide +kernel))
  refine ⟨(hgrants true rfl).1 rfl, hneeded.1 (by decide +kernel), fun hmatter => ?_⟩
  exact absurd (hunneeded.2 hmatter) (by decide +kernel)

end Access

end AccessGroups
