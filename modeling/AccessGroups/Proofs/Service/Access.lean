import AccessGroups.Program.World
import AccessGroups.Proofs.Store.Backend
import AccessGroups.Service.Access

/-!
# What the access check decides

In a world whose principals are known the check has one answer: whether some row of the group covers
the mask and names the user or one of the units. The order in which it looks at users and units does
not matter.

## Main definitions

* `Grant.Admits`: a grant lets a user with some units in.
* `World.decision`: what the check answers in a world.

## Main results

* `World.decision_iff`: the answer in a sound store.
-/

namespace AccessGroups

/-- Results can be compared. -/
instance decidableEqExcept {ε α : Type} [DecidableEq ε] [DecidableEq α] :
    DecidableEq (Except ε α)
  | .ok a, .ok b => decidable_of_iff (a = b) ⟨congrArg Except.ok, Except.ok.inj⟩
  | .error e, .error f => decidable_of_iff (e = f) ⟨congrArg Except.error, Except.error.inj⟩
  | .ok _, .error _ => isFalse nofun
  | .error _, .ok _ => isFalse nofun

/-- The grant covers the mask, and names the user or one of the units. -/
def Grant.Admits (g : Grant) (user : UserId) (units : List UnitId) (mask : Privileges) : Prop :=
  g.privileges.covers mask = true ∧ (g.user = some user ∨ ∃ unit ∈ units, g.unit = some unit)

/-- What the check answers for a group and a mask if the current user is this one and has these
units. -/
def World.decision (w : World) (user : UserId) (units : List UnitId) (g : GroupId)
    (mask : Privileges) : Option (Except ServiceError Bool) :=
  ({ w with principals := ({ user := some user } : Principals).withUnits user units }.run
    (Access.satisfies ⟨false⟩ g mask)).1

namespace Access

variable {rows : List Entry} {user : UserId} {units : List UnitId} {mask : Privileges}

theorem mem_candidateUnits {unit : UnitId} : unit ∈ candidateUnits rows mask ↔
    ∃ e ∈ rows, e.privileges.covers mask = true ∧ e.unit = some unit := by
  simp [candidateUnits, and_assoc]

/-- Some row names one of the units and covers the mask. -/
theorem any_candidateUnits_iff : (candidateUnits rows mask).any units.contains = true ↔
    ∃ e ∈ rows, e.privileges.covers mask = true ∧ ∃ unit ∈ units, e.unit = some unit := by
  simp only [List.any_eq_true, List.contains_iff_mem, mem_candidateUnits]
  constructor
  · rintro ⟨unit, ⟨e, he, hcovers, hunit⟩, hmem⟩
    exact ⟨e, he, hcovers, unit, hmem, hunit⟩
  · rintro ⟨e, he, hcovers, unit, hmem, hunit⟩
    exact ⟨unit, ⟨e, he, hcovers, hunit⟩, hmem⟩

/-- A row lets the user in because it names the user or because it names a unit. -/
theorem exists_admits_iff : (∃ e ∈ rows, e.Admits user units mask) ↔
    (rows.any fun e => e.user = some user && e.privileges.covers mask) = true ∨
      (candidateUnits rows mask).any units.contains = true := by
  rw [any_candidateUnits_iff]
  simp only [List.any_eq_true, Bool.and_eq_true, decide_eq_true_eq]
  constructor
  · rintro ⟨e, he, hcovers, huser | hunit⟩
    · exact .inl ⟨e, he, huser, hcovers⟩
    · exact .inr ⟨e, he, hcovers, hunit⟩
  · rintro (⟨e, he, huser, hcovers⟩ | ⟨e, he, hcovers, hunit⟩)
    · exact ⟨e, he, hcovers, .inl huser⟩
    · exact ⟨e, he, hcovers, .inr hunit⟩

end Access

namespace World

variable {w : World} {user : UserId} {units : List UnitId} {g : GroupId} {mask : Privileges}

/-- The check in a world that can look up the rows of the group. -/
theorem decision_of_rows {rows : List Entry}
    (h : w.backend.performStore (.findGroup g) = some (.ok rows, w.backend)) :
    ∃ admitted, w.decision user units g mask = some (.ok admitted) ∧
      (admitted = true ↔ ∃ e ∈ rows, e.Admits user units mask) := by
  simp only [Access.exists_admits_iff]
  rw [decision]
  generalize hv : ({ w with
    principals := ({ user := some user } : Principals).withUnits user units } : World) = v
  have huser : v.answer (.principal .currentUser) = (some (.ok user), v) := by
    subst hv
    rfl
  have hrows : v.answer (.store (.findGroup g)) = (some (.ok rows), v) := by
    subst hv
    rw [answer, h]
  have hunits : v.answer (.principal (.unitsOf user)) = (some (.ok units), v) := by
    subst hv
    simp [answer, Principals.perform, Principals.unitsOf, Principals.withUnits]
  simp only [Access.satisfies, Prog.principal, Prog.store, Prog.perform, Prog.step_bind,
    Prog.done_bind, Prog.pure_eq, run_call _ huser, run_call _ hrows, Bool.false_eq_true, if_false]
  split
  · next hnamed => exact ⟨true, rfl, iff_of_true rfl (.inl hnamed)⟩
  · next hnamed =>
    split
    · next hnone =>
      refine ⟨false, rfl, iff_of_false Bool.false_ne_true ?_⟩
      rw [List.isEmpty_iff.1 hnone]
      exact fun h => h.elim hnamed fun h => by cases h
    · rw [run_call _ hunits]
      exact ⟨_, rfl, (or_iff_right hnamed).symm⟩

/-- In a store that keeps a ledger the check always has an answer, which is read off the rows of the
group. -/
theorem decision_iff {l : Ledger} (h : w.backend.Shows l) :
    ∃ admitted, w.decision user units g mask = some (.ok admitted) ∧
      (admitted = true ↔ ∃ e ∈ l.rows, e.group = g ∧ e.Admits user units mask) := by
  refine (decision_of_rows (h.findGroup g)).imp fun admitted hadmitted =>
    hadmitted.imp_right fun hiff => hiff.trans ?_
  simp only [Ledger.mem_rowsOf, and_assoc]

end World

end AccessGroups
