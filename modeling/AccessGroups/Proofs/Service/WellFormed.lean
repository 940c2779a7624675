import AccessGroups.Proofs.Program.Among
import AccessGroups.Proofs.Store.Provenance
import AccessGroups.Scenario.Step
import AccessGroups.Service.Groups
import AccessGroups.Service.Removal

/-!
# The services keep rows well-formed

A well-formed grant has a positive group, exactly one principal and at least one privilege. Some
changes check all of this, others only a part, and some write grants that they have read. In all
cases a service stores well-formed grants only, as long as the rows that it reads are well-formed
and the groups that it is handed are positive.

## Main definitions

* `Grant.WellFormed`: the grant passes all rules.
* `Prog.Careful`: a program stores well-formed grants only, as long as the answers are sane.

## Main results

* `Grant.validate_eq_ok`: the check is passed by well-formed grants only.
* `Scenario.GroupRequest.careful_program`, `Removal.careful_deleteResource`: the services.
-/

namespace AccessGroups

namespace Grant

/-- A positive group, exactly one principal and at least one privilege. -/
def WellFormed (g : Grant) : Prop :=
  g.group.IsValid ∧ g.principal?.isSome = true ∧ g.privileges.isEmpty = false

instance : DecidablePred WellFormed :=
  fun g => inferInstanceAs (Decidable (g.group.IsValid ∧ _ ∧ _))

variable {g : Grant}

theorem validatePrincipal_eq_ok :
    g.validatePrincipal = .ok () ↔ g.principal?.isSome = true ∧ g.privileges.isEmpty = false := by
  rcases g with ⟨group, _ | user, _ | unit, privileges⟩ <;>
    simp [validatePrincipal, principal?]

/-- The check is passed by well-formed grants only. -/
theorem validate_eq_ok : g.validate = .ok () ↔ g.WellFormed := by
  rw [validate, WellFormed, ← validatePrincipal_eq_ok]
  by_cases hg : g.group.IsValid <;> simp [hg]

theorem WellFormed.withGroup {group : GroupId} (hg : group.IsValid)
    (h : g.validatePrincipal = .ok ()) : (g.withGroup group).WellFormed :=
  ⟨hg, validatePrincipal_eq_ok.1 h⟩

theorem WellFormed.isMixed_eq_false (h : g.WellFormed) : g.isMixed = false := by
  obtain ⟨-, hprincipal, -⟩ := h
  rcases g with ⟨group, _ | user, _ | unit, privileges⟩
  · cases hprincipal
  · rfl
  · rfl
  · cases hprincipal

theorem checkAll_eq_ok {check : Grant → Except ValidationError Unit} {grants : List Grant} :
    checkAll check grants = .ok () ↔ ∀ g ∈ grants, check g = .ok () := by
  induction grants with
  | nil => simp [checkAll]
  | cons g rest ih =>
    rw [checkAll, List.forall_mem_cons, ← ih]
    cases check g <;> simp

end Grant

/-! ### Careful programs -/

/-- The operation stores well-formed grants only. -/
def Op.Proper : Op → Prop
  | .call (.store c) => ∀ g ∈ c.grants, g.WellFormed
  | _ => True

/-- The answer shows well-formed rows, and none with two principals, and hands out a positive
group. -/
def Op.Sane : (op : Op) → op.Answer → Prop
  | .call (.store .findAll), .ok rows => ∀ e ∈ rows, e.WellFormed
  | .call (.store (.findGroup _)), .ok rows => ∀ e ∈ rows, e.WellFormed
  | .call (.store .findMixed), .ok rows => rows = []
  | .call (.store .allocateGroup), .ok g => g.IsValid
  | _, _ => True

namespace Prog

variable {α β : Type} {Q R : α → Prop}

/-- As long as the answers are sane, the program stores well-formed grants only, and if it ends with
a value, that satisfies `Q`. -/
abbrev Careful (p : Prog α) (Q : α → Prop) : Prop :=
  p.Safe (fun _ op x _ => op.Sane x) Eq (fun _ op => op.Proper) (fun a _ => Q a) ()

theorem sane_callsOnly :
    CallsOnly (fun _ op x _ => op.Sane x) (fun (_ : Unit) op => op.Proper) where
  keeps _ _ := rfl
  free {s op} hop := by
    cases op with
    | call c => exact (hop c rfl).elim
    | _ => trivial

theorem careful_pure {a : α} (h : Q a) : (pure a : Prog α).Careful Q :=
  fun _ _ => h

theorem Careful.bind {p : Prog β} {f : β → Prog α} {R : β → Prop} (h : p.Careful R)
    (hf : ∀ a, R a → (f a).Careful Q) : (p >>= f).Careful Q :=
  Safe.bind h fun a _ ha => hf a ha

theorem careful_log {e : Event} {f : Unit → Prog α} (h : (f ()).Careful Q) :
    (log e >>= f).Careful Q :=
  safe_log sane_callsOnly h

theorem careful_quiet {op : Op} {f : op.Answer → Prog α} (hop : ∀ c, op ≠ .call c)
    (h : ∀ x, (f x).Careful Q) : (perform op >>= f).Careful Q :=
  safe_quiet sane_callsOnly hop h

theorem careful_call {c : Call} {f : c.Answer → Prog α} (hc : Op.Proper (.call c))
    (h : ∀ x, Op.Sane (.call c) x → (f x).Careful Q) : (perform (.call c) >>= f).Careful Q :=
  safe_perform (I := fun _ => True) (fun _ _ _ _ => trivial) trivial (fun _ _ => hc)
    fun _ x _ _ hx => h x hx

theorem careful_store {c : StoreCall} {f : c.Answer → Prog α} (hc : ∀ g ∈ c.grants, g.WellFormed)
    (hok : ∀ v, Op.Sane (.call (.store c)) (.ok v) → (f (.ok v)).Careful Q)
    (herror : ∀ e, (f (.error e)).Careful Q) : (store c >>= f).Careful Q := by
  refine careful_call (c := .store c) hc ?_
  rintro (e | v) hx
  · exact herror e
  · exact hok v hx

/-- A call without grants is judged by its answers. -/
theorem careful_look {c : StoreCall} {f : c.Answer → Prog α} (hc : c.grants = [])
    (hok : ∀ v, Op.Sane (.call (.store c)) (.ok v) → (f (.ok v)).Careful Q)
    (herror : ∀ e, (f (.error e)).Careful Q) : (store c >>= f).Careful Q :=
  careful_store (by simp [hc]) hok herror

theorem careful_registry {c : RegistryCall} {f : c.Answer → Prog α}
    (hok : ∀ v, (f (.ok v)).Careful Q) (herror : ∀ e, (f (.error e)).Careful Q) :
    (registry c >>= f).Careful Q := by
  refine careful_call (c := .registry c) trivial ?_
  rintro (e | v) -
  · exact herror e
  · exact hok v

end Prog

open Prog

/-! ### Permission groups -/

namespace Groups

variable {group : GroupId} {grants : List Grant}

theorem careful_create (grant : Grant) : (create grant).Careful fun _ => True := by
  rw [create]
  split
  · exact careful_pure trivial
  · next hvalid =>
    have hgrant : ∀ g ∈ [grant], g.WellFormed :=
      List.forall_mem_singleton.2 (Grant.validate_eq_ok.1 hvalid)
    exact careful_store hgrant (fun _ _ => careful_log (careful_pure trivial))
      fun _ => careful_pure trivial

theorem careful_update (entry : Entry) : (update entry).Careful fun _ => True := by
  rw [update]
  split
  · exact careful_pure trivial
  · split
    · exact careful_pure trivial
    · next hvalid =>
      have hgrant : ∀ g ∈ [entry.toGrant], g.WellFormed :=
        List.forall_mem_singleton.2 (Grant.validate_eq_ok.1 hvalid)
      exact careful_store hgrant (fun _ _ => careful_pure trivial) fun _ => careful_pure trivial

theorem careful_replaceGroup : (replaceGroup group grants).Careful fun _ => True := by
  rw [replaceGroup]
  split
  · exact careful_pure trivial
  · split
    · exact careful_pure trivial
    · split
      · exact careful_pure trivial
      · next hvalid =>
        have hgrants : ∀ g ∈ grants, g.WellFormed := fun g hg =>
          Grant.validate_eq_ok.1 (Grant.checkAll_eq_ok.1 hvalid g hg)
        exact careful_store hgrants (fun _ _ => careful_log (careful_pure trivial))
          fun _ => careful_pure trivial

/-- A group that is handed out is positive. -/
theorem careful_nextGroup : nextGroup.Careful fun x => ∀ g, x = .ok g → g.IsValid := by
  refine careful_look rfl (fun g hg => careful_pure ?_) fun e => careful_pure nofun
  rintro _ ⟨⟩
  exact hg

/-- Only the principals are checked, but the group is one that is handed out. -/
theorem careful_createGroup : (createGroup grants).Careful fun _ => True := by
  rw [createGroup]
  split
  · exact careful_pure trivial
  · split
    · exact careful_pure trivial
    · next hvalid =>
      refine careful_nextGroup.bind fun x hx => ?_
      split
      · exact careful_pure trivial
      · next group =>
        have hgrants : ∀ g ∈ grants.map (·.withGroup group), g.WellFormed := by
          rw [List.forall_mem_map]
          exact fun g hg => .withGroup (hx group rfl) (Grant.checkAll_eq_ok.1 hvalid g hg)
        exact careful_store hgrants (fun _ _ => careful_log (careful_pure trivial))
          fun _ => careful_pure trivial

theorem careful_findGroup : (findGroup group).Careful fun _ => True := by
  refine careful_look rfl (fun rows _ => ?_) fun _ => careful_pure trivial
  cases rows <;> exact careful_pure trivial

theorem careful_deleteGroup : (deleteGroup group).Careful fun _ => True := by
  refine careful_look rfl (fun removed _ => ?_) fun _ => careful_pure trivial
  dsimp only
  split
  · exact careful_pure trivial
  · exact careful_log (careful_pure trivial)

theorem careful_deleteEntry (id : EntryId) : (deleteEntry id).Careful fun _ => True :=
  careful_look rfl (fun _ _ => careful_pure trivial) fun _ => careful_pure trivial

end Groups

/-- Every request keeps rows well-formed. -/
theorem Scenario.GroupRequest.careful_program (request : GroupRequest) :
    request.program.Careful fun _ => True := by
  have hreturn {α : Type} {R : α → Prop} {p : Prog α} {f : α → Result} (h : p.Careful R) :
      (p >>= fun a => pure (f a)).Careful fun _ => True :=
    h.bind fun _ _ => careful_pure trivial
  cases request with
  | findAll | findDuplicates =>
    exact hreturn (R := fun _ => True) (careful_look rfl (fun _ _ => careful_pure trivial)
      fun _ => careful_pure trivial)
  | findGroup => exact hreturn Groups.careful_findGroup
  | create grant => exact hreturn (Groups.careful_create grant)
  | update entry => exact hreturn (Groups.careful_update entry)
  | replaceGroup => exact hreturn Groups.careful_replaceGroup
  | createGroup => exact hreturn Groups.careful_createGroup
  | deleteGroup => exact hreturn Groups.careful_deleteGroup
  | deleteEntry id => exact hreturn (Groups.careful_deleteEntry id)
  | nextGroup => exact hreturn Groups.careful_nextGroup

/-! ### Removal of a resource -/

namespace Removal

variable {kind : ResourceKind} {resource : ResourceId} {group : GroupId} {snapshot : List Grant}

theorem careful_restore (h : ∀ g ∈ snapshot, g.WellFormed) :
    (restore kind resource group snapshot).Careful fun _ => True := by
  rw [restore]
  split
  · refine careful_store h (fun _ _ => careful_pure trivial) fun e => ?_
    exact careful_log (careful_pure trivial)
  · exact careful_pure trivial

/-- The rows that are written back are those that were read. -/
theorem careful_deleteBoth (h : ∀ g ∈ snapshot, g.WellFormed) :
    (deleteBoth kind resource group snapshot).Careful fun _ => True := by
  have hdone : (log (.resourceDeleted kind resource group) >>= fun _ => pure (.ok ()) :
      Prog (Except ServiceError Unit)).Careful fun _ => True :=
    careful_log (careful_pure trivial)
  have hfailed (e : StoreError) : (restore kind resource group snapshot >>= fun _ =>
      pure (.error (.ofStore (.resource kind resource) e)) :
      Prog (Except ServiceError Unit)).Careful fun _ => True :=
    (careful_restore h).bind fun _ _ => careful_pure trivial
  rw [deleteBoth]
  split
  · exact careful_look rfl (fun _ _ => careful_registry (fun _ => hdone) hfailed)
      fun _ => careful_pure trivial
  · exact careful_registry (fun _ => hdone) hfailed

theorem careful_deleteResource : (deleteResource kind resource).Careful fun _ => True := by
  refine careful_registry (fun group => ?_) fun _ => careful_pure trivial
  dsimp only
  split
  · refine careful_look rfl (fun rows hrows => careful_deleteBoth ?_) fun _ =>
      careful_pure trivial
    rw [List.forall_mem_map]
    exact hrows
  · exact careful_deleteBoth nofun

end Removal

end AccessGroups
