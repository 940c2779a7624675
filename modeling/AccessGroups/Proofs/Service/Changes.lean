import AccessGroups.Proofs.Program.Transcript
import AccessGroups.Proofs.Service.WellFormed
import AccessGroups.Proofs.Store.Effects

/-!
# Changes happen as a whole or not at all

Each request to the service that changes rows makes at most one call that changes them, the last
one. If a request fails, no row has changed, whether the input broke a rule, the store refused a
call or a call got lost; and if the input broke a rule, no call has been made. If a request
succeeds, it has done to the rows what it says and nothing else.

## Main definitions

* `Groups.Change`: the requests that change rows.
* `Groups.Change.Effect`: what a successful request returns, and the rows that it leaves.
* `Groups.Change.Ended`: what a request leaves.

## Main results

* `Groups.Change.leaves_program`: what the transcript of a request does to a store.
* `Groups.Change.watch_program`: a request that is disturbed does all it should or nothing.
-/

namespace AccessGroups

namespace Backend.Leads

variable {b b' : Backend} {c : StoreCall} {rest : List Exchange}

/-- A call to the store that succeeded was answered by it. -/
theorem of_ok {v : c.Value} (h : b.Leads (⟨.store c, .ok v⟩ :: rest) b') :
    ∃ m, b.idCounters.exhaustedBy (.store c) = false ∧
      b.performStore c = some (.ok v, m) ∧ m.Leads rest b' := by
  obtain ⟨m, hx, h⟩ := h
  rcases hx with ⟨⟨e, he⟩, -⟩ | ⟨hroom, hperform⟩
  · cases he
  · exact ⟨m, hroom, hperform, h⟩

/-- A call to the store that failed left the rows alone, wherever it failed. -/
theorem of_error {e : StoreError} (h : b.Leads (⟨.store c, .error e⟩ :: rest) b') :
    ∃ m : Backend, m.entries = b.entries ∧ m.Leads rest b' := by
  obtain ⟨m, hx, h⟩ := h
  rcases hx with ⟨-, rfl⟩ | ⟨-, hperform⟩
  · exact ⟨m, rfl, h⟩
  · exact ⟨m, entries_of_error hperform, h⟩

end Backend.Leads

namespace Groups

/-- The requests to the service that change rows. -/
inductive Change where
  | create (grant : Grant)
  | update (entry : Entry)
  | replaceGroup (group : GroupId) (grants : List Grant)
  | createGroup (grants : List Grant)
  | deleteGroup (group : GroupId)
  | deleteEntry (id : EntryId)
  deriving DecidableEq

/-- The rows of the group are these, which are new, and those of other groups are as they were. -/
structure Filled (rows : List Entry) (g : GroupId) (stored rows' : List Entry) : Prop where
  group : (rows'.filter fun e => e.group = g) = stored
  others : (rows'.filter fun e => e.group ≠ g) = rows.filter fun e => e.group ≠ g
  increasing : stored.Pairwise fun a b => a.id < b.id
  unused : ∀ a ∈ rows, ∀ e ∈ stored, a.id ≠ e.id

namespace Change

/-- What the request returns when it succeeds. -/
abbrev Value : Change → Type
  | .create _ => Entry
  | .replaceGroup _ _ => List Entry
  | .createGroup _ => GroupId
  | .update _ | .deleteGroup _ | .deleteEntry _ => Unit

/-- The program of the request. -/
def program : (c : Change) → Prog (Except ServiceError c.Value)
  | .create grant => Groups.create grant
  | .update entry => Groups.update entry
  | .replaceGroup group grants => Groups.replaceGroup group grants
  | .createGroup grants => Groups.createGroup grants
  | .deleteGroup group => Groups.deleteGroup group
  | .deleteEntry id => Groups.deleteEntry id

/-- What a request returns that succeeds, and the rows that it leaves. -/
def Effect (rows : List Entry) : (c : Change) → c.Value → List Entry → Prop
  | .create grant, stored, t =>
    stored.toGrant = grant ∧ (∀ a ∈ rows, a.id ≠ stored.id) ∧ t = rows ++ [stored]
  | .update entry, _, t =>
    (∃ a ∈ rows, a.id = entry.id) ∧ t = rows.map fun a => if a.id = entry.id then entry else a
  | .replaceGroup g grants, stored, t =>
    stored.map Entry.toGrant = grants ∧ Filled rows g stored t
  | .createGroup grants, g, t => (∀ a ∈ rows, a.group ≠ g) ∧
    ∃ stored, stored.map Entry.toGrant = grants.map (·.withGroup g) ∧ Filled rows g stored t
  | .deleteGroup g, _, t => (∃ a ∈ rows, a.group = g) ∧ t = rows.filter fun a => a.group ≠ g
  | .deleteEntry id, _, t => (∃ a ∈ rows, a.id = id) ∧ t = rows.filter fun a => a.id ≠ id

/-- What a request leaves that made these calls and had this result. Without a failing call, only
the deletion of a group without rows finds nothing. -/
structure Ended (c : Change) (calls : List Exchange) (b b' : Backend)
    (result : Except ServiceError c.Value) : Prop where
  failed : ∀ e, result = .error e → b'.entries = b.entries
  invalid : ∀ cause, result = .error (.validation cause) → calls = [] ∧ b' = b
  succeeded : ∀ v, result = .ok v → c.Effect b.entries v b'.entries
  missing : ∀ g, c = .deleteGroup g → (result = .error (.notFound (.group g)) ↔
    (∀ x ∈ calls, x.failed = false) ∧ ∀ a ∈ b.entries, a.group ≠ g)

variable {c : Change} {calls : List Exchange} {b b' : Backend} {rows stored : List Entry}
  {g : GroupId} {grants : List Grant} {fair : (op : Op) → op.Answer → Prop}

/-- Rows with ascending identifiers that come after all others fill their group. -/
theorem filled_append (hgroup : ∀ e ∈ stored, e.group = g)
    (habove : ∀ a ∈ rows, ∀ e ∈ stored, a.id < e.id)
    (hasc : ((rows.filter fun e => e.group ≠ g) ++ stored).Pairwise fun a b => a.id < b.id) :
    Filled rows g stored ((rows.filter fun e => e.group ≠ g) ++ stored) where
  group := Entry.filter_group_append hgroup
  others := Entry.filter_others_append hgroup
  increasing := (List.pairwise_append.1 hasc).2.1
  unused a ha e he heq := Identifier.lt_irrefl _ (heq ▸ habove a ha e he)

/-- The rows of a group that has been replaced fill it. -/
theorem filled_replaceGroup (hregular : b.Regular)
    (hroom : b.idCounters.exhaustedBy (.store (.replaceGroup g grants)) = false)
    (hcall : b.performStore (.replaceGroup g grants) = some (.ok stored, b'))
    (hgroup : ∀ grant ∈ grants, grant.group = g) :
    stored.map Entry.toGrant = grants ∧ Filled b.entries g stored b'.entries := by
  obtain ⟨hgrants, habove, hrows⟩ := Backend.effect_performStore hregular hroom hcall
  have hasc := b'.ascending_entries
  rw [hrows] at hasc ⊢
  refine ⟨hgrants, filled_append (fun e he => ?_) habove hasc⟩
  exact hgroup e.toGrant (hgrants ▸ List.mem_map_of_mem he)

/-! ### How requests end -/

/-- A request that breaks a rule makes no call. -/
theorem ended_invalid {y : Option (Except ServiceError c.Value)} {cause : ValidationError}
    (hc : ∀ g, c ≠ .deleteGroup g)
    (h : Prog.Leaves fair (pure (.error (.validation cause))) calls y)
    (hleads : b.Leads calls b') : ∃ result, y = some result ∧ c.Ended calls b b' result := by
  obtain ⟨rfl, rfl⟩ := h
  obtain rfl : b' = b := hleads
  exact ⟨_, rfl,
    { failed := fun _ _ => rfl
      invalid := fun _ _ => ⟨rfl, rfl⟩
      succeeded := fun v hv => by cases hv
      missing := fun g hg => absurd hg (hc g) }⟩

/-- A request that fails for another reason has left the rows alone. -/
theorem ended_error {e : ServiceError} (hc : ∀ g, c ≠ .deleteGroup g)
    (he : ∀ cause, e ≠ .validation cause) (hrows : b'.entries = b.entries) :
    c.Ended calls b b' (.error e) where
  failed _ _ := hrows
  invalid cause h := absurd (Except.error.inj h) (he cause)
  succeeded v h := by cases h
  missing g h := absurd h (hc g)

/-- A request that succeeds has had its effect. -/
theorem ended_ok {v : c.Value} (hc : ∀ g, c ≠ .deleteGroup g)
    (h : c.Effect b.entries v b'.entries) : c.Ended calls b b' (.ok v) where
  failed _ h := by cases h
  invalid _ h := by cases h
  succeeded v' hv := by
    cases hv
    exact h
  missing g h := absurd h (hc g)

theorem ofStore_ne_validation {what : Subject} {e : StoreError} (cause : ValidationError) :
    ServiceError.ofStore what e ≠ .validation cause := by
  cases e <;> exact nofun

/-- A request that comes down to one call to the store, before which the rows have not changed and
after which nothing but the log is written. -/
theorem ended_of_call {s : StoreCall} {f : s.Answer → Prog (Except ServiceError c.Value)}
    {y : Option (Except ServiceError c.Value)} {b₀ : Backend} (hc : ∀ g, c ≠ .deleteGroup g)
    (h : (Prog.store s >>= f).Leaves fair calls y) (hleads : b.Leads calls b')
    (hsame : b.entries = b₀.entries)
    (herror : ∀ e, ∃ e', f (.error e) = pure (.error e') ∧ ∀ cause, e' ≠ .validation cause)
    (hok : ∀ v, ∃ v', (∀ {xs y}, (f (.ok v)).Leaves fair xs y → xs = [] ∧ y = some (.ok v')) ∧
      (b.idCounters.exhaustedBy (.store s) = false → b.performStore s = some (.ok v, b') →
        c.Effect b.entries v' b'.entries)) :
    ∃ result, y = some result ∧ ∀ calls', c.Ended calls' b₀ b' result := by
  obtain ⟨x, rest, -, rfl, hrest⟩ := Prog.leaves_call.1 h
  cases x with
  | error e =>
    obtain ⟨e', he, hvalid⟩ := herror e
    rw [he] at hrest
    obtain ⟨rfl, rfl⟩ := hrest
    obtain ⟨m, hrows, rfl⟩ := hleads.of_error
    exact ⟨_, rfl, fun _ => ended_error hc hvalid (hrows.trans hsame)⟩
  | ok v =>
    obtain ⟨v', hend, heffect⟩ := hok v
    obtain ⟨rfl, rfl⟩ := hend hrest
    obtain ⟨m, hroom, hcall, rfl⟩ := hleads.of_ok
    exact ⟨_, rfl, fun _ => ended_ok hc (hsame ▸ heffect hroom hcall)⟩

/-- The deletion of a group has nothing to delete when the group has no rows. -/
theorem ended_deleteGroup {y : Option (Except ServiceError Unit)} (hregular : b.Regular)
    (h : (Groups.deleteGroup g).Leaves fair calls y) (hleads : b.Leads calls b') :
    ∃ result, y = some result ∧ (deleteGroup g).Ended calls b b' result := by
  obtain ⟨x, rest, -, rfl, hrest⟩ := Prog.leaves_call.1 h
  cases x with
  | error e =>
    obtain ⟨rfl, rfl⟩ := hrest
    obtain ⟨m, hrows, rfl⟩ := hleads.of_error
    refine ⟨_, rfl, fun _ _ => hrows, nofun, nofun, fun f _ => ⟨nofun, fun hall => ?_⟩⟩
    cases hall.1 _ List.mem_cons_self
  | ok n =>
    obtain ⟨m, hroom, hcall, hleads⟩ := hleads.of_ok
    obtain ⟨hcount, hrows⟩ := Backend.effect_performStore hregular hroom hcall
    dsimp only at hrest
    split at hrest
    · next hzero =>
      obtain ⟨rfl, rfl⟩ := hrest
      obtain rfl : b' = m := hleads
      have hnone : ∀ a ∈ b.entries, a.group ≠ g := by
        have hlength := hcount.symm.trans hzero
        simpa [List.filter_eq_nil_iff] using hlength
      have hsame : b'.entries = b.entries := by
        rw [hrows, List.filter_eq_self]
        simpa using hnone
      refine ⟨_, rfl, fun _ _ => hsame, nofun, nofun, fun f hf => ?_⟩
      cases hf
      exact iff_of_true rfl ⟨by simp [Exchange.failed], hnone⟩
    · next hsome =>
      obtain ⟨rfl, rfl⟩ := Prog.leaves_log hrest
      obtain rfl : b' = m := hleads
      have hthere : ∃ a ∈ b.entries, a.group = g := by
        by_contra hnone
        refine hsome (hcount.trans (List.length_eq_zero_iff.2 (List.filter_eq_nil_iff.2 ?_)))
        intro a ha hg
        exact hnone ⟨a, ha, by simpa using hg⟩
      refine ⟨_, rfl, nofun, nofun, fun _ _ => ⟨hthere, hrows⟩, fun f hf => ⟨nofun, fun hall => ?_⟩⟩
      cases hf
      obtain ⟨a, ha, hg⟩ := hthere
      exact (hall.2 a ha hg).elim

/-- What the transcript of a request does to a store. -/
theorem leaves_program {y : Option (Except ServiceError c.Value)} (hregular : b.Regular)
    (h : c.program.Leaves fair calls y) (hleads : b.Leads calls b') :
    ∃ result, y = some result ∧ c.Ended calls b b' result := by
  cases c with
  | create grant =>
    simp only [program, Groups.create] at h
    cases hvalid : grant.validate with
    | error cause =>
      rw [hvalid] at h
      exact ended_invalid (by simp) h hleads
    | ok =>
      rw [hvalid] at h
      have heffect (stored : Entry)
          (hroom : b.idCounters.exhaustedBy (.store (.insert grant)) = false)
          (hcall : b.performStore (.insert grant) = some (.ok stored, b')) :
          (create grant).Effect b.entries stored b'.entries := by
        obtain ⟨hgrant, habove, hrows⟩ := Backend.effect_performStore hregular hroom hcall
        exact ⟨hgrant, fun a ha heq => Identifier.lt_irrefl _ (heq ▸ habove a ha), hrows⟩
      obtain ⟨result, rfl, hended⟩ := ended_of_call (c := create grant) (by simp) h hleads rfl
        (fun e => ⟨_, rfl, by simp⟩) fun stored =>
          ⟨stored, fun hlog => Prog.leaves_log hlog, heffect stored⟩
      exact ⟨result, rfl, hended _⟩
  | update entry =>
    simp only [program, Groups.update] at h
    split at h
    · exact ended_invalid (by simp) h hleads
    cases hvalid : entry.validate with
    | error cause =>
      rw [hvalid] at h
      exact ended_invalid (by simp) h hleads
    | ok =>
      rw [hvalid] at h
      obtain ⟨result, rfl, hended⟩ := ended_of_call (c := update entry) (by simp) h hleads rfl
        (fun e => ⟨_, rfl, ofStore_ne_validation⟩) fun _ =>
          ⟨(), id, Backend.effect_performStore hregular⟩
      exact ⟨result, rfl, hended _⟩
  | replaceGroup g grants =>
    simp only [program, Groups.replaceGroup] at h
    split at h
    · exact ended_invalid (by simp) h hleads
    split at h
    · exact ended_invalid (by simp) h hleads
    next hgroup =>
    cases hvalid : Grant.checkAll Grant.validate grants with
    | error cause =>
      rw [hvalid] at h
      exact ended_invalid (by simp) h hleads
    | ok =>
      rw [hvalid] at h
      obtain ⟨result, rfl, hended⟩ := ended_of_call (c := replaceGroup g grants) (by simp) h hleads
        rfl (fun e => ⟨_, rfl, by simp⟩) fun stored =>
          ⟨stored, fun hlog => Prog.leaves_log hlog, fun hroom hcall =>
            filled_replaceGroup hregular hroom hcall (by simpa using hgroup)⟩
      exact ⟨result, rfl, hended _⟩
  | createGroup grants =>
    simp only [program, Groups.createGroup] at h
    split at h
    · exact ended_invalid (by simp) h hleads
    cases hvalid : Grant.checkAll Grant.validatePrincipal grants with
    | error cause =>
      rw [hvalid] at h
      exact ended_invalid (by simp) h hleads
    | ok =>
      rw [hvalid] at h
      obtain ⟨x, rest, -, rfl, hrest⟩ := Prog.leaves_call.1 h
      cases x with
      | error e =>
        obtain ⟨rfl, rfl⟩ := hrest
        obtain ⟨m, hrows, rfl⟩ := hleads.of_error
        exact ⟨_, rfl, ended_error (by simp) (by simp) hrows⟩
      | ok g =>
        obtain ⟨m, hroom, hcall, hleads⟩ := hleads.of_ok
        obtain ⟨hfresh, hsame⟩ := Backend.effect_performStore hregular hroom hcall
        have hunused : ∀ a ∈ m.entries, a.group ≠ g := fun a ha heq =>
          Identifier.lt_irrefl _ (heq ▸ hfresh a (hsame ▸ ha))
        have hregular' := hregular.allocateGroup hroom hcall
        obtain ⟨result, rfl, hended⟩ := ended_of_call (c := createGroup grants) (by simp) hrest
          hleads hsame (fun e => ⟨_, rfl, by simp⟩) fun stored =>
            ⟨g, fun hlog => Prog.leaves_log hlog, fun hroom' hcall' =>
              ⟨hunused, stored, filled_replaceGroup hregular' hroom' hcall' (by simp)⟩⟩
        exact ⟨result, rfl, hended _⟩
  | deleteGroup g => exact ended_deleteGroup hregular h hleads
  | deleteEntry entry =>
    obtain ⟨result, rfl, hended⟩ := ended_of_call (c := deleteEntry entry) (by simp) h hleads rfl
      (fun e => ⟨_, rfl, ofStore_ne_validation⟩) fun _ =>
        ⟨(), id, Backend.effect_performStore hregular⟩
    exact ⟨result, rfl, hended _⟩

/-- **Requests happen as a whole or not at all.** Whatever state the store is in and whichever calls
fail, a request to change rows has a result as long as no counter of identifiers is exhausted. If it
fails, no row has changed, and if its input broke a rule, no call has been made. If it succeeds, it
has had its effect on the rows and no other. A group is not found exactly if it has no rows. -/
theorem watch_program (c : Change) {w : World} {d : Disturbance} (hregular : w.backend.Regular)
    (hspent : (w.watch d c.program).2.spent = false) :
    ∃ result, (w.watch d c.program).1 = some result ∧
      c.Ended (w.watch d c.program).2.exchanges w.backend (w.watch d c.program).2.world.backend
        result := by
  have hleaves : c.program.Leaves (fun _ _ => True) _ _ :=
    World.watch_leaves (fun _ _ _ _ _ _ => trivial) (.inr hspent)
  exact leaves_program hregular hleaves (World.watch_leads hspent)

/-- A world with one row. -/
def single : World where
  backend := .memory
    { entries := .ofRows [⟨.forUser ⟨5⟩ ⟨1⟩ Privilege.read.mask, ⟨1⟩⟩], nextEntry := 2 } {}

/-- A group for one unit. -/
def forNewcomer : Change :=
  createGroup [.forUnit ⟨0⟩ ⟨2⟩ Privilege.read.mask]

theorem watch_program_single :
    (∀ a ∈ single.backend.entries, a.group ≠ ⟨6⟩) ∧
      ∃ stored, stored.map Entry.toGrant = [.forUnit ⟨6⟩ ⟨2⟩ Privilege.read.mask] ∧
        Filled single.backend.entries ⟨6⟩ stored
          (single.watch {} forNewcomer.program).2.world.backend.entries := by
  have hregular : single.backend.Regular := ⟨by decide +kernel, by decide +kernel⟩
  have hspent : (single.watch {} forNewcomer.program).2.spent = false := rfl
  have hresult : (single.watch {} forNewcomer.program).1 = some (.ok ⟨6⟩) := rfl
  obtain ⟨result, hsome, hended⟩ := watch_program forNewcomer hregular hspent
  exact hended.succeeded _ (Option.some.inj (hsome.symm.trans hresult))

/-- A call that gets lost leaves the row where it was. -/
example : (single.watch { fault := fun n => if n = 1 then some .conflict else none }
    forNewcomer.program).2.world.backend.entries = single.backend.entries :=
  rfl

end Change

end Groups

end AccessGroups
