import AccessGroups.Codec
import AccessGroups.Proofs.Json.Compact
import AccessGroups.Proofs.Json.Exact
import AccessGroups.Proofs.Json.Layout

/-!
# Texts of the stored types

What the program writes for an identifier, a privilege, a kind, a principal, a set of privileges, a
reference, a grant or an entry is read back as it was. The structures among them are read from the
texts that spell them in their layouts, and from no other text.

## Main definitions

* `Json.decode?`: reading a text and decoding its document.
* `Json.ReadsBack`: a structure is written and read by its layout.
* `Privileges.layout`, `GroupRef.layout`, `Grant.layout`, `Entry.layout`.

## Main results

* `Json.readsBack_of_spelledBy`: it suffices to look at documents.
* `storedTypes_readBack`: every stored type is read back from its text.
-/

namespace AccessGroups

open Json (Value Source FieldRule SpelledBy required? optional?)

/-! ### Structures and texts -/

namespace Json

variable {α : Type}

/-- The value that a text is decoded to. -/
def decode? (ofJson? : Source → Option α) (text : String) : Option α :=
  (Source.ofString? text).bind ofJson?

/-- A structure is written and read by its layout. -/
structure ReadsBack (layout : List (FieldRule α)) (toJson : α → Value)
    (ofJson? : Source → Option α) : Prop where
  /-- What is written for a value is decoded to it. -/
  compact : ∀ v, decode? ofJson? (toJson v).compact = some v
  /-- A value is decoded from the texts that spell it, and from no other text. -/
  spelled : ∀ text v, decode? ofJson? text = some v ↔
    ∃ s, Spaced text.toList s ∧ SpelledBy layout v s
  /-- No field may occur twice in an object. -/
  twice : ∀ text members, Spaced text.toList (.record members) → ∀ f ∈ layout,
    2 ≤ (members.countP fun m => m.1 == some f.name) → decode? ofJson? text = none
  /-- A field that is not optional may not be missing from an object. -/
  missing : ∀ text members, Spaced text.toList (.record members) → ∀ f ∈ layout,
    f.optional = false → (∀ m ∈ members, m.1 ≠ some f.name) → decode? ofJson? text = none

variable {layout : List (FieldRule α)} {toJson : α → Value} {ofJson? : Source → Option α}

theorem decode?_of_spaced {text : String} {s : Source} (h : Spaced text.toList s) :
    decode? ofJson? text = ofJson? s := by
  rw [decode?, Source.ofString?_of_spaced h, Option.bind_some]

theorem decode?_compact (v : Value) : decode? ofJson? v.compact = ofJson? v.source := by
  rw [decode?, v.ofString?_compact, Option.bind_some]

/-- It suffices to look at documents. -/
theorem readsBack_of_spelledBy (hnames : (layout.map FieldRule.name).Nodup)
    (hdecode : ∀ s v, ofJson? s = some v ↔ SpelledBy layout v s)
    (hsource : ∀ v, SpelledBy layout v (toJson v).source) : ReadsBack layout toJson ofJson? where
  compact v := by rw [decode?_compact, hdecode]; exact hsource v
  spelled text v := by
    simp only [decode?, Option.bind_eq_some_iff, Source.ofString?_eq_some_iff, hdecode]
  twice text members htext f hf htwice := by
    rw [decode?_of_spaced htext, Option.eq_none_iff_forall_ne_some]
    intro v hv
    obtain ⟨d, hd, -⟩ := ((spelledBy_record_iff hnames).1 ((hdecode _ v).1 hv)).2 f hf
    have hlength : (d.toList.map fun s => (some f.name, s)).length ≤ 1 := by cases d <;> simp
    rw [List.countP_eq_length_filter, Source.field?_eq_some_iff.1 hd] at htwice
    omega
  missing text members htext f hf hrequired hmissing := by
    rw [decode?_of_spaced htext, Option.eq_none_iff_forall_ne_some]
    intro v hv
    obtain ⟨d, hd, hholds⟩ := ((spelledBy_record_iff hnames).1 ((hdecode _ v).1 hv)).2 f hf
    -- A field without a member could only be left out, and this one may not be.
    have hnone : Source.field? members f.name = some none := by
      refine Source.field?_eq_some_iff.2 (List.filter_eq_nil_iff.2 fun m hm hname => ?_)
      exact hmissing m hm (beq_iff_eq.1 hname)
    obtain rfl := Option.some.inj (hnone.symm.trans hd)
    exact absurd hholds.1 (by simp [hrequired])

/-- Members that list the fields in declared order spell the value. -/
theorem Listed.spelledBy {v : α} {members : List (Option String × Source)}
    (h : Listed v layout members) : SpelledBy layout v (.record members) :=
  ⟨members, [], by simp, h, fun _ hm => absurd hm List.not_mem_nil⟩

end Json

/-! ### Identifiers -/

namespace Identifier

variable {family : IdFamily}

/-- The document is the number of the identifier. -/
def Spells (a : Identifier family) (s : Source) : Prop :=
  s = .number (some a.val.toInt)

theorem ofJson?_eq_some_iff (a : Identifier family) (s : Source) :
    ofJson? s = some a ↔ a.Spells s := by
  cases s with
  | null | bool | text | list | record => simp [ofJson?, Source.int64?, Spells]
  | number value =>
    cases value with
    | none => simp [ofJson?, Source.int64?, Spells]
    | some n =>
      obtain ⟨x⟩ := a
      have hread : Decimal.int64? n = some x ↔ x.toInt = n := Text.int64?_eq_some_iff
      simpa [ofJson?, Source.int64?, Spells, eq_comm] using hread

theorem not_spells_null (a : Identifier family) : ¬a.Spells .null :=
  nofun

end Identifier

/-! ### Privileges -/

namespace Privileges

/-- A flag, which must be there. -/
def flag (name : String) (get : Privileges → Bool) : FieldRule Privileges :=
  .required name (fun b s => s = .bool b) get

/-- The four flags. -/
def layout : List (FieldRule Privileges) :=
  [flag "read" read, flag "modify" modify, flag "create" create, flag "delete" delete]

theorem bool?_eq_some_iff (b : Bool) (s : Source) : s.bool? = some b ↔ s = .bool b := by
  cases s <;> simp [Source.bool?]

theorem forall₂_layout (p : Privileges) (docs : List (Option Source)) :
    List.Forall₂ (fun f d => f.Holds p d) layout docs ↔ ∃ read modify create delete,
      docs = [read, modify, create, delete] ∧ required? Source.bool? read = some p.read ∧
        required? Source.bool? modify = some p.modify ∧
          required? Source.bool? create = some p.create ∧
            required? Source.bool? delete = some p.delete := by
  simp only [layout, flag, List.forall₂_cons_left_iff, List.forall₂_nil_left_iff,
    FieldRule.required_holds_iff bool?_eq_some_iff]
  grind

theorem ofJson?_eq_some_iff (p : Privileges) (s : Source) :
    ofJson? s = some p ↔ SpelledBy layout p s := by
  rw [← Json.exists_fields?_iff (by decide)]
  simp only [ofJson?, Option.bind_eq_bind, Option.bind_eq_some_iff, forall₂_layout]
  refine exists_congr fun docs => and_congr Iff.rfl ?_
  constructor
  · intro h
    split at h
    case h_1 read modify create delete =>
      simp only [Option.bind_eq_some_iff] at h
      obtain ⟨_, hread, _, hmodify, _, hcreate, _, hdelete, ⟨⟩⟩ := h
      exact ⟨read, modify, create, delete, rfl, hread, hmodify, hcreate, hdelete⟩
    case h_2 => cases h
  · rintro ⟨read, modify, create, delete, rfl, hread, hmodify, hcreate, hdelete⟩
    simp [hread, hmodify, hcreate, hdelete]

end Privileges

/-! ### References -/

namespace GroupRef

/-- The resource and the group. -/
def layout : List (FieldRule GroupRef) :=
  [.required "resource_id" Identifier.Spells resource, .required "group_id" Identifier.Spells group]

theorem forall₂_layout (r : GroupRef) (docs : List (Option Source)) :
    List.Forall₂ (fun f d => f.Holds r d) layout docs ↔ ∃ resource group,
      docs = [resource, group] ∧ required? Identifier.ofJson? resource = some r.resource ∧
        required? Identifier.ofJson? group = some r.group := by
  simp only [layout, List.forall₂_cons_left_iff, List.forall₂_nil_left_iff,
    FieldRule.required_holds_iff Identifier.ofJson?_eq_some_iff]
  grind

theorem ofJson?_eq_some_iff (r : GroupRef) (s : Source) :
    ofJson? s = some r ↔ SpelledBy layout r s := by
  rw [← Json.exists_fields?_iff (by decide)]
  simp only [ofJson?, Option.bind_eq_bind, Option.bind_eq_some_iff, forall₂_layout]
  refine exists_congr fun docs => and_congr Iff.rfl ?_
  constructor
  · intro h
    split at h
    case h_1 resource group =>
      simp only [Option.bind_eq_some_iff] at h
      obtain ⟨_, hresource, _, hgroup, ⟨⟩⟩ := h
      exact ⟨resource, group, rfl, hresource, hgroup⟩
    case h_2 => cases h
  · rintro ⟨resource, group, rfl, hresource, hgroup⟩
    simp [hresource, hgroup]

end GroupRef

/-! ### Grants and entries -/

namespace Grant

variable {α : Type}

/-- The fields of the grant that a value has in it. -/
def fields (get : α → Grant) : List (FieldRule α) :=
  [.required "group_id" Identifier.Spells fun v => (get v).group,
    .nullable "user_id" Identifier.Spells fun v => (get v).user,
    .nullable "unit_id" Identifier.Spells fun v => (get v).unit,
    .required "privileges" (SpelledBy Privileges.layout) fun v => (get v).privileges]

/-- The fields of a grant. -/
def layout : List (FieldRule Grant) :=
  fields id

theorem forall₂_fields (get : α → Grant) (v : α) (docs : List (Option Source)) :
    List.Forall₂ (fun f d => f.Holds v d) (fields get) docs ↔ ∃ group user unit privileges,
      docs = [group, user, unit, privileges] ∧
        ofFields? group user unit privileges = some (get v) := by
  have hfields (group user unit privileges : Option Source) :
      ofFields? group user unit privileges = some (get v) ↔
        required? Identifier.ofJson? group = some (get v).group ∧
          optional? Identifier.ofJson? user = some (get v).user ∧
            optional? Identifier.ofJson? unit = some (get v).unit ∧
              required? Privileges.ofJson? privileges = some (get v).privileges := by
    simp only [ofFields?, Option.bind_eq_bind, Option.bind_eq_some_iff]
    constructor
    · rintro ⟨_, hgroup, _, huser, _, hunit, _, hprivileges, h⟩
      rw [← Option.some.inj h]
      exact ⟨hgroup, huser, hunit, hprivileges⟩
    · rintro ⟨hgroup, huser, hunit, hprivileges⟩
      exact ⟨_, hgroup, _, huser, _, hunit, _, hprivileges, rfl⟩
  simp only [fields, List.forall₂_cons_left_iff, List.forall₂_nil_left_iff, hfields,
    FieldRule.required_holds_iff Identifier.ofJson?_eq_some_iff,
    FieldRule.nullable_holds_iff Identifier.ofJson?_eq_some_iff Identifier.not_spells_null,
    FieldRule.required_holds_iff Privileges.ofJson?_eq_some_iff]
  grind

theorem ofJson?_eq_some_iff (g : Grant) (s : Source) :
    ofJson? s = some g ↔ SpelledBy layout g s := by
  rw [← Json.exists_fields?_iff (by decide)]
  simp only [ofJson?, Option.bind_eq_bind, Option.bind_eq_some_iff, layout, forall₂_fields]
  refine exists_congr fun docs => and_congr Iff.rfl ?_
  constructor
  · intro h
    split at h
    case h_1 group user unit privileges => exact ⟨group, user, unit, privileges, rfl, h⟩
    case h_2 => cases h
  · rintro ⟨group, user, unit, privileges, rfl, h⟩
    exact h

end Grant

namespace Entry

/-- The identifier and the fields of the grant. -/
def layout : List (FieldRule Entry) :=
  .required "id" Identifier.Spells id :: Grant.fields toGrant

theorem ofJson?_eq_some_iff (e : Entry) (s : Source) :
    ofJson? s = some e ↔ SpelledBy layout e s := by
  rw [← Json.exists_fields?_iff (by decide)]
  simp only [ofJson?, Option.bind_eq_bind, Option.bind_eq_some_iff, layout,
    List.forall₂_cons_left_iff, Grant.forall₂_fields,
    FieldRule.required_holds_iff Identifier.ofJson?_eq_some_iff]
  refine exists_congr fun docs => and_congr Iff.rfl ?_
  constructor
  · intro h
    split at h
    case h_1 id group user unit privileges =>
      simp only [Option.bind_eq_some_iff] at h
      obtain ⟨_, hid, _, hgrant, ⟨⟩⟩ := h
      exact ⟨id, _, hid, ⟨group, user, unit, privileges, rfl, hgrant⟩, rfl⟩
    case h_2 => cases h
  · rintro ⟨id, _, hid, ⟨group, user, unit, privileges, rfl, hgrant⟩, rfl⟩
    simp [hid, hgrant, Grant.toEntry]

end Entry

/-! ### What is written -/

theorem Privileges.spelledBy_source (p : Privileges) :
    SpelledBy Privileges.layout p p.toJson.source :=
  (Json.Listed.present rfl (.present rfl (.present rfl (.present rfl .nil)))).spelledBy

theorem GroupRef.spelledBy_source (r : GroupRef) : SpelledBy GroupRef.layout r r.toJson.source :=
  (Json.Listed.present rfl (.present rfl .nil)).spelledBy

/-- An empty column is written as null. -/
theorem Identifier.elim_columnJson {family : IdFamily} (a : Option (Identifier family)) :
    a.elim ((columnJson a).source = .null) fun b => b.Spells (columnJson a).source := by
  cases a <;> rfl

theorem Grant.listed {α : Type} (get : α → Grant) (v : α) :
    Json.Listed v (Grant.fields get) (Value.memberSources (get v).members) :=
  .present rfl (.present (Identifier.elim_columnJson _) (.present (Identifier.elim_columnJson _)
    (.present (Privileges.spelledBy_source _) .nil)))

theorem Grant.spelledBy_source (g : Grant) : SpelledBy Grant.layout g g.toJson.source :=
  (Grant.listed id g).spelledBy

theorem Entry.spelledBy_source (e : Entry) : SpelledBy Entry.layout e e.toJson.source :=
  (Json.Listed.present rfl (Grant.listed Entry.toGrant e)).spelledBy

theorem Identifier.ofJson?_source {family : IdFamily} (a : Identifier family) :
    Identifier.ofJson? a.toJson.source = some a :=
  (Identifier.ofJson?_eq_some_iff a _).2 rfl

theorem Principal.ofJson?_source (p : Principal) : Principal.ofJson? p.toJson.source = some p := by
  cases p with
  | user id | unit id => exact congrArg (Option.map _) id.ofJson?_source

theorem Privilege.ofJson?_source (p : Privilege) : Privilege.ofJson? p.toJson.source = some p := by
  cases p <;> rfl

theorem ResourceKind.ofJson?_source (k : ResourceKind) :
    ResourceKind.ofJson? k.toJson.source = some k :=
  ResourceKind.ofName?_name k

/-- Every stored type is read back from its text: the structures from all texts that spell them, and
from no other, and every value from the text that is written for it. -/
theorem storedTypes_readBack :
    Json.ReadsBack Entry.layout Entry.toJson Entry.ofJson? ∧
    Json.ReadsBack Grant.layout Grant.toJson Grant.ofJson? ∧
    Json.ReadsBack Privileges.layout Privileges.toJson Privileges.ofJson? ∧
    Json.ReadsBack GroupRef.layout GroupRef.toJson GroupRef.ofJson? ∧
    (∀ p : Principal, Json.decode? Principal.ofJson? p.toJson.compact = some p) ∧
    (∀ p : Privilege, Json.decode? Privilege.ofJson? p.toJson.compact = some p) ∧
    (∀ k : ResourceKind, Json.decode? ResourceKind.ofJson? k.toJson.compact = some k) ∧
    ∀ (family : IdFamily) (a : Identifier family),
      Json.decode? Identifier.ofJson? a.toJson.compact = some a := by
  refine ⟨?_, ?_, ?_, ?_, fun p => ?_, fun p => ?_, fun k => ?_, fun family a => ?_⟩
  · exact Json.readsBack_of_spelledBy (by decide) (fun s e => e.ofJson?_eq_some_iff s)
      Entry.spelledBy_source
  · exact Json.readsBack_of_spelledBy (by decide) (fun s g => g.ofJson?_eq_some_iff s)
      Grant.spelledBy_source
  · exact Json.readsBack_of_spelledBy (by decide) (fun s p => p.ofJson?_eq_some_iff s)
      Privileges.spelledBy_source
  · exact Json.readsBack_of_spelledBy (by decide) (fun s r => r.ofJson?_eq_some_iff s)
      GroupRef.spelledBy_source
  · rw [Json.decode?_compact, p.ofJson?_source]
  · rw [Json.decode?_compact, p.ofJson?_source]
  · rw [Json.decode?_compact, k.ofJson?_source]
  · rw [Json.decode?_compact, a.ofJson?_source]

/-- Fields in another order, an unknown member, blanks and an escape in a name. -/
example : Json.decode? Privileges.ofJson?
    "\x7b\"delete\":true, \"x\":[1.5],\n\"create\":false,\"modify\":true,\"re\\u0061d\":true \x7d" =
      some ⟨true, true, false, true⟩ := by
  decide +kernel

end AccessGroups
