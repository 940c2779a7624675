import AccessGroups.Json.Source

/-!
# Fields of a document

A structure is read from an object that has its fields in any order, or from a list that has
exactly its fields in the declared order. Members of an object with other names are ignored; a
field that occurs twice is an error. A choice is read from its name, or from an object with the
name as its only member.

## Main definitions

* `Json.Source.fields?`: the documents of the named fields.
* `Json.required?`, `Json.optional?`: decoding a field that must be there, or one that may be
  missing or null.
* `Json.Source.choice?`: the name of a choice and the document of its content.
-/

namespace AccessGroups.Json

namespace Source

/-- The document of the field `name` among the members, if it occurs at most once. -/
def field? (members : List (Option String × Source)) (name : String) : Option (Option Source) :=
  match members.filter fun m => m.1 == some name with
  | [] => some none
  | [m] => some (some m.2)
  | _ => none

/-- The documents of the named fields, in the order of the names; a missing field has none. -/
def fields? (names : List String) : Source → Option (List (Option Source))
  | .list items => if items.length = names.length then some (items.map some) else none
  | .record members =>
    if members.all fun m => m.1.isSome then names.mapM (field? members) else none
  | _ => none

/-- The name of a choice with the document of its content, if it has one. -/
def choice? : Source → Option (String × Option Source)
  | .text (some name) => some (name, none)
  | .record [(some name, content)] => some (name, some content)
  | _ => none

/-- The value of a boolean. -/
def bool? : Source → Option Bool
  | .bool b => some b
  | _ => none

/-- The value of an integer of the signed 64-bit range. -/
def int64? : Source → Option Int64
  | .number (some n) => Decimal.int64? n
  | _ => none

/-- The value of a string. -/
def text? : Source → Option String
  | .text s => s
  | _ => none

/-- The items of a list, each one decoded. -/
def listOf? {α : Type} (decode : Source → Option α) : Source → Option (List α)
  | .list items => items.mapM decode
  | _ => none

end Source

variable {α : Type}

/-- A field that must be there. -/
def required? (decode : Source → Option α) (field : Option Source) : Option α :=
  field.bind decode

/-- A field that may be missing or null. -/
def optional? (decode : Source → Option α) : Option Source → Option (Option α)
  | none => some none
  | some .null => some none
  | some s => (decode s).map some

/-- A choice without content, named by a text or by an object whose member is null. -/
def named? (ofName? : String → Option α) (s : Source) : Option α :=
  match s.choice? with
  | some (name, none) => ofName? name
  | some (name, some .null) => ofName? name
  | _ => none

end AccessGroups.Json
