import AccessGroups.Text.Decimal

/-!
# JSON documents to write

The JSON values that the program produces, and their two printed forms: on one line without blanks,
and indented by two spaces a level.

## Main definitions

* `Json.Value`: null, booleans, integers, strings, lists and records with ordered members.
* `Json.Value.compact`, `Json.Value.pretty`: the two printed forms.
-/

namespace AccessGroups.Json

/-- A JSON value; the members of a record keep their order. -/
inductive Value where
  | null
  | bool (b : Bool)
  | int (n : Int)
  | text (s : String)
  | list (items : List Value)
  | record (members : List (String × Value))

/-- One character of a JSON string: quotes, backslashes and control characters are escaped. -/
def escapeChar (c : Char) : List Char :=
  if c = '"' then ['\\', '"']
  else if c = '\\' then ['\\', '\\']
  else if c = '\n' then ['\\', 'n']
  else if c = '\r' then ['\\', 'r']
  else if c = '\t' then ['\\', 't']
  else if c.toNat = 8 then ['\\', 'b']
  else if c.toNat = 12 then ['\\', 'f']
  else if c.toNat < 32 then
    ['\\', 'u', '0', '0'] ++ (if c.toNat < 16 then ['0'] else []) ++ Nat.toDigits 16 c.toNat
  else [c]

/-- A string between quotes. -/
def quote (s : String) : List Char :=
  '"' :: s.toList.flatMap escapeChar ++ ['"']

/-- The characters of `true` or `false`. -/
def boolChars : Bool → List Char
  | true => ['t', 'r', 'u', 'e']
  | false => ['f', 'a', 'l', 's', 'e']

namespace Value

/-! ### The form on one line -/

mutual

/-- The characters of the compact form. -/
def compactChars : Value → List Char
  | .null => ['n', 'u', 'l', 'l']
  | .bool b => boolChars b
  | .int n => Decimal.ofInt n
  | .text s => quote s
  | .list items => '[' :: compactItems items
  | .record members => '\x7b' :: compactMembers members

/-- The items of a list and its closing bracket. -/
def compactItems : List Value → List Char
  | [] => [']']
  | [v] => v.compactChars ++ [']']
  | v :: w :: rest => v.compactChars ++ ',' :: compactItems (w :: rest)

/-- The members of a record and its closing brace. -/
def compactMembers : List (String × Value) → List Char
  | [] => ['\x7d']
  | [(key, v)] => quote key ++ ':' :: v.compactChars ++ ['\x7d']
  | (key, v) :: m :: rest => quote key ++ ':' :: v.compactChars ++ ',' :: compactMembers (m :: rest)

end

/-- The compact form. -/
def compact (v : Value) : String :=
  String.ofList v.compactChars

/-! ### The indented form -/

/-- A new line, indented by `depth` levels. -/
def newline (depth : Nat) : List Char :=
  '\n' :: List.replicate (2 * depth) ' '

mutual

/-- The characters of the indented form, inside `depth` levels. -/
def prettyChars (depth : Nat) : Value → List Char
  | .null => ['n', 'u', 'l', 'l']
  | .bool b => boolChars b
  | .int n => Decimal.ofInt n
  | .text s => quote s
  | .list items => if items.isEmpty then ['[', ']'] else '[' :: prettyItems (depth + 1) items
  | .record members =>
    if members.isEmpty then ['\x7b', '\x7d'] else '\x7b' :: prettyMembers (depth + 1) members

/-- The items of a list, each on lines of its own, and the closing bracket. -/
def prettyItems (depth : Nat) : List Value → List Char
  | [] => newline (depth - 1) ++ [']']
  | v :: rest =>
    newline depth ++ v.prettyChars depth ++ (if rest.isEmpty then [] else [',']) ++
      prettyItems depth rest

/-- The members of a record, each on lines of its own, and the closing brace. -/
def prettyMembers (depth : Nat) : List (String × Value) → List Char
  | [] => newline (depth - 1) ++ ['\x7d']
  | (key, v) :: rest =>
    newline depth ++ quote key ++ [':', ' '] ++ v.prettyChars depth ++
      (if rest.isEmpty then [] else [',']) ++ prettyMembers depth rest

end

/-- The indented form. -/
def pretty (v : Value) : String :=
  String.ofList (v.prettyChars 0)

end Value

end AccessGroups.Json
