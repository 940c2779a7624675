import AccessGroups.Text.Decimal

/-!
# JSON documents as read

Reading a JSON text gives a tree that keeps as much as the decoders of this library ask for. A
number is kept only if its text is a plain integer, and a string only if its escapes make up
characters; any other well-formed number or string is accepted and has no value. There is no limit
on nesting.

## Main definitions

* `Json.Source`: a well-formed JSON document.
* `Json.Source.ofString?`: reading a whole text.
-/

namespace AccessGroups.Json

/-- A well-formed JSON document. -/
inductive Source where
  | null
  | bool (b : Bool)
  /-- A number, with its value if the text is a plain integer. -/
  | number (value : Option Int)
  /-- A string, with its value if no escape is half of a pair. -/
  | text (value : Option String)
  | list (items : List Source)
  /-- An object with its members in the order of the text, repetitions kept. -/
  | record (members : List (Option String × Source))

/-! ### Blanks and numbers -/

/-- The four blanks of JSON. -/
def isBlank (c : Char) : Bool :=
  c = ' ' || c = '\n' || c = '\t' || c = '\r'

/-- The rest of the text after leading blanks. -/
def skipBlanks (cs : List Char) : List Char :=
  cs.dropWhile isBlank

/-- A leading run of digits and the rest. -/
def digits (cs : List Char) : List Char × List Char :=
  (cs.takeWhile Char.isDigit, cs.dropWhile Char.isDigit)

/-- The integer part of a number: a zero, or digits that start with another digit. -/
def readWhole? (cs : List Char) : Option (List Char × List Char) :=
  match cs with
  | '0' :: rest => some (['0'], rest)
  | _ =>
    match digits cs with
    | ([], _) => none
    | (ds, rest) => some (ds, rest)

/-- A fraction, if the text goes on with one; the first component says whether it does. -/
def readFraction? (cs : List Char) : Option (Bool × List Char) :=
  match cs with
  | '.' :: rest =>
    match digits rest with
    | ([], _) => none
    | (_, rest) => some (true, rest)
  | _ => some (false, cs)

/-- The digits of an exponent. -/
def readExponentDigits? (cs : List Char) : Option (Bool × List Char) :=
  match digits cs with
  | ([], _) => none
  | (_, rest) => some (true, rest)

/-- An exponent, if the text goes on with one; the first component says whether it does. -/
def readExponent? (cs : List Char) : Option (Bool × List Char) :=
  match cs with
  | [] => some (false, [])
  | c :: rest =>
    if c = 'e' || c = 'E' then
      match rest with
      | '+' :: rest => readExponentDigits? rest
      | '-' :: rest => readExponentDigits? rest
      | _ => readExponentDigits? rest
    else some (false, cs)

/-- The value of a number: none with a fraction or an exponent, and none for a negative zero. -/
def numberValue (negative : Bool) (whole : List Char) (fraction exponent : Bool) : Option Int :=
  if fraction || exponent then none
  else
    let n := Nat.ofDigitChars 10 whole 0
    if negative then if n = 0 then none else some (-(n : Int)) else some (n : Int)

/-- A number without its sign. -/
def readUnsigned? (negative : Bool) (cs : List Char) : Option (Source × List Char) := do
  let (whole, cs) ← readWhole? cs
  let (fraction, cs) ← readFraction? cs
  let (exponent, cs) ← readExponent? cs
  return (.number (numberValue negative whole fraction exponent), cs)

/-- A number at the start of the text. -/
def readNumber? (cs : List Char) : Option (Source × List Char) :=
  match cs with
  | '-' :: rest => readUnsigned? true rest
  | _ => readUnsigned? false cs

/-! ### Strings -/

/-- A piece of a string: a character, or a 16-bit unit written as an escape. -/
inductive Piece where
  | char (c : Char)
  | unit (n : Nat)

/-- The value of a hexadecimal digit. -/
def hexDigit? (c : Char) : Option Nat :=
  if c.isDigit then some (c.toNat - 48)
  else if 'a' ≤ c && c ≤ 'f' then some (c.toNat - 87)
  else if 'A' ≤ c && c ≤ 'F' then some (c.toNat - 55)
  else none

/-- The escape after a backslash, and the rest of the text. -/
def readEscape? : List Char → Option (Piece × List Char)
  | '"' :: rest => some (.char '"', rest)
  | '\\' :: rest => some (.char '\\', rest)
  | '/' :: rest => some (.char '/', rest)
  | 'b' :: rest => some (.char '\x08', rest)
  | 'f' :: rest => some (.char '\x0c', rest)
  | 'n' :: rest => some (.char '\n', rest)
  | 'r' :: rest => some (.char '\r', rest)
  | 't' :: rest => some (.char '\t', rest)
  | 'u' :: a :: b :: c :: d :: rest => do
    let a ← hexDigit? a
    let b ← hexDigit? b
    let c ← hexDigit? c
    let d ← hexDigit? d
    return (.unit (((a * 16 + b) * 16 + c) * 16 + d), rest)
  | _ => none

/-- The pieces of a string up to its closing quote, and the text after it. The first argument is
at least the length of the text. -/
def readPieces? : Nat → List Char → Option (List Piece × List Char)
  | 0, _ => none
  | _ + 1, [] => none
  | fuel + 1, c :: rest =>
    if c = '"' then some ([], rest)
    else if c = '\\' then do
      let (piece, rest) ← readEscape? rest
      let (pieces, rest) ← readPieces? fuel rest
      return (piece :: pieces, rest)
    else if c.toNat < 32 then none
    else do
      let (pieces, rest) ← readPieces? fuel rest
      return (.char c :: pieces, rest)

/-- The characters that the pieces make up: a leading half must be followed by a trailing half. -/
def joinPieces? : List Piece → Option (List Char)
  | [] => some []
  | .char c :: rest => (joinPieces? rest).map (c :: ·)
  | .unit n :: rest =>
    if 0xd800 ≤ n && n < 0xdc00 then
      match rest with
      | .unit m :: rest =>
        if 0xdc00 ≤ m && m < 0xe000 then
          (joinPieces? rest).map
            (Char.ofNat (0x10000 + (n - 0xd800) * 0x400 + (m - 0xdc00)) :: ·)
        else none
      | _ => none
    else if 0xdc00 ≤ n && n < 0xe000 then none
    else (joinPieces? rest).map (Char.ofNat n :: ·)

/-- The string after its opening quote, with its value if it has one. -/
def readText? (cs : List Char) : Option (Option String × List Char) := do
  let (pieces, rest) ← readPieces? (cs.length + 1) cs
  return ((joinPieces? pieces).map String.ofList, rest)

/-! ### Documents -/

/-- The rest of the text after a literal. -/
def expect? (literal cs : List Char) : Option (List Char) :=
  if literal.isPrefixOf cs then some (cs.drop literal.length) else none

namespace Source

mutual

/-- A value after leading blanks. The first argument bounds the number of nested steps. -/
def read? : Nat → List Char → Option (Source × List Char)
  | 0, _ => none
  | fuel + 1, cs =>
    match skipBlanks cs with
    | [] => none
    | c :: rest =>
      if c = 'n' then (expect? ['u', 'l', 'l'] rest).map (.null, ·)
      else if c = 't' then (expect? ['r', 'u', 'e'] rest).map (.bool true, ·)
      else if c = 'f' then (expect? ['a', 'l', 's', 'e'] rest).map (.bool false, ·)
      else if c = '"' then (readText? rest).map fun r => (.text r.1, r.2)
      else if c = '[' then
        match skipBlanks rest with
        | ']' :: rest => some (.list [], rest)
        | rest => (readItems? fuel rest).map fun r => (.list r.1, r.2)
      else if c = '\x7b' then
        match skipBlanks rest with
        | '\x7d' :: rest => some (.record [], rest)
        | rest => (readMembers? fuel rest).map fun r => (.record r.1, r.2)
      else readNumber? (c :: rest)

/-- The items of a list up to its closing bracket. -/
def readItems? : Nat → List Char → Option (List Source × List Char)
  | 0, _ => none
  | fuel + 1, cs => do
    let (item, rest) ← read? fuel cs
    match skipBlanks rest with
    | ',' :: rest => (readItems? fuel rest).map fun r => (item :: r.1, r.2)
    | ']' :: rest => some ([item], rest)
    | _ => none

/-- The members of an object up to its closing brace. -/
def readMembers? : Nat → List Char → Option (List (Option String × Source) × List Char)
  | 0, _ => none
  | fuel + 1, cs => do
    let '"' :: rest := skipBlanks cs | none
    let (key, rest) ← readText? rest
    let ':' :: rest := skipBlanks rest | none
    let (value, rest) ← read? fuel rest
    match skipBlanks rest with
    | ',' :: rest => (readMembers? fuel rest).map fun r => ((key, value) :: r.1, r.2)
    | '\x7d' :: rest => some ([(key, value)], rest)
    | _ => none

end

/-- The document that makes up the whole text, blanks around it aside. -/
def ofChars? (cs : List Char) : Option Source := do
  let (source, rest) ← read? (2 * cs.length + 1) cs
  if (skipBlanks rest).isEmpty then some source else none

/-- The document that makes up the whole text, blanks around it aside. -/
def ofString? (s : String) : Option Source :=
  ofChars? s.toList

end Source

end AccessGroups.Json
