import AccessGroups.Json.Source
import AccessGroups.Json.Value
import AccessGroups.Proofs.Text.Numeral

/-!
# Texts of documents

The grammar of JSON, apart from any reader: which texts write a document. Blanks may stand before
and after every value and every name. A number may have a sign, a fraction and an exponent; a
character of a string may stand for itself or be escaped, and outside the first 65536 it is escaped
as two halves.

## Main definitions

* `Json.NumberText`, `Json.StringText`: the texts of numbers and of strings, with their values.
* `Json.Written`: a text writes a document, with nothing around it.
* `Json.Spaced`: a text writes a document, with blanks around it.
-/

namespace AccessGroups.Json

open Text (IsDigits placeValue)

/-- Nothing but blanks. -/
def Blanks (cs : List Char) : Prop :=
  ∀ c ∈ cs, isBlank c = true

theorem blanks_nil : Blanks [] :=
  fun _ h => absurd h List.not_mem_nil

/-! ### Numbers -/

/-- The part of a number before its point: a zero, or digits of which the first is none. -/
def IsWhole (cs : List Char) : Prop :=
  cs = ['0'] ∨ IsDigits cs ∧ cs.head? ≠ some '0'

/-- The part of a number from its point on. -/
def IsFraction (cs : List Char) : Prop :=
  ∃ digits, cs = '.' :: digits ∧ IsDigits digits

/-- The part of a number from the letter of its exponent on. -/
def IsExponent (cs : List Char) : Prop :=
  ∃ letter sign digits, cs = letter :: (Text.Sign.chars sign ++ digits) ∧
    (letter = 'e' ∨ letter = 'E') ∧ IsDigits digits

/-- The text is a number. It has a value if it is an integer as integers are written: without a
fraction or an exponent, and without a sign if it is zero. -/
inductive NumberText : List Char → Option Int → Prop
  | natural {whole : List Char} (h : IsWhole whole) :
    NumberText whole (some (placeValue whole))
  | negative {whole : List Char} (h : IsWhole whole) (hzero : whole ≠ ['0']) :
    NumberText ('-' :: whole) (some (-(placeValue whole : Int)))
  | negativeZero : NumberText ['-', '0'] none
  | real {sign whole fraction exponent : List Char} (hsign : sign = [] ∨ sign = ['-'])
    (hwhole : IsWhole whole) (hfraction : fraction = [] ∨ IsFraction fraction)
    (hexponent : exponent = [] ∨ IsExponent exponent) (h : fraction ≠ [] ∨ exponent ≠ []) :
    NumberText (sign ++ (whole ++ (fraction ++ exponent))) none

/-! ### Strings -/

/-- The letters that stand after a backslash, with the characters that they mean. -/
def escapes : List (Char × Char) :=
  [('"', '"'), ('\\', '\\'), ('/', '/'), ('b', '\x08'), ('f', '\x0c'), ('n', '\n'), ('r', '\r'),
    ('t', '\t')]

/-- The character is the hexadecimal digit of the number, a small or a capital letter from ten
on. -/
def IsHexDigit (c : Char) (n : Nat) : Prop :=
  "0123456789abcdef".toList[n]? = some c ∨ "0123456789ABCDEF".toList[n]? = some c

/-- The text is one piece of a string. -/
inductive PieceText : List Char → Piece → Prop
  | plain {c : Char} (hquote : c ≠ '"') (hbackslash : c ≠ '\\') (hcontrol : 32 ≤ c.toNat) :
    PieceText [c] (.char c)
  | escape {letter c : Char} (h : (letter, c) ∈ escapes) : PieceText ['\\', letter] (.char c)
  | unit {a b c d : Char} {i j k l : Nat} (ha : IsHexDigit a i) (hb : IsHexDigit b j)
    (hc : IsHexDigit c k) (hd : IsHexDigit d l) :
    PieceText ['\\', 'u', a, b, c, d] (.unit (i * 16 ^ 3 + j * 16 ^ 2 + k * 16 + l))

/-- The text is the pieces, one after the other. -/
inductive PiecesText : List Char → List Piece → Prop
  | nil : PiecesText [] []
  | cons {cs rest : List Char} {piece : Piece} {pieces : List Piece} (h : PieceText cs piece)
    (hrest : PiecesText rest pieces) : PiecesText (cs ++ rest) (piece :: pieces)

/-- The pieces make up the characters: a unit is a character of its own, or the first half of a
pair with the unit after it. -/
inductive Joined : List Piece → List Char → Prop
  | nil : Joined [] []
  | char {c : Char} {pieces : List Piece} {cs : List Char} (h : Joined pieces cs) :
    Joined (.char c :: pieces) (c :: cs)
  | unit {n : Nat} {pieces : List Piece} {cs : List Char} (hn : n < 0xd800 ∨ 0xe000 ≤ n)
    (h : Joined pieces cs) : Joined (.unit n :: pieces) (Char.ofNat n :: cs)
  | pair {high low : Nat} {pieces : List Piece} {cs : List Char} (hhigh : high < 0x400)
    (hlow : low < 0x400) (h : Joined pieces cs) :
    Joined (.unit (0xd800 + high) :: .unit (0xdc00 + low) :: pieces)
      (Char.ofNat (0x10000 + high * 0x400 + low) :: cs)

/-- The text is a string between quotes. It has a value if its pieces make up characters. -/
def StringText (cs : List Char) (value : Option String) : Prop :=
  ∃ body pieces, cs = '"' :: (body ++ ['"']) ∧ PiecesText body pieces ∧
    ∀ s, value = some s ↔ Joined pieces s.toList

/-! ### Documents -/

mutual

/-- The text writes the document, with nothing around it. -/
inductive Written : List Char → Source → Prop
  | null : Written ['n', 'u', 'l', 'l'] .null
  | bool (b : Bool) : Written (boolChars b) (.bool b)
  | number {cs : List Char} {value : Option Int} (h : NumberText cs value) :
    Written cs (.number value)
  | text {cs : List Char} {value : Option String} (h : StringText cs value) :
    Written cs (.text value)
  | emptyList {blanks : List Char} (h : Blanks blanks) :
    Written ('[' :: (blanks ++ [']'])) (.list [])
  | list {cs : List Char} {items : List Source} (h : WrittenItems cs items) :
    Written ('[' :: (cs ++ [']'])) (.list items)
  | emptyRecord {blanks : List Char} (h : Blanks blanks) :
    Written ('\x7b' :: (blanks ++ ['\x7d'])) (.record [])
  | record {cs : List Char} {members : List (Option String × Source)}
    (h : WrittenMembers cs members) : Written ('\x7b' :: (cs ++ ['\x7d'])) (.record members)

/-- The text writes the document, with blanks around it. -/
inductive Spaced : List Char → Source → Prop
  | mk {front cs back : List Char} {s : Source} (hfront : Blanks front) (h : Written cs s)
    (hback : Blanks back) : Spaced (front ++ (cs ++ back)) s

/-- The text writes the items of a list, of which there is at least one, with commas between
them. -/
inductive WrittenItems : List Char → List Source → Prop
  | last {cs : List Char} {item : Source} (h : Spaced cs item) : WrittenItems cs [item]
  | cons {cs rest : List Char} {item : Source} {items : List Source} (h : Spaced cs item)
    (hrest : WrittenItems rest items) : WrittenItems (cs ++ ',' :: rest) (item :: items)

/-- The text writes a member of an object: a name, a colon and a value. -/
inductive WrittenMember : List Char → Option String × Source → Prop
  | mk {front key back cs : List Char} {name : Option String} {s : Source} (hfront : Blanks front)
    (hkey : StringText key name) (hback : Blanks back) (h : Spaced cs s) :
    WrittenMember (front ++ (key ++ (back ++ ':' :: cs))) (name, s)

/-- The text writes the members of an object, of which there is at least one, with commas between
them. -/
inductive WrittenMembers : List Char → List (Option String × Source) → Prop
  | last {cs : List Char} {member : Option String × Source} (h : WrittenMember cs member) :
    WrittenMembers cs [member]
  | cons {cs rest : List Char} {member : Option String × Source}
    {members : List (Option String × Source)} (h : WrittenMember cs member)
    (hrest : WrittenMembers rest members) : WrittenMembers (cs ++ ',' :: rest) (member :: members)

end

end AccessGroups.Json
