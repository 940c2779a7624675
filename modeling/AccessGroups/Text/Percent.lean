import AccessGroups.Text.Utf8

/-!
# Percent signs for bytes

In the address of a file a percent sign and two hexadecimal digits stand for one byte. A percent
sign without them stands for itself.

## Main definitions

* `Percent.bytes`: the bytes that a text stands for.
* `Percent.decode`: their text, or the first fault.
* `Percent.decodeLossy`: their text with replacement signs.
-/

namespace AccessGroups.Text.Percent

/-- The value of a hexadecimal digit. -/
def hexDigit? (c : Char) : Option Nat :=
  if c.isDigit then some (c.toNat - 48)
  else if 'a' ≤ c && c ≤ 'f' then some (c.toNat - 87)
  else if 'A' ≤ c && c ≤ 'F' then some (c.toNat - 55)
  else none

/-- The bytes that a text stands for. -/
def bytes : List Char → List Nat
  | '%' :: a :: b :: rest =>
    match hexDigit? a, hexDigit? b with
    | some x, some y => (x * 16 + y) :: bytes rest
    | _, _ => '%'.toNat :: bytes (a :: b :: rest)
  | c :: rest => Utf8.ofChar c ++ bytes rest
  | [] => []

/-- The text that a text stands for, or the first fault of its bytes. -/
def decode (cs : List Char) : Except Utf8.Fault String :=
  Utf8.decode (bytes cs)

/-- The text that a text stands for, with a replacement sign for each fault. -/
def decodeLossy (cs : List Char) : String :=
  Utf8.decodeLossy (bytes cs)

end AccessGroups.Text.Percent
