import AccessGroups.Text.Unprintable

/-!
# Quoted texts

Diagnostic texts show a string between double quotes. Quotes, backslashes and a few control
characters are written with a backslash; other characters without a visible form of their own are
written by their code points.

## Main definitions

* `Quoted.ofString`: the quoted form of a string.
-/

namespace AccessGroups.Text.Quoted

/-- One character of a quoted text. -/
def ofChar (c : Char) : List Char :=
  if c = '"' then ['\\', '"']
  else if c = '\\' then ['\\', '\\']
  else if c = '\t' then ['\\', 't']
  else if c = '\n' then ['\\', 'n']
  else if c = '\r' then ['\\', 'r']
  else if c.toNat = 0 then ['\\', '0']
  else if isUnprintable c then ['\\', 'u', '\x7b'] ++ Nat.toDigits 16 c.toNat ++ ['\x7d']
  else [c]

/-- The characters of a quoted text. -/
def ofList (cs : List Char) : List Char :=
  '"' :: cs.flatMap ofChar ++ ['"']

/-- The quoted form of a string. -/
def ofString (s : String) : String :=
  String.ofList (ofList s.toList)

end AccessGroups.Text.Quoted
