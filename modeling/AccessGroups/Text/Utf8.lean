/-!
# Text in bytes

Reading a sequence of bytes as text in UTF-8, either strictly, with the place of the first fault, or
with a replacement sign for each fault.

## Main definitions

* `Utf8.decode`: the text, or the first fault.
* `Utf8.decodeLossy`: the text with replacement signs.
-/

namespace AccessGroups.Text.Utf8

/-- Bytes that are no text: so many bytes at an index begin no character, or the bytes from the
index on are the beginning of one that is cut off. -/
inductive Fault where
  | invalid (length index : Nat)
  | incomplete (index : Nat)
  deriving DecidableEq, Repr

/-- The fault in words. -/
def Fault.message : Fault → String
  | .invalid length index =>
    "invalid utf-8 sequence of " ++ toString length ++ " bytes from index " ++ toString index
  | .incomplete index => "incomplete utf-8 byte sequence from index " ++ toString index

/-- What a sequence of bytes begins with. -/
inductive Lead where
  /-- A character of so many bytes. -/
  | char (c : Char) (length : Nat)
  /-- So many bytes that begin no character. -/
  | bad (length : Nat)
  /-- The beginning of a character that is cut off. -/
  | cut

/-- The byte continues a character. -/
def isTail (b : Nat) : Bool := 0x80 ≤ b && b < 0xc0

/-- The byte may follow the first byte `a`: characters are written in the shortest form, and halves
of pairs and values beyond the last character have none. -/
def maySecond (a b : Nat) : Bool :=
  if a = 0xe0 then 0xa0 ≤ b && b < 0xc0
  else if a = 0xed then 0x80 ≤ b && b < 0xa0
  else if a = 0xf0 then 0x90 ≤ b && b < 0xc0
  else if a = 0xf4 then 0x80 ≤ b && b < 0x90
  else isTail b

/-- What the bytes from `a` on begin with. -/
def lead (a : Nat) (rest : List Nat) : Lead :=
  if a < 0x80 then .char (Char.ofNat a) 1
  else if a < 0xc2 || 0xf4 < a then .bad 1
  else
    match rest with
    | [] => .cut
    | b :: rest =>
      if !maySecond a b then .bad 1
      else if a < 0xe0 then .char (Char.ofNat ((a - 0xc0) * 64 + (b - 0x80))) 2
      else
        match rest with
        | [] => .cut
        | c :: rest =>
          if !isTail c then .bad 2
          else if a < 0xf0 then
            .char (Char.ofNat (((a - 0xe0) * 64 + (b - 0x80)) * 64 + (c - 0x80))) 3
          else
            match rest with
            | [] => .cut
            | d :: _ =>
              if !isTail d then .bad 3
              else
                .char (Char.ofNat ((((a - 0xf0) * 64 + (b - 0x80)) * 64 + (c - 0x80)) * 64 +
                  (d - 0x80))) 4

/-- The characters of the bytes from an index on, or the first fault. The first argument is at least
the number of bytes. -/
def decodeFrom : Nat → Nat → List Nat → Except Fault (List Char)
  | _, _, [] => .ok []
  | 0, _, _ :: _ => .ok []
  | fuel + 1, index, a :: rest =>
    match lead a rest with
    | .char c length => (decodeFrom fuel (index + length) ((a :: rest).drop length)).map (c :: ·)
    | .bad length => .error (.invalid length index)
    | .cut => .error (.incomplete index)

/-- The text of the bytes, or the first fault. -/
def decode (bytes : List Nat) : Except Fault String :=
  (decodeFrom bytes.length 0 bytes).map String.ofList

/-- The characters of the bytes with a replacement sign for each fault. The first argument is at
least the number of bytes. -/
def replaceFaults : Nat → List Nat → List Char
  | _, [] => []
  | 0, _ :: _ => []
  | fuel + 1, a :: rest =>
    match lead a rest with
    | .char c length => c :: replaceFaults fuel ((a :: rest).drop length)
    | .bad length => '\ufffd' :: replaceFaults fuel ((a :: rest).drop length)
    | .cut => ['\ufffd']

/-- The text of the bytes with a replacement sign for each fault. -/
def decodeLossy (bytes : List Nat) : String :=
  String.ofList (replaceFaults bytes.length bytes)

/-- The bytes of a character. -/
def ofChar (c : Char) : List Nat :=
  let n := c.toNat
  if n < 0x80 then [n]
  else if n < 0x800 then [0xc0 + n / 64, 0x80 + n % 64]
  else if n < 0x10000 then [0xe0 + n / 4096, 0x80 + n / 64 % 64, 0x80 + n % 64]
  else [0xf0 + n / 262144, 0x80 + n / 4096 % 64, 0x80 + n / 64 % 64, 0x80 + n % 64]

end AccessGroups.Text.Utf8
