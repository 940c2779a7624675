import AccessGroups.Text.Decimal

/-!
# Network addresses

The address at which metrics are served: an address of version 4 or, in brackets, of version 6,
followed by a colon and a port. A version 6 address may leave out one run of zero groups, end in a
version 4 address and name a zone by number. Where an address is written, the longest run of zero
groups is left out.

## Main definitions

* `SocketAddress`: an address with a port.
* `SocketAddress.ofText?`, `SocketAddress.text`: reading and writing an address.
* `SocketAddress.isForeign`: the address can only be one of another machine.
-/

namespace AccessGroups.Command

/-- The address of a machine. -/
inductive HostAddress where
  /-- Four numbers below 256. -/
  | version4 (parts : List Nat)
  /-- Eight groups of 16 bits and the number of a zone, which is zero if none is named. -/
  | version6 (groups : List Nat) (zone : Nat)
  deriving DecidableEq, Repr

/-- An address with a port. -/
structure SocketAddress where
  host : HostAddress
  port : Nat
  deriving DecidableEq, Repr

namespace HostAddress

/-! ### Reading -/

/-- A decimal number below a limit; extra zeros in front are refused unless allowed. -/
def readNumber? (limit : Nat) (zeros : Bool) (cs : List Char) : Option Nat :=
  if !zeros && cs.length > 1 && cs.head? = some '0' then none
  else (Decimal.readDigits? cs).filter (· < limit)

/-- Four decimal numbers of at most three digits with points in between. -/
def readVersion4? (cs : List Char) : Option (List Nat) := do
  let parts := cs.splitOn '.'
  guard (parts.length = 4)
  parts.mapM fun part => if part.length ≤ 3 then readNumber? 256 false part else none

/-- The value of a hexadecimal digit. -/
def hexDigit? (c : Char) : Option Nat :=
  if c.isDigit then some (c.toNat - '0'.toNat)
  else if 'a' ≤ c && c ≤ 'f' then some (c.toNat - 'a'.toNat + 10)
  else if 'A' ≤ c && c ≤ 'F' then some (c.toNat - 'A'.toNat + 10)
  else none

/-- One to four hexadecimal digits. -/
def readGroup? (cs : List Char) : Option Nat := do
  guard (!cs.isEmpty && cs.length ≤ 4)
  return (← cs.mapM hexDigit?).foldl (fun n d => 16 * n + d) 0

/-- The groups between colons; a version 4 address at the end counts as two if it is allowed. -/
def readGroups? (version4 : Bool) : List (List Char) → Option (List Nat)
  | [] => some []
  | [part] =>
    match readGroup? part, readVersion4? part with
    | some group, _ => some [group]
    | none, some [a, b, c, d] => if version4 then some [256 * a + b, 256 * c + d] else none
    | none, _ => none
  | part :: rest => do return (← readGroup? part) :: (← readGroups? version4 rest)

/-- The groups of a part of an address on one side of a gap; an empty part has none. -/
def readSide? (version4 : Bool) (cs : List Char) : Option (List Nat) :=
  if cs.isEmpty then some [] else readGroups? version4 (cs.splitOn ':')

/-- The text before and after the first pair of colons. -/
def splitGap? : List Char → Option (List Char × List Char)
  | ':' :: ':' :: rest => some ([], rest)
  | c :: rest => (splitGap? rest).map fun r => (c :: r.1, r.2)
  | [] => none

/-- Eight groups, or fewer with a gap. -/
def readVersion6? (cs : List Char) : Option (List Nat) := do
  match splitGap? cs with
  | none => (readGroups? true (cs.splitOn ':')).filter fun groups => groups.length = 8
  | some (left, right) =>
    let left ← readSide? false left
    let right ← readSide? true right
    guard (left.length + right.length ≤ 7)
    return left ++ List.replicate (8 - left.length - right.length) 0 ++ right

/-- A version 6 address, perhaps with the number of a zone. -/
def readZoned? (cs : List Char) : Option HostAddress := do
  let groups ← readVersion6? (cs.takeWhile (· ≠ '%'))
  match cs.dropWhile (· ≠ '%') with
  | [] => return .version6 groups 0
  | _ :: zone => return .version6 groups (← readNumber? UInt32.size true zone)

/-! ### Writing -/

/-- Four numbers with points in between. -/
def version4Text (parts : List Nat) : String :=
  String.intercalate "." (parts.map toString)

/-- Groups in hexadecimal with colons in between. -/
def groupsText (groups : List Nat) : String :=
  String.intercalate ":" (groups.map fun g => String.ofList (Nat.toDigits 16 g))

/-- The length of the run of zero groups that begins at a place. -/
def zerosAt (groups : List Nat) (place : Nat) : Nat :=
  ((groups.drop place).takeWhile (· = 0)).length

/-- The place of the longest run of zero groups, the first one of equally long ones. -/
def longestZeros (groups : List Nat) : Nat :=
  (List.range groups.length).foldl
    (fun best place => if zerosAt groups best < zerosAt groups place then place else best) 0

/-- Eight groups, of which a run of more than one zero group is left out. -/
def version6Text (groups : List Nat) : String :=
  match groups with
  | [0, 0, 0, 0, 0, 0xffff, high, low] =>
    "::ffff:" ++ version4Text [high / 256, high % 256, low / 256, low % 256]
  | groups =>
    let place := longestZeros groups
    let zeros := zerosAt groups place
    if zeros ≤ 1 then groupsText groups
    else groupsText (groups.take place) ++ "::" ++ groupsText (groups.drop (place + zeros))

/-- The address in words; one of version 6 stands in brackets. -/
def text : HostAddress → String
  | .version4 parts => version4Text parts
  | .version6 groups zone =>
    "[" ++ version6Text groups ++ (if zone = 0 then "" else "%" ++ toString zone) ++ "]"

/-! ### Other machines -/

/-- A version 4 address at which this machine cannot be reached: it is neither a loopback address
nor all zeros, and not meant for many machines at once. -/
def isForeign4 : List Nat → Bool
  | [a, b, c, d] =>
    a ≠ 127 && !(224 ≤ a && a < 240) && [a, b, c, d] ≠ [0, 0, 0, 0] &&
      [a, b, c, d] ≠ [255, 255, 255, 255]
  | _ => false

/-- This machine cannot be reached at the address: it is neither a loopback address nor all zeros,
not meant for many machines at once and not confined to a link. -/
def isForeign : HostAddress → Bool
  | .version4 parts => isForeign4 parts
  | .version6 [0, 0, 0, 0, 0, 0xffff, high, low] _ =>
    isForeign4 [high / 256, high % 256, low / 256, low % 256]
  | .version6 groups _ =>
    let first := groups.headD 0
    first / 256 ≠ 0xff && first / 64 ≠ 0x3fa && groups ≠ [0, 0, 0, 0, 0, 0, 0, 0] &&
      groups ≠ [0, 0, 0, 0, 0, 0, 0, 1]

end HostAddress

namespace SocketAddress

/-- Read an address with a port. -/
def ofText? (s : String) : Option SocketAddress := do
  let readPort? (cs : List Char) : Option Nat := HostAddress.readNumber? UInt16.size true cs
  match s.toList with
  | '[' :: cs =>
    match cs.dropWhile (· ≠ ']') with
    | ']' :: ':' :: port =>
      return ⟨← HostAddress.readZoned? (cs.takeWhile (· ≠ ']')), ← readPort? port⟩
    | _ => none
  | cs =>
    match cs.dropWhile (· ≠ ':') with
    | ':' :: port =>
      return ⟨.version4 (← HostAddress.readVersion4? (cs.takeWhile (· ≠ ':'))), ← readPort? port⟩
    | _ => none

/-- The address with the port. -/
def text (a : SocketAddress) : String :=
  a.host.text ++ ":" ++ toString a.port

end SocketAddress

end AccessGroups.Command
