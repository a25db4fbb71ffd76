import ProductLine.Text.Percent
import ProductLine.Text.Pieces

/-! # Hosts

A host is told by a name of several labels or by a number. A number is written as four octets, in a
shorter or another base's way that the system takes as well, or as groups between colons. -/

namespace ProductLine
namespace CommandLine
namespace Host

/-! ### Numbers -/

/-- The number that digits stand for in a base, if all of them are digits of it. -/
def number? (base : Nat) (cs : List Char) : Option Nat :=
  cs.foldl (fun n c => do
    let d ← Text.hexDigit? c
    if d < base then some ((← n) * base + d) else none) (some 0)

/-- Whether a text is a number below 256 in decimal digits, without zeros in front. -/
def isOctet (cs : List Char) : Bool :=
  match cs with
  | [] => false
  | ['0'] => true
  | '0' :: _ => false
  | _ => cs.length ≤ 3 && (number? 10 cs).any (· < 256)

/-- Whether a text is four octets with points between. -/
def isQuad (cs : List Char) : Bool :=
  let octets := Text.pieces '.' cs
  octets.length == 4 && octets.all isOctet

/-- Whether a text is one to four hexadecimal digits. -/
def isGroup (cs : List Char) : Bool :=
  !cs.isEmpty && cs.length ≤ 4 && (number? 16 cs).isSome

/-- The groups at one side of a gap; there are none if nothing is written there. -/
def beside (groups : List (List Char)) : List (List Char) := if groups == [[]] then [] else groups

/-- Whether these are eight groups, or fewer with one gap between them. -/
def areGroups (groups : List (List Char)) : Bool :=
  let inner := groups.zipIdx.filterMap fun (g, i) =>
    if g.isEmpty && 0 < i && i + 1 < groups.length then some i else none
  match inner with
  | [] => groups.length == 8 && groups.all isGroup
  | [i] =>
    let around := beside (groups.take i) ++ beside (groups.drop (i + 1))
    around.length ≤ 7 && around.all isGroup
  | _ => false

/-- Whether a text is groups with colons between; four octets may stand for the last two groups. -/
def isGrouped (cs : List Char) : Bool :=
  let groups := Text.pieces ':' cs
  match groups.getLast? with
  | some last =>
    if last.contains '.' then
      isQuad last && groups.length != 1 && areGroups (groups.dropLast ++ [['0'], ['0']])
    else areGroups groups
  | none => false

/-- Whether a text is groups, and maybe the name of a zone after a percent sign. -/
def isZoned (cs : List Char) : Bool :=
  match cs.span (· != '%') with
  | (groups, []) => isGrouped groups
  | (groups, _ :: zone) => !zone.isEmpty && !zone.contains '%' && isGrouped groups

/-- The number that one part of a host stands for: hexadecimal after `0x`, octal after `0`. -/
def part? : List Char → Option Nat
  | ['0'] => some 0
  | '0' :: x :: c :: rest =>
    if x == 'x' || x == 'X' then number? 16 (c :: rest) else number? 8 (x :: c :: rest)
  | '0' :: rest => number? 8 rest
  | [] => none
  | cs => number? 10 cs

/-- The number of up to four parts: each but the last is an octet, the last takes up the rest. -/
def join? : List Nat → Nat → Option Nat
  | [], _ => none
  | [last], room => if last < room then some last else none
  | n :: rest, room =>
    let room := room / 256
    if n < 256 ∧ 1 < room then (join? rest room).map (n * room + ·) else none

/-- The number that a host stands for, if it is written as one. -/
def address? (host : List Char) : Option Nat := do
  let parts ← (Text.pieces '.' host).mapM part?
  join? parts (256 * 256 * 256 * 256)

/-! ### Names -/

/-- The number and the name of the user's own host. -/
def own : Nat × List Char := (127 * 256 * 256 * 256 + 1, "localhost".toList)

/-- Whether a host is the user's own by its name or its number. -/
def isOwn (host : List Char) : Bool :=
  host.map Char.toLower == own.2 || address? host == some own.1

/-- Whether a name consists of letters, digits, points and lines and does not begin with a dash. -/
def isName (host : List Char) : Bool :=
  !host.isEmpty && host.head? != some '-' && host.all fun c =>
    c.isAlphanum || c == '.' || c == '-' || c == '_' || 0x80 ≤ c.toNat

/-- A part of a name that cannot be looked up. -/
inductive LabelFault where
  /-- A part is empty or has too many characters. -/
  | emptyOrLong
  /-- The last part has too many characters. -/
  | long
deriving DecidableEq, Repr

/-- What is wrong with the parts of a name, if anything: each has up to 63 characters, and only the
last one may be empty. -/
def labelFault? (host : List Char) : Option LabelFault :=
  let labels := Text.pieces '.' host
  if host.any (0x80 ≤ ·.toNat) then none
  else if labels.dropLast.any fun l => l.isEmpty || 63 < l.length then some .emptyOrLong
  else if labels.getLast?.any (63 < ·.length) then some .long
  else none

/-- The host and the number behind its last colon, if there are only digits behind it. -/
def splitPort (host : List Char) : List Char × List Char :=
  match Text.splitLast? ':' host with
  | some (front, back) => if back.all Char.isDigit then (front, back) else (host, [])
  | none => (host, [])

end Host
end CommandLine
end ProductLine
