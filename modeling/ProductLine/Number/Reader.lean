import ProductLine.Number.Shortest
import ProductLine.Text.Blank

/-! # Reading numbers

`Number.readInt?` and `Number.readFloat?` read the numbers a user types. Blanks around them are
ignored (the information separators are no blanks here), the decimal digits of every script count,
and single underscores may stand between digits. A whole number has an optional sign and at most
`maxDigits` digits; a floating-point number may also have a point, an exponent, or be infinite or no
number at all. -/

namespace ProductLine
namespace Number

/-- The zeros of the decimal digits of Unicode 14, each followed by its nine other digits. -/
def digitZeros : List Nat := [
    0x30, 0x660, 0x6F0, 0x7C0, 0x966, 0x9E6, 0xA66, 0xAE6, 0xB66, 0xBE6, 0xC66, 0xCE6, 0xD66,
    0xDE6, 0xE50, 0xED0, 0xF20, 0x1040, 0x1090, 0x17E0, 0x1810, 0x1946, 0x19D0, 0x1A80, 0x1A90,
    0x1B50, 0x1BB0, 0x1C40, 0x1C50, 0xA620, 0xA8D0, 0xA900, 0xA9D0, 0xA9F0, 0xAA50, 0xABF0,
    0xFF10, 0x104A0, 0x10D30, 0x11066, 0x110F0, 0x11136, 0x111D0, 0x112F0, 0x11450, 0x114D0,
    0x11650, 0x116C0, 0x11730, 0x118E0, 0x11950, 0x11C50, 0x11D50, 0x11DA0, 0x16A60, 0x16AC0,
    0x16B50, 0x1D7CE, 0x1D7D8, 0x1D7E2, 0x1D7EC, 0x1D7F6, 0x1E140, 0x1E2F0, 0x1E950, 0x1FBF0]

def digitValue? (c : Char) : Option Nat :=
  (digitZeros.find? fun z => z ≤ c.toNat && c.toNat ≤ z + 9).map (c.toNat - ·)

/-- The character with digits of other scripts brought to `0` to `9`. -/
def plainDigit (c : Char) : Char :=
  match digitValue? c with
  | some d => Char.ofNat (48 + d)
  | none => c

/-- The characters that may surround a number. -/
def isSpacing (c : Char) : Bool := Text.isBlank c && !(28 ≤ c.toNat && c.toNat ≤ 31)

/-- How many digits a whole number may be read from. -/
def maxDigits : Nat := 4300

/-- The digits of a run such as `12_345` and what follows it; nothing if an underscore does not
stand between two digits. `after` tells whether a digit stands right before. -/
def takeDigits (after : Bool) : List Char → Option (List Char × List Char)
  | [] => some ([], [])
  | '_' :: c :: rest =>
    if after && c.isDigit then (takeDigits true rest).map fun (ds, r) => (c :: ds, r) else none
  | '_' :: [] => none
  | c :: rest =>
    if c.isDigit then (takeDigits true rest).map fun (ds, r) => (c :: ds, r)
    else some ([], c :: rest)

/-- The number that a run of digits stands for. -/
def ofDigits (ds : List Char) : Nat := ds.foldl (fun n c => 10 * n + (c.toNat - 48)) 0

/-- Whether there is a minus, and what follows the sign. -/
def takeSign : List Char → Bool × List Char
  | '-' :: rest => (true, rest)
  | '+' :: rest => (false, rest)
  | rest => (false, rest)

/-- The text without blanks around it, in plain digits. -/
def plain (s : String) : List Char := (Text.trim isSpacing s.toList).map plainDigit

def readInt? (s : String) : Option Int :=
  let (negative, rest) := takeSign (plain s)
  match takeDigits false rest with
  | some (ds, []) =>
    if ds.isEmpty || maxDigits < ds.length then none
    else some (if negative then -(ofDigits ds : Int) else ofDigits ds)
  | _ => none

/-- The exponent after a number's digits, zero if there is none. -/
def readExponent? : List Char → Option Int
  | [] => some 0
  | e :: rest =>
    if e == 'e' || e == 'E' then
      let (negative, rest) := takeSign rest
      match takeDigits false rest with
      | some (ds, []) =>
        if ds.isEmpty then none else some (if negative then -(ofDigits ds : Int) else ofDigits ds)
      | _ => none
    else none

/-- The unsigned floating-point number that a text stands for, with the sign it is to have. -/
def readMagnitude? (negative : Bool) (cs : List Char) : Option Binary64 :=
  let word := String.ofList (cs.map Char.toLower)
  if word = "inf" ∨ word = "infinity" then some (.infinite negative)
  else if word = "nan" then some .nan
  else do
    let (whole, rest) ← takeDigits false cs
    let (fraction, rest) ← match rest with
      | '.' :: rest => takeDigits false rest
      | rest => some ([], rest)
    let exponent ← readExponent? rest
    if whole.isEmpty && fraction.isEmpty then none
    else some (.ofDecimal negative (ofDigits (whole ++ fraction)) (exponent - fraction.length))

def readFloat? (s : String) : Option Binary64 :=
  let (negative, rest) := takeSign (plain s)
  readMagnitude? negative rest

end Number
end ProductLine
