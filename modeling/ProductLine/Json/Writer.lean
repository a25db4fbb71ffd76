import ProductLine.Number.Shortest
import ProductLine.Text.Quoted
import ProductLine.Value.Basic

/-! # Writing JSON

`Json.compact` writes a value on one line, with characters beyond ASCII as they are; `Json.indented`
writes every item and member on a line of its own, two blanks further in than what holds it, with
characters beyond ASCII escaped. Halves of surrogate pairs are escaped by both. Members are written
in their order. -/

namespace ProductLine
namespace Json

def unitEscape (n : Nat) : List Char := '\\' :: 'u' :: Text.hex 4 n

/-- The escape of a code point by its 16-bit code units, two of them from U+10000 on. -/
def codeEscape (n : Nat) : List Char :=
  if n < 0x10000 then unitEscape n
  else
    unitEscape (0xD800 + (n - 0x10000) / 0x400) ++ unitEscape (0xDC00 + (n - 0x10000) % 0x400)

/-- A code point inside a text: quotes, backslashes, control characters and halves of surrogate
pairs are escaped, and all from U+007F on too if `ascii` is set. -/
def escapedPoint (ascii : Bool) (n : Nat) : List Char :=
  let c := Char.ofNat n
  if c = '"' ∨ c = '\\' then ['\\', c]
  else if c = '\n' then ['\\', 'n']
  else if c = '\r' then ['\\', 'r']
  else if c = '\t' then ['\\', 't']
  else if c = '\x08' then ['\\', 'b']
  else if c = '\x0c' then ['\\', 'f']
  else if n < 0x20 ∨ Text.isHalf n then codeEscape n
  else if n < 0x7F ∨ ascii = false then [c]
  else codeEscape n

def writeText (ascii : Bool) (s : String) : String :=
  String.ofList ('"' :: (Text.points s.toList).flatMap (escapedPoint ascii) ++ ['"'])

/-- A floating-point number; what is no finite number is written as a word. -/
def writeFloat : Binary64 → String
  | .infinite negative => if negative then "-Infinity" else "Infinity"
  | .nan => "NaN"
  | x => x.text

/-- A value that is neither list nor object. -/
def writePlain (ascii : Bool) : Value → String
  | .bool true => "true"
  | .bool false => "false"
  | .int n => toString n
  | .float x => writeFloat x
  | .text s => writeText ascii s
  | _ => "null"

mutual
def compact : Value → String
  | .list items => "[" ++ ",".intercalate (compactItems items) ++ "]"
  | .object members => "\x7b" ++ ",".intercalate (compactMembers members) ++ "\x7d"
  | v => writePlain false v

def compactItems : List Value → List String
  | [] => []
  | item :: rest => compact item :: compactItems rest

def compactMembers : List (String × Value) → List String
  | [] => []
  | (name, value) :: rest => (writeText false name ++ ":" ++ compact value) :: compactMembers rest
end

/-- The start of a line `depth` steps in. -/
def lineStart (depth : Nat) : String := String.ofList ('\n' :: List.replicate (2 * depth) ' ')

/-- Parts between brackets, each on its line. -/
def block (depth : Nat) (opening closing : String) (parts : List String) : String :=
  if parts.isEmpty then opening ++ closing
  else
    opening ++ lineStart (depth + 1) ++ ("," ++ lineStart (depth + 1)).intercalate parts ++
      lineStart depth ++ closing

mutual
/-- A value over several lines, `depth` steps in. -/
def indentedAt (depth : Nat) : Value → String
  | .list items => block depth "[" "]" (indentedItems (depth + 1) items)
  | .object members => block depth "\x7b" "\x7d" (indentedMembers (depth + 1) members)
  | v => writePlain true v

def indentedItems (depth : Nat) : List Value → List String
  | [] => []
  | item :: rest => indentedAt depth item :: indentedItems depth rest

def indentedMembers (depth : Nat) : List (String × Value) → List String
  | [] => []
  | (name, value) :: rest =>
    (writeText true name ++ ": " ++ indentedAt depth value) :: indentedMembers depth rest
end

def indented (v : Value) : String := indentedAt 0 v

end Json
end ProductLine
