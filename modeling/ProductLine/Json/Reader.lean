import ProductLine.Text.CodePoint
import ProductLine.Value.Basic

/-! # Reading JSON

`Json.read` turns a JSON text into a `Value`. Whole numbers stay whole, numbers with a point or an
exponent become floating-point numbers, and `NaN`, `Infinity` and `-Infinity` are numbers too. Of
members with the same name the first gives the place and the last the value. Control characters
inside texts are refused.

The reader takes its fuel from the length of the text: between two calls that go deeper, at least
every other one takes a character, so the fuel never runs out before the text does. -/

namespace ProductLine
namespace Json

/-- Why a text could not be read. -/
inductive Fault where
  /-- The text is not JSON. -/
  | malformed
  /-- Lists and objects are nested too deeply. -/
  | tooDeep
  /-- A whole number has too many digits. -/
  | longInteger (digits : Nat)
deriving DecidableEq, Repr

/-- How many digits a whole number may have. -/
def maxDigits : Nat := 4300

/-- White space between the parts of a text. -/
def isSpace (c : Char) : Bool := c == ' ' || c == '\t' || c == '\n' || c == '\r'

def hexValue? (c : Char) : Option Nat :=
  if c.isDigit then some (c.toNat - 48)
  else if 'a' ≤ c ∧ c ≤ 'f' then some (c.toNat - 87)
  else if 'A' ≤ c ∧ c ≤ 'F' then some (c.toNat - 55)
  else none

def readHex : List Char → Except Fault (Nat × List Char)
  | a :: b :: c :: d :: rest =>
    match hexValue? a, hexValue? b, hexValue? c, hexValue? d with
    | some a, some b, some c, some d => .ok (((a * 16 + b) * 16 + c) * 16 + d, rest)
    | _, _, _, _ => .error .malformed
  | _ => .error .malformed

/-- The code point of an escape. The escapes of a surrogate pair make one code point. -/
def readEscapedPoint (cs : List Char) : Except Fault (Nat × List Char) := do
  let (unit, rest) ← readHex cs
  match rest with
  | '\\' :: 'u' :: more =>
    if Text.isHighHalf unit then
      let (low, after) ← readHex more
      if Text.isLowHalf low then return (Text.ofHalves unit low, after)
      else return (unit, rest)
    else return (unit, rest)
  | _ => return (unit, rest)

/-- The character that an escape by letter stands for. -/
def escapeLetter? : Char → Option Char
  | '"' => some '"'
  | '\\' => some '\\'
  | '/' => some '/'
  | 'b' => some '\x08'
  | 'f' => some '\x0c'
  | 'n' => some '\n'
  | 'r' => some '\r'
  | 't' => some '\t'
  | _ => none

/-- The characters that hold a text up to its closing quote; `done` are those of the part read so
far, the last first. -/
def readText : Nat → List Char → List Char → Except Fault (String × List Char)
  | 0, _, _ => .error .malformed
  | fuel + 1, done, cs =>
    match cs with
    | [] => .error .malformed
    | '"' :: rest => .ok (String.ofList done.reverse, rest)
    | '\\' :: 'u' :: rest => do
      let (n, rest) ← readEscapedPoint rest
      readText fuel ((Text.held n).reverse ++ done) rest
    | '\\' :: c :: rest =>
      match escapeLetter? c with
      | some c => readText fuel (c :: done) rest
      | none => .error .malformed
    | c :: rest =>
      if c.toNat < 0x20 ∨ c = '\\' then .error .malformed
      else readText fuel ((Text.held c.toNat).reverse ++ done) rest

def takeDigits (cs : List Char) : List Char × List Char := cs.span Char.isDigit

/-- The number that a run of digits stands for. -/
def ofDigits (ds : List Char) : Nat := ds.foldl (fun n c => 10 * n + (c.toNat - 48)) 0

/-- The digits after a point, if a point with a digit follows. -/
def takeFraction : List Char → Option (List Char) × List Char
  | '.' :: rest =>
    match takeDigits rest with
    | ([], _) => (none, '.' :: rest)
    | (ds, after) => (some ds, after)
  | rest => (none, rest)

/-- The exponent, if one with a digit follows. -/
def takeExponent : List Char → Option Int × List Char
  | e :: rest =>
    if e == 'e' || e == 'E' then
      let (negative, digits) := match rest with
        | '-' :: more => (true, more)
        | '+' :: more => (false, more)
        | more => (false, more)
      match takeDigits digits with
      | ([], _) => (none, e :: rest)
      | (ds, after) => (some (if negative then -(ofDigits ds : Int) else ofDigits ds), after)
    else (none, e :: rest)
  | [] => (none, [])

def readNumber (negative : Bool) (cs : List Char) : Except Fault (Value × List Char) :=
  let (whole, rest) := match cs with
    | '0' :: rest => (['0'], rest)
    | cs => takeDigits cs
  if whole.isEmpty then .error .malformed
  else
    let (fraction, rest) := takeFraction rest
    let (exponent, rest) := takeExponent rest
    if fraction.isNone && exponent.isNone then
      if maxDigits < whole.length then .error (.longInteger whole.length)
      else .ok (.int (if negative then -(ofDigits whole : Int) else ofDigits whole), rest)
    else
      let fraction := fraction.getD []
      let shift := exponent.getD 0 - fraction.length
      .ok (.float (.ofDecimal negative (ofDigits (whole ++ fraction)) shift), rest)

/-- What follows a word, if the characters begin with it. -/
def afterWord? (word : String) (cs : List Char) : Option (List Char) :=
  if word.toList.isPrefixOf cs then some (cs.drop word.length) else none

/-- A value that is written as one word or number. -/
def readPlain (cs : List Char) : Except Fault (Value × List Char) :=
  match afterWord? "null" cs with
  | some rest => .ok (.null, rest)
  | none => match afterWord? "true" cs with
    | some rest => .ok (.bool true, rest)
    | none => match afterWord? "false" cs with
      | some rest => .ok (.bool false, rest)
      | none => match afterWord? "NaN" cs with
        | some rest => .ok (.float .nan, rest)
        | none => match afterWord? "Infinity" cs with
          | some rest => .ok (.float (.infinite false), rest)
          | none => match afterWord? "-Infinity" cs with
            | some rest => .ok (.float (.infinite true), rest)
            | none => match cs with
              | '-' :: rest => readNumber true rest
              | rest => readNumber false rest

mutual
/-- A value at the front, inside `depth` more lists and objects at most. -/
def readValue : Nat → Nat → List Char → Except Fault (Value × List Char)
  | 0, _, _ => .error .malformed
  | fuel + 1, depth, cs =>
    match cs with
    | '"' :: rest => do
      let (s, rest) ← readText fuel [] rest
      return (.text s, rest)
    | '[' :: rest =>
      match depth with
      | 0 => .error .tooDeep
      | depth + 1 =>
        match rest.dropWhile isSpace with
        | ']' :: rest => .ok (.list [], rest)
        | rest => do
          let (items, rest) ← readItems fuel depth rest
          return (.list items, rest)
    | '\x7b' :: rest =>
      match depth with
      | 0 => .error .tooDeep
      | depth + 1 =>
        match rest.dropWhile isSpace with
        | '\x7d' :: rest => .ok (.object [], rest)
        | rest => do
          let (members, rest) ← readMembers fuel depth [] rest
          return (.object members, rest)
    | cs => readPlain cs

def readItems : Nat → Nat → List Char → Except Fault (List Value × List Char)
  | 0, _, _ => .error .malformed
  | fuel + 1, depth, cs => do
    let (item, rest) ← readValue fuel depth cs
    match rest.dropWhile isSpace with
    | ']' :: rest => return ([item], rest)
    | ',' :: rest =>
      let (items, rest) ← readItems fuel depth (rest.dropWhile isSpace)
      return (item :: items, rest)
    | _ => .error .malformed

/-- The members of an object up to its closing brace, added to those read so far. -/
def readMembers :
    Nat → Nat → List (String × Value) → List Char → Except Fault (List (String × Value) × List Char)
  | 0, _, _, _ => .error .malformed
  | fuel + 1, depth, done, cs =>
    match cs with
    | '"' :: rest => do
      let (name, rest) ← readText fuel [] rest
      match rest.dropWhile isSpace with
      | ':' :: rest =>
        let (value, rest) ← readValue fuel depth (rest.dropWhile isSpace)
        let done := Value.insertMember name value done
        match rest.dropWhile isSpace with
        | '\x7d' :: rest => return (done, rest)
        | ',' :: rest => readMembers fuel depth done (rest.dropWhile isSpace)
        | _ => .error .malformed
      | _ => .error .malformed
    | _ => .error .malformed
end

/-- The value that a text stands for, with at most `depth` lists and objects inside one another. -/
def read (depth : Nat) (s : String) : Except Fault Value := do
  let cs := s.toList
  let (value, rest) ← readValue (2 * cs.length + 2) depth (cs.dropWhile isSpace)
  if (rest.dropWhile isSpace).isEmpty then return value else .error .malformed

end Json
end ProductLine
