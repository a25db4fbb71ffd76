import ProductLine.Text.CodePoint
import ProductLine.Text.Printable

/-! # Quoted texts

`Text.quoted` writes a text between quotes for a message. The quote is an apostrophe, or a double
quote if the text has an apostrophe and no double quote. The backslash, the quote itself, line ends
and tabs are escaped by a backslash, other characters without a visible form and halves of surrogate
pairs by their code points; `Text.escaped` is the inside. -/

namespace ProductLine
namespace Text

/-- The lower-case hexadecimal digits of a number, with zeros in front up to a width. -/
def hex (width n : Nat) : List Char :=
  let ds := Nat.toDigits 16 n
  List.replicate (width - ds.length) '0' ++ ds

def codeEscape (n : Nat) : List Char :=
  if n < 0x100 then '\\' :: 'x' :: hex 2 n
  else if n < 0x10000 then '\\' :: 'u' :: hex 4 n
  else '\\' :: 'U' :: hex 8 n

/-- A code point inside quotes. -/
def escapedPoint (quote : Char) (n : Nat) : List Char :=
  if isHalf n then codeEscape n
  else
    let c := Char.ofNat n
    if c = quote ∨ c = '\\' then ['\\', c]
    else if c = '\n' then ['\\', 'n']
    else if c = '\r' then ['\\', 'r']
    else if c = '\t' then ['\\', 't']
    else if isPrintable c then [c]
    else codeEscape n

/-- The quote that a text is set in. -/
def quoteFor (cs : List Char) : Char := if cs.contains '\'' && !cs.contains '"' then '"' else '\''

def escaped (quote : Char) (ns : List Nat) : List Char := ns.flatMap (escapedPoint quote)

def quoted (s : String) : String :=
  let quote := quoteFor s.toList
  String.ofList (quote :: escaped quote (points s.toList) ++ [quote])

/-- How the places of the first code points in a row that are unfit are told, when so many others
stand in front of them all. -/
def places (unfit : Nat → Bool) (front : Nat) (ns : List Nat) : String :=
  let before := ns.takeWhile fun n => !unfit n
  let row := (ns.drop before.length).takeWhile unfit
  let start := before.length + front
  match row with
  | [n] => "character '" ++ String.ofList (codeEscape n) ++ "' in position " ++ toString start
  | _ => "characters in position " ++ toString start ++ "-" ++ toString (start + row.length - 1)

end Text
end ProductLine
