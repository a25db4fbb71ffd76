/-! # Bytes behind percent signs

In an address a byte can be given by a percent sign and two hexadecimal digits. `Text.unescaped`
puts the characters in their places which such bytes and the ASCII characters beside them make up;
bytes that make up none are each replaced, together with what they were begun by. A text without a
percent sign stays as it is (`unescaped_of_not_mem`). -/

namespace ProductLine
namespace Text

/-- A character of several bytes that has been begun: how many of them are missing, its code point
so far, and what the next byte is at least and at most. -/
structure Opening where
  missing : Nat
  point : Nat
  low : Nat
  high : Nat
deriving DecidableEq, Repr

/-- What stands for bytes that make up no character. -/
def replacement : Char := Char.ofNat 0xFFFD

/-- What a byte makes up or begins when nothing has been begun. -/
def ofByte (b : Nat) : List Char × Option Opening :=
  if b < 0x80 then ([Char.ofNat b], none)
  else if b < 0xC2 then ([replacement], none)
  else if b < 0xE0 then ([], some ⟨1, b - 0xC0, 0x80, 0xBF⟩)
  else if b < 0xF0 then
    ([], some ⟨2, b - 0xE0, if b = 0xE0 then 0xA0 else 0x80, if b = 0xED then 0x9F else 0xBF⟩)
  else if b < 0xF5 then
    ([], some ⟨3, b - 0xF0, if b = 0xF0 then 0x90 else 0x80, if b = 0xF4 then 0x8F else 0xBF⟩)
  else ([replacement], none)

/-- What a byte makes up or goes on with. -/
def nextByte (b : Nat) : Option Opening → List Char × Option Opening
  | none => ofByte b
  | some o =>
    if o.low ≤ b ∧ b ≤ o.high then
      let point := o.point * 64 + (b - 0x80)
      if o.missing ≤ 1 then ([Char.ofNat point], none)
      else ([], some ⟨o.missing - 1, point, 0x80, 0xBF⟩)
    else
      let (out, next) := ofByte b
      (replacement :: out, next)

/-- What stands for a character that has been begun and does not go on. -/
def broken (o : Option Opening) : List Char := if o.isSome then [replacement] else []

def hexDigit? (c : Char) : Option Nat :=
  if c.isDigit then some (c.toNat - '0'.toNat)
  else if 'a' ≤ c ∧ c ≤ 'f' then some (c.toNat - 'a'.toNat + 10)
  else if 'A' ≤ c ∧ c ≤ 'F' then some (c.toNat - 'A'.toNat + 10)
  else none

/-- The text after what has been begun, with bytes behind percent signs put in their places. -/
def unescapedFrom : Option Opening → List Char → List Char
  | o, [] => broken o
  | o, '%' :: a :: b :: rest =>
    match hexDigit? a, hexDigit? b with
    | some m, some n =>
      let (out, next) := nextByte (16 * m + n) o
      out ++ unescapedFrom next rest
    | _, _ => broken o ++ '%' :: unescapedFrom none (a :: b :: rest)
  | o, c :: rest => broken o ++ c :: unescapedFrom none rest

/-- The text with bytes behind percent signs put in their places. -/
def unescaped (cs : List Char) : List Char := unescapedFrom none cs

theorem unescaped_of_not_mem {cs : List Char} (h : '%' ∉ cs) : unescaped cs = cs := by
  induction cs with
  | nil => rfl
  | cons c rest ih =>
    rw [List.mem_cons, not_or] at h
    have step : unescapedFrom none (c :: rest) = c :: unescapedFrom none rest := by
      rw [unescapedFrom]
      · rfl
      · rintro a b rest rfl
        exact fun e => absurd rfl h.1
    rw [unescaped, step]
    exact congrArg (c :: ·) (ih h.2)

end Text
end ProductLine
