import ProductLine.CommandLine.Path

/-! # Archives

`Archive.ofFile` is the archive of one file. It consists of blocks of 512 bytes: a header with the
name and the size of the file, the file itself, and empty blocks up to a multiple of twenty. A name
that is too long for the header, or not of ASCII characters only, stands in a record of its own in
front. -/

namespace ProductLine
namespace CommandLine
namespace Archive

/-- How many bytes a block has. -/
def blockSize : Nat := 512

/-- How many bytes an archive is a multiple of. -/
def recordSize : Nat := 20 * blockSize

/-- How many bytes a name in a header may have. -/
def maxName : Nat := 100

def nulls (count : Nat) : String := String.ofList (List.replicate count '\x00')

/-- A text filled up with null characters to a multiple of a size. -/
def padded (size : Nat) (s : String) : String :=
  s ++ nulls ((size - s.utf8ByteSize % size) % size)

/-- A field for a text: its first characters, filled up with null characters. -/
def field (width : Nat) (s : String) : String :=
  let cs := s.toList.take width
  String.ofList cs ++ nulls (width - cs.length)

/-- A number in octal digits, with zeros in front up to a width. -/
def octal (width n : Nat) : String :=
  let ds := Nat.toDigits 8 n
  String.ofList (List.replicate (width - ds.length) '0' ++ ds)

/-- A field for a number: octal digits and a null character. -/
def number (width n : Nat) : String := octal (width - 1) n ++ nulls 1

def sum (s : String) : Nat := s.toList.foldl (fun n c => n + c.toNat) 0

/-- The characters of a name that are not ASCII replaced by question marks. -/
def plain (name : String) : String := name.map fun c => if c.toNat < 128 then c else '?'

/-- A header: the name, the access rights, the size, and the kind of what follows. The sum of the
header is written where blanks stand for it. -/
def header (name : String) (rights size : Nat) (kind : Char) : String :=
  let front := field maxName name ++ number 8 rights ++ number 8 0 ++ number 8 0 ++
    number 12 size ++ number 12 0
  let back := String.ofList [kind] ++ field 100 "" ++ "ustar" ++ nulls 1 ++ "00"
  let total := sum front + sum back + 8 * ' '.toNat
  padded blockSize (front ++ octal 6 total ++ nulls 1 ++ " " ++ back)

/-- A record with its own length in front: the length counts its digits too. -/
def record (keyword value : String) : String :=
  let rest := keyword.utf8ByteSize + value.utf8ByteSize + 3
  let digits (n : Nat) : Nat := (toString n).length
  let length := rest + digits (rest + digits (rest + digits rest))
  toString length ++ " " ++ keyword ++ "=" ++ value ++ "\n"

/-- The record in front for a name that does not fit into the header. -/
def nameRecord (name : String) : String :=
  if name.length ≤ maxName ∧ name.toList.all (·.toNat < 128) then ""
  else
    let payload := record "path" name
    header "././@PaxHeader" 0 payload.utf8ByteSize 'x' ++ padded blockSize payload

/-- The archive of a file with a name and a text. -/
def ofFile (name text : String) : String :=
  padded recordSize (nameRecord name ++ header (plain name) 0o644 text.utf8ByteSize '0' ++
    padded blockSize text ++ nulls (2 * blockSize))

end Archive
end CommandLine
end ProductLine
