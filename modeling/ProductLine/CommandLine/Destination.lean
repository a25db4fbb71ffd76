import ProductLine.CommandLine.Address
import ProductLine.CommandLine.Archive
import ProductLine.CommandLine.Files

/-! # Destinations

The ending of a destination says in which `Form` a text is written there: as it is, as an archive,
or compressed. -/

namespace ProductLine
namespace CommandLine

/-- How a text is written. -/
inductive Form where
  | plain
  /-- In an archive, as a file with a name. -/
  | archive (member : String)
  | packed (packing : Packing)
  /-- Compressed in a way for which another package is needed. -/
  | zstandard
deriving DecidableEq, Repr

namespace Form

/-- The endings of archives, compressed ones among them. -/
def archiveEndings : List String := [".tar", ".tar.gz", ".tar.bz2", ".tar.xz"]

/-- The ways of compressing by their endings. -/
def packings : List (String × Packing) :=
  [(".gz", .gzip), (".bz2", .bzip2), (".zip", .zip), (".xz", .xz)]

/-- The ending of a file name from its last point on, unless the name begins or ends there. -/
def ending (name : String) : String :=
  match name.toList.reverse.span (· != '.') with
  | (_ :: _, '.' :: _ :: _) =>
    String.ofList ('.' :: (name.toList.reverse.takeWhile (· != '.')).reverse)
  | _ => ""

/-- How an archive is written to a file with a name: an ending in lower case may say that it is
compressed, and the name of what is in it has no ending of archives. -/
def ofArchiveName (name : String) : Form :=
  match ending name with
  | ".gz" => .packed .gzip
  | ".bz2" => .packed .bzip2
  | ".xz" => .packed .xz
  | ".tar" => .archive (name.dropEnd 4).toString
  | _ => .archive name

/-- What comes before the first double colon. -/
def firstLink : List Char → List Char
  | ':' :: ':' :: _ => []
  | c :: rest => c :: firstLink rest
  | [] => []

/-- The form that the ending of a destination says, in whatever case. -/
def ofDestination (s : String) : Form :=
  let lower := (String.ofList (firstLink s.toList)).toLower
  if archiveEndings.any (lower.endsWith ·) then ofArchiveName (Path.base s)
  else if lower.endsWith ".zst" then .zstandard
  else
    match packings.find? (lower.endsWith ·.1) with
    | some (_, packing) => .packed packing
    | none => .plain

/-- What a file holds when a text is written in a form. -/
def content (s : String) : Form → Content
  | .plain | .zstandard => .text s
  | .archive member => .text (Archive.ofFile (Text.release member) s)
  | .packed packing => .packed packing s

end Form
end CommandLine
end ProductLine
