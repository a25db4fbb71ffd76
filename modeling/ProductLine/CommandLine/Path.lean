import ProductLine.Text.CodePoint
import ProductLine.Text.Pieces

/-! # Paths

A `Path` is a text of parts between slashes. A place in a tree of files is the list of the names on
the way to it, and `Path.step` says where a part leads to from there. -/

namespace ProductLine
namespace CommandLine
namespace Path

def parts (path : String) : List String :=
  ((Text.pieces '/' path.toList).map String.ofList).filter (· ≠ "")

def base (path : String) : String := String.ofList ((Text.pieces '/' path.toList).getLast?.getD [])

/-- A file name without its extension: what comes before the last point, if that is not points only.
-/
def stem (name : String) : String :=
  match name.toList.reverse.span (· != '.') with
  | (_, []) => name
  | (_, _ :: front) => if front.all (· == '.') then name else String.ofList front.reverse

/-- The slashes that a path begins with: two are kept, three and more are one. -/
def root (path : String) : String :=
  match path.toList with
  | '/' :: '/' :: '/' :: _ => "/"
  | '/' :: '/' :: _ => "//"
  | '/' :: _ => "/"
  | _ => ""

/-- The directory that a path lies in, parts that are a single point left out. -/
def parent (path : String) : String :=
  let inside := "/".intercalate ((parts path).filter (· ≠ ".")).dropLast
  if root path = "" ∧ inside = "" then "." else root path ++ inside

/-- The account whose home directory a path starts from, empty for the user's own, and the rest of
the path from the next slash on; only a path that begins with a tilde starts from one. -/
def account? (path : String) : Option (String × String) :=
  match path.toList with
  | '~' :: rest =>
    some (String.ofList (rest.takeWhile (· != '/')), String.ofList (rest.dropWhile (· != '/')))
  | _ => none

/-- A path that goes on from a home directory. -/
def underHome (home rest : String) : String :=
  let path := String.ofList (home.toList.reverse.dropWhile (· == '/')).reverse ++ rest
  if path = "" then "/" else path

/-- The name that a part of a path adds to a place, if it does. -/
def name? (part : String) : Option String := if part = "." ∨ part = ".." then none else some part

def size (s : String) : Nat := (Text.release s).utf8ByteSize

/-- How many bytes a name in a path may have. -/
def maxName : Nat := 255

/-- How many bytes a path may have. -/
def maxLength : Nat := 4095

/-- Where a part of a path leads to from a place; a place is the list of the names on the way to it.
-/
def step (place : List String) (part : String) : List String :=
  if part = "." then place else if part = ".." then place.dropLast else place ++ [part]

end Path

end CommandLine
end ProductLine
