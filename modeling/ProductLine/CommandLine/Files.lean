import ProductLine.CommandLine.Path

/-! # Files

The program reads and writes files through a `FileAccess`, over any monad. `FileTree` is a tree of
files in memory with the access it gives. A path is walked step by step: every step starts in a
directory, and only the last may lead to a place where nothing is yet. -/

namespace ProductLine
namespace CommandLine

/-- Ways to compress a file. -/
inductive Packing where
  | gzip
  | bzip2
  | zip
  | xz
deriving DecidableEq, Repr

/-- What a file holds. -/
inductive Content where
  | text (s : String)
  | packed (packing : Packing) (s : String)
  /-- Something that is no text. -/
  | foreign
deriving DecidableEq, Repr

/-- Why a file could not be read or written. -/
inductive FileFault where
  | notFound
  | isDirectory
  | notDirectory
  /-- The path or one of its names is too long. -/
  | tooLong
  /-- The path has a null character in it. -/
  | nullCharacter
  /-- The file does not hold a text. -/
  | notText
  /-- There is no room for what is to be written. -/
  | noRoom
  /-- The directory for a new file is missing. -/
  | noParent (directory : String)
deriving DecidableEq, Repr

/-- Ways to read a file, to write one, to tell whether a path leads to a directory, and to find out
where the user of an account is at home; the user's own account has an empty name. -/
structure FileAccess (m : Type → Type) where
  read : String → m (Except FileFault String)
  write : String → Content → m (Except FileFault Unit)
  isDirectory : String → m (Except FileFault Bool)
  home : String → m (Option String)

/-- Files and directories by their places, and the place that relative paths start from. What lies
above a file or above that place is a directory too. -/
structure FileTree where
  current : List String
  directories : List (List String)
  files : List (List String × Content)

namespace FileTree

/-- The accounts that every system has, with their home directories. -/
def accounts : List (String × String) :=
  [("", "/root"), ("root", "/root"), ("daemon", "/usr/sbin"), ("bin", "/bin"), ("sys", "/dev"),
    ("sync", "/bin"), ("games", "/usr/games"), ("man", "/var/cache/man"),
    ("lp", "/var/spool/lpd"), ("mail", "/var/mail"), ("news", "/var/spool/news"),
    ("uucp", "/var/spool/uucp"), ("proxy", "/bin"), ("www-data", "/var/www"),
    ("backup", "/var/backups"), ("list", "/var/list"), ("irc", "/run/ircd"),
    ("_apt", "/nonexistent"), ("nobody", "/nonexistent")]

/-- The directories that every system has, by their paths without the first slash. -/
def systemDirectories : List String :=
  ["bin", "boot", "dev", "dev/pts", "dev/shm", "etc", "home", "lib", "media", "mnt", "opt", "proc",
    "root", "run", "run/lock", "sbin", "srv", "sys", "usr", "usr/bin", "usr/games", "usr/include",
    "usr/lib", "usr/local", "usr/local/bin", "usr/local/lib", "usr/sbin", "usr/share", "usr/src",
    "var", "var/backups", "var/cache", "var/lib", "var/local", "var/lock", "var/log", "var/mail",
    "var/opt", "var/run", "var/spool", "var/tmp"]

/-- The place of a file that takes in everything and holds nothing. -/
def sink : List String := ["dev", "null"]

/-- The place of a file that takes in nothing. -/
def fullSink : List String := ["dev", "full"]

/-- A tree with nothing in its current directory but with what every system has. -/
def fresh : FileTree where
  current := ["tmp", "work"]
  directories := systemDirectories.map Path.parts
  files := [(sink, .text ""), (fullSink, .foreign),
    (["etc", "passwd"], .text "root:x:0:0:root:/root:/bin/sh\n"), (["bin", "sh"], .foreign),
    (["bin", "ls"], .foreign), (["bin", "cat"], .foreign)]

variable (t : FileTree)

def file? (place : List String) : Option Content := t.files.lookup place

def isDirectory (place : List String) : Bool :=
  place.isPrefixOf t.current || t.directories.contains place ||
    t.files.any fun (path, _) => place.isPrefixOf path && place.length < path.length

/-- The place that a path starts from. -/
def start (path : String) : List String := if Path.root path = "" then t.current else []

/-- The places that a path passes on its way from a place. -/
def passed (place : List String) : List String → List (List String)
  | [] => []
  | part :: rest => place :: passed (Path.step place part) rest

/-- The tree with one more file and the directories that its path passes, whatever is at its place.
-/
def add (path text : String) : FileTree :=
  let parts := Path.parts path
  { t with
    directories := passed (t.start path) parts ++ t.directories
    files := (parts.foldl Path.step (t.start path), .text text) :: t.files }

/-- The tree with files given by their paths, and nothing else but what every system has. -/
def ofList (files : List (String × String)) : FileTree :=
  files.foldl (fun t (path, text) => t.add path text) fresh

def enter (place : List String) : Except FileFault Unit :=
  if t.isDirectory place then .ok ()
  else if (t.file? place).isSome then .error .notDirectory
  else .error .notFound

/-- Walks from a place along parts of a path. -/
def walk (place : List String) : List String → Except FileFault (List String)
  | [] => .ok place
  | part :: rest => do
    t.enter place
    if Path.maxName < Path.size part then throw .tooLong
    walk (Path.step place part) rest

/-- Checks what can be seen of a path without walking it. -/
def checkPath (path : String) : Except FileFault Unit :=
  if path.toList.contains '\x00' then .error .nullCharacter
  else if path = "" then .error .notFound
  else if Path.maxLength < Path.size path then .error .tooLong
  else .ok ()

/-- The place that a path leads to; a path that ends in a slash leads to a directory. -/
def locate (path : String) : Except FileFault (List String) := do
  checkPath path
  let place ← t.walk (t.start path) (Path.parts path)
  if Path.base path = "" then t.enter place
  return place

def read (path : String) : Except FileFault String := do
  let place ← t.locate path
  if t.isDirectory place then throw .isDirectory
  match t.file? place with
  | some (.text s) => return s
  | some _ => throw .notText
  | none => throw .notFound

/-- The place for a file to be written. A path that ends in a name and a slash asks for a directory,
whether there is one or not. -/
def target (path : String) : Except FileFault (List String) := do
  let parts := Path.parts path
  if Path.base path = "" ∧ (parts.getLast?.bind Path.name?).isSome then
    checkPath path
    t.enter (← t.walk (t.start path) parts.dropLast)
    throw .isDirectory
  t.locate path

/-- The tree with something written to the file at a path. -/
def write (path : String) (content : Content) : Except FileFault FileTree := do
  let place ← t.target path
  if t.isDirectory place then throw .isDirectory
  if place = fullSink then throw .noRoom
  if place = sink then return t
  return { t with files := (place, content) :: t.files.filter (·.1 ≠ place) }

/-- Whether a path leads to a directory. -/
def leadsToDirectory (path : String) : Except FileFault Bool :=
  match t.locate path with
  | .ok place => .ok (t.isDirectory place)
  | .error .tooLong => .error .tooLong
  | .error _ => .ok false

/-- Access to the tree that is the state. -/
def access : FileAccess (StateM FileTree) where
  read path := return (← get).read path
  write path content := do
    match (← get).write path content with
    | .ok t => set t; return .ok ()
    | .error e => return .error e
  isDirectory path := return (← get).leadsToDirectory path
  home account := return accounts.lookup account

end FileTree
end CommandLine
end ProductLine
