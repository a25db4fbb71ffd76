import ProductLine.CommandLine.Program

/-! # The command line program

Runs `CommandLine.run` on the file system: the report goes to standard output, notes and complaints
go to standard error. -/

namespace ProductLine
namespace CommandLine

/-- Whether a code of the system is the given one. Some calls give their codes with the opposite
sign. -/
def isCode (given code : UInt32) : Bool := code == given || -code == given

/-- The fault behind a failing file operation. -/
def faultOf : IO.Error → FileFault
  | .inappropriateType _ code _ => if isCode 21 code then .isDirectory else .notDirectory
  | .invalidArgument _ code _ => if isCode 36 code then .tooLong else .notFound
  | _ => .notFound

/-- A file operation, unless the path has a null character. -/
def guarded {α : Type} (path : String) (act : String → IO α) : IO (Except FileFault α) := do
  if path.toList.contains '\x00' then return .error .nullCharacter
  try return .ok (← act (Text.release path))
  catch e => return .error (faultOf e)

/-- Access to the file system. A directory is known by the fault of reading it. What is compressed
cannot be written. -/
def fileSystem : FileAccess IO where
  read path := do
    match ← guarded path fun path => IO.FS.readBinFile path with
    | .ok bytes => return (String.fromUTF8? bytes).elim (.error .notText) .ok
    | .error fault => return .error fault
  write path content := do
    match content with
    | .text text => guarded path fun path => IO.FS.writeFile path text
    | _ => return .error .notText
  isDirectory path := do
    match ← guarded path (fun path => IO.FS.readBinFile path) with
    | .error .isDirectory => return .ok true
    | .error .tooLong => return .error .tooLong
    | _ => return .ok false
  home account := do
    if account = "" then return some (Text.hold ((← IO.getEnv "HOME").getD "/"))
    else return none

end CommandLine
end ProductLine

open ProductLine CommandLine in
def main (args : List String) : IO UInt32 := do
  let args := args.map Text.hold
  let outcome ← run fileSystem World.calm args
  for line in Journal.lines (level args) outcome.notes do
    IO.eprintln (Text.release line)
  IO.print (Text.release outcome.stdout)
  match outcome.ending with
  | .code n => return n.toUInt32
  | .usage e =>
    IO.eprintln (Text.release ("error: " ++ e.message))
    return 2
  | .broken e =>
    IO.eprintln (Text.release e.message)
    return 1
