import ProductLine.Anomaly.Probes
import ProductLine.Anomaly.Summary
import ProductLine.Anomaly.Table
import ProductLine.CommandLine.Destination
import ProductLine.CommandLine.Options
import ProductLine.FeatureModel.Codec
import ProductLine.FeatureModel.Text
import ProductLine.Json.Reader
import ProductLine.Json.Writer

/-! # The program

`CommandLine.run` reads a command line, analyses a model from a file or a sample model, prints the
report, and writes it to files if that is asked for. An `Outcome` is what it printed and noted and
how it ended. -/

namespace ProductLine
namespace CommandLine

open Anomaly

/-- Why the program broke off. -/
inductive Error where
  | file (fault : FileFault) (path : String)
  /-- The file at an address cannot be opened. -/
  | fileAt (fault : FileFault) (path : String)
  | address (fault : AddressFault)
  | host (fault : HostFault)
  /-- A package is needed that is not there. -/
  | noPackage (name : String)
  | json (fault : Json.Fault)
  | noSample
  | notAnOrder (given : Value)
  | analysis (failure : Failure)
deriving Repr

namespace Error

def fileMessage (path : String) : FileFault → String
  | .notFound => "[Errno 2] No such file or directory: " ++ Text.quoted path
  | .isDirectory => "[Errno 21] Is a directory: " ++ Text.quoted path
  | .notDirectory => "[Errno 20] Not a directory: " ++ Text.quoted path
  | .tooLong => "[Errno 36] File name too long: " ++ Text.quoted path
  | .nullCharacter => "embedded null byte"
  | .notText => "The file is not a text: " ++ Text.quoted path
  | .noRoom => "[Errno 28] No space left on device"
  | .noParent directory => "Cannot save file into a non-existent directory: '" ++ directory ++ "'"

def message : Error → String
  | .file fault path => fileMessage path fault
  | .fileAt fault path => "<urlopen error " ++ fileMessage path fault ++ ">"
  | .address fault => fault.message
  | .host fault => fault.message
  | .noPackage name =>
    "`Import " ++ name ++ "` failed.  Use pip, conda, or your preferred package management tool " ++
      "to install the " ++ name ++ " package."
  | .json .malformed => "The model file is not JSON"
  | .json .tooDeep => "The model file is nested too deeply"
  | .json (.longInteger digits) =>
    "Exceeds the limit (" ++ toString Json.maxDigits ++
      " digits) for integer string conversion: value has " ++
      toString digits ++ " digits; use sys.set_int_max_str_digits() to increase the limit"
  | .noSample => "No sample model is chosen"
  | .notAnOrder given => given.quoted ++ " is not a valid FeatureOrder"
  | .analysis failure => failure.message

end Error

/-- How the program ended: with a code, with a complaint about the command line, or broken off. -/
inductive Ending where
  | code (n : Nat)
  | usage (e : UsageError)
  | broken (e : Error)
deriving Repr

/-- What the program printed and noted, and how it ended. -/
structure Outcome where
  stdout : String
  notes : Array Journal.Note
  ending : Ending

/-- How deep lists and objects of a model file may be nested. -/
def maxDepth : Nat := 989

/-- A model from the text of a model file. A model without a name is named after its file. -/
def parseModel (path text : String) : Except Error FeatureModel := do
  let data ← (Json.read maxDepth text).mapError .json
  match data with
  | .object members =>
    let named := ((Value.member? "name" members).getD .null).given
    let title := Value.text (Path.stem (Path.base path))
    let members := if named then members else Value.insertMember "name" title members
    (FeatureModel.ofValue (.object members)).mapError .analysis
  | _ => throw (.analysis (.notAnObject data))

/-- A line of one character. -/
def rule (c : Char) : String := String.ofList (List.replicate 80 c)

def page (m : FeatureModel) (r : Report) : String :=
  "\n".intercalate ([
    "", rule '=',
    "ANALYSIS OF '" ++ r.model.display ++ "' (" ++ toString m.features.length ++ " features, " ++
      toString m.relationships.length ++ " relationships)",
    m.countsLine, rule '='] ++ r.summary ++ [
    rule '-',
    toString r.calls ++ " consistency checks, " ++ toString r.failures.length ++
      " solver failures, " ++ Journal.duration r.elapsed,
    rule '=', "", ""])

def sample (name : Value) : Except Error FeatureModel :=
  match name.key? with
  | none => .error (.analysis (.notAName name))
  | some (.text s) => (FeatureModel.sample? s).elim (.error .noSample) .ok
  | some _ => .error .noSample

section
variable {m : Type → Type} [Monad m] (files : FileAccess m)

def load (o : Options) : m (Except Error FeatureModel) := do
  match o.text? .model with
  | some path =>
    match ← files.read path with
    | .ok text => return parseModel path text
    | .error e => return .error (.file e path)
  | none => return sample (o.value .benchmark)

def save (path : String) (content : Content) : m (Except Error Unit) := do
  return (← files.write path content).mapError (.file · path)

def visit (a : Address) : m (Except Error Unit) := do
  match a.target with
  | .error fault => return .error (.address fault)
  | .ok (path, other) =>
    let opened := match other with
      | some fault => .error (.address fault)
      | none => .ok ()
    match ← files.read path, other with
    | .ok _, _ | .error .notText, _ | .error .isDirectory, some _ => return opened
    | .error .nullCharacter, _ => return .error (.file .nullCharacter path)
    | .error fault, _ => return .error (.fileAt fault path)

/-- The path that is meant by a path, which may start from a home directory. -/
def expand (path : String) : m String := do
  match Path.account? path with
  | none => return path
  | some (account, rest) =>
    match ← files.home account with
    | some home => return Path.underHome home rest
    | none => return path

/-- Checks that the directory for a new file is there. -/
def checkParent (path : String) : m (Except Error Unit) := do
  let directory := Path.parent path
  match ← files.isDirectory directory with
  | .ok true => return .ok ()
  | .ok false => return .error (.file (.noParent directory) path)
  | .error fault => return .error (.file fault directory)

/-- Whether a form can be written. -/
def checkForm : Form → Except Error Unit
  | .zstandard => .error (.noPackage "zstandard")
  | _ => .ok ()

/-- Writes a text in a form to a path, for which the directory has to be there. -/
def saveAs (form : Form) (given text : String) : m (Except Error Unit) := do
  let path ← expand files given
  match ← checkParent files path, checkForm form with
  | .error e, _ | .ok (), .error e => return .error e
  | .ok (), .ok () => save files path (form.content text)

/-- Writes the table of explanations. An address is only opened. -/
def saveTable (given text : String) : m (Except Error Unit) := do
  let form := Form.ofDestination given
  let plain := Text.release given
  match Address.hostFault? plain, Address.ofText? plain with
  | some fault, _ => return .error (.host fault)
  | none, some a => return (← visit files a).bind fun _ => checkForm form
  | none, none =>
    if Address.isForeign plain then return .error (.noPackage "fsspec")
    saveAs files form given text

/-- Does something with a path, if there is one, and makes a note of it. -/
def noted (path : Option String) (note : String → Journal.Note)
    (act : String → m (Except Error Unit)) : m (Except Error (List Journal.Note)) := do
  match path with
  | none => return .ok []
  | some path => return (← act path).map fun _ => [note path]

/-- Prints the report of an analysis and writes the files that are asked for. -/
def publish (o : Options) (model : FeatureModel) (r : Report) (notes : Array Journal.Note) :
    m Outcome := do
  let stdout := page model r
  let json := Json.indented r.toValue
  match ← noted (o.text? .json) .reportSaved fun path => save files path (.text json) with
  | .error e => return ⟨stdout, notes, .broken e⟩
  | .ok saved =>
    let notes := notes ++ saved
    match ← noted (o.text? .csv) .tableSaved fun path =>
        saveTable files path (Text.release r.table) with
    | .error e => return ⟨stdout, notes, .broken e⟩
    | .ok saved =>
      return ⟨stdout, notes ++ saved, .code (if r.hasAnomalies then 1 else 0)⟩

def analyse (w : World) (o : Options) : m Outcome := do
  match ← load files o with
  | .error e => return ⟨"", w.notes, .broken e⟩
  | .ok model =>
    match o.order? with
    | none => return ⟨"", w.notes, .broken (.notAnOrder (o.value .featureOrder))⟩
    | some order =>
      let work : Analysis Report := do
        Analysis.start
        Analysis.run
      match work (Analyzer.new model (o.config order) w) with
      | .error e a => return ⟨"", a.bench.world.notes, .broken (.analysis e)⟩
      | .ok r a => publish files o a.bench.model r a.bench.world.notes

/-- Runs the program on the words of a command line. -/
def run (w : World) (args : List String) : m Outcome := do
  match Options.read args with
  | .error e => return ⟨"", w.notes, .usage e⟩
  | .ok .help => return ⟨"", w.notes, .code 0⟩
  | .ok (.analysis o) => analyse files w o

end

/-- The least level of the notes that a command line asks for. -/
def level (args : List String) : Journal.Level :=
  match Options.read args with
  | .ok (.analysis o) => o.level
  | _ => .info

end CommandLine
end ProductLine
