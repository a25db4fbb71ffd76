import ProductLine.Anomaly.Analyzer
import ProductLine.FeatureModel.Samples
import ProductLine.Number.Reader

/-! # Command line options

`Options.read` reads the words of a command line. An option may be shortened as long as it stays
clear which one is meant; its value follows as the next word or after an equals sign, and the last
of several counts. Words that look like negative numbers are values. After two dashes no word is an
option. Exactly one of `--model` and `--benchmark` has to be given.

All words are told apart (`Word.ofText`) before any of them takes effect, so an ambiguous option is
found before any other mistake; words that belong to nothing are complained about last. -/

namespace ProductLine
namespace CommandLine

/-- The options, in the order in which they are listed. -/
inductive Switch where
  | help
  | model
  | benchmark
  | solver
  | timeLimit
  | maxDiagnoses
  | maxDepth
  | enumerationTimeout
  | declarationOrder
  | featureOrder
  | skipDead
  | skipConditionallyDead
  | skipFullMandatory
  | skipFalseOptional
  | skipRedundancy
  | json
  | csv
  | verbose
deriving DecidableEq, Repr

namespace Switch

def all : List Switch :=
  [help, model, benchmark, solver, timeLimit, maxDiagnoses, maxDepth, enumerationTimeout,
    declarationOrder, featureOrder, skipDead, skipConditionallyDead, skipFullMandatory,
    skipFalseOptional, skipRedundancy, json, csv, verbose]

def spelling : Switch → String
  | help => "--help"
  | model => "--model"
  | benchmark => "--benchmark"
  | solver => "--solver"
  | timeLimit => "--time-limit"
  | maxDiagnoses => "--max-diagnoses"
  | maxDepth => "--max-depth"
  | enumerationTimeout => "--enumeration-timeout"
  | declarationOrder => "--declaration-order"
  | featureOrder => "--feature-order"
  | skipDead => "--skip-dead"
  | skipConditionallyDead => "--skip-conditionally-dead"
  | skipFullMandatory => "--skip-full-mandatory"
  | skipFalseOptional => "--skip-false-optional"
  | skipRedundancy => "--skip-redundancy"
  | json => "--json"
  | csv => "--csv"
  | verbose => "--verbose"

/-- How an option is called in complaints. -/
def label : Switch → String
  | help => "-h/--help"
  | s => s.spelling

def takesValue : Switch → Bool
  | help | declarationOrder | skipDead | skipConditionallyDead | skipFullMandatory
  | skipFalseOptional | skipRedundancy
  | verbose => false
  | _ => true

end Switch

/-- What is wrong with a command line. -/
inductive UsageError where
  | ambiguous (word : String) (options : List String)
  | missingValue (option : Switch)
  | unusedValue (option : Switch) (value : String)
  | notInt (option : Switch) (value : String)
  | notFloat (option : Switch) (value : String)
  | noChoice (option : Switch) (value : String) (choices : List String)
  | conflict (option other : Switch)
  | noSource
  | unrecognized (words : List String)
deriving Repr

namespace UsageError

def message : UsageError → String
  | ambiguous word options =>
    "ambiguous option: " ++ word ++ " could match " ++ ", ".intercalate options
  | missingValue option => "argument " ++ option.label ++ ": expected one argument"
  | unusedValue option value =>
    "argument " ++ option.label ++ ": ignored explicit argument " ++ Text.quoted value
  | notInt option value =>
    "argument " ++ option.label ++ ": invalid int value: " ++ Text.quoted value
  | notFloat option value =>
    "argument " ++ option.label ++ ": invalid float value: " ++ Text.quoted value
  | noChoice option value choices =>
    "argument " ++ option.label ++ ": invalid choice: " ++ Text.quoted value ++ " (choose from " ++
      ", ".intercalate (choices.map Text.quoted) ++ ")"
  | conflict option other =>
    "argument " ++ option.label ++ ": not allowed with argument " ++ other.label
  | noSource => "one of the arguments --model --benchmark is required"
  | unrecognized words => "unrecognized arguments: " ++ " ".intercalate words

end UsageError

/-! ### Telling words apart -/

/-- A word of a command line: an option, maybe with a value attached to it, something that looks
like an option but is none, or a plain word. -/
inductive Word where
  | option (s : Switch) (attached : Option String)
  | unknown (text : String)
  | plain (text : String)
deriving Repr

namespace Word

/-- The word as it was typed, for words that are no options. -/
def text : Word → String
  | option s _ => s.spelling
  | unknown text => text
  | plain text => text

/-- The part before an equals sign, and what follows it. -/
def splitValue (cs : List Char) : String × Option String :=
  match cs.span (· != '=') with
  | (name, []) => (String.ofList name, none)
  | (name, _ :: value) => (String.ofList name, some (String.ofList value))

/-- Digits of any script, at least one of them. -/
def isDigits (cs : List Char) : Bool := !cs.isEmpty && cs.all fun c => (Number.digitValue? c).isSome

/-- Whether the characters after a dash make a negative number; a line end may follow. -/
def isMagnitude (cs : List Char) : Bool :=
  let cs := if cs.getLast? = some '\n' then cs.dropLast else cs
  match cs.span (· != '.') with
  | (whole, []) => isDigits whole
  | (whole, _ :: fraction) => (whole.isEmpty || isDigits whole) && isDigits fraction

/-- A word that is no option: numbers and words with a blank are plain. -/
def other (cs : List Char) : Word :=
  if isMagnitude (cs.drop 1) || cs.contains ' ' then plain (String.ofList cs)
  else unknown (String.ofList cs)

/-- The options whose spelling begins with a text. -/
def candidates (name : String) : List (Switch × String) :=
  (Switch.all.map fun s => (s, s.spelling)).filter fun (_, spelling) =>
    name.toList.isPrefixOf spelling.toList

/-- An option in full or cut short, and words like it. -/
def ofDashes (cs : List Char) : Except UsageError Word :=
  let (name, attached) := splitValue cs
  match Switch.all.find? fun s => s.spelling == String.ofList cs with
  | some s => .ok (option s none)
  | none =>
    match Switch.all.find? (·.spelling == name), candidates name with
    | some s, _ => .ok (option s attached)
    | none, [] => .ok (other cs)
    | none, [(s, _)] => .ok (option s attached)
    | none, several => .error (.ambiguous (String.ofList cs) (several.map (·.2)))

/-- The short help option with what is attached to it. Every further `h` asks for help again; the
rest is a value, which the option does not take. -/
def shortHelp (attached : List Char) : Word :=
  match attached.dropWhile (· == 'h') with
  | [] => option .help none
  | value => option .help (some (String.ofList value))

/-- What a word of a command line is. Of the words with one dash only the help option is known. -/
def ofText (s : String) : Except UsageError Word :=
  match s.toList with
  | '-' :: '-' :: rest => ofDashes ('-' :: '-' :: rest)
  | ['-', 'h', '='] => .ok (option .help (some ""))
  | '-' :: 'h' :: '=' :: attached => .ok (shortHelp attached)
  | '-' :: 'h' :: attached => .ok (shortHelp attached)
  | ['-'] => .ok (plain s)
  | '-' :: rest => .ok (other ('-' :: rest))
  | _ => .ok (plain s)

end Word

/-! ### Options -/

/-- What a command line asks for: the options on it with their values, the last one first. An option
that takes no value has the value true. -/
structure Options where
  given : List (Switch × Value)

namespace Options

def none : Options := ⟨[]⟩

variable (o : Options)

def has (s : Switch) : Bool := (o.given.lookup s).isSome

/-- The value of an option that is not there. -/
def default : Switch → Value
  | .solver => .text "ortools"
  | .maxDiagnoses => .int 100
  | .featureOrder => .text "bf"
  | _ => .null

def value (s : Switch) : Value := (o.given.lookup s).getD (default s)

/-- The text that an option has for its value, if that is a text and not empty. -/
def text? (s : Switch) : Option String :=
  match o.value s with
  | .text t => if t = "" then .none else some t
  | _ => .none

/-- The texts that an option can be given, if they are known. -/
def choices? : Switch → Option (List String)
  | .benchmark => some FeatureModel.sampleNames
  | .featureOrder => some ["bf", "df"]
  | _ => .none

/-- The value that an option takes from a text. Two dashes are no value, and leave an empty list. -/
def valueOf (s : Switch) (text : String) : Except UsageError Value :=
  if text = "--" then .ok (.list [])
  else
    match s with
    | .maxDiagnoses | .maxDepth =>
      match Number.readInt? text with
      | some n => .ok (.int n)
      | .none => .error (.notInt s text)
    | .timeLimit | .enumerationTimeout =>
      match Number.readFloat? text with
      | some x => .ok (.float x)
      | .none => .error (.notFloat s text)
    | _ =>
      match choices? s with
      | some choices =>
        if text ∈ choices then .ok (.text text) else .error (.noChoice s text choices)
      | .none => .ok (.text text)

/-- The option that must not stand beside an option. -/
def rival? : Switch → Option Switch
  | .model => some .benchmark
  | .benchmark => some .model
  | _ => .none

def add (s : Switch) (v : Value) : Except UsageError Options :=
  match (rival? s).filter (o.has ·) with
  | some rival => .error (.conflict s rival)
  | .none => .ok ⟨(s, v) :: o.given⟩

/-- What a command line comes to: help is asked for, or an analysis. -/
inductive Request where
  | help
  | analysis (o : Options)

/-- Reads words one after the other; `extras` collects those that belong to nothing, and `tail`
follows all words. -/
def readWords (tail : List String) : List Word → Options → List String → Except UsageError Request
  | [], o, extras =>
    let extras := extras ++ tail
    if !o.has .model && !o.has .benchmark then .error .noSource
    else if extras.isEmpty then .ok (.analysis o)
    else .error (.unrecognized extras)
  | .option s attached :: rest, o, extras =>
    if s.takesValue then
      match attached, rest with
      | some text, rest => do readWords tail rest (← o.add s (← valueOf s text)) extras
      | .none, .plain text :: rest => do readWords tail rest (← o.add s (← valueOf s text)) extras
      | .none, _ => .error (.missingValue s)
    else
      match attached with
      | some text => .error (.unusedValue s text)
      | .none =>
        if s = .help then .ok .help else do readWords tail rest (← o.add s (.bool true)) extras
  | w :: rest, o, extras => readWords tail rest o (extras ++ [w.text])

def read (args : List String) : Except UsageError Request := do
  let (front, tail) := args.span (· != "--")
  readWords tail (← front.mapM Word.ofText) none []

/-- The order in which the features are visited, unless the option was left without a value. -/
def order? : Option FeatureOrder := (o.text? .featureOrder).bind FeatureOrder.ofName?

/-- How the analysis is to be done, the features being visited in an order. -/
def config (order : FeatureOrder) : Anomaly.Config :=
  { solver := ⟨o.value .solver, o.value .timeLimit⟩
    limits := ⟨o.value .maxDiagnoses, o.value .maxDepth, o.value .enumerationTimeout⟩
    recentFirst := !o.has .declarationOrder
    order := order
    checkDead := !o.has .skipDead
    checkConditionallyDead := !o.has .skipConditionallyDead
    checkFullMandatory := !o.has .skipFullMandatory
    checkFalseOptional := !o.has .skipFalseOptional
    checkRedundancy := !o.has .skipRedundancy }

/-- The least level of the notes that are shown. -/
def level : Journal.Level := if o.has .verbose then .debug else .info

end Options
end CommandLine
end ProductLine
