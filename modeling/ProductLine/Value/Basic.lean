import ProductLine.Number.Basic
import ProductLine.Text.CodePoint

/-! # Values

Model files and analysis reports are made of `Value`s: null, truth values, numbers, texts, lists and
objects. The members of an object keep their order. `Value.Key` says when two values name the same
thing, `Value.items?` which values can be gone through one by one, and `Value.number?` which values
count as numbers. -/

namespace ProductLine

/-- A value of a model file or of a report. -/
inductive Value where
  | null
  | bool (b : Bool)
  | int (n : Int)
  | float (x : Binary64)
  | text (s : String)
  | list (items : List Value)
  | object (members : List (String × Value))
deriving BEq, Repr, Inhabited

namespace Value

/-- Whether a value counts as given: null, false, zero and everything empty do not. -/
def given : Value → Bool
  | .null => false
  | .bool b => b
  | .int n => n != 0
  | .float x => !x.isZero
  | .text s => !s.isEmpty
  | .list items => !items.isEmpty
  | .object members => !members.isEmpty

/-- What a value stands for when it is used as a name: numbers are the same name if they are equal,
and the truth values are the numbers one and zero. -/
inductive Key where
  | null
  | int (n : Int)
  | float (x : Binary64)
  | text (s : String)
deriving DecidableEq, Repr

/-- The name that a value is; lists and objects are no names. -/
def key? : Value → Option Key
  | .null => some .null
  | .bool b => some (.int (if b then 1 else 0))
  | .int n => some (.int n)
  | .float x => some (match x.toInt? with
    | some n => .int n
    | none => .float x)
  | .text s => some (.text s)
  | .list _ => none
  | .object _ => none

/-- The number that a value is; the truth values are one and zero. -/
def number? : Value → Option Number
  | .bool b => some (.int (if b then 1 else 0))
  | .int n => some (.int n)
  | .float x => some (.float x)
  | _ => none

/-- The values that a value holds one after the other: the items of a list, the code points of a
text, the names of the members of an object. Other values hold none. -/
def items? : Value → Option (List Value)
  | .list items => some items
  | .text s => some ((Text.points s.toList).map fun n => .text (String.ofList (Text.held n)))
  | .object members => some (members.map fun member => .text member.1)
  | _ => none

def member? (name : String) (members : List (String × Value)) : Option Value := members.lookup name

/-- The members with one more: a name that is there already keeps its place and takes the new value.
-/
def insertMember (name : String) (value : Value) (members : List (String × Value)) :
    List (String × Value) :=
  if members.any (·.1 == name) then
    members.map fun member => if member.1 == name then (name, value) else member
  else members ++ [(name, value)]

@[simp] theorem key?_text (s : String) : (Value.text s).key? = some (.text s) := rfl

@[simp] theorem items?_list (items : List Value) : (Value.list items).items? = some items := rfl

/-- A text is a name of its own: no other value is the same name. -/
theorem key?_eq_text_iff (v : Value) (s : String) : v.key? = some (.text s) ↔ v = .text s := by
  cases v with
  | float x => simp only [key?]; split <;> simp
  | _ => simp [key?]

end Value
end ProductLine
