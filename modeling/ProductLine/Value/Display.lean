import ProductLine.Number.Shortest
import ProductLine.Text.Quoted
import ProductLine.Value.Basic

/-! # Values in messages

`Value.quoted` is the text of a value inside a list or an object of a message, where texts stand
between quotes; `Value.display` is the text of a value on its own, where a text stands for itself.
-/

namespace ProductLine
namespace Value

mutual
/-- A value with every text in it quoted. -/
def quoted : Value → String
  | .null => "None"
  | .bool true => "True"
  | .bool false => "False"
  | .int n => toString n
  | .float x => x.text
  | .text s => Text.quoted s
  | .list items => "[" ++ ", ".intercalate (quotedItems items) ++ "]"
  | .object members => "\x7b" ++ ", ".intercalate (quotedMembers members) ++ "\x7d"

def quotedItems : List Value → List String
  | [] => []
  | item :: rest => quoted item :: quotedItems rest

def quotedMembers : List (String × Value) → List String
  | [] => []
  | (name, value) :: rest => (Text.quoted name ++ ": " ++ quoted value) :: quotedMembers rest
end

/-- A value on its own. -/
def display : Value → String
  | .text s => s
  | v => quoted v

@[simp] theorem display_text (s : String) : (Value.text s).display = s := rfl

end Value
end ProductLine
