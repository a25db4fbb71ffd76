import ProductLine.Anomaly.Report

/-! # The table of explanations as text

`Report.table` writes the rows of a report as comma-separated values: a header and one line for
every row. A field with a comma, a quote or a line end stands between quotes, with the quotes in it
doubled. Diagnoses are numbered; as soon as one row has no number while another has, the numbers are
written as floating-point numbers. -/

namespace ProductLine
namespace Anomaly
namespace Table

def isSpecial (c : Char) : Bool := c == ',' || c == '"' || c == '\n'

def field (s : String) : String :=
  if s.toList.any isSpecial then
    "\"" ++ String.ofList (s.toList.flatMap fun c => if c = '"' then ['"', '"'] else [c]) ++ "\""
  else s

def line (fields : List String) : String := ",".intercalate (fields.map field) ++ "\n"

def columns : List String :=
  ["category", "subject", "condition", "diagnosis", "explanation", "truncated"]

/-- The number of a diagnosis, with a zero after the point in a column with gaps. -/
def number (gaps : Bool) (n : Nat) : String := if gaps then toString n ++ ".0" else toString n

def fields (gaps : Bool) (row : Row) : List String :=
  [row.category.name, row.subject, row.condition.getD "", row.diagnosis.elim "" (number gaps),
    row.explanation.getD "", if row.truncated then "True" else "False"]

end Table

/-- The table of explanations. -/
def Report.table (r : Report) : String :=
  let gaps := r.rows.any (·.diagnosis.isNone)
  String.join (Table.line Table.columns :: r.rows.map fun row => Table.line (Table.fields gaps row))

end Anomaly
end ProductLine
