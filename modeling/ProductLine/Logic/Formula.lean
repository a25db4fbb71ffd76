/-! # Propositional formulas

A `Formula` is built from truth values and variables. `Formula.eval` gives its value under an
assignment, and `Formula.Satisfies` says that an assignment makes every formula of a list true.
`Formula.text` prints a formula: chains of conjunctions and of disjunctions are one operation with
many operands. -/

namespace ProductLine

/-- A propositional formula over variables of a type. -/
inductive Formula (α : Type) where
  | const (b : Bool)
  | var (a : α)
  | not (f : Formula α)
  | and (f g : Formula α)
  | or (f g : Formula α)
  | implies (f g : Formula α)
  | iff (f g : Formula α)
deriving DecidableEq, Hashable, Repr

namespace Formula

variable {α : Type}

def eval (v : α → Bool) : Formula α → Bool
  | const b => b
  | var a => v a
  | not f => !f.eval v
  | and f g => f.eval v && g.eval v
  | or f g => f.eval v || g.eval v
  | implies f g => !f.eval v || g.eval v
  | iff f g => f.eval v == g.eval v

def Satisfies (v : α → Bool) (fs : List (Formula α)) : Prop := ∀ f ∈ fs, f.eval v = true

def Satisfiable (fs : List (Formula α)) : Prop := ∃ v, Satisfies v fs

/-- The variables of a formula, each as often as it occurs. -/
def vars : Formula α → List α
  | const _ => []
  | var a => [a]
  | not f => f.vars
  | and f g | or f g | implies f g | iff f g => f.vars ++ g.vars

/-- The conjunction of formulas; one formula stands for itself. -/
def all : List (Formula α) → Formula α
  | [] => const true
  | [f] => f
  | f :: g :: fs => and f (all (g :: fs))

/-- The disjunction of formulas; one formula stands for itself. -/
def any : List (Formula α) → Formula α
  | [] => const false
  | [f] => f
  | f :: g :: fs => or f (any (g :: fs))

def literal (a : α) (value : Bool) : Formula α := if value then var a else not (var a)

/-! ### Printing -/

/-- A printed formula; of conjunctions and disjunctions the operands. -/
inductive Printed where
  | plain (text : String)
  | all (operands : List String)
  | any (operands : List String)

/-- Operands joined by a word: two of them have it in between, more follow it in brackets. -/
def joined (word : String) : List String → String
  | [f, g] => "(" ++ f ++ ") " ++ word ++ " (" ++ g ++ ")"
  | operands => word ++ "(" ++ ", ".intercalate operands ++ ")"

namespace Printed

def text : Printed → String
  | plain s => s
  | all operands => joined "and" operands
  | any operands => joined "or" operands

/-- The operands of a conjunction; any other formula is one operand. -/
def conjuncts : Printed → List String
  | all operands => operands
  | p => [p.text]

/-- The operands of a disjunction; any other formula is one operand. -/
def disjuncts : Printed → List String
  | any operands => operands
  | p => [p.text]

end Printed

/-- A formula printed by its parts. -/
def printed (name : α → String) : Formula α → Printed
  | const b => .plain (if b then "True" else "False")
  | var a => .plain (name a)
  | not (var a) => .plain ("~" ++ name a)
  | not f => .plain ("not(" ++ (f.printed name).text ++ ")")
  | and f g => .all ((f.printed name).conjuncts ++ (g.printed name).conjuncts)
  | or f g => .any ((f.printed name).disjuncts ++ (g.printed name).disjuncts)
  | implies f g => .plain (joined "->" [(f.printed name).text, (g.printed name).text])
  | iff f g => .plain (joined "==" [(f.printed name).text, (g.printed name).text])

def text (name : α → String) (f : Formula α) : String := (f.printed name).text

/-! ### Values of the derived formulas -/

@[simp] theorem eval_literal (v : α → Bool) (a : α) (value : Bool) :
    (literal a value).eval v = (v a == value) := by
  cases value <;> simp [literal, eval]

@[simp] theorem eval_all (v : α → Bool) (fs : List (Formula α)) :
    (all fs).eval v = fs.all (·.eval v) := by
  fun_induction all fs with
  | case1 => rfl
  | case2 f => simp
  | case3 f g fs ih => rw [eval, ih]; rfl

@[simp] theorem eval_any (v : α → Bool) (fs : List (Formula α)) :
    (any fs).eval v = fs.any (·.eval v) := by
  fun_induction any fs with
  | case1 => rfl
  | case2 f => simp
  | case3 f g fs ih => rw [eval, ih]; rfl

theorem satisfies_cons {v : α → Bool} {f : Formula α} {fs : List (Formula α)} :
    Satisfies v (f :: fs) ↔ f.eval v = true ∧ Satisfies v fs := List.forall_mem_cons

theorem satisfies_append {v : α → Bool} {fs gs : List (Formula α)} :
    Satisfies v (fs ++ gs) ↔ Satisfies v fs ∧ Satisfies v gs := List.forall_mem_append

end Formula
end ProductLine
