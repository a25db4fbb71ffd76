import ProductLine.Constraint.Encoding
import ProductLine.Constraint.Posting

/-! # The constraint store

A `Store` holds the constraints made of a model: `cf` are those of the relationships, `ac` are those
and the root being selected. Any of them, and others made later, can be posted; the *baseline* is
that exactly `ac` is posted. Constraints are numbered as they are made, those of `ac` from zero on.

`Store.attempt` makes the store of a model. Making it may fail half way, after some of the
constraints have been attached to their relationships, so an `Attempt` tells how far it came;
`Store.ofModel` is its outcome. -/

namespace ProductLine

/-- The variables and constraints of a model, and which constraints are posted. -/
structure Store where
  vars : List String
  cf : List Constraint
  root : Option Constraint
  posting : Posting
  nextId : Nat
deriving Repr

namespace Store

def empty : Store := ⟨[], [], none, .empty, 0⟩

variable (s : Store)

/-- The constraints of the relationships and the selected root. -/
def ac : List Constraint := s.cf ++ s.root.toList

def posted : List Constraint := s.posting.listed

/-- Posts constraints that are not posted yet. -/
def post (cs : List Constraint) : Store := { s with posting := s.posting.post cs }

/-- Takes back posted constraints. -/
def unpost (cs : List Constraint) : Store := { s with posting := s.posting.unpost cs }

def clear : Store := { s with posting := .empty }

/-- Posts the baseline and nothing else. -/
def reset : Store := s.clear.post s.ac

/-- The posted constraints that come from no relationship: the root and what was posted on top. -/
def background : List Constraint := Constraint.subtract s.posted s.cf

/-- Whether exactly the baseline is posted, in order. -/
def atBaseline : Bool := Constraint.ids s.posted == Constraint.ids s.ac

/-- The constraints made of a relationship of the model. -/
def constraintsOf (r : Relationship) : List Constraint := s.cf.filter fun c => c.source.any r.same

/-- The next constraint, and the store that has made it. -/
def make (f : Formula String) (role : Constraint.Role) (source : Option Relationship) :
    Constraint × Store :=
  (⟨s.nextId, f, role, source⟩, { s with nextId := s.nextId + 1 })

/-- The variable that a value names, if there is one. -/
def find? (name : Value) : Except Failure (Option String) :=
  match name.key? with
  | none => .error (.notAName name)
  | some key => .ok (s.vars.find? fun v => decide (.text v = key))

/-- Makes the constraints of one relationship, numbered after those made before. -/
def addAll (role : Constraint.Role) (r : Relationship) (made : List Constraint)
    (fs : List (Formula String)) : List Constraint :=
  made ++ fs.zipIdx.map fun (f, place) => ⟨(made.length + place : Nat), f, role, some r⟩

/-- Makes the constraints of relationships one after the other, and tells what was made before a
failure. -/
def addEach (role : Constraint.Role)
    (formulas : Relationship → Except Failure (List (Formula String))) :
    List Relationship → List Constraint → List Constraint × Option Failure
  | [], made => (made, none)
  | r :: rest, made =>
    match formulas r with
    | .ok fs => addEach role formulas rest (addAll role r made fs)
    | .error e => (made, some e)

/-- Makes the constraints of all relationships of a model over its features, up to a failure. -/
def encode (features : List String) (m : FeatureModel) : List Constraint × Option Failure :=
  match addEach .relationship (Encoding.structural features) m.structural [] with
  | (made, none) =>
    addEach .crossTree (fun r => do return [← Encoding.crossTree features r]) m.crossTree made
  | failed => failed

/-- How far the making of a store came. -/
structure Attempt where
  /-- The features that the root does not lead to, if the variables were made. -/
  unreachable : List String
  /-- The constraints attached to the relationships, if any were to be. -/
  attached : Option (List Constraint)
  outcome : Except Failure Store

/-- The features in visiting order and those that the root does not lead to. -/
def survey (m : FeatureModel) (o : FeatureOrder) : Except Failure (List String × List String) := do
  let visited ← m.order o
  let unreachable ← m.unreachable
  return (visited.map (·.name), unreachable)

/-- Makes the store of a model, with its variables in an order of the features. -/
def attempt (m : FeatureModel) (o : FeatureOrder) : Attempt :=
  match m.features with
  | [] => ⟨[], none, .error .noFeatures⟩
  | root :: _ =>
    match survey m o with
    | .error e => ⟨[], none, .error e⟩
    | .ok (vars, unreachable) =>
      match encode vars m with
      | (made, some e) => ⟨unreachable, some made, .error e⟩
      | (made, none) =>
        let selected : Constraint := ⟨made.length, .var root.name, .root, none⟩
        ⟨unreachable, some made, .ok (reset ⟨vars, made, some selected, .empty, made.length + 1⟩)⟩

def ofModel (m : FeatureModel) (o : FeatureOrder) : Except Failure Store := (attempt m o).outcome

@[simp] theorem cf_post (cs : List Constraint) : (s.post cs).cf = s.cf := rfl
@[simp] theorem ac_post (cs : List Constraint) : (s.post cs).ac = s.ac := rfl
@[simp] theorem cf_unpost (cs : List Constraint) : (s.unpost cs).cf = s.cf := rfl
@[simp] theorem ac_unpost (cs : List Constraint) : (s.unpost cs).ac = s.ac := rfl
@[simp] theorem cf_clear : s.clear.cf = s.cf := rfl
@[simp] theorem ac_clear : s.clear.ac = s.ac := rfl
@[simp] theorem cf_reset : s.reset.cf = s.cf := rfl
@[simp] theorem ac_reset : s.reset.ac = s.ac := rfl
@[simp] theorem posting_post (cs : List Constraint) :
    (s.post cs).posting = s.posting.post cs := rfl
@[simp] theorem posting_unpost (cs : List Constraint) :
    (s.unpost cs).posting = s.posting.unpost cs := rfl
@[simp] theorem posting_clear : s.clear.posting = .empty := rfl
@[simp] theorem posting_reset : s.reset.posting = Posting.empty.post s.ac := rfl

end Store
end ProductLine
