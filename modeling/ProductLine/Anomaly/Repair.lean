import ProductLine.Anomaly.Report
import ProductLine.FeatureModel.Product

/-! # Repairs

What an explanation of a finding is to be, said without any search: the finding says that something
cannot be (`Denies`), and without the relationships that the explanation names it can (`Repaired`). A
finding is to be `Irredundant`, too; what stands against that is that a rule may be `Ambiguous`. -/

namespace ProductLine
namespace Anomaly

/-- The relationship has one of the rules. -/
def Named (rules : List String) (r : Relationship) : Prop := ∃ rule ∈ rules, r.rule = .ok rule

/-- Without the relationships that have one of the rules, the model would have a product that is as
the finding says no product of the model is: any at all for a void model; one with a dead feature,
without a full mandatory one, with a conditionally dead one and its partner, without a false
optional one but with the first mandatory feature that requires it. For a redundant constraint it is
one in which the constraint does not hold, itself being left out. -/
def Finding.Repaired (m : FeatureModel) (f : Finding) (rules : List String) : Prop :=
  match f.category with
  | .void => m.Admits (Named rules) fun _ => True
  | .dead => m.Admits (Named rules) fun s => s f.subject = true
  | .fullMandatory => m.Admits (Named rules) fun s => s f.subject = false
  | .conditionallyDead => ∃ partner, f.condition = some partner ∧
    m.Admits (Named rules) fun s => s f.subject = true ∧ s partner = true
  | .falseOptional => ∃ requiring p, m.requiring f.subject = .ok requiring ∧
    requiring.find? (fun q => m.isMandatory q.name) = some p ∧
    m.Admits (Named rules) fun s => s f.subject = false ∧ s p.name = true
  | .redundant => ∃ r ∈ m.crossTree, r.rule = .ok f.subject ∧
    m.Admits (fun r' => r.same r' = true ∨ Named rules r') fun s => ¬r.Holds s

/-- What a finding says: with the relationships of the first kind left out, no product of the model is of
the second kind. A redundant constraint is left out itself, everything else is said of the whole model.
The features that a finding is about are those of the model, and the root is not full mandatory. -/
inductive Finding.Denies (m : FeatureModel) (f : Finding) :
    (Relationship → Prop) → (Selection → Prop) → Prop where
  | void (h : f.category = .void) : Denies m f (fun _ => False) fun _ => True
  | dead (h : f.category = .dead) (hsubject : f.subject ∈ m.names) :
    Denies m f (fun _ => False) fun s => s f.subject = true
  | fullMandatory (h : f.category = .fullMandatory)
    (hsubject : ∀ root, m.root = .ok root → root.name ≠ f.subject) :
    Denies m f (fun _ => False) fun s => s f.subject = false
  | conditionallyDead {partner : String} (h : f.category = .conditionallyDead)
    (hpartner : f.condition = some partner) (hboth : f.subject ∈ m.names ∧ partner ∈ m.names) :
    Denies m f (fun _ => False) fun s => s f.subject = true ∧ s partner = true
  | falseOptional {requiring : List Feature} {p : Feature} (h : f.category = .falseOptional)
    (hrequiring : m.requiring f.subject = .ok requiring)
    (hfirst : requiring.find? (fun q => m.isMandatory q.name) = some p) :
    Denies m f (fun _ => False) fun s => s f.subject = false ∧ s p.name = true
  | redundant {r : Relationship} (h : f.category = .redundant) (hr : r ∈ m.crossTree)
    (hrule : r.rule = .ok f.subject) : Denies m f (fun r' => r.same r' = true) fun s => ¬r.Holds s

/-- What the finding says is so, and it has no explanation exactly if there cannot be one, as what it says
would be so even if all relationships were left out. -/
def Finding.Justified (m : FeatureModel) (f : Finding) : Prop :=
  ∃ skip p, f.Denies m skip p ∧ ¬m.Admits skip p ∧ (f.diagnoses = [] ↔ ¬m.Admits (fun _ => True) p)

/-- Every explanation names relationships, at least one, and none but those of the model. -/
def Finding.Sourced (m : FeatureModel) (f : Finding) : Prop :=
  ∀ rules ∈ f.diagnoses, rules ≠ [] ∧ ∀ rule ∈ rules, ∃ r ∈ m.relationships, r.rule = .ok rule

/-- No explanation contains another one. -/
def Finding.Irredundant (f : Finding) : Prop :=
  f.diagnoses.Pairwise fun rules rules' => ¬rules ⊆ rules' ∧ ¬rules' ⊆ rules

/-- The rule does not tell what is meant: it is that of an alternative group with several members,
which is turned into one constraint for each of them, or of two relationships that mean different
things. -/
def Ambiguous (m : FeatureModel) (rule : String) : Prop :=
  (∃ r ∈ m.relationships, r.rule = .ok rule ∧ r.kind = .alternative ∧ 2 ≤ r.right.length) ∨
    ∃ r ∈ m.relationships, ∃ r' ∈ m.relationships, r.rule = .ok rule ∧ r'.rule = .ok rule ∧
      ∃ s, ¬(r.Holds s ↔ r'.Holds s)

end Anomaly
end ProductLine
