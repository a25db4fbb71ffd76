import ProductLine.Anomaly.Analyzer
import ProductLine.FeatureModel.Product

/-! # Verdicts

What a report is to say of a model, said without any search: about void models, dead features and
full mandatory ones, about conditionally dead features with their partners, about false optional
features, and about redundant constraints. -/

namespace ProductLine
namespace Anomaly

open Classical in
/-- The report calls the model consistent exactly if it has a product. If it has none, that is all
that is found. If it has one, the dead and the full mandatory ones among the named features are
found, each once and in order, as far as they are looked for. -/
structure Report.Exact (m : FeatureModel) (config : Config) (names : List String) (r : Report) :
    Prop where
  consistent : r.consistent = true ↔ m.HasProduct
  void : ¬m.HasProduct → ∃ f, r.found = [f] ∧ f.category = .void
  notVoid : m.HasProduct → r.findings .void = []
  dead : m.HasProduct → config.checkDead = true →
    r.subjects .dead = names.filter fun name => m.IsDead name
  fullMandatory : m.HasProduct → config.checkFullMandatory = true →
    r.subjects .fullMandatory = names.filter fun name => m.IsFullMandatory name

/-- What a finding is about, and under which condition. -/
def Finding.entry (f : Finding) : String × Option String := (f.subject, f.condition)

open Classical in
/-- Whether no product has both features. -/
noncomputable def clash (m : FeatureModel) (f g : String) : Bool :=
  decide (¬m.Allows [(f, true), (g, true)])

open Classical in
/-- Those of the named features that are optional and in some product. -/
noncomputable def living (m : FeatureModel) (names : List String) : List String :=
  names.filter fun name => m.isOptional name = true ∧ m.Allows [(name, true)]

/-- Those of the named features of which another one is in no product together with them, each with
the first such one. -/
noncomputable def rivals (m : FeatureModel) (names : List String) : List (String × Option String) :=
  names.filterMap fun f =>
    (names.find? fun g => decide (g ≠ f) && clash m f g).map fun g => (f, some g)

/-- The feature is optional, being on the left of an optional relationship or a member of a group, and it
is required by a feature on the right of a mandatory relationship. Nothing else in the model matters. -/
def MandatorilyRequired (m : FeatureModel) (name : String) : Prop :=
  (∃ r ∈ m.structural, r.kind = .optional ∧ r.left = .text name ∨
    r.kind.isGroup = true ∧ .text name ∈ r.right) ∧
  ∃ r ∈ m.crossTree, r.kind = .requires ∧ .text name ∈ r.right ∧
    ∃ p, r.left = .text p ∧ ∃ s ∈ m.structural, s.kind = .mandatory ∧ .text p ∈ s.right

open Classical in
/-- The rules of the redundant constraints in their order, each constraint being judged by itself. -/
noncomputable def redundantRules (m : FeatureModel) : Except Failure (List String) :=
  (m.crossTree.zipIdx.filter fun x => m.IsRedundant x.2).mapM fun x => x.1.rule

end Anomaly
end ProductLine
