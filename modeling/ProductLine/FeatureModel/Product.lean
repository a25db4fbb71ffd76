import ProductLine.FeatureModel.Basic

/-! # Products

A product of a feature model is a selection of its features with the root in which every
relationship holds. This is what the relationships mean, said without any constraint or formula:

* `mandatory(p, c)`: `p` is selected exactly if `c` is;
* `optional(c, p)`: `c` is selected only with `p`;
* `or(p, c…)`: `p` is selected exactly if some member is;
* `alternative(p, c…)`: exactly one place of the right side is selected if `p` is, and none
  otherwise;
* `requires(a, b)`: `a` is selected only with `b`;
* `excludes(a, b)`: not both are selected. -/

namespace ProductLine

/-- Which features are selected, by their names. -/
abbrev Selection := String → Bool

namespace Relationship

/-- Whether a side of a relationship names a selected feature. -/
def selects (s : Selection) : Value → Bool
  | .text name => s name
  | _ => false

/-- Whether the relationship holds in a selection. Relationships that are no groups look at the
first feature on the right. -/
def Holds (r : Relationship) (s : Selection) : Prop :=
  match r.kind with
  | .mandatory => ∀ c ∈ r.right.head?, selects s r.left = selects s c
  | .optional => ∀ p ∈ r.right.head?, selects s r.left = true → selects s p = true
  | .or => selects s r.left = r.right.any (selects s)
  | .alternative => r.right.countP (selects s) = if selects s r.left then 1 else 0
  | .requires => ∀ b ∈ r.right.head?, selects s r.left = true → selects s b = true
  | .excludes => ∀ b ∈ r.right.head?, ¬(selects s r.left = true ∧ selects s b = true)

instance (r : Relationship) (s : Selection) : Decidable (r.Holds s) := by
  unfold Holds; split <;> infer_instance

end Relationship

namespace FeatureModel

def IsProduct (m : FeatureModel) (s : Selection) : Prop :=
  (∀ name, s name = true → name ∈ m.names) ∧
    (∃ root ∈ m.features.head?, s root.name = true) ∧ ∀ r ∈ m.relationships, r.Holds s

def HasProduct (m : FeatureModel) : Prop := ∃ s, m.IsProduct s

def IsDead (m : FeatureModel) (name : String) : Prop := ∀ s, m.IsProduct s → s name = false

def IsFullMandatory (m : FeatureModel) (name : String) : Prop := ∀ s, m.IsProduct s → s name = true

/-- Whether some product has the values: features that it has and features that it has not. -/
def Allows (m : FeatureModel) (values : List (String × Bool)) : Prop :=
  ∃ s, m.IsProduct s ∧ ∀ x ∈ values, s x.1 = x.2

/-- Whether the model would have a product with a property if some relationships were left out. -/
def Admits (m : FeatureModel) (out : Relationship → Prop) (p : Selection → Prop) : Prop :=
  ∃ s, (∀ name, s name = true → name ∈ m.names) ∧
    (∃ root ∈ m.features.head?, s root.name = true) ∧
    (∀ r ∈ m.relationships, ¬out r → r.Holds s) ∧ p s

/-- The model with the cross-tree constraint at a place left out. -/
def without (m : FeatureModel) (place : Nat) : FeatureModel :=
  { m with crossTree := m.crossTree.eraseIdx place }

/-- Whether the model has the same products without the cross-tree constraint at a place. -/
def IsRedundant (m : FeatureModel) (place : Nat) : Prop :=
  ∀ s, (m.without place).IsProduct s ↔ m.IsProduct s

theorem not_allows_true_iff {m : FeatureModel} {name : String} :
    ¬m.Allows [(name, true)] ↔ m.IsDead name := by
  unfold Allows IsDead
  rw [not_exists]
  refine forall_congr' fun s => ?_
  rw [not_and, List.forall_mem_singleton, Bool.not_eq_true]

theorem not_allows_false_iff {m : FeatureModel} {name : String} :
    ¬m.Allows [(name, false)] ↔ m.IsFullMandatory name := by
  unfold Allows IsFullMandatory
  rw [not_exists]
  refine forall_congr' fun s => ?_
  rw [not_and, List.forall_mem_singleton, Bool.not_eq_false]

/-- Nothing is left out where a product is asked for. -/
theorem allows_iff_admits {m : FeatureModel} {values : List (String × Bool)} :
    m.Allows values ↔ m.Admits (fun _ => False) fun s => ∀ x ∈ values, s x.1 = x.2 := by
  unfold Allows Admits IsProduct
  simp only [not_false_eq_true, true_imp_iff, and_assoc]

theorem Admits.mono {m : FeatureModel} {out out' : Relationship → Prop} {p q : Selection → Prop}
    (h : m.Admits out p) (hout : ∀ r ∈ m.relationships, out r → out' r) (hp : ∀ s, p s → q s) :
    m.Admits out' q := by
  obtain ⟨s, hnames, hroot, hrel, hs⟩ := h
  exact ⟨s, hnames, hroot, fun r hr hn => hrel r hr fun hr' => hn (hout r hr hr'), hp s hs⟩

end FeatureModel
end ProductLine
