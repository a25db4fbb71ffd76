import ProductLine.FeatureModel.Basic

/-! # Sample models

Ten small models, one for every kind of anomaly and some more, to try an analysis on.
`FeatureModel.sample?` finds one by its name. -/

namespace ProductLine
namespace FeatureModel

/-- A model as lists of names: the features, and for every relationship its kind, left side and
right side. -/
structure Sample where
  name : String
  features : List String
  relationships : List (Relationship.Kind × String × List String)

def Sample.model (s : Sample) : FeatureModel :=
  s.relationships.foldl
    (fun m (kind, left, right) =>
      m.appendUnchecked kind.isCrossTree kind (.text left) (right.map .text))
    { empty (.text s.name) with features := s.features.map fun name => ⟨name, []⟩ }

def samples : List Sample := [
  -- a constraint on a feature that does not exist
  ⟨"unknown_reference", ["Root"], [(.requires, "Root", ["Ghost"])]⟩,
  -- B is optional, but excluded by A, which every product has
  ⟨"dead_feature", ["Root", "A", "B"],
    [(.mandatory, "Root", ["A"]), (.optional, "B", ["Root"]), (.excludes, "A", ["B"])]⟩,
  ⟨"full_mandatory", ["Root", "A", "B"], [(.optional, "A", ["Root"]), (.requires, "Root", ["A"])]⟩,
  ⟨"redundant_constraint", ["Root", "A"],
    [(.mandatory, "Root", ["A"]), (.requires, "Root", ["A"])]⟩,
  ⟨"consistent", ["Root", "A", "B"], [(.optional, "A", ["Root"]), (.optional, "B", ["Root"])]⟩,
  ⟨"void", ["Root", "A"], [(.mandatory, "Root", ["A"]), (.excludes, "Root", ["A"])]⟩,
  ⟨"false_optional", ["Root", "A", "B"],
    [(.mandatory, "Root", ["A"]), (.optional, "B", ["Root"]), (.requires, "A", ["B"])]⟩,
  ⟨"conditionally_dead", ["Root", "A", "B"],
    [(.optional, "A", ["Root"]), (.optional, "B", ["Root"]), (.excludes, "A", ["B"])]⟩,
  -- X requires its sibling in an alternative group, so X can never be chosen
  ⟨"alternative_group", ["Root", "X", "Y"],
    [(.alternative, "Root", ["X", "Y"]), (.requires, "X", ["Y"])]⟩,
  -- one anomaly of every kind: Camera is dead, GPS false optional, Bluetooth and with it
  -- Connectivity full mandatory, NFC and WiFi exclude each other, and that Battery requires Screen
  -- is redundant
  ⟨"smartwatch",
    ["Smartwatch", "Screen", "Battery", "Connectivity", "Camera", "GPS", "Bluetooth", "NFC", "WiFi",
      "Strap", "Leather", "Metal"],
    [(.mandatory, "Smartwatch", ["Screen"]), (.mandatory, "Smartwatch", ["Battery"]),
      (.optional, "Connectivity", ["Smartwatch"]), (.optional, "Camera", ["Smartwatch"]),
      (.optional, "GPS", ["Smartwatch"]), (.or, "Connectivity", ["Bluetooth", "NFC", "WiFi"]),
      (.optional, "Strap", ["Smartwatch"]), (.alternative, "Strap", ["Leather", "Metal"]),
      (.excludes, "Screen", ["Camera"]), (.requires, "Battery", ["GPS"]),
      (.requires, "Smartwatch", ["Bluetooth"]), (.excludes, "NFC", ["WiFi"]),
      (.requires, "Battery", ["Screen"])]⟩]

def sample? (name : String) : Option FeatureModel :=
  (samples.find? (·.name == name)).map Sample.model

/-- The names of the sample models in alphabetical order. -/
def sampleNames : List String := (samples.map (·.name)).mergeSort (· ≤ ·)

end FeatureModel
end ProductLine
