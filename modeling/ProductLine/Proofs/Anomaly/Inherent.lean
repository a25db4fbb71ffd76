import ProductLine.Proofs.Anomaly.Irredundant

/-! # Findings without explanations

What a probe found to be impossible is what is diagnosed then, so an undisturbed analysis finds an
explanation unless there is none: unless what was found would be impossible with the root alone, without any
relationship (`run_justified`). This can be so only of a false optional feature, as one that requires itself,
and of a redundant constraint, as one that always holds. What the other findings deny could be if it were
for the root alone (`Finding.Denies.admits`), so all of them are explained. -/

namespace ProductLine
namespace Anomaly

variable {m : FeatureModel} {config : Config} {w : World} {a a₀ : Analyzer} {root : Feature}
  {rest : List Feature}

/-- Without all its relationships a model has the selections of its features with the root. -/
theorem admits_of_selection {p : Selection → Prop} (hm : m.features = root :: rest) (s : Selection)
    (hnames : ∀ name, s name = true → name ∈ m.names) (hroot : s root.name = true) (hp : p s) :
    m.Admits (fun _ => True) p :=
  ⟨s, hnames, ⟨root, by rw [hm, List.head?_cons, Option.mem_some], hroot⟩,
    fun _ _ hkept => absurd trivial hkept, hp⟩

/-- What is denied of a model, of single features or of two that could go together is not impossible by
itself: the selection of all features, or for a full mandatory feature that of the root, is as denied. -/
theorem Finding.Denies.admits {f : Finding} {skip : Relationship → Prop} {p : Selection → Prop}
    (h : f.Denies m skip p) (hm : m.features = root :: rest) (hoptional : f.category ≠ .falseOptional)
    (hredundant : f.category ≠ .redundant) : m.Admits (fun _ => True) p := by
  have hroot : root.name ∈ m.names := by
    rw [FeatureModel.names, hm, List.map_cons]
    exact List.mem_cons_self
  have hall : p (fun name => decide (name ∈ m.names)) → m.Admits (fun _ => True) p :=
    admits_of_selection hm _ (fun _ => of_decide_eq_true) (decide_eq_true hroot)
  cases h with
  | void _ => exact hall trivial
  | dead _ hsubject => exact hall (decide_eq_true hsubject)
  | fullMandatory _ hsubject =>
    refine admits_of_selection hm (fun name => decide (name = root.name)) ?_ (decide_eq_true rfl) ?_
    · intro name hname
      exact of_decide_eq_true hname ▸ hroot
    · refine decide_eq_false (hsubject root ?_).symm
      rw [FeatureModel.root, hm]
  | conditionallyDead _ _ hboth =>
    exact hall ⟨decide_eq_true hboth.1, decide_eq_true hboth.2⟩
  | falseOptional h _ _ => exact absurd h hoptional
  | redundant h _ _ => exact absurd h hredundant

namespace Analysis

/-- **A finding has no explanation exactly if it needs none.** Undisturbed, and with whatever bounds, order
of the candidates and clock, every analysis reports only what is so, and leaves a finding without any
explanation exactly if it would be so with the root alone. So every finding has some that is not about a
false optional feature or a redundant constraint. Every explanation names relationships of the model, at
least one. This is so of the first analysis and of those after other calls, and wherever one ends. -/
theorem run_justified (hquiet : Undisturbed m config w)
    (hstart : start (Analyzer.new m config w) = .ok () a₀) (ha : Reached a₀ a) :
    ∀ f ∈ (after run a).report.found, f.Justified m ∧
      (f.category ≠ .falseOptional → f.category ≠ .redundant → f.diagnoses ≠ []) ∧ f.Sourced m := by
  obtain ⟨hsound, visited, hvisit⟩ := start_sound hstart
  obtain ⟨root, rest, -, hm, -, -⟩ := FeatureModel.nonRoot_eq_ok hvisit
  have hends : (after run a).Sound m config w := ha.run.sound hsound hvisit
  intro f hf
  have hjustified := hends.justified hquiet f hf
  refine ⟨hjustified, ?_, hends.sourced f hf⟩
  intro hoptional hredundant hnone
  obtain ⟨skip, p, hdenies, -, hiff⟩ := hjustified
  exact hiff.mp hnone (hdenies.admits hm hoptional hredundant)

open FeatureModel in
/-- Adds a root, a feature `A` that is mandatory, optional and required by itself, and a feature `B` that it
excludes. -/
def circle : Edit Unit := do
  addFeatures (.list [.text "Root", .text "A", .text "B"])
  discard (addRelationship .mandatory (.text "Root") (.text "A"))
  discard (addRelationship .optional (.text "A") (.text "Root"))
  discard (addRelationship .optional (.text "B") (.text "Root"))
  discard (addConstraint .requires (.text "A") (.text "A"))
  discard (addConstraint .excludes (.text "A") (.text "B"))

/-- A model with defects that are explained and others that need no explanation. -/
def circled : FeatureModel := .edited circle (.empty (.text "circled"))

theorem undisturbed_circled : Undisturbed circled .standard .calm :=
  ⟨⟨rfl, takes_standard (by decide)⟩, idle_calm⟩

theorem start_circled : start (Analyzer.new circled .standard .calm) =
    .ok () (after start (Analyzer.new circled .standard .calm)) := rfl

/-- No selection has `A`, which requires itself, without `A`. So nothing explains that `A` is false optional,
and nothing that the constraint is redundant. -/
theorem found_circled :
    ((after run (after start (Analyzer.new circled .standard .calm))).report.found.map
      fun f : Finding => (f.category, f.subject, f.diagnoses)) =
      [(.dead, "B", [["excludes(A, B)"], ["mandatory(Root, A)"]]),
        (.fullMandatory, "A", [["mandatory(Root, A)"]]), (.falseOptional, "A", []),
        (.redundant, "requires(A, A)", [])] := by
  decide +kernel

/-- The two findings without explanations are inherent. -/
theorem run_justified_circled : Undisturbed circled .standard .calm ∧ ∃ a₀,
    start (Analyzer.new circled .standard .calm) = .ok () a₀ ∧
      (after run a₀).report.found.map (fun f : Finding => decide (f.diagnoses = [])) =
        [false, false, true, true] ∧
      ∀ f ∈ (after run a₀).report.found, f.Justified circled ∧ f.Sourced circled := by
  refine ⟨undisturbed_circled, _, start_circled, ?_, fun f hf => ?_⟩
  · have hfound := congrArg (List.map fun x : Category × String × List (List String) =>
      decide (x.2.2 = [])) found_circled
    rwa [List.map_map] at hfound
  · have hjustified := run_justified undisturbed_circled start_circled .start f hf
    exact ⟨hjustified.1, hjustified.2.2⟩

end Analysis
end Anomaly
end ProductLine
