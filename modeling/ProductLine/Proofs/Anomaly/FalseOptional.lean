import ProductLine.Proofs.Anomaly.Calls
import ProductLine.Proofs.FeatureModel.Parents

/-! # What it means to be false optional

The search for false optional features takes a requiring feature for mandatory if it is the child of
some mandatory relationship. Such a feature need not be in every product, as the parent in that
relationship may be optional itself; and so a feature may be reported that is missing in some products
with its parent (`not_checkFalseOptional_parents`). What is reported is in every product with the
requiring feature, and thus in every product with a feature that brings the requiring one
(`checkFalseOptional_brought`). -/

namespace ProductLine
namespace Anomaly
namespace Analysis

open FeatureModel Workbench

variable {m : FeatureModel} {config : Config} {w : World} {a a₀ : Analyzer} {s : Selection}
  {name : String} {p : Feature}

theorem Insists.selected (h : Insists m name p) (hs : m.IsProduct s) (hp : s p.name = true) :
    s name = true := by
  by_contra hnot
  rw [Bool.not_eq_true] at hnot
  exact h.notWithout ⟨s, hs, List.forall_mem_cons.mpr ⟨hnot, List.forall_mem_singleton.mpr hp⟩⟩

theorem selected_of_root {root : Feature} (hm : m.Arranged) (hroot : root ∈ m.features.head?)
    (h : m.Brings root.name name) (hs : m.IsProduct s) : s name = true := by
  obtain ⟨root', hroot', hselected⟩ := hs.2.1
  cases Option.some.inj (hroot.symm.trans hroot')
  exact h.selected hm hs hselected

theorem InsistedOn.insists {names : List String} {fs : List Finding} (h : InsistedOn m names fs) :
    ∀ fd ∈ fs, ∃ p, Insists m fd.subject p := by
  classical
  intro fd hfd
  have hmem : fd.subject ∈ fs.map (·.subject) := List.mem_map_of_mem hfd
  rw [Picks.map_eq h, List.mem_filter, decide_eq_true_iff] at hmem
  exact hmem.2

/-- **What is reported as false optional.** Called without failures of the engine and without being
called off, the search returns. Every feature that it reports is optional, and the first mandatory
feature that requires it is in no product without it. So it is in every product with a feature, such as
its parent, from which the requiring one can be reached by a chain of tree parents, mandatory children
and required features; and it is in every product at all if the root leads there. -/
theorem checkFalseOptional_brought (hmade : m.Made) (hlimits : config.limits.Numeric)
    (hstart : start (Analyzer.new m config w) = .ok () a₀) (ha : Reached a₀ a) (hidle : w.Idle)
    (hclock : ¬w.Overran (after checkFalseOptional a).bench.world)
    (hfaults : (after checkFalseOptional a).bench.failures = []) :
    ∃ a' fs, checkFalseOptional a = .ok () a' ∧ a'.report.found = a.report.found ++ fs ∧
      (∀ fd ∈ fs, fd.category = .falseOptional) ∧
      ∀ fd ∈ fs, ∃ p, Insists m fd.subject p ∧
        ∀ q, m.Brings q p.name ∨ (∃ root ∈ m.features.head?, m.Brings root.name p.name) →
          ∀ s, m.IsProduct s → s q = true → s fd.subject = true := by
  obtain ⟨hsound₀, visited, hvisit⟩ := start_sound hstart
  obtain ⟨a', fs, hr, hfound, hcategory, hfs⟩ := returns_of_detects hlimits
    (checkFalseOptional_detects (ha.sound hsound₀ hvisit) hvisit) hclock hidle hfaults
  refine ⟨a', fs, hr, hfound, hcategory, fun fd hfd => ?_⟩
  obtain ⟨p, hp⟩ := hfs.insists fd hfd
  refine ⟨p, hp, fun q hq s hs hselected => hp.selected hs ?_⟩
  rcases hq with hq | ⟨root, hroot, hq⟩
  · exact hq.selected hmade.arranged hs hselected
  · exact selected_of_root hmade.arranged hroot hq hs

/-- Adds a root, an optional feature with a mandatory and an optional child, and another optional
feature; the mandatory child requires both the optional child and the other feature. -/
def shelter : Edit Unit := do
  addFeatures (.list [.text "Root", .text "A", .text "P", .text "F", .text "G"])
  discard (addRelationship .optional (.text "A") (.text "Root"))
  discard (addRelationship .mandatory (.text "A") (.text "P"))
  discard (addRelationship .optional (.text "F") (.text "Root"))
  discard (addRelationship .optional (.text "G") (.text "A"))
  discard (addConstraint .requires (.text "P") (.text "F"))
  discard (addConstraint .requires (.text "P") (.text "G"))

/-- A model with a mandatory feature that not all products have. -/
def sheltered : FeatureModel := .edited shelter (.empty (.text "sheltered"))

theorem made_sheltered : sheltered.Made := by
  have hmakes : Makes shelter := by
    unfold shelter
    apply Ensures.bind (makes_addFeatures _)
    intro _
    apply Ensures.bind (Ensures.discard (makes_addRelationship _ _ _))
    intro _
    apply Ensures.bind (Ensures.discard (makes_addRelationship _ _ _))
    intro _
    apply Ensures.bind (Ensures.discard (makes_addRelationship _ _ _))
    intro _
    apply Ensures.bind (Ensures.discard (makes_addRelationship _ _ _))
    intro _
    apply Ensures.bind (Ensures.discard (makes_addConstraint _ _ _))
    intro _
    exact Ensures.discard (makes_addConstraint _ _ _)
  exact hmakes.made (.empty _)

theorem isProduct_sheltered : sheltered.IsProduct fun name => name == "Root" := by
  refine ⟨fun name hname => ?_, by decide, by decide⟩
  rw [beq_iff_eq] at hname
  rw [hname]
  decide

def shelterer : Analyzer := after start (Analyzer.new sheltered .standard .calm)

theorem start_shelterer : start (Analyzer.new sheltered .standard .calm) = .ok () shelterer := rfl

theorem probed_shelterer :
    checkFalseOptional shelterer = .ok () (after checkFalseOptional shelterer) ∧
      (after checkFalseOptional shelterer).bench.failures = [] ∧
      (after checkFalseOptional shelterer).report.found.map (·.subject) = ["F", "G"] ∧
      (after checkFalseOptional shelterer).report.subjects .falseOptional = ["F", "G"] :=
  ok_after_and (P := fun a => a.bench.failures = [] ∧ a.report.found.map (·.subject) = ["F", "G"] ∧
    a.report.subjects .falseOptional = ["F", "G"]) (by decide +kernel)

/-- What is reported need not be in every product with its parent: `F` is reported, and there is a
product of the root alone. -/
theorem not_checkFalseOptional_parents : ¬∀ (m : FeatureModel) (config : Config) (w : World)
    (a₀ a : Analyzer), m.Made → m.HasProduct → config.limits.Numeric → w.Idle → w.faults = [] →
      start (Analyzer.new m config w) = .ok () a₀ → checkFalseOptional a₀ = .ok () a →
      a.bench.failures = [] → ∀ f ∈ a.report.subjects .falseOptional,
        ∀ q, m.HasParent f q → ∀ s, m.IsProduct s → s q = true → s f = true := by
  intro h
  obtain ⟨hreturns, hfailures, -, hsubjects⟩ := probed_shelterer
  have hreported : "F" ∈ (after checkFalseOptional shelterer).report.subjects .falseOptional := by
    rw [hsubjects]
    exact List.mem_cons_self
  have hparent : sheltered.HasParent "F" "Root" := ⟨_, rfl, by decide⟩
  have hselected := h sheltered .standard .calm shelterer _ made_sheltered ⟨_, isProduct_sheltered⟩
    numeric_standard idle_calm rfl start_shelterer hreturns hfailures "F" hreported
    "Root" hparent _ isProduct_sheltered rfl
  exact absurd hselected (by decide)

theorem brings_sheltered : sheltered.Brings "A" "P" :=
  .along .self (r := ⟨some 1, .mandatory, .text "A", [.text "P"]⟩)
    (List.mem_cons_of_mem _ List.mem_cons_self) (.inl rfl) rfl rfl

/-- `A` is the parent of `G` and brings `P`, which requires `G`. -/
theorem checkFalseOptional_brought_sheltered : ∃ a, checkFalseOptional shelterer = .ok () a ∧
    a.report.subjects .falseOptional = ["F", "G"] ∧ sheltered.HasParent "G" "A" ∧
    ∀ s, sheltered.IsProduct s → s "A" = true → s "G" = true := by
  obtain ⟨-, hfailures, hfs, hreported⟩ := probed_shelterer
  obtain ⟨a, fs, hr, hfound, -, hbrought⟩ := checkFalseOptional_brought made_sheltered
    numeric_standard start_shelterer .start idle_calm (World.not_overran_of_still rfl rfl) hfailures
  obtain rfl : after checkFalseOptional shelterer = a := by rw [after, hr]
  have hsubjects : fs.map (·.subject) = ["F", "G"] := by
    have hnone : shelterer.report.found = [] := rfl
    rw [hnone, List.nil_append] at hfound
    rw [← hfound, hfs]
  obtain ⟨fd, hfd, hsubject⟩ : ∃ fd ∈ fs, fd.subject = "G" := by
    rw [← List.mem_map, hsubjects]
    exact List.mem_cons_of_mem _ List.mem_cons_self
  obtain ⟨p, hp, hall⟩ := hbrought fd hfd
  rw [hsubject] at hp hall
  have hrequiring : sheltered.requiring "G" = .ok [⟨"P", []⟩] := rfl
  obtain rfl : (⟨"P", []⟩ : Feature) = p := hp.unique hrequiring (by decide)
  exact ⟨_, hr, hreported, ⟨_, rfl, by decide⟩, hall "A" (.inl brings_sheltered)⟩

end Analysis
end Anomaly
end ProductLine
