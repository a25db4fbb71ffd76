import ProductLine.Proofs.Anomaly.Calls

/-! # Explanations that contain each other

The diagnoses of an undisturbed analysis are minimal, but an explanation tells only the rules of one,
and an alternative group has one rule for several constraints. So a diagnosis with some of these
constraints may be explained by the rules of another diagnosis and more (`run_not_irredundant`). This
is all that can be wrong: explanations contain each other only if a rule of theirs is `Ambiguous`
(`run_irredundant`). -/

namespace ProductLine
namespace Anomaly

open Constraint

variable {m : FeatureModel} {config : Config} {w : World} {a₀ : Analyzer}

/-- Constraints that do not say the same have one rule only if it is ambiguous in the model. -/
theorem ambiguous_of_equivocal {s : Store} (hs : s.Faithful m) {rule : String}
    (h : Equivocal s.cf rule) : Ambiguous m rule := by
  obtain ⟨c, hc, d, hd, hrule, hrule', v, hv⟩ := h
  obtain ⟨r, hr, hsource, hown⟩ := hs.single c hc
  obtain ⟨r', hr', hsource', hown'⟩ := hs.single d hd
  obtain ⟨_, ⟨⟩, hfirst⟩ := rule_of_source hrule hsource
  obtain ⟨_, ⟨⟩, hsecond⟩ := rule_of_source hrule' hsource'
  rcases hown with ⟨hkind, hlength⟩ | hown
  · exact .inl ⟨r, hr, hfirst, hkind, hlength⟩
  rcases hown' with ⟨hkind, hlength⟩ | hown'
  · exact .inl ⟨r', hr', hsecond, hkind, hlength⟩
  refine .inr ⟨r, hr, r', hr', hfirst, hsecond, v, ?_⟩
  rw [← hown v, ← hown' v]
  exact fun hiff => hv (Bool.eq_iff_iff.mpr hiff)

namespace Analysis

/-- **Explanations contain each other only if they share an ambiguous rule.** Undisturbed, and with
whatever bounds, an analysis gives each finding explanations of which none contains another one, or
else the two share the rule of an alternative group with several members, or of two relationships that
mean different things. -/
theorem run_irredundant (hquiet : Undisturbed m config w)
    (hstart : start (Analyzer.new m config w) = .ok () a₀) :
    ∀ f ∈ (after run a₀).report.found,
      (f.diagnoses.Pairwise fun rules rules' => rules ⊆ rules' ∨ rules' ⊆ rules →
        ∃ rule ∈ rules, rule ∈ rules' ∧ Ambiguous m rule) ∧
      ((∀ rules ∈ f.diagnoses, ∀ rule ∈ rules, ¬Ambiguous m rule) → f.Irredundant) := by
  obtain ⟨hsound, visited, hvisit⟩ := start_sound hstart
  obtain ⟨s, -, hs, -⟩ := hsound.made
  have hends : (after run a₀).Sound m config w := by
    apply after_of_ensures
    exact (run_ensures hsound hvisit).mono (fun _ _ h => h.2.1) fun _ _ h => h.1.2
  intro f hf
  have hpairs : f.diagnoses.Pairwise fun rules rules' => rules ⊆ rules' ∨ rules' ⊆ rules →
      ∃ rule ∈ rules, rule ∈ rules' ∧ Ambiguous m rule := by
    refine (hends.discerned hquiet s hs f hf).imp fun {rules rules'} h hpart => ?_
    obtain ⟨rule, hrule, hrule', hequivocal⟩ := h hpart
    have hfaithful := (Store.faithful_of_attempt hs).1
    exact ⟨rule, hrule, hrule', ambiguous_of_equivocal hfaithful hequivocal⟩
  refine ⟨hpairs, fun hnone => hpairs.imp_of_mem fun {rules rules'} hmem _ h => ?_⟩
  refine not_or.mp fun hpart => ?_
  obtain ⟨rule, hrule, -, hambiguous⟩ := h hpart
  exact hnone rules hmem rule hrule hambiguous

/-! ### A group whose rule tells too little -/

theorem takes_standard {features : List String}
    (h : features.all fun name => !(Text.points name.toList).any Text.isHalf) :
    Oracle.Settings.standard.Takes features := by
  intro cs hcs
  have hnone : Oracle.unwritable? cs = none := by
    unfold Oracle.unwritable?
    rw [List.findSome?_eq_none_iff]
    intro name hname
    obtain ⟨c, hc, hmem⟩ := List.mem_flatMap.mp hname
    have hwritten := List.all_eq_true.mp h name (hcs c hc hmem)
    rw [Bool.not_eq_true'] at hwritten
    dsimp only
    rw [hwritten]
    rfl
  unfold Oracle.mishap?
  rw [hnone]
  rfl

open FeatureModel in
/-- Adds a root with an alternative group of three, the first of which requires both others. -/
def split : Edit Unit := do
  addFeatures (.list [.text "Root", .text "A", .text "B", .text "C"])
  discard (addRelationship .alternative (.text "Root") (.list [.text "A", .text "B", .text "C"]))
  discard (addConstraint .requires (.text "A") (.text "B"))
  discard (addConstraint .requires (.text "A") (.text "C"))

/-- A model with a dead feature, for two reasons. -/
def splitted : FeatureModel := .edited split (.empty (.text "splitted"))

/-- Only dead features are looked for, without any bound. -/
def deadOnly : Config :=
  { Config.standard with
    limits := .none
    checkConditionallyDead := false
    checkFullMandatory := false
    checkFalseOptional := false
    checkRedundancy := false }

theorem undisturbed_splitted : Undisturbed splitted deadOnly .calm :=
  ⟨⟨rfl, takes_standard (by decide)⟩, idle_calm⟩

theorem start_splitted : start (Analyzer.new splitted deadOnly .calm) =
    .ok () (after start (Analyzer.new splitted deadOnly .calm)) := rfl

theorem found_splitted : ∃ f ∈ (after run (after start
    (Analyzer.new splitted deadOnly .calm))).report.found,
    f.diagnoses = [["requires(A, B)", "requires(A, C)"],
      ["alternative(Root, A,B,C)", "requires(A, C)"],
      ["alternative(Root, A,B,C)", "requires(A, B)"], ["alternative(Root, A,B,C)"]] := by
  decide +kernel

/-- Explanations may contain each other even without any bound. -/
theorem run_not_irredundant : ∃ a₀,
    start (Analyzer.new splitted deadOnly .calm) = .ok () a₀ ∧ Undisturbed splitted deadOnly .calm ∧
      deadOnly.limits = .none ∧ ∃ f ∈ (after run a₀).report.found, ¬f.Irredundant := by
  obtain ⟨f, hf, hdiagnoses⟩ := found_splitted
  refine ⟨_, start_splitted, undisturbed_splitted, rfl, f, hf, fun hirredundant => ?_⟩
  unfold Finding.Irredundant at hirredundant
  rw [hdiagnoses] at hirredundant
  revert hirredundant
  decide

/-- What the explanations that contain each other share is the rule of the group. -/
theorem run_irredundant_splitted : Undisturbed splitted deadOnly .calm ∧
    ∃ a₀, start (Analyzer.new splitted deadOnly .calm) = .ok () a₀ ∧
      ∃ f ∈ (after run a₀).report.found, f.diagnoses.length = 4 ∧
        Ambiguous splitted "alternative(Root, A,B,C)" := by
  obtain ⟨f, hf, hdiagnoses⟩ := found_splitted
  have hpairs := (run_irredundant undisturbed_splitted start_splitted f hf).1
  rw [hdiagnoses] at hpairs
  obtain ⟨rule, -, hrule, hambiguous⟩ := (List.pairwise_cons.mp (List.pairwise_cons.mp hpairs).2).1
    ["alternative(Root, A,B,C)"] (List.mem_cons_of_mem _ (List.mem_singleton_self _))
    (.inr (List.cons_subset_cons _ (List.nil_subset _)))
  rw [List.mem_singleton.mp hrule] at hambiguous
  exact ⟨undisturbed_splitted, _, start_splitted, f, hf, by rw [hdiagnoses]; rfl, hambiguous⟩

end Analysis
end Anomaly
end ProductLine
