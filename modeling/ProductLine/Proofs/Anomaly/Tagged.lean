import ProductLine.Proofs.Anomaly.Used

/-! # Tags and findings

An analysis tags a feature in the model and adds the finding to the report a little later, and it may be
called off at any check, or be told wrong answers. But between the two nothing can stop it, so wherever
it ends, the tags in the model and the findings in the report say the same (`run_tags`). -/

namespace ProductLine
namespace Anomaly

variable {m : FeatureModel} {config : Config} {w : World} {a a₀ : Analyzer}
  {c c' : Category} {t : Feature.Anomaly} {name : String}

/-! ### Labels of a report -/

theorem Category.eq_of_tag? (h : c.tag? = some t) (h' : c'.tag? = some t) : c' = c := by
  cases c <;> cases h <;> cases c' <;> cases h' <;> rfl

theorem mem_subjects_iff (h : c.tag? = some t) {r : Report} :
    name ∈ r.subjects c ↔ (t, name) ∈ labels r.found := by
  unfold Report.subjects Report.findings
  rw [mem_labels, List.mem_map]
  refine exists_congr fun f => ?_
  rw [List.mem_filter, decide_eq_true_eq, and_assoc]
  refine and_congr_right fun _ => ⟨fun hf => ⟨hf.2, hf.1 ▸ h⟩, fun hf => ⟨?_, hf.1⟩⟩
  exact Category.eq_of_tag? h hf.2

theorem map_subjects (h : c.tag? = some t) (r : Report) :
    (r.subjects c).map (Prod.mk t) = labels (r.findings c) := by
  unfold Report.subjects labels Finding.label?
  rw [List.map_map, ← List.filterMap_eq_map]
  refine List.filterMap_congr fun f hf => ?_
  have hc : f.category = c := of_decide_eq_true (List.mem_filter.mp hf).2
  rw [hc, h]
  rfl

theorem subjects_nodup (h : c.tag? = some t) {r : Report} (hlabels : (labels r.found).Nodup) :
    (r.subjects c).Nodup := by
  refine List.Nodup.of_map (Prod.mk t) ?_
  rw [map_subjects h]
  exact hlabels.sublist (List.filter_sublist.filterMap _)

theorem allLabels_nodup {names : List String} (h : names.Nodup) : (allLabels names).Nodup :=
  List.Nodup.product (by decide) h

theorem mem_of_mem_allLabels {names : List String} (h : (t, name) ∈ allLabels names) : name ∈ names :=
  (List.mem_product.mp h).2

/-! ### Tags of a model -/

theorem mem_tags_iff {n : FeatureModel} (hnames : n.names.Nodup) {f : Feature} (hf : f ∈ n.features) :
    t ∈ f.tags ↔ n.hasTag f.name t = true := by
  obtain ⟨g, hg⟩ := Option.isSome_iff_exists.mp
    (FeatureModel.feature?_isSome_iff.mpr (List.mem_map_of_mem hf))
  obtain ⟨hmem, hname⟩ := FeatureModel.of_feature?_eq_some hg
  obtain rfl : g = f := List.inj_on_of_nodup_map hnames hmem hf hname
  rw [FeatureModel.hasTag_iff, hg]
  simp

namespace Analysis

open Workbench

/-- **Tags and findings agree wherever an analysis ends.** Whether it returns, is called off or fails
otherwise, with whatever faults of the engine, and whatever the analyzer was used for before: a feature
has a tag exactly if there is a finding of the tag's category about it, in no category are there two
about one feature, and there is none about the root. If dead features are looked for, no dead feature is
conditionally dead. What is returned is the report that is left. -/
theorem run_tags (hnames : m.names.Nodup) (hstart : start (Analyzer.new m config w) = .ok () a₀)
    (ha : Used a₀ a) :
    (∀ r b, run a = .ok r b → r = b.report) ∧ (after run a).bench.model.names = m.names ∧
      (∀ c t, c.tag? = some t →
        (∀ f ∈ (after run a).bench.model.features,
          t ∈ f.tags ↔ f.name ∈ (after run a).report.subjects c) ∧
        ((after run a).report.subjects c).Nodup ∧
        ∀ root, m.root = .ok root → root.name ∉ (after run a).report.subjects c) ∧
      (config.checkDead = true → ∀ f ∈ (after run a).bench.model.features,
        ¬(.dead ∈ f.tags ∧ .conditionallyDead ∈ f.tags)) := by
  obtain ⟨s, hs, hbaseline₀, -⟩ := start_atBaseline hstart
  have hbaseline := ha.atBaseline hs hbaseline₀
  obtain ⟨visited, hvisit⟩ := Store.nonRoot_of_attempt hs
  have hrun := run_tallied hs ⟨visited, hvisit, rfl⟩ hbaseline
  have htallied := after_of_ensures (hrun.weaken fun _ _ h => h.2)
  generalize after run a = b at htallied ⊢
  have hbnames : b.bench.model.names = m.names := htallied.alike.names.symm
  have hnew : a.renewed.AtBaseline m config s :=
    { hbaseline with alike := hbaseline.alike.trans (.clearTags _) }
  have hlabels : (labels b.report.found).Subperm (allLabels (visited.map (·.name))) := by
    obtain ⟨fs, hfound, -, hsub⟩ := htallied.found
    rw [hfound]
    exact hsub
  have htag : ∀ f ∈ b.bench.model.features, ∀ t, t ∈ f.tags ↔ (t, f.name) ∈ labels b.report.found := by
    intro f hf t
    have hname : f.name ∈ m.names := hbnames ▸ List.mem_map_of_mem hf
    rw [mem_tags_iff (hbnames.symm ▸ hnames) hf, hasTag_iff_of_grown htallied.toGrown hnew rfl hname]
    refine or_iff_right fun hbefore => ?_
    exact Bool.false_ne_true ((FeatureModel.hasTag_clearTags f.name t).symm.trans hbefore)
  refine ⟨fun r b hr => (hrun.of_eq_ok rfl hr).1, hbnames, fun c t hc => ⟨?_, ?_, ?_⟩, ?_⟩
  · intro f hf
    rw [htag f hf, mem_subjects_iff hc]
  · refine subjects_nodup hc ?_
    obtain ⟨l, hperm, hsub⟩ := hlabels
    exact hperm.nodup_iff.mp ((allLabels_nodup (FeatureModel.nonRoot_nodup hnames hvisit)).sublist hsub)
  · intro root hroot hmem
    refine FeatureModel.root_not_mem_nonRoot hvisit hroot ?_
    exact mem_of_mem_allLabels (hlabels.subset ((mem_subjects_iff hc).mp hmem))
  · rintro hasked f hf ⟨hdead, hcond⟩
    exact htallied.separate hasked f.name ((htag f hf _).mp hdead) ((htag f hf _).mp hcond)

/-- A world in which the analysis is called off after twenty checks, and the engine fails at the eighth
call. -/
def interrupted : World := { World.calm with faults := [(8, .timeout)], token := some (.after 20) }

/-- The analysis of a model with two features that exclude each other is called off while the redundant
constraints are looked for. What has been found until then is tagged and nothing else is. -/
theorem run_tags_interrupted : ∃ a₀ b, start (Analyzer.new excluded .standard interrupted) = .ok () a₀ ∧
    run a₀ = .error .cancelled b ∧ b.bench.failures.length = 1 ∧
    b.report.subjects .conditionallyDead = ["A", "B"] ∧ b.bench.model.names = ["Root", "A", "B"] ∧
    (∀ f ∈ b.bench.model.features, .conditionallyDead ∈ f.tags ↔ f.name ∈ ["A", "B"]) ∧
    ∀ f ∈ b.bench.model.features, ¬(.dead ∈ f.tags ∧ .conditionallyDead ∈ f.tags) := by
  have hstart : start (Analyzer.new excluded .standard interrupted) =
      .ok () (after start (Analyzer.new excluded .standard interrupted)) := rfl
  generalize ha₀ : after start (Analyzer.new excluded .standard interrupted) = a₀ at hstart
  obtain ⟨-, hnames, hagree, hseparate⟩ := run_tags made_excluded.names_nodup hstart .start
  have hoff : (match run a₀ with
      | .error .cancelled b => decide (b.bench.failures.length = 1 ∧
        b.report.subjects .conditionallyDead = ["A", "B"])
      | _ => false) = true := by
    rw [← ha₀]
    decide +kernel
  split at hoff
  · next b hcancelled =>
    obtain ⟨hfailures, hcond⟩ := of_decide_eq_true hoff
    have hafter : after run a₀ = b := by rw [after, hcancelled]
    rw [hafter] at hnames hagree hseparate
    refine ⟨a₀, b, hstart, hcancelled, hfailures, hcond, hnames, ?_, hseparate rfl⟩
    rw [← hcond]
    exact (hagree .conditionallyDead .conditionallyDead rfl).1
  · cases hoff

end Analysis
end Anomaly
end ProductLine
