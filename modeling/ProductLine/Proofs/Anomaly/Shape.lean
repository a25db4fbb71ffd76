import ProductLine.Proofs.Anomaly.Calls

/-! # False optional features by shape

The first mandatory feature that requires an optional one is never in a product without it, as the
constraint by which it was found is itself among those that hold. So the search for false optional
features does not hang on any other constraint: it reports exactly those that the relationships of the
tree and one requires constraint show (`checkFalseOptional_exact`). -/

namespace ProductLine

namespace FeatureModel

open Outcome

variable {m : FeatureModel} {name : String} {p : Feature} {fs : List Feature}

theorem isMandatory_iff : m.isMandatory name = true ↔
    ∃ r ∈ m.structural, r.kind = .mandatory ∧ .text name ∈ r.right := by
  simp only [isMandatory, List.any_eq_true, Bool.and_eq_true, decide_eq_true_eq,
    Relationship.hasRight_iff]

theorem isOptional_iff : m.isOptional name = true ↔
    ∃ r ∈ m.structural, r.kind = .optional ∧ r.left = .text name ∨
      r.kind.isGroup = true ∧ .text name ∈ r.right := by
  simp only [isOptional, List.any_eq_true, Bool.or_eq_true, Bool.and_eq_true, decide_eq_true_eq,
    Relationship.hasLeft_iff, Relationship.hasRight_iff]

/-- The features that require a feature are the declared ones on the left of a constraint that does. -/
theorem mem_requiring (h : m.requiring name = .ok fs) : p ∈ fs ↔
    ∃ r ∈ m.crossTree, r.kind = .requires ∧ .text name ∈ r.right ∧ m.lookUp r.left = .ok (some p) := by
  obtain ⟨found, hfound, h⟩ := bind_eq_ok_iff.mp h
  rw [← pure_eq_ok_iff.mp h, List.mem_filterMap]
  simp only [id_eq, exists_eq_right, mem_mapM_iff hfound, List.mem_filter, Bool.and_eq_true,
    decide_eq_true_eq, Relationship.hasRight_iff, and_assoc]

theorem lookUp_text (name : String) : m.lookUp (.text name) = .ok (m.feature? name) := rfl

theorem eq_text_of_lookUp {v : Value} (h : m.lookUp v = .ok (some p)) : v = .text p.name := by
  unfold lookUp at h
  split at h
  · cases h
  · next s hkey =>
    rw [(Value.key?_eq_text_iff v s).mp hkey, (of_feature?_eq_some (Except.ok.inj h)).2]
  · cases h

end FeatureModel

namespace Anomaly
namespace Analysis

open FeatureModel

variable {m : FeatureModel} {config : Config} {w : World} {a a₀ : Analyzer} {name : String}

theorem not_allows_of_requires {r : Relationship} {p : String} (hr : r ∈ m.crossTree)
    (hkind : r.kind = .requires) (hleft : r.left = .text p) (hright : r.right = [.text name]) :
    ¬m.Allows [(name, false), (p, true)] := by
  rintro ⟨s, ⟨-, -, hholds⟩, hs⟩
  rw [List.forall_mem_cons, List.forall_mem_singleton] at hs
  have hrequires := hholds r (List.mem_append_right _ hr)
  unfold Relationship.Holds at hrequires
  rw [hkind, hleft, hright] at hrequires
  exact Bool.false_ne_true (hs.1.symm.trans (hrequires _ rfl hs.2))

/-- The first mandatory feature that requires an optional one insists on it, so that it is enough to know
that there is one. -/
theorem exists_insists_iff (hm : m.Arranged)
    (hleft : ∀ r ∈ m.crossTree, ∃ p ∈ m.names, r.left = .text p) :
    (∃ p, Insists m name p) ↔ MandatorilyRequired m name := by
  obtain ⟨fs, hfs⟩ := requiring_total
    (fun r hr => (hleft r hr).imp fun _ h => h.2) name
  unfold MandatorilyRequired
  rw [← isOptional_iff]
  constructor
  · rintro ⟨p, hp⟩
    obtain ⟨fs', hfs', hfirst⟩ := hp.first
    cases hfs.symm.trans hfs'
    obtain ⟨r, hr, hkind, hright, hlook⟩ := (mem_requiring hfs).mp (List.mem_of_find?_eq_some hfirst)
    have hmandatory := List.find?_some hfirst
    exact ⟨hp.optional, r, hr, hkind, hright, p.name, eq_text_of_lookUp hlook,
      isMandatory_iff.mp hmandatory⟩
  · rintro ⟨hoptional, r, hr, hkind, hright, p, hp, hmandatory⟩
    -- the constraint at hand shows that some mandatory feature is found, if not which one is first
    obtain ⟨p', hp', hp''⟩ := hleft r hr
    cases hp.symm.trans hp''
    obtain ⟨f, hf⟩ := Option.isSome_iff_exists.mp (feature?_isSome_iff.mpr hp')
    have hfound : f ∈ fs := (mem_requiring hfs).mpr
      ⟨r, hr, hkind, hright, by rw [hp, lookUp_text, hf]⟩
    have hsome : (fs.find? fun q => m.isMandatory q.name).isSome = true := by
      refine List.find?_isSome.mpr ⟨f, hfound, ?_⟩
      rw [(of_feature?_eq_some hf).2]
      exact isMandatory_iff.mpr hmandatory
    obtain ⟨q, hq⟩ := Option.isSome_iff_exists.mp hsome
    obtain ⟨r', hr', hkind', hright', hlook⟩ := (mem_requiring hfs).mp (List.mem_of_find?_eq_some hq)
    have hlength : r'.right.length = 1 :=
      hm.arity r' (List.mem_append_right _ hr') (by rw [hkind']; rfl)
    obtain ⟨v, hv⟩ := List.length_eq_one_iff.mp hlength
    rw [hv, List.mem_singleton] at hright'
    exact ⟨q, hoptional, ⟨fs, hfs, hq⟩,
      not_allows_of_requires hr' hkind' (eq_text_of_lookUp hlook) (hright' ▸ hv)⟩

open Classical in
theorem InsistedOn.map_subject {names : List String} {fs : List Finding} (h : InsistedOn m names fs)
    (hm : m.Arranged) (hleft : ∀ r ∈ m.crossTree, ∃ p ∈ m.names, r.left = .text p) :
    fs.map (·.subject) = names.filter fun name => MandatorilyRequired m name := by
  rw [Picks.map_eq h]
  exact List.filter_congr fun name _ => decide_eq_decide.mpr (exists_insists_iff hm hleft)

open Classical in
/-- **The search for false optional features reports by shape.** Called without failures of the engine
and without being called off, it returns, and finds exactly the features but the root that are on the
left of an optional relationship or in a group and are required by one on the right of a mandatory
relationship, each once and in visiting order, whatever other constraints there are. What the whole
analysis of a model with a product finds of this kind is the same. -/
theorem checkFalseOptional_exact (hmade : m.Made) (hlimits : config.limits.Numeric)
    (hstart : start (Analyzer.new m config w) = .ok () a₀) (ha : Reached a₀ a) (hidle : w.Idle) :
    ∃ visited, m.nonRoot config.order = .ok visited ∧
      (visited.map (·.name)).Perm m.names.tail ∧ (visited.map (·.name)).Nodup ∧
      (¬w.Overran (after checkFalseOptional a).bench.world →
        (after checkFalseOptional a).bench.failures = [] →
        ∃ a' fs, checkFalseOptional a = .ok () a' ∧ a'.report.found = a.report.found ++ fs ∧
          (∀ f ∈ fs, f.category = .falseOptional) ∧
          fs.map (·.subject) =
            (visited.map (·.name)).filter fun name => MandatorilyRequired m name) ∧
      (¬w.Overran (after run a).bench.world → (after run a).report.failures = [] →
        m.HasProduct → config.checkFalseOptional = true →
        ∃ report a', run a = .ok report a' ∧ report.subjects .falseOptional =
          (visited.map (·.name)).filter fun name => MandatorilyRequired m name) := by
  obtain ⟨hsound₀, visited, hvisit⟩ := start_sound hstart
  have hsound := ha.sound hsound₀ hvisit
  have hleft : ∀ r ∈ m.crossTree, ∃ p ∈ m.names, r.left = .text p := by
    intro r hr
    obtain ⟨-, p, -, -, hp, -, hleft, -⟩ := hsound.standing.faithful.crossTree r hr
    exact ⟨p, hp, hleft⟩
  refine ⟨visited, hvisit, nonRoot_perm hmade.names_nodup hvisit,
    nonRoot_nodup hmade.names_nodup hvisit, ?_, ?_⟩
  · intro hclock hfaults
    obtain ⟨a', fs, hr, hfound, hcategory, hfs⟩ := returns_of_detects hlimits
      (checkFalseOptional_detects hsound hvisit) hclock hidle hfaults
    exact ⟨a', fs, hr, hfound, hcategory, hfs.map_subject hmade.arranged hleft⟩
  · intro hclock hfaults hproduct hasked
    obtain ⟨report, a', hr, hdue⟩ := run_due (c := .falseOptional) hlimits hsound hvisit hclock
      hidle hfaults hproduct hasked
    exact ⟨report, a', hr, hdue.map_subject hmade.arranged hleft⟩

open FeatureModel in
/-- Adds a root, an optional feature with a mandatory child, and two more optional features that this
child requires. The root excludes one of these. -/
def smother : Edit Unit := do
  addFeatures (.list [.text "Root", .text "F", .text "A", .text "P", .text "G"])
  discard (addRelationship .optional (.text "A") (.text "Root"))
  discard (addRelationship .mandatory (.text "A") (.text "P"))
  discard (addRelationship .or (.text "Root") (.list [.text "F", .text "G"]))
  discard (addConstraint .requires (.text "P") (.text "G"))
  discard (addConstraint .requires (.text "P") (.text "F"))
  discard (addConstraint .excludes (.text "Root") (.text "F"))

/-- A model in which a false optional feature and the one that requires it are dead. -/
def smothered : FeatureModel := .edited smother (.empty (.text "smothered"))

theorem made_smothered : smothered.Made := by
  have hmakes : Makes smother := by
    unfold smother
    refine Ensures.bind (makes_addFeatures _) fun _ => ?_
    refine Ensures.bind (Ensures.discard (makes_addRelationship _ _ _)) fun _ => ?_
    refine Ensures.bind (Ensures.discard (makes_addRelationship _ _ _)) fun _ => ?_
    refine Ensures.bind (Ensures.discard (makes_addRelationship _ _ _)) fun _ => ?_
    refine Ensures.bind (Ensures.discard (makes_addConstraint _ _ _)) fun _ => ?_
    refine Ensures.bind (Ensures.discard (makes_addConstraint _ _ _)) fun _ => ?_
    exact Ensures.discard (makes_addConstraint _ _ _)
  exact hmakes.made (.empty _)

theorem hasProduct_smothered : smothered.HasProduct := by
  refine ⟨fun name => name == "Root" || name == "G", fun name hname => ?_, by decide,
    by decide⟩
  rw [Bool.or_eq_true, beq_iff_eq, beq_iff_eq] at hname
  rcases hname with rfl | rfl <;> decide

/-- `F` is reported although no product has it. -/
theorem checkFalseOptional_exact_smothered : ∃ a₀ a₁ report a₂,
    start (Analyzer.new smothered .standard .calm) = .ok () a₀ ∧
      checkFalseOptional a₀ = .ok () a₁ ∧ a₁.report.found.map (·.subject) = ["F", "G"] ∧
      MandatorilyRequired smothered "F" ∧ smothered.IsDead "F" ∧ run a₀ = .ok report a₂ ∧
      report.subjects .falseOptional = ["F", "G"] := by
  have hstart : start (Analyzer.new smothered .standard .calm) =
      .ok () (after start (Analyzer.new smothered .standard .calm)) := rfl
  generalize ha₀ : after start (Analyzer.new smothered .standard .calm) = a₀ at hstart
  obtain ⟨visited, -, -, -, hdirect, hwhole⟩ :=
    checkFalseOptional_exact made_smothered numeric_standard hstart .start idle_calm
  obtain ⟨hfaultless, hafter⟩ : (after checkFalseOptional a₀).bench.failures = [] ∧
      (after checkFalseOptional a₀).report.found.map (·.subject) = ["F", "G"] := by
    rw [← ha₀]
    decide +kernel
  obtain ⟨a₁, fs, hprobe, hfound, -, hexact⟩ :=
    hdirect (World.not_overran_of_still rfl rfl) hfaultless
  obtain ⟨report, a₂, hrun, hreport⟩ := hwhole (World.not_overran_of_still rfl rfl)
    (by rw [← ha₀]; decide +kernel) hasProduct_smothered rfl
  have hnone : a₀.report.found = [] := by rw [← ha₀]; decide
  rw [after, hprobe] at hafter
  have hsubjects : fs.map (·.subject) = ["F", "G"] := by
    rw [hfound, hnone, List.nil_append] at hafter
    exact hafter
  have hF : "F" ∈ fs.map (·.subject) := hsubjects ▸ List.mem_cons_self
  rw [hexact] at hF
  have hshape : MandatorilyRequired smothered "F" := by simpa using List.of_mem_filter hF
  have hdead : smothered.IsDead "F" := by
    rintro s ⟨-, ⟨root, hroot, hselected⟩, hholds⟩
    cases hroot
    have hexcludes : ∀ b ∈ [Value.text "F"].head?, ¬(s "Root" = true ∧ Relationship.selects s b = true) :=
      hholds ⟨some 5, .excludes, .text "Root", [.text "F"]⟩ (List.mem_of_getElem? (i := 5) rfl)
    exact Bool.eq_false_iff.mpr fun h => hexcludes _ rfl ⟨hselected, h⟩
  exact ⟨a₀, a₁, report, a₂, hstart, hprobe, hafter, hshape, hdead, hrun,
    hreport.trans (hexact.symm.trans hsubjects)⟩

end Analysis
end Anomaly
end ProductLine
