import ProductLine.Proofs.Anomaly.Comparison

/-! # Findings do not hang on what else is looked for

Two undisturbed analyses of one model, configured alike but for what is checked, have found the same of
every category that both look for (`Level`). A probe keeps this if both make it, as they then go in
lockstep, and also if only one makes it, as its findings are of a category that the other does not look
for (`alone_level`). So whole analyses find the same (`run_independent`). -/

namespace ProductLine
namespace Anomaly
namespace Analysis

open Setup

variable {g : RegularSetup} {own own' : Config} {c : Category}

/-! ### Probes -/

/-- If both analyses look for a category, they have found the same of it. -/
def Level (own own' : Config) (c : Category) (fs fs' : List Finding) : Prop :=
  asked c own = true → asked c own' = true → fs' = fs

theorem level_comm (fs fs' : List Finding) :
    EachCategory (Level own' own) fs' fs ↔ EachCategory (Level own own') fs fs' :=
  forall_congr' fun _ =>
    ⟨fun h hown hown' => (h hown' hown).symm, fun h hown' hown => (h hown hown').symm⟩

theorem level_append (ds ds' fs : List Finding) (hfs : ∀ f ∈ fs, f.category = c)
    (h : EachCategory (Level own own') ds ds') :
    EachCategory (Level own own') (ds ++ fs) (ds' ++ fs) :=
  h.append hfs hfs fun _ _ hsame hown hown' => by rw [hsame hown hown']

/-- A probe that analyses go through in lockstep, on any course of its category, if they visit the features
in the same order. -/
def Parallel (g : Setup) (c : Category) (probe : Analysis Unit) : Prop :=
  ∀ k : Course, k.category = c → k.own'.order = k.own.order →
    Agree (g.Lockstep k []) probe probe fun _ _ => g.Lockstep k []

theorem alone_level {probe : Analysis Unit} (h : Parallel g.toSetup c probe)
    (hc : asked c own' = false) :
    g.Compared (EachCategory (Level own own')) own own' probe (pure ()) := by
  rintro a a' ha ha' - _ _ ⟨rfl, rfl⟩ _ b _ _ hr ⟨⟩
  -- The probe goes in lockstep with itself.
  have hb := h (setOut c own own _ _) rfl rfl _ _ (ha.setOut ha (.refl _) c) _ _ _ _ hr hr
  obtain ⟨fs, hcategory, hreport, -⟩ := hb.since
  refine ⟨rfl, hb.first, ha', RegularSetup.clocked hb.first.toReady ha'.toReady, fs, [], hreport,
    (Report.extend_nil _).symm, fun _ _ hds => ?_⟩
  exact hds.append hcategory (List.forall_mem_nil _) fun _ _ _ _ hown' =>
    absurd (hc.symm.trans hown') Bool.false_ne_true

theorem ifAsked_level {probe : Analysis Unit} (h : Parallel g.toSetup c probe)
    (horder : own'.order = own.order) :
    g.Compared (EachCategory (Level own own')) own own' (ifAsked (asked c) probe)
      (ifAsked (asked c) probe) := by
  refine compared_ifAsked (fun _ _ => compared_of_lockstep (c := c) level_append fun a a' => ?_)
    (fun _ hown' => alone_level h hown') fun hown _ => (alone_level h hown).symm level_comm
  exact (h _ rfl horder).weaken fun _ _ _ _ hb => ⟨rfl, hb⟩

theorem search_parallel (g : Setup) (c : Category) : Parallel g c (search c) := by
  intro k hk horder
  cases c with
  | void => exact .pure fun _ _ ha => ha
  | dead => exact checkDead_lockstep hk horder
  | conditionallyDead => exact checkConditionallyDead_lockstep hk horder
  | fullMandatory => exact checkFullMandatory_lockstep hk horder
  | falseOptional => exact checkFalseOptional_lockstep hk horder
  | redundant => exact checkRedundancies_lockstep hk

theorem run_level (horder : own'.order = own.order) :
    Agree (fun a a' => g.Ready own a ∧ g.Ready own' a') run run fun r r' _ _ =>
      ∀ c, asked c own = true → asked c own' = true → r'.findings c = r.findings c :=
  have hvoid : g.Compared (EachCategory (Level own own')) own own' checkConsistency
      checkConsistency :=
    compared_of_lockstep (c := .void) level_append fun _ _ => checkConsistency_lockstep rfl
  ((run_related hvoid (fun c => ifAsked_level (search_parallel _ c) horder) fun _ _ _ => rfl).weaken
    fun _ _ _ _ h => h.2).strengthen fun _ _ h => ⟨h, RegularSetup.clocked h.1 h.2⟩

/-! ### Two configurations -/

variable {m : FeatureModel} {config config' : Config} {w : World} {a₀ : Analyzer}

theorem start_same (hsame : config.SameButChecks config')
    (h : start (Analyzer.new m config w) = .ok () a₀) :
    start (Analyzer.new m config' w) = .ok () { a₀ with config := config' } := by
  obtain ⟨b, hr, rfl⟩ := start_eq_ok_iff.mp h
  rw [start_eq_ok_iff, hsame.order, hsame.solver, hsame.limits]
  exact ⟨b, hr, rfl⟩

/-- **Probes do not influence each other.** In a world without faults and cancellation, and with a
regular clock if time is bounded, a model that can be analysed can be analysed with any other choice of
what is checked, too. Both analyses return, unless the clock overruns; and in every category that is
looked for in both of them, they find the same: the same subjects in the same order, with the same
partners and the same explanations, cut short alike. -/
theorem run_independent (hsame : config.SameButChecks config') (hfaults : w.faults = [])
    (hidle : w.Idle) (hregular : config.limits.timed = true → w.lapses = [])
    (hstart : start (Analyzer.new m config w) = .ok () a₀) :
    ∃ a₀', start (Analyzer.new m config' w) = .ok () a₀' ∧
      (∀ a ∈ [a₀, a₀'], config.limits.Numeric → ¬w.Overran (after run a).bench.world →
        ∃ r b, run a = .ok r b) ∧
      ∀ r b r' b', run a₀ = .ok r b → run a₀' = .ok r' b' →
        ∀ c, asked c config = true → asked c config' = true → r'.findings c = r.findings c := by
  have hstart' := start_same hsame hstart
  obtain ⟨g, rfl, rfl, rfl⟩ := start_setup hregular hstart
  have hready := start_ready hfaults hidle (.refl _) hstart
  have hready' := start_ready hfaults hidle hsame.sameSearch hstart'
  refine ⟨_, hstart', List.forall_mem_cons.mpr ⟨run_returns hidle hstart,
    List.forall_mem_singleton.mpr ?_⟩,
    fun r b r' b' hr hr' => run_level hsame.order a₀ _ ⟨hready, hready'⟩ r b r' b' hr hr'⟩
  rw [← hsame.limits]
  exact run_returns hidle hstart'

open FeatureModel in
/-- Adds a root and three optional features, the first of which requires the other two, which exclude
each other. -/
def trap : Edit Unit := do
  addFeatures (.list [.text "Root", .text "A", .text "B", .text "C"])
  discard (addRelationship .optional (.text "A") (.text "Root"))
  discard (addRelationship .optional (.text "B") (.text "Root"))
  discard (addRelationship .optional (.text "C") (.text "Root"))
  discard (addConstraint .requires (.text "A") (.text "B"))
  discard (addConstraint .requires (.text "A") (.text "C"))
  discard (addConstraint .excludes (.text "B") (.text "C"))

/-- A model with a dead optional feature and two conditionally dead ones. -/
def trapped : FeatureModel := .edited trap (.empty (.text "trapped"))

/-- Everything is checked but which features are dead. -/
def unburied : Config := { Config.standard with checkDead := false }

/-- Whether `A` is dead is read off its tag in the one analysis and asked in the other; neither lists it
among the conditionally dead features. -/
theorem run_independent_trapped : ∃ a₀ a₀' r b r' b',
    start (Analyzer.new trapped .standard .calm) = .ok () a₀ ∧
      start (Analyzer.new trapped unburied .calm) = .ok () a₀' ∧ run a₀ = .ok r b ∧
      run a₀' = .ok r' b' ∧ r.subjects .dead = ["A"] ∧ r'.subjects .dead = [] ∧
      r'.subjects .conditionallyDead = ["B", "C"] ∧
      r'.findings .conditionallyDead = r.findings .conditionallyDead := by
  have hstart : start (Analyzer.new trapped .standard .calm) =
      .ok () (after start (Analyzer.new trapped .standard .calm)) := rfl
  have hsame : Config.standard.SameButChecks unburied := ⟨rfl, rfl, rfl, rfl⟩
  obtain ⟨a₀', hstart', hreturns, hfound⟩ :=
    run_independent hsame rfl idle_calm (fun _ => rfl) hstart
  obtain rfl : after start (Analyzer.new trapped unburied .calm) = a₀' := by rw [after, hstart']
  have hreturned : ∀ a ∈ [after start (Analyzer.new trapped .standard .calm),
      after start (Analyzer.new trapped unburied .calm)], ∃ r b, run a = .ok r b := fun a ha =>
    hreturns a ha numeric_standard (World.not_overran_of_still rfl rfl)
  obtain ⟨r, b, hr⟩ := hreturned _ List.mem_cons_self
  obtain ⟨r', b', hr'⟩ := hreturned _ (List.mem_cons_of_mem _ List.mem_cons_self)
  have hdead : (after run (after start (Analyzer.new trapped .standard .calm))).report.subjects
      .dead = ["A"] := by decide +kernel
  have hunburied : (fun r : Report => (r.subjects .dead, r.subjects .conditionallyDead))
      (after run (after start (Analyzer.new trapped unburied .calm))).report = ([], ["B", "C"]) := by
    decide +kernel
  rw [report_of_run hstart hr] at hdead
  rw [report_of_run hstart' hr', Prod.mk.injEq] at hunburied
  exact ⟨_, _, r, b, r', b', hstart, hstart', hr, hr', hdead, hunburied.1, hunburied.2,
    hfound r b r' b' hr hr' .conditionallyDead rfl rfl⟩

end Analysis
end Anomaly
end ProductLine
