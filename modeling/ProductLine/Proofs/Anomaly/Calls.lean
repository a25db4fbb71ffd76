import ProductLine.Anomaly.Calls
import ProductLine.Proofs.Anomaly.Run

/-! # What calls do

Every analyzer that is reached by calls is sound (`Reached.sound`), for every call keeps it so however
it ends. So the store always gets back what was posted, and nothing but cancellation keeps a call from
returning (`reached_restores`). Called without failures of the engine, as there are none in a
faultless world (`Reached.failures_eq_nil`), the search for conditionally dead features and that for
redundant constraints find exactly these (`checkConditionallyDead_exact`, `checkRedundancies_exact`).
-/

namespace ProductLine
namespace Anomaly

open Constraint Diagnosis Workbench

variable {m : FeatureModel} {config : Config} {w : World} {a a₀ : Analyzer} {visited : List Feature}

namespace Analysis

theorem after_of_ensures {α : Type} {step : Analysis α} {I : Analyzer → Prop}
    (h : Ensures (· = a) step (fun _ => I) fun _ => I) : I (after step a) := by
  have hstep := h a rfl
  unfold after
  cases hr : step a with
  | ok x a' =>
    rw [hr] at hstep
    exact hstep
  | error e a' =>
    rw [hr] at hstep
    exact hstep

/-- That a step returns, and what it leaves then, is found by evaluating it once. -/
theorem ok_after_and {step : Analysis Unit} {a : Analyzer} {P : Analyzer → Prop} [DecidablePred P]
    (h : (match step a with
      | .ok _ b => decide (P b)
      | .error _ _ => false) = true) : step a = .ok () (after step a) ∧ P (after step a) := by
  unfold after
  cases hr : step a with
  | ok x b =>
    rw [hr] at h
    exact ⟨rfl, of_decide_eq_true h⟩
  | error e b =>
    rw [hr] at h
    cases h

theorem eq_ok_after {step : Analysis Unit} {a : Analyzer} (h : (match step a with
    | .ok _ _ => true
    | .error _ _ => false) = true) : step a = .ok () (after step a) :=
  (ok_after_and (P := fun _ => True) h).1

/-- A call returns or is called off, unless the clock overruns. -/
theorem ends_of_ensures {α : Type} {call : Analysis α} {post : α → Analyzer → Prop}
    (hlimits : config.limits.Numeric) (h : Ensures (· = a) call post (Halts m config w))
    (hclock : ¬w.Overran (after call a).bench.world) :
    (∃ x a', call a = .ok x a' ∧ post x a') ∨
      ∃ a', call a = .error .cancelled a' ∧ ¬w.Idle ∧ a'.Sound m config w := by
  have hcall := h a rfl
  unfold after at hclock
  cases hr : call a with
  | ok x a' =>
    rw [hr] at hcall
    exact .inl ⟨x, a', rfl, hcall⟩
  | error e a' =>
    rw [hr] at hcall hclock
    rcases hcall.cause with ⟨rfl, hbusy⟩ | htrouble
    · exact .inr ⟨a', rfl, hbusy, hcall.sound⟩
    · exact absurd (hcall.overrun (htrouble hlimits)) hclock

theorem returns_of_ensures {α : Type} {call : Analysis α} {post : α → Analyzer → Prop}
    (hlimits : config.limits.Numeric) (h : Ensures (· = a) call post (Halts m config w))
    (hclock : ¬w.Overran (after call a).bench.world) (hidle : w.Idle) :
    ∃ x a', call a = .ok x a' ∧ post x a' :=
  (ends_of_ensures hlimits h hclock).resolve_right fun ⟨_, _, hbusy, _⟩ => hbusy hidle

/-- In an idle world a probe returns, and what it finds is as said if the engine did not fail. -/
theorem returns_of_detects {call : Analysis Unit} {c : Category} {P : List Finding → Prop}
    (hlimits : config.limits.Numeric)
    (h : Ensures (· = a) call (fun _ => Detects m config w c P a) (Halts m config w))
    (hclock : ¬w.Overran (after call a).bench.world) (hidle : w.Idle)
    (hfaults : (after call a).bench.failures = []) :
    ∃ a' fs, call a = .ok () a' ∧ a'.report.found = a.report.found ++ fs ∧
      (∀ f ∈ fs, f.category = c) ∧ P fs := by
  obtain ⟨⟨⟩, a', hr, hdetects⟩ := returns_of_ensures hlimits h hclock hidle
  rw [after, hr] at hfaults
  obtain ⟨fs, hadds, hfs⟩ := hdetects.found
  exact ⟨a', fs, hr, hadds.found, hadds.category, hfs hfaults⟩

/-- In an idle world the whole analysis of a model with a product returns a report, in which the
findings are as due if the engine did not fail. -/
theorem run_due {c : Category} (hlimits : config.limits.Numeric) (ha : a.Sound m config w)
    (hvisit : m.nonRoot config.order = .ok visited)
    (hclock : ¬w.Overran (after run a).bench.world) (hidle : w.Idle)
    (hfaults : (after run a).report.failures = []) (hproduct : m.HasProduct)
    (hasked : asked c config = true) :
    ∃ report a', run a = .ok report a' ∧ Due m (visited.map (·.name)) c (report.findings c) := by
  obtain ⟨report, a', hr, rfl, -, -, hjudges⟩ := returns_of_ensures hlimits
    ((run_judges ha hvisit).weakenFail fun _ _ h => h.1) hclock hidle
  rw [after, hr] at hfaults
  exact ⟨_, a', hr, (hjudges hfaults).due hproduct c hasked⟩

theorem restores_of_ensures {α : Type} {call : Analysis α} (hlimits : config.limits.Numeric)
    (h : Ensures (· = a) call (fun _ a' => a'.Sound m config w) (Halts m config w))
    (hclock : ¬w.Overran (after call a).bench.world) : Restores m config.order call a := by
  rcases ends_of_ensures hlimits h hclock with ⟨x, a', hr, hsound⟩ | ⟨a', hr, -, hsound⟩
  · exact ⟨a', ⟨hsound.made, hsound.standing.posted⟩, .inl ⟨x, hr⟩⟩
  · exact ⟨a', ⟨hsound.made, hsound.standing.posted⟩, .inr hr⟩

theorem ofProbe_ensures (p : Journal.Probe) (ha : a.Sound m config w)
    (hvisit : m.nonRoot config.order = .ok visited) :
    Ensures (· = a) (ofProbe p) (fun _ a' => a'.Sound m config w) (Halts m config w) := by
  cases p with
  | consistency =>
    exact Ensures.discard ((checkConsistency_finds ha).weaken fun _ _ h => h.1.1)
  | dead => exact (checkDead_detects ha hvisit).weaken fun _ _ h => h.sound
  | conditionallyDead =>
    exact (checkConditionallyDead_detects ha hvisit).weaken fun _ _ h => h.sound
  | fullMandatory => exact (checkFullMandatory_detects ha hvisit).weaken fun _ _ h => h.sound
  | falseOptional => exact (checkFalseOptional_detects ha hvisit).weaken fun _ _ h => h.sound
  | redundant => exact (checkRedundancies_detects ha).weaken fun _ _ h => h.sound

theorem run_keeps (ha : a.Sound m config w) (hvisit : m.nonRoot config.order = .ok visited) :
    Ensures (· = a) run (fun _ a' => a'.Sound m config w) (Halts m config w) :=
  (run_ensures ha hvisit).mono (fun _ _ h => h.2.1) fun _ _ h => h.1

end Analysis

open Analysis in
theorem Reached.sound (h : Reached a₀ a) (ha₀ : a₀.Sound m config w)
    (hvisit : m.nonRoot config.order = .ok visited) : a.Sound m config w := by
  induction h with
  | start => exact ha₀
  | run _ ih => exact after_of_ensures ((run_keeps ih hvisit).weakenFail fun _ _ h => h.sound)
  | probe _ p ih =>
    exact after_of_ensures ((ofProbe_ensures p ih hvisit).weakenFail fun _ _ h => h.sound)

/-- In a faultless world the engine does not fail, whatever is called. -/
theorem Reached.failures_eq_nil (hfaultless : Faultless m config w)
    (hstart : Analysis.start (Analyzer.new m config w) = .ok () a₀) (ha : Reached a₀ a) :
    a.bench.failures = [] := by
  obtain ⟨hsound₀, visited, hvisit⟩ := Analysis.start_sound hstart
  exact ((ha.sound hsound₀ hvisit).unfailing hfaultless).2

namespace Analysis

/-! ### The store -/

/-- **The store is always handed back.** After any calls, with any faults of the engine, any settings
of it and any point of cancellation, exactly the baseline is posted, of the constraints that were
made of the model; and the whole analysis as well as every probe returns or is called off, unless the
clock overruns. -/
theorem reached_restores (hlimits : config.limits.Numeric)
    (hstart : start (Analyzer.new m config w) = .ok () a₀) (ha : Reached a₀ a) :
    a.Restored m config.order ∧
      (¬w.Overran (after run a).bench.world → Restores m config.order run a) ∧
      ∀ p, ¬w.Overran (after (ofProbe p) a).bench.world →
        Restores m config.order (ofProbe p) a := by
  obtain ⟨hsound₀, visited, hvisit⟩ := start_sound hstart
  have hsound := ha.sound hsound₀ hvisit
  exact ⟨⟨hsound.made, hsound.standing.posted⟩,
    restores_of_ensures hlimits (run_keeps hsound hvisit),
    fun p => restores_of_ensures hlimits (ofProbe_ensures p hsound hvisit)⟩

theorem idle_calm : World.calm.Idle := fun t ht => absurd ht.symm (Option.some_ne_none t)

theorem numeric_standard : Config.standard.limits.Numeric :=
  List.forall_mem_cons.mpr ⟨.inr rfl, List.forall_mem_cons.mpr
    ⟨.inl rfl, List.forall_mem_singleton.mpr (.inl rfl)⟩⟩

/-- The analysis is called off in the middle of an explanation, and the store is handed back; so it is
when the dead features are looked for after that. -/
theorem reached_restores_limited :
    ∃ a₀ a₁, start (Analyzer.new blocked .standard limited) = .ok () a₀ ∧
      run a₀ = .error .cancelled a₁ ∧ a₁.Restored blocked .declared ∧
      (after checkDead a₁).Restored blocked .declared := by
  have hstart : start (Analyzer.new blocked .standard limited) =
      .ok () (after start (Analyzer.new blocked .standard limited)) := rfl
  have hstill : ¬limited.Overran
      (after run (after start (Analyzer.new blocked .standard limited))).bench.world :=
    World.not_overran_of_still rfl rfl
  have hoff : (match run (after start (Analyzer.new blocked .standard limited)) with
      | .ok _ _ => true
      | .error _ _ => false) = false := by decide +kernel
  obtain ⟨a₁, hrestored, ⟨report, hok⟩ | herror⟩ :=
    (reached_restores numeric_standard hstart .start).2.1 hstill
  · rw [hok] at hoff
    exact absurd hoff.symm Bool.false_ne_true
  · have hafter : after run (after start (Analyzer.new blocked .standard limited)) = a₁ := by
      rw [after, herror]
    have hreached : Reached (after start (Analyzer.new blocked .standard limited))
        (after run (after start (Analyzer.new blocked .standard limited))) := .run .start
    rw [hafter] at hreached
    exact ⟨_, a₁, hstart, herror, hrestored,
      (reached_restores numeric_standard hstart (hreached.probe .dead)).1⟩

/-! ### Conditionally dead features -/

theorem clash_of_mem_rivals {names : List String} {f g : String}
    (h : (f, some g) ∈ rivals m names) : clash m f g = true := by
  obtain ⟨f', -, hentry⟩ := List.mem_filterMap.mp h
  obtain ⟨g', hg, heq⟩ := Option.map_eq_some_iff.mp hentry
  cases heq
  have hboth := List.find?_some hg
  rw [Bool.and_eq_true] at hboth
  exact hboth.2

/-- **The search for conditionally dead features is exact.** Called without failures of the engine and
without being called off, it finds every living optional feature that goes with not all others, once
and with the first one that it does not go with, however many pairs are left out. What the whole
analysis finds of this kind is the same. -/
theorem checkConditionallyDead_exact (hmade : m.Made) (hlimits : config.limits.Numeric)
    (hstart : start (Analyzer.new m config w) = .ok () a₀) (ha : Reached a₀ a) (hidle : w.Idle) :
    ∃ visited, m.nonRoot config.order = .ok visited ∧
      (visited.map (·.name)).Perm m.names.tail ∧ (visited.map (·.name)).Nodup ∧
      (¬w.Overran (after checkConditionallyDead a).bench.world →
        (after checkConditionallyDead a).bench.failures = [] →
        ∃ a' fs, checkConditionallyDead a = .ok () a' ∧ a'.report.found = a.report.found ++ fs ∧
          (∀ f ∈ fs, f.category = .conditionallyDead) ∧
          (fs.map Finding.entry).Perm (rivals m (living m (visited.map (·.name))))) ∧
      (¬w.Overran (after run a).bench.world → (after run a).report.failures = [] →
        m.HasProduct → config.checkConditionallyDead = true →
        ∃ report a', run a = .ok report a' ∧
          ((report.findings .conditionallyDead).map Finding.entry).Perm
            (rivals m (living m (visited.map (·.name))))) := by
  obtain ⟨hsound₀, visited, hvisit⟩ := start_sound hstart
  have hsound := ha.sound hsound₀ hvisit
  refine ⟨visited, hvisit, FeatureModel.nonRoot_perm hmade.names_nodup hvisit,
    FeatureModel.nonRoot_nodup hmade.names_nodup hvisit, ?_, ?_⟩
  · intro hclock hfaults
    obtain ⟨a', fs, hr, hfound, hcategory, hfs⟩ := returns_of_detects hlimits
      (checkConditionallyDead_detects hsound hvisit) hclock hidle hfaults
    exact ⟨a', fs, hr, hfound, hcategory, hfs hmade⟩
  · intro hclock hfaults hproduct hasked
    obtain ⟨report, a', hr, hdue⟩ := run_due (c := .conditionallyDead) hlimits hsound hvisit hclock
      hidle hfaults hproduct hasked
    exact ⟨report, a', hr, hdue hmade⟩

open FeatureModel in
/-- Adds a root and two optional features that exclude each other, which is said twice. -/
def exclude : Edit Unit := do
  addFeatures (.list [.text "Root", .text "A", .text "B"])
  discard (addRelationship .optional (.text "A") (.text "Root"))
  discard (addRelationship .optional (.text "B") (.text "Root"))
  discard (addConstraint .excludes (.text "A") (.text "B"))
  discard (addConstraint .excludes (.text "A") (.text "B"))

/-- A model with two redundant constraints and two conditionally dead features. -/
def excluded : FeatureModel := .edited exclude (.empty (.text "excluded"))

theorem made_excluded : excluded.Made := by
  have hmakes : FeatureModel.Makes exclude := by
    unfold exclude
    apply Ensures.bind (FeatureModel.makes_addFeatures _)
    intro _
    apply Ensures.bind (Ensures.discard (FeatureModel.makes_addRelationship _ _ _))
    intro _
    apply Ensures.bind (Ensures.discard (FeatureModel.makes_addRelationship _ _ _))
    intro _
    apply Ensures.bind (Ensures.discard (FeatureModel.makes_addConstraint _ _ _))
    intro _
    exact Ensures.discard (FeatureModel.makes_addConstraint _ _ _)
  exact hmakes.made (.empty _)

theorem hasProduct_excluded : excluded.HasProduct := by
  refine ⟨fun name => name == "Root", fun name hname => ?_, by decide, by decide⟩
  rw [beq_iff_eq] at hname
  rw [hname]
  decide

theorem failures_excluded :
    (after run (after start (Analyzer.new excluded .standard .calm))).report.failures = [] := by
  decide +kernel

/-- `A` and `B` exclude each other, so either is conditionally dead, with the other as its partner. -/
theorem checkConditionallyDead_exact_excluded : ∃ a₀ a₁ report a₂,
    start (Analyzer.new excluded .standard .calm) = .ok () a₀ ∧
      checkConditionallyDead a₀ = .ok () a₁ ∧
      a₁.report.found.map Finding.entry = [("A", some "B"), ("B", some "A")] ∧
      clash excluded "A" "B" = true ∧ run a₀ = .ok report a₂ ∧
      ((report.findings .conditionallyDead).map Finding.entry).Perm
        [("A", some "B"), ("B", some "A")] := by
  have hstart : start (Analyzer.new excluded .standard .calm) =
      .ok () (after start (Analyzer.new excluded .standard .calm)) := rfl
  generalize ha₀ : after start (Analyzer.new excluded .standard .calm) = a₀ at hstart
  obtain ⟨visited, -, -, -, hdirect, hwhole⟩ :=
    checkConditionallyDead_exact made_excluded numeric_standard hstart .start idle_calm
  obtain ⟨hfaultless, hafter⟩ : (after checkConditionallyDead a₀).bench.failures = [] ∧
      (after checkConditionallyDead a₀).report.found.map Finding.entry =
        [("A", some "B"), ("B", some "A")] := by rw [← ha₀]; decide +kernel
  obtain ⟨a₁, fs, hprobe, hfound, -, hrivals⟩ :=
    hdirect (World.not_overran_of_still rfl rfl) hfaultless
  obtain ⟨report, a₂, hrun, hreport⟩ := hwhole (World.not_overran_of_still rfl rfl)
    (ha₀ ▸ failures_excluded) hasProduct_excluded rfl
  have hnone : a₀.report.found = [] := by rw [← ha₀]; decide
  rw [after, hprobe] at hafter
  rw [hnone, List.nil_append] at hfound
  rw [← hfound, hafter] at hrivals
  exact ⟨a₀, a₁, report, a₂, hstart, hprobe, hafter,
    clash_of_mem_rivals (hrivals.subset List.mem_cons_self), hrun, hreport.trans hrivals.symm⟩

/-! ### Redundant constraints -/

theorem checkRedundancies_eq {done rest : List Relationship} (ha : a.Sound m config w)
    (hsplit : m.crossTree = done ++ rest) :
    checkRedundancies a =
      ((note (.probing .redundant) >>= fun _ => done.forM checkImplied) >>= fun _ =>
        rest.forM checkImplied) a := by
  have hall : checkRedundancies a =
      (note (.probing .redundant) >>= fun _ => a.bench.model.crossTree.forM checkImplied) a := rfl
  have hparts : (done ++ rest).forM checkImplied =
      (done.forM checkImplied >>= fun _ => rest.forM checkImplied) := List.forM_append
  rw [hall, ← ha.standing.alike.crossTree, hsplit, hparts, bind_assoc]

theorem checkFirst_sound {done rest : List Relationship} (ha : a.Sound m config w)
    (hsplit : m.crossTree = done ++ rest) :
    Ensures (· = a) (note (.probing .redundant) >>= fun _ => done.forM checkImplied)
      (fun _ a' => a'.Sound m config w) (Halts m config w) := by
  apply Ensures.bindState (note_asks _)
  intro _ a₁ h₁
  exact (checkImplieds_detects (h₁.sound ha) hsplit).weaken fun _ _ h => h.sound

theorem Implied.redundantRules_eq {fs : List Finding} (h : Implied m m.crossTree fs) :
    redundantRules m = .ok (fs.map (·.subject)) :=
  Outcome.mapM_eq_ok_iff.mpr (List.forall₂_map_right_iff.mpr h)

theorem isRedundant_of_redundantRules {rules : List String} (h : redundantRules m = .ok rules)
    (hlength : rules.length = m.crossTree.length) :
    ∀ place < m.crossTree.length, m.IsRedundant place := by
  have hall := (Outcome.mapM_eq_ok_iff.mp h).length_eq
  have hzip : m.crossTree.zipIdx.length = m.crossTree.length := List.length_zipIdx
  rw [hlength, ← hzip, List.length_filter_eq_length_iff] at hall
  intro place hplace
  have hmem : (m.crossTree[place], place) ∈ m.crossTree.zipIdx := by
    rw [List.mem_zipIdx_iff_getElem?]
    exact List.getElem?_eq_getElem hplace
  simpa using hall _ hmem

/-- **The search for redundant constraints is exact.** Called without failures of the engine and without
being called off, it finds every redundant constraint by itself, in order. Before each constraint the
store is as it was made, and while it is looked at, it is replaced by its opposite and nothing else is
changed. What the whole analysis finds of this kind is the same. -/
theorem checkRedundancies_exact (hmade : m.Made) (hlimits : config.limits.Numeric)
    (hstart : start (Analyzer.new m config w) = .ok () a₀) (ha : Reached a₀ a) (hidle : w.Idle) :
    (¬w.Overran (after checkRedundancies a).bench.world →
      (after checkRedundancies a).bench.failures = [] →
      ∃ a' fs, checkRedundancies a = .ok () a' ∧ a'.report.found = a.report.found ++ fs ∧
        (∀ f ∈ fs, f.category = .redundant) ∧ redundantRules m = .ok (fs.map (·.subject)) ∧
        ∀ done r rest, m.crossTree = done ++ r :: rest → ∃ a₁,
          (note (.probing .redundant) >>= fun _ => done.forM checkImplied) a = .ok () a₁ ∧
            a₁.Restored m config.order ∧ Replaces r a₁.bench) ∧
    (¬w.Overran (after run a).bench.world → (after run a).report.failures = [] →
      m.HasProduct → config.checkRedundancy = true →
      ∃ report a', run a = .ok report a' ∧ redundantRules m = .ok (report.subjects .redundant)) := by
  obtain ⟨hsound₀, visited, hvisit⟩ := start_sound hstart
  have hsound := ha.sound hsound₀ hvisit
  constructor
  · intro hclock hfaults
    obtain ⟨a', fs, hr, hfound, hcategory, hfs⟩ :=
      returns_of_detects hlimits (checkRedundancies_detects hsound) hclock hidle hfaults
    refine ⟨a', fs, hr, hfound, hcategory, (hfs hmade.arranged).redundantRules_eq, ?_⟩
    intro done r rest hsplit
    rw [checkRedundancies_eq hsound hsplit] at hr
    obtain ⟨⟨⟩, a₁, hfirst, -⟩ := Ensures.exists_of_bind_eq_ok hr
    have hsound₁ := checkFirst_sound hsound hsplit a rfl
    rw [hfirst] at hsound₁
    exact ⟨a₁, hfirst, ⟨hsound₁.made, hsound₁.standing.posted⟩,
      Work.replaces hsound₁.standing hmade.arranged hsplit⟩
  · intro hclock hfaults hproduct hasked
    obtain ⟨report, a', hr, hdue⟩ := run_due (c := .redundant) hlimits hsound hvisit hclock hidle
      hfaults hproduct hasked
    exact ⟨report, a', hr, (hdue hmade.arranged).redundantRules_eq⟩

/-- Either constraint is redundant, as the other one says the same. -/
theorem checkRedundancies_exact_excluded : ∃ a₀ a₁ report a₂,
    start (Analyzer.new excluded .standard .calm) = .ok () a₀ ∧
      checkRedundancies a₀ = .ok () a₁ ∧
      a₁.report.found.map (·.subject) = ["excludes(A, B)", "excludes(A, B)"] ∧
      excluded.IsRedundant 0 ∧ excluded.IsRedundant 1 ∧
      run a₀ = .ok report a₂ ∧ redundantRules excluded = .ok (report.subjects .redundant) := by
  have hstart : start (Analyzer.new excluded .standard .calm) =
      .ok () (after start (Analyzer.new excluded .standard .calm)) := rfl
  generalize ha₀ : after start (Analyzer.new excluded .standard .calm) = a₀ at hstart
  have hexact := checkRedundancies_exact made_excluded numeric_standard hstart .start idle_calm
  obtain ⟨hfaultless, hafter⟩ : (after checkRedundancies a₀).bench.failures = [] ∧
      (after checkRedundancies a₀).report.found.map (·.subject) =
        ["excludes(A, B)", "excludes(A, B)"] := by rw [← ha₀]; decide +kernel
  obtain ⟨a₁, fs, hprobe, hfound, -, hrules, -⟩ :=
    hexact.1 (World.not_overran_of_still rfl rfl) hfaultless
  obtain ⟨report, a₂, hrun, hreport⟩ := hexact.2 (World.not_overran_of_still rfl rfl)
    (ha₀ ▸ failures_excluded) hasProduct_excluded rfl
  have hnone : a₀.report.found = [] := by rw [← ha₀]; decide
  rw [after, hprobe] at hafter
  rw [hnone, List.nil_append] at hfound
  rw [← hfound, hafter] at hrules
  have hredundant := isRedundant_of_redundantRules hrules rfl
  exact ⟨a₀, a₁, report, a₂, hstart, hprobe, hafter, hredundant 0 (by decide),
    hredundant 1 (by decide), hrun, hreport⟩

end Analysis
end Anomaly
end ProductLine
