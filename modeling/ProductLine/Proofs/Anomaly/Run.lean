import ProductLine.Anomaly.Verdict
import ProductLine.Proofs.Anomaly.Interplay
import ProductLine.Proofs.FeatureModel.Made

/-! # What an analysis reports

Whatever happens in an analysis, every explanation in its report is a repair (`run_repaired`). An
analysis in which the engine does not fail, as it does not in a faultless world
(`run_failures_eq_nil`), finds out exactly whether the model has a product, and which features are
dead or full mandatory (`run_exact`). -/

namespace ProductLine
namespace Anomaly

open Constraint Diagnosis Outcome Workbench

variable {m : FeatureModel} {config : Config} {w : World} {a a' : Analyzer} {c c' : Category}
  {visited : List Feature}

/-! ### Findings of a category -/

theorem filter_category_of_ne {fs : List Finding} (hfs : ∀ f ∈ fs, f.category = c) (hc : c' ≠ c) :
    fs.filter (fun f => decide (f.category = c')) = [] :=
  List.filter_eq_nil_iff.mpr fun f hf heq => hc ((of_decide_eq_true heq).symm.trans (hfs f hf))

theorem filter_category_self {fs : List Finding} (hfs : ∀ f ∈ fs, f.category = c) :
    fs.filter (fun f => decide (f.category = c)) = fs :=
  List.filter_eq_self.mpr fun f hf => decide_eq_true (hfs f hf)

theorem Adds.findings_of_ne {fs : List Finding} (h : Adds c fs a a') (hc : c' ≠ c) :
    a'.report.findings c' = a.report.findings c' := by
  unfold Report.findings
  rw [h.found, List.filter_append, filter_category_of_ne h.category hc, List.append_nil]

theorem Adds.findings_self {fs : List Finding} (h : Adds c fs a a') :
    a'.report.findings c = a.report.findings c ++ fs := by
  unfold Report.findings
  rw [h.found, List.filter_append, filter_category_self h.category]

namespace Analysis

/-! ### Whether there is a product -/

theorem checkConsistency_finds (ha : a.Sound m config w) :
    Ensures (· = a) checkConsistency
      (fun answer a' => (a'.Sound m config w ∧ ∃ fs, Adds .void fs a a' ∧
        fs.map (·.subject) = if answer then [] else [Category.void.name]) ∧
        (answer = true → m.HasProduct) ∧
        (answer = false → a'.bench.failures = [] → ¬m.HasProduct)) (Halts m config w) := by
  unfold checkConsistency
  apply Ensures.bindState (note_asks _)
  intro _ a₁ h₁
  have hsound₁ := h₁.sound ha
  apply Ensures.get_bind
  intro s hs
  rw [hs]
  have hasks := onBench_asks (Q := VoidFinds m a₁.bench.store (Quiet a₁.bench))
    (((diagnoseVoid_probed a₁ hsound₁.standing).inState (Checked.refl a₁.bench)).mono
      (fun _ _ h => ⟨h.1, h.2.probed⟩) fun _ _ h => ⟨h.1, h.2.probed⟩)
  rw [hsound₁.limits_eq] at hasks
  apply Ensures.bindState (hasks.weakenFail fun _ _ => .of_asks hsound₁)
  intro result a₂ h₂
  have hasked := h₁.trans h₂.2
  cases result with
  | none =>
    apply Ensures.pureState
    exact ⟨⟨hasked.sound ha, [], hasked.adds .void, rfl⟩, fun _ => h₂.1.no rfl,
      fun h => absurd h.symm Bool.false_ne_true⟩
  | some all =>
    have hjust : Undisturbed m config w → ¬m.Admits (fun _ => False) fun _ => True := fun hw =>
      mt hasProduct_iff_admits.mpr (h₂.1.yes all rfl ((h₂.2.sound hsound₁).unfailing hw.1).2)
    have hrecord := record_adds .void Category.void.name none
      (hasked.sound ha) ((h₂.2.adds .void).allMend ((h₂.1.mend all rfl).mono rfl hsound₁.quiet
        fun _ => Iff.rfl))
      (fun _ _ => .void rfl) hjust fun h => nomatch h
    apply Ensures.bind (hrecord.weakenFail fun _ _ => False.elim)
    intro _
    apply Ensures.pure
    rintro a₃ ⟨hsound, diagnoses, truncated, hadds⟩
    refine ⟨⟨hsound, _, (hasked.adds .void).trans hadds, rfl⟩,
      fun h => absurd h Bool.false_ne_true, ?_⟩
    exact fun _ hfail => h₂.1.yes all rfl (hadds.failures_eq_nil hfail)

/-! ### Probes that are asked for -/

theorem ifAsked_ensures {asked : Config → Bool} {probe : Analysis Unit} {post : Analyzer → Prop}
    {fail : Failure → Analyzer → Prop} (ha : a.config = config)
    (hprobe : asked config = true → Ensures (· = a) probe (fun _ => post) fail)
    (hskip : asked config = false → post a) :
    Ensures (· = a) (ifAsked asked probe) (fun _ => post) fail := by
  unfold ifAsked
  apply Ensures.get_bind
  intro s hs
  rw [hs, ha]
  split
  · next hasked => exact hprobe hasked
  · next hnot =>
    apply Ensures.pureState
    exact hskip (Bool.eq_false_iff.mpr hnot)

/-- Whether findings of a category are asked for, apart from the search for a product. -/
def asked : Category → Config → Bool
  | .void => fun _ => true
  | .dead => (·.checkDead)
  | .conditionallyDead => (·.checkConditionallyDead)
  | .fullMandatory => (·.checkFullMandatory)
  | .falseOptional => (·.checkFalseOptional)
  | .redundant => (·.checkRedundancy)

/-- What the findings of a category about a model with a product are. Conditionally dead features are
told only of a model that was made, and thus without tags, and redundant constraints only of one whose
constraints can be told from each other. -/
def Due (m : FeatureModel) (names : List String) : Category → List Finding → Prop
  | .void => fun fs => fs = []
  | .dead => Excluded m true names
  | .fullMandatory => Excluded m false names
  | .conditionallyDead => fun fs =>
    m.Made → (fs.map Finding.entry).Perm (rivals m (living m names))
  | .falseOptional => InsistedOn m names
  | .redundant => fun fs => m.Arranged → Implied m m.crossTree fs

/-- How the analysis of a model with a product stands after some categories: without failures, their
findings are as due, and of the others there are none. -/
structure Searched (m : FeatureModel) (config : Config) (w : World) (names : List String)
    (done : List Category) (a : Analyzer) : Prop where
  sound : a.Sound m config w
  consistent : a.report.consistent = true
  due : a.bench.failures = [] → ∀ c ∈ done, asked c config = true →
    Due m names c (a.report.findings c)
  rest : ∀ c, c ∉ done → a.report.findings c = []

theorem Searched.ifAsked {names : List String} {done : List Category} {probe : Analysis Unit}
    (h : Searched m config w names done a) (hc : c ∉ done)
    (hprobe : Ensures (· = a) probe (fun _ => Detects m config w c (Due m names c) a)
      (Halts m config w)) :
    Ensures (· = a) (ifAsked (asked c) probe) (fun _ => Searched m config w names (done ++ [c]))
      (Halts m config w) := by
  apply ifAsked_ensures h.sound.config_eq
  · intro _
    apply hprobe.weaken
    intro _ a' h'
    obtain ⟨fs, hadds, hfs⟩ := h'.found
    refine ⟨h'.sound, hadds.consistent.trans h.consistent, ?_, ?_⟩
    · intro hfail c' hc' hasked
      rcases List.mem_append.mp hc' with hdone | hself
      · rw [hadds.findings_of_ne fun heq => hc (heq ▸ hdone)]
        exact h.due (hadds.failures_eq_nil hfail) c' hdone hasked
      · rw [List.mem_singleton.mp hself, hadds.findings_self, h.rest c hc, List.nil_append]
        exact hfs hfail
    · intro c' hc'
      rw [List.mem_append, List.mem_singleton, not_or] at hc'
      rw [hadds.findings_of_ne hc'.2]
      exact h.rest c' hc'.1
  · intro hnot
    refine ⟨h.sound, h.consistent, ?_, fun c' hc' => h.rest c' fun hdone =>
      hc' (List.mem_append_left _ hdone)⟩
    intro hfail c' hc' hasked
    rcases List.mem_append.mp hc' with hdone | hself
    · exact h.due hfail c' hdone hasked
    · rw [List.mem_singleton.mp hself, hnot] at hasked
      exact absurd hasked Bool.false_ne_true

/-! ### The whole analysis -/

theorem searches_due (ha : a.Sound m config w) (hvisit : m.nonRoot config.order = .ok visited)
    (hnone : a.report.found = []) (hconsistent : a.report.consistent = true) :
    Ensures (· = a)
      (do
        ifAsked (·.checkDead) checkDead
        ifAsked (·.checkConditionallyDead) checkConditionallyDead
        ifAsked (·.checkFullMandatory) checkFullMandatory
        ifAsked (·.checkFalseOptional) checkFalseOptional
        ifAsked (·.checkRedundancy) checkRedundancies)
      (fun _ => Searched m config w (visited.map (·.name))
        [.void, .dead, .conditionallyDead, .fullMandatory, .falseOptional, .redundant])
      (Halts m config w) := by
  have hnothing : ∀ c, a.report.findings c = [] := by
    intro c
    unfold Report.findings
    rw [hnone]
    rfl
  have h₀ : Searched m config w (visited.map (·.name)) [.void] a := by
    refine ⟨ha, hconsistent, fun _ => List.forall_mem_singleton.mpr fun _ => hnothing .void, ?_⟩
    exact fun c _ => hnothing c
  apply Ensures.bindState (h₀.ifAsked (by decide) (checkDead_detects ha hvisit))
  intro _ a₁ h₁
  apply Ensures.bindState (h₁.ifAsked (by decide) (checkConditionallyDead_detects h₁.sound hvisit))
  intro _ a₂ h₂
  apply Ensures.bindState (h₂.ifAsked (by decide) (checkFullMandatory_detects h₂.sound hvisit))
  intro _ a₃ h₃
  apply Ensures.bindState (h₃.ifAsked (by decide) (checkFalseOptional_detects h₃.sound hvisit))
  intro _ a₄ h₄
  exact h₄.ifAsked (by decide) (checkRedundancies_detects h₄.sound)

open Classical in
/-- Findings about names that cannot have a value are about those with the corresponding verdict. -/
theorem Excluded.subjects_eq {value : Bool} {names : List String} {p : String → Prop}
    {fs : List Finding} (h : Excluded m value names fs)
    (hp : ∀ name, ¬m.Allows [(name, value)] ↔ p name) :
    fs.map (·.subject) = names.filter fun name => p name := by
  rw [Picks.map_eq h]
  exact List.filter_congr fun name _ => decide_eq_decide.mpr (hp name)

/-- What a complete analysis says of the model: whether it has a product; if it has none, that is all
that is found, and if it has one, the findings that were asked for are as due. -/
structure Judges (m : FeatureModel) (config : Config) (names : List String) (r : Report) : Prop where
  consistent : r.consistent = true ↔ m.HasProduct
  void : ¬m.HasProduct → ∃ f, r.found = [f] ∧ f.category = .void
  due : m.HasProduct → ∀ c, asked c config = true → Due m names c (r.findings c)

theorem Judges.exact {names : List String} {r : Report} (h : Judges m config names r) :
    r.Exact m config names where
  consistent := h.consistent
  void := h.void
  notVoid hproduct := h.due hproduct .void rfl
  dead hproduct hasked := (h.due hproduct .dead hasked).subjects_eq fun _ =>
    FeatureModel.not_allows_true_iff
  fullMandatory hproduct hasked := (h.due hproduct .fullMandatory hasked).subjects_eq fun _ =>
    FeatureModel.not_allows_false_iff

/-- Whatever happens, what is explained is explained by repairs. If the engine does not fail, the
model is judged rightly. -/
theorem probes_judges (ha : a.Sound m config w) (hvisit : m.nonRoot config.order = .ok visited)
    (hnone : a.report.found = []) :
    Ensures (· = a) probes
      (fun _ a' => a'.Sound m config w ∧
        (a'.bench.failures = [] → Judges m config (visited.map (·.name)) a'.report))
      (Halts m config w) := by
  unfold probes
  apply Ensures.bind (checkConsistency_finds ha)
  intro answer
  -- a yes is always right, a no only if no failure was recorded
  have hset : Ensures (fun a' => (a'.Sound m config w ∧ ∃ fs, Adds .void fs a a' ∧
        fs.map (·.subject) = if answer then [] else [Category.void.name]) ∧
        (answer = true → m.HasProduct) ∧
        (answer = false → a'.bench.failures = [] → ¬m.HasProduct))
      (modify fun a => { a with report := { a.report with consistent := answer } } : Analysis Unit)
      (fun _ a' => a'.Sound m config w ∧ a'.report.consistent = answer ∧
        (answer = true → a'.report.found = [] ∧ m.HasProduct) ∧
        (answer = false → (∃ f, a'.report.found = [f] ∧ f.category = .void) ∧
          (a'.bench.failures = [] → ¬m.HasProduct))) (Halts m config w) := by
    apply Ensures.modify
    intro a₁ h₁
    obtain ⟨⟨hsound, fs, hadds, hsubjects⟩, hyes, hno⟩ := h₁
    have hfs := hadds.found
    rw [hnone, List.nil_append] at hfs
    refine ⟨{ hsound with }, rfl, ?_, ?_⟩
    · rintro rfl
      exact ⟨hfs.trans (List.map_eq_nil_iff.mp hsubjects), hyes rfl⟩
    · rintro rfl
      obtain ⟨f, hf, -⟩ := List.map_eq_singleton_iff.mp hsubjects
      exact ⟨⟨f, hfs.trans hf, hadds.category f (hf ▸ List.mem_singleton_self f)⟩, hno rfl⟩
  apply Ensures.bindState hset
  intro _ a₁ h₁
  obtain ⟨hsound, hconsistent, hyes, hno⟩ := h₁
  cases answer with
  | true =>
    refine (searches_due hsound hvisit (hyes rfl).1 hconsistent).weaken ?_
    intro _ a₂ h₂
    have hproduct := (hyes rfl).2
    refine ⟨h₂.sound, fun hfail => ⟨iff_of_true h₂.consistent hproduct,
      fun hvoid => absurd hproduct hvoid, fun _ c hasked => h₂.due hfail c ?_ hasked⟩⟩
    cases c <;> decide
  | false =>
    refine (note_asks _).weaken fun _ a₂ h₂ => ⟨h₂.sound hsound, ?_⟩
    intro hfail
    have hvoid := (hno rfl).2 ((h₂.adds .void).failures_eq_nil hfail)
    obtain ⟨b, -, rfl⟩ := h₂
    exact ⟨iff_of_false (fun h => Bool.false_ne_true (hconsistent.symm.trans h)) hvoid,
      fun _ => (hno rfl).1, fun h => absurd h hvoid⟩

/-- The analysis judges as the probes do, with the failures counted. -/
theorem counted_judges (ha : a.Sound m config w) (hvisit : m.nonRoot config.order = .ok visited)
    (hnone : a.report.found = []) :
    Ensures (· = a) (always takeStock probes)
      (fun _ a' => a'.Sound m config w ∧ (Faultless m config w → a'.report.failures = []) ∧
        (a'.report.failures = [] → Judges m config (visited.map (·.name)) a'.report))
      (fun e a' => Halts m config w e a' ∧ (Faultless m config w → a'.report.failures = [])) := by
  have htaken : ∀ {a₁ : Analyzer}, a₁.Sound m config w →
      (takeStock a₁).Sound m config w ∧
        (Faultless m config w → (takeStock a₁).report.failures = []) := by
    intro a₁ h
    exact ⟨{ h with }, fun hfaultless => (h.unfailing hfaultless).2⟩
  apply Ensures.always (probes_judges ha hvisit hnone)
  · rintro _ a₁ ⟨hsound, hjudges⟩
    exact ⟨(htaken hsound).1, (htaken hsound).2, fun hfail => { hjudges hfail with }⟩
  · intro e a₁ h₁
    exact ⟨{ h₁ with sound := (htaken h₁.sound).1 }, (htaken h₁.sound).2⟩

theorem run_judges (ha : a.Sound m config w) (hvisit : m.nonRoot config.order = .ok visited) :
    Ensures (· = a) run
      (fun r a' => r = a'.report ∧ a'.Sound m config w ∧ (Faultless m config w → r.failures = []) ∧
        (r.failures = [] → Judges m config (visited.map (·.name)) r))
      (fun e a' => Halts m config w e a' ∧ (Faultless m config w → a'.report.failures = [])) := by
  have hnew : Ensures (· = a)
      (modify fun a => { a with
        bench := { a.bench with model := a.bench.model.clearTags }
        report := Report.new a.bench.model.name
        deadChecked := false } : Analysis Unit)
      (fun _ a' => a'.Sound m config w ∧ a'.report.found = [])
      (fun e a' => Halts m config w e a' ∧ (Faultless m config w → a'.report.failures = [])) := by
    apply Ensures.modify
    intro s hs
    rw [hs]
    exact ⟨{ ha with
      standing := { ha.standing with alike := ha.standing.alike.trans (.clearTags _) }
      repaired := List.forall_mem_nil _
      sourced := List.forall_mem_nil _
      justified := fun _ => List.forall_mem_nil _
      discerned := fun _ _ _ => List.forall_mem_nil _
      marked := fun _ => .cleared m _ _ }, rfl⟩
  unfold run
  apply Ensures.bindState hnew
  intro _ a₁ h₁
  apply Ensures.bind model_returns
  intro n
  apply Ensures.assuming
  intro _
  apply Ensures.bindState (note_asks _)
  intro _ a₂ h₂
  have hnone : a₂.report.found = [] := by
    obtain ⟨b, -, rfl⟩ := h₂
    exact h₁.2
  apply Ensures.bind (counted_judges (h₂.sound h₁.1) hvisit hnone)
  intro _
  apply Ensures.get_bind
  intro a₃ h₃
  apply Ensures.bind (note_asks _)
  intro _
  apply Ensures.get_bind
  rintro _ ⟨b, hb, rfl⟩
  apply Ensures.pureState
  exact ⟨rfl, Asks.sound ⟨b, hb, rfl⟩ h₃.1, h₃.2⟩

theorem run_ensures (ha : a.Sound m config w) (hvisit : m.nonRoot config.order = .ok visited) :
    Ensures (· = a) run
      (fun r a' => r = a'.report ∧ a'.Sound m config w ∧ (Faultless m config w → r.failures = []) ∧
        (r.failures = [] → r.Exact m config (visited.map (·.name))))
      (fun e a' => Halts m config w e a' ∧ (Faultless m config w → a'.report.failures = [])) :=
  (run_judges ha hvisit).weaken fun _ _ h =>
    ⟨h.1, h.2.1, h.2.2.1, fun hfail => (h.2.2.2 hfail).exact⟩

theorem start_sound {a₀ : Analyzer} (h : start (Analyzer.new m config w) = .ok () a₀) :
    a₀.Sound m config w ∧ ∃ visited, m.nonRoot config.order = .ok visited := by
  have hbuilt : Ensures (· = Analyzer.new m config w) start
      (fun _ a => a.Sound m config w ∧ ∃ visited, m.nonRoot config.order = .ok visited)
      fun _ _ => True := by
    unfold start
    apply Ensures.get_bind
    intro s hs
    rw [hs]
    apply Ensures.bindState (onBench_ensures (Work.build_standing config.order)
      |>.weakenFail fun _ _ _ => trivial)
    intro _ a₁ h₁
    apply Ensures.bind model_returns
    intro n
    apply Ensures.assuming
    intro _
    apply Ensures.modify
    intro a₂ h₂
    obtain ⟨b, ⟨⟨hstanding, hvisited⟩, hmodel, hfailures, hbuilding⟩, rfl⟩ := h₁
    rw [h₂]
    refine ⟨⟨hstanding, rfl, rfl, List.forall_mem_nil _, List.forall_mem_nil _,
      fun _ => List.forall_mem_nil _, fun _ _ _ => List.forall_mem_nil _, ?_, ?_,
      hbuilding.time, ?_, ?_⟩, hvisited⟩
    · intro hfaultless
      refine ⟨⟨hbuilding.faults.trans hfaultless.1, ?_⟩, hfailures⟩
      intro cs hcs
      rw [hbuilding.settings]
      exact hfaultless.2 cs fun c hc x hx => (hstanding.faithful.mem_vars x).mp (hcs c hc hx)
    · intro hidle t ht
      exact hidle t (hbuilding.token.symm.trans ht)
    · exact ⟨b.store, b.store.nextId, hmodel, rfl⟩
    · intro _
      have hkept : b.model = m := hbuilding.model
      exact ⟨fun name htag => .inl (hkept ▸ htag),
        fun hchecked => absurd hchecked Bool.false_ne_true⟩
  have hstart := hbuilt _ rfl
  rw [h] at hstart
  exact hstart

/-- Begun in a faultless world, the engine does not fail. -/
theorem run_failures_eq_nil {a₀ : Analyzer} (hfaultless : Faultless m config w)
    (hstart : start (Analyzer.new m config w) = .ok () a₀) :
    (after run a₀).report.failures = [] := by
  obtain ⟨hsound, visited, hvisit⟩ := start_sound hstart
  have hrun := run_ensures hsound hvisit a₀ rfl
  unfold after
  cases hr : run a₀ with
  | ok report a =>
    rw [hr] at hrun
    exact hrun.1 ▸ hrun.2.2.1 hfaultless
  | error e a =>
    rw [hr] at hrun
    exact hrun.2 hfaultless

/-- **Every explanation in the report is a repair, whatever goes wrong.** This holds for any faults of
the engine, any clock and any bounds, and also if the analysis is called off. -/
theorem run_repaired {a₀ : Analyzer}
    (hstart : start (Analyzer.new m config w) = .ok () a₀) :
    ∀ f ∈ (after run a₀).report.found, ∀ rules ∈ f.diagnoses, f.Repaired m rules := by
  obtain ⟨hsound, visited, hvisit⟩ := start_sound hstart
  have hrun := run_ensures hsound hvisit a₀ rfl
  unfold after
  cases hr : run a₀ with
  | ok report a =>
    rw [hr] at hrun
    exact hrun.2.1.repaired
  | error e a =>
    rw [hr] at hrun
    exact hrun.1.2.repaired

open FeatureModel in
/-- Adds a root, a feature `A` that every product has, and a feature `B` that `A` excludes. -/
def block : Edit Unit := do
  addFeatures (.list [.text "Root", .text "A", .text "B"])
  discard (addRelationship .mandatory (.text "Root") (.text "A"))
  discard (addRelationship .optional (.text "B") (.text "Root"))
  discard (addConstraint .excludes (.text "A") (.text "B"))

/-- A model with a dead and a full mandatory feature. -/
def blocked : FeatureModel := .edited block (.empty (.text "blocked"))

/-- A world in which the engine runs out of time at the eighth call, and the analysis is called off
after twelve checks. -/
def limited : World := { World.calm with faults := [(8, .timeout)], token := some (.after 12) }

/-- One of two explanations is lost by the fault, and the one that is given is a repair. -/
theorem run_repaired_limited : ∃ a₀, start (Analyzer.new blocked .standard limited) = .ok () a₀ ∧
    ∃ f ∈ (after run a₀).report.found, ∃ rules ∈ f.diagnoses,
      rules = ["excludes(A, B)"] ∧ f.Repaired blocked rules := by
  have hstart : start (Analyzer.new blocked .standard limited) =
      .ok () (after start (Analyzer.new blocked .standard limited)) := rfl
  have hfound : ∃ f ∈ (after run (after start (Analyzer.new blocked .standard limited))).report.found,
      ["excludes(A, B)"] ∈ f.diagnoses := by decide +kernel
  obtain ⟨f, hf, hrules⟩ := hfound
  exact ⟨_, hstart, f, hf, _, hrules, rfl, run_repaired hstart f hf _ hrules⟩

/-- **An analysis in which the engine does not fail is exact**, such as one begun in a faultless world
(`run_failures_eq_nil`). If nothing calls it off, and unless the clock overruns, it returns a report,
which says whether the model has a product and which features are dead or full mandatory. -/
theorem run_exact {a₀ : Analyzer} (hmade : m.Made) (hlimits : config.limits.Numeric)
    (hstart : start (Analyzer.new m config w) = .ok () a₀)
    (hfaults : (after run a₀).report.failures = []) (hidle : w.Idle)
    (hclock : ∀ a, run a₀ ≠ .error .clockOverrun a) :
    ∃ visited report a, m.nonRoot config.order = .ok visited ∧ run a₀ = .ok report a ∧
      (visited.map (·.name)).Perm m.names.tail ∧ (visited.map (·.name)).Nodup ∧
      report.Exact m config (visited.map (·.name)) := by
  obtain ⟨hsound, visited, hvisit⟩ := start_sound hstart
  have hrun := run_ensures hsound hvisit a₀ rfl
  have hperm := FeatureModel.nonRoot_perm hmade.names_nodup hvisit
  have hnd : (visited.map (·.name)).Nodup :=
    hperm.nodup_iff.mpr (hmade.names_nodup.sublist (List.tail_sublist _))
  unfold after at hfaults
  cases hr : run a₀ with
  | ok report a =>
    rw [hr] at hrun hfaults
    obtain ⟨rfl, -, -, hexact⟩ := hrun
    exact ⟨visited, _, a, hvisit, rfl, hperm, hnd, hexact hfaults⟩
  | error e a =>
    rw [hr] at hrun
    rcases hrun.1.1 with hoff | htrouble
    · exact absurd hidle hoff.2
    · rw [htrouble hlimits] at hr
      exact absurd hr (hclock a)

theorem made_blocked : blocked.Made := by
  have hmakes : FeatureModel.Makes block := by
    unfold block
    apply Ensures.bind (FeatureModel.makes_addFeatures _)
    intro _
    apply Ensures.bind (Ensures.discard (FeatureModel.makes_addRelationship _ _ _))
    intro _
    apply Ensures.bind (Ensures.discard (FeatureModel.makes_addRelationship _ _ _))
    intro _
    exact Ensures.discard (FeatureModel.makes_addConstraint _ _ _)
  exact hmakes.made (.empty _)

/-- `B` is dead and `A` is full mandatory. -/
theorem run_exact_blocked : ∃ report a,
    run (after start (Analyzer.new blocked .standard .calm)) = .ok report a ∧
      report.consistent = true ∧ blocked.HasProduct ∧ report.subjects .dead = ["B"] ∧
      blocked.IsDead "B" ∧ report.subjects .fullMandatory = ["A"] ∧ blocked.IsFullMandatory "A" := by
  have hstart : start (Analyzer.new blocked .standard .calm) =
      .ok () (after start (Analyzer.new blocked .standard .calm)) := rfl
  obtain ⟨hfaults, hreturns⟩ : (after run
        (after start (Analyzer.new blocked .standard .calm))).report.failures = [] ∧
      (match run (after start (Analyzer.new blocked .standard .calm)) with
        | .ok r _ => r.consistent && r.subjects .dead == ["B"] && r.subjects .fullMandatory == ["A"]
        | .error _ _ => false) = true := by decide +kernel
  have hclock : ∀ a, run (after start (Analyzer.new blocked .standard .calm)) ≠
      .error .clockOverrun a := by
    intro a h
    rw [h] at hreturns
    exact Bool.false_ne_true hreturns
  have hlimits : Config.standard.limits.Numeric := List.forall_mem_cons.mpr ⟨.inr rfl,
    List.forall_mem_cons.mpr ⟨.inl rfl, List.forall_mem_singleton.mpr (.inl rfl)⟩⟩
  have hidle : World.calm.Idle := fun t ht => absurd ht.symm (Option.some_ne_none t)
  obtain ⟨visited, report, a, hvisit, hrun, -, -, hexact⟩ := run_exact made_blocked hlimits hstart
    hfaults hidle hclock
  rw [hrun] at hreturns
  simp only [Bool.and_eq_true, beq_iff_eq] at hreturns
  obtain ⟨⟨hconsistent, hdead⟩, hfull⟩ := hreturns
  have hproduct := hexact.consistent.mp hconsistent
  have hB : "B" ∈ report.subjects .dead := hdead ▸ List.mem_singleton_self _
  have hA : "A" ∈ report.subjects .fullMandatory := hfull ▸ List.mem_singleton_self _
  rw [hexact.dead hproduct rfl] at hB
  rw [hexact.fullMandatory hproduct rfl] at hA
  exact ⟨report, a, hrun, hconsistent, hproduct, hdead, by simpa using List.of_mem_filter hB,
    hfull, by simpa using List.of_mem_filter hA⟩

end Analysis
end Anomaly
end ProductLine
