import ProductLine.Proofs.Anomaly.Lockstep
import ProductLine.Proofs.Anomaly.Calls
import ProductLine.Proofs.Constraint.Reordering

/-! # Two analyses compared

Undisturbed analyses of one model may differ in what is checked and in the order in which they visit the
features. If they are started from one setup, they are ready for it (`start_ready`). With clocks that go
alike, they keep a relation between what they have found, such as one for each category (`EachCategory`),
provided that every probe adds to both sides what keeps it (`Compared`). So the findings of whole analyses
are related, and they agree on whether the model has a product (`run_related`). Regular clocks go alike
for good, whatever time passes in either analysis (`RegularSetup.clocked`). -/

namespace ProductLine
namespace Anomaly

open Constraint Diagnosis Outcome Workbench Analysis

namespace Setup

/-- Both analyses stand, with clocks that go alike, and say the same about whether there is a product.
What they have found is related. -/
structure Related (g : Setup) (related : List Finding → List Finding → Prop) (own own' : Config)
    (a a' : Analyzer) : Prop where
  first : g.Steady own [] a
  second : g.Steady own' [] a'
  clocked : g.Clocked a a'
  consistent : a'.report.consistent = a.report.consistent
  found : related a.report.found a'.report.found

/-- Both analyses still stand and have found more, by which related findings stay related. -/
structure Extended (g : Setup) (related : List Finding → List Finding → Prop) (own own' : Config)
    (a a' b b' : Analyzer) : Prop where
  first : g.Steady own [] b
  second : g.Steady own' [] b'
  clocked : g.Clocked b b'
  found : ∃ fs fs', b.report = a.report.extend fs ∧ b'.report = a'.report.extend fs' ∧
    ∀ ds ds', related ds ds' → related (ds ++ fs) (ds' ++ fs')

/-- Whatever was done before, analyses that do this have then found more, by which related findings stay
related. -/
def Compared {α : Type} (g : Setup) (related : List Finding → List Finding → Prop)
    (own own' : Config) (work work' : Analysis α) : Prop :=
  ∀ a a', g.Steady own [] a → g.Steady own' [] a' → g.Clocked a a' →
    Agree (fun b b' => b = a ∧ b' = a') work work' fun x x' b b' =>
      x' = x ∧ g.Extended related own own' a a' b b'

/-- The findings are related category by category. -/
def EachCategory (related : Category → List Finding → List Finding → Prop)
    (ds ds' : List Finding) : Prop :=
  ∀ c, related c (ds.filter (·.category = c)) (ds'.filter (·.category = c))

variable {α : Type} {g : Setup} {related : List Finding → List Finding → Prop}
  {own own' : Config} {c : Category} {a a' b b' : Analyzer}

theorem EachCategory.append {rel : Category → List Finding → List Finding → Prop}
    {ds ds' fs fs' : List Finding} (h : EachCategory rel ds ds') (hfs : ∀ f ∈ fs, f.category = c)
    (hfs' : ∀ f ∈ fs', f.category = c) (happend : ∀ ds ds', rel c ds ds' →
      rel c (ds ++ fs) (ds' ++ fs')) : EachCategory rel (ds ++ fs) (ds' ++ fs') := by
  intro d
  have hbefore := h d
  rw [List.filter_append, List.filter_append]
  by_cases hd : d = c
  · subst hd
    rw [filter_category_self hfs, filter_category_self hfs']
    exact happend _ _ hbefore
  · rwa [filter_category_of_ne hfs hd, filter_category_of_ne hfs' hd, List.append_nil,
      List.append_nil]

theorem Related.extended (h : g.Related related own own' a a')
    (hb : g.Extended related own own' a a' b b') : g.Related related own own' b b' := by
  obtain ⟨fs, fs', hreport, hreport', hrelated⟩ := hb.found
  refine ⟨hb.first, hb.second, hb.clocked, ?_, ?_⟩
  · rw [hreport, hreport']
    exact h.consistent
  · rw [hreport, hreport']
    exact hrelated _ _ h.found

theorem Related.hears (h : g.Related related own own' a a') (hb : Hears a b) (hb' : Hears a' b') :
    g.Related related own own' b b' := by
  refine ⟨h.first.asks hb.asks, h.second.asks hb'.asks, h.clocked.hears hb hb', ?_, ?_⟩
  · obtain ⟨d, -, rfl⟩ := hb.asks
    obtain ⟨d', -, rfl⟩ := hb'.asks
    exact h.consistent
  · obtain ⟨d, -, rfl⟩ := hb.asks
    obtain ⟨d', -, rfl⟩ := hb'.asks
    exact h.found

/-! ### Work that is compared -/

theorem Compared.agree {work work' : Analysis α} (h : g.Compared related own own' work work') :
    Agree (g.Related related own own') work work' fun x x' b b' =>
      x' = x ∧ g.Related related own own' b b' :=
  .ofStates fun a a' ha => (h a a' ha.first ha.second ha.clocked).weaken
    fun _ _ _ _ hx => ⟨hx.1, ha.extended hx.2⟩

theorem Compared.symm {related' : List Finding → List Finding → Prop} {work work' : Analysis α}
    (h : g.Compared related own own' work work')
    (hrelated : ∀ ds ds', related' ds' ds ↔ related ds ds') :
    g.Compared related' own' own work' work := by
  intro a' a ha' ha hclocked
  refine ((h a a' ha ha' hclocked.symm).symm.strengthen fun _ _ hs => hs.symm).weaken ?_
  rintro x' x b' b ⟨hx, hb⟩
  obtain ⟨fs, fs', hreport, hreport', hkept⟩ := hb.found
  exact ⟨hx.symm, hb.second, hb.first, hb.clocked.symm, fs', fs, hreport', hreport,
    fun ds' ds hds => (hrelated _ _).mpr (hkept ds ds' ((hrelated _ _).mp hds))⟩

theorem compared_pure (x : α) :
    g.Compared related own own' (pure x : Analysis α) (pure x : Analysis α) := by
  rintro a a' ha ha' hclocked _ _ ⟨rfl, rfl⟩ _ _ _ _ ⟨⟩ ⟨⟩
  refine ⟨rfl, ha, ha', hclocked, [], [], (Report.extend_nil _).symm, (Report.extend_nil _).symm,
    fun ds ds' h => ?_⟩
  rwa [List.append_nil, List.append_nil]

/-- Analyses in lockstep find the same, so it is enough that this keeps findings related. -/
theorem compared_of_lockstep {work : Analysis α}
    (happend : ∀ ds ds' fs, (∀ f ∈ fs, f.category = c) → related ds ds' →
      related (ds ++ fs) (ds' ++ fs))
    (h : ∀ a a', Agree (g.Lockstep (setOut c own own' a a') []) work work fun x x' b b' =>
      x' = x ∧ g.Lockstep (setOut c own own' a a') [] b b') :
    g.Compared related own own' work work := by
  intro a a' ha ha' hclocked
  refine ((h a a').inStates (ha.setOut ha' hclocked c)).weaken fun x x' b b' hx => ⟨hx.1, ?_⟩
  obtain ⟨fs, hcategory, hreport, hreport'⟩ := hx.2.since
  exact ⟨hx.2.first, hx.2.second, hx.2.clocked, fs, fs, hreport, hreport',
    fun ds ds' => happend ds ds' fs hcategory⟩

/-- A probe may be made on both sides, on either side, or on none. -/
theorem compared_ifAsked {probe : Analysis Unit}
    (hboth : asked c own = true → asked c own' = true →
      g.Compared related own own' probe probe)
    (hfirst : asked c own = true → asked c own' = false →
      g.Compared related own own' probe (pure ()))
    (hsecond : asked c own = false → asked c own' = true →
      g.Compared related own own' (pure ()) probe) :
    g.Compared related own own' (ifAsked (asked c) probe) (ifAsked (asked c) probe) := by
  intro a a' ha ha' hclocked
  unfold ifAsked
  refine .get_bind ?_
  rintro _ _ ⟨rfl, rfl⟩
  rw [ha.own_eq, ha'.own_eq]
  cases hown : asked c own <;> cases hown' : asked c own'
  · exact compared_pure () _ _ ha ha' hclocked
  · exact hsecond hown hown' _ _ ha ha' hclocked
  · exact hfirst hown hown' _ _ ha ha' hclocked
  · exact hboth hown hown' _ _ ha ha' hclocked

/-! ### The whole analysis -/

/-- The probe that looks for findings of a category in a model with a product. -/
def search : Category → Analysis Unit
  | .void => pure ()
  | .dead => checkDead
  | .conditionallyDead => checkConditionallyDead
  | .fullMandatory => checkFullMandatory
  | .falseOptional => checkFalseOptional
  | .redundant => checkRedundancies

theorem note_related (n n' : Journal.Note) :
    Agree (g.Related related own own') (note n) (note n') fun _ _ => g.Related related own own' := by
  refine .ofStates fun a a' ha => ?_
  exact (Agree.ofEnsures (note_hears n) (note_hears n')).weaken
    fun _ _ _ _ hb => ha.hears hb.1.2 hb.2.2

section probes

variable (hvoid : g.Compared related own own' checkConsistency checkConsistency)
  (hsearch : ∀ c, g.Compared related own own' (ifAsked (asked c) (search c))
    (ifAsked (asked c) (search c)))
include hvoid hsearch

theorem probes_related : Agree (g.Related related own own') probes probes
    fun _ _ => g.Related related own own' := by
  have hprobe : ∀ c, Agree (g.Related related own own') (ifAsked (asked c) (search c))
      (ifAsked (asked c) (search c)) fun _ _ => g.Related related own own' := fun c =>
    (hsearch c).agree.weaken fun _ _ _ _ hx => hx.2
  unfold probes
  refine .bind hvoid.agree fun answer answer' => .assuming ?_
  rintro rfl
  have hset : Agree (g.Related related own own')
      (modify fun a => { a with report := { a.report with consistent := answer' } } : Analysis Unit)
      (modify fun a => { a with report := { a.report with consistent := answer' } } : Analysis Unit)
      fun _ _ => g.Related related own own' :=
    .modify fun a a' ha => ⟨{ ha.first with }, { ha.second with }, ha.clocked, rfl, ha.found⟩
  refine .bind hset fun _ _ => ?_
  cases answer' with
  | true =>
    refine .bind (hprobe .dead) fun _ _ => ?_
    refine .bind (hprobe .conditionallyDead) fun _ _ => ?_
    refine .bind (hprobe .fullMandatory) fun _ _ => ?_
    refine .bind (hprobe .falseOptional) fun _ _ => ?_
    exact hprobe .redundant
  | false => exact note_related _ _

/-- Whole analyses begin without tags and findings. -/
theorem run_related (hnil : related [] []) :
    Agree (fun a a' => (g.Ready own a ∧ g.Ready own' a') ∧ g.Clocked a a') run run fun r r' _ _ =>
      r'.consistent = r.consistent ∧ related r.found r'.found := by
  have hread : Agree (g.Related related own own') Analysis.model Analysis.model
      fun _ _ => g.Related related own own' := by
    rintro a a' ha _ _ _ _ ⟨⟩ ⟨⟩
    exact ha
  have htaken : Agree (g.Related related own own') (always takeStock probes)
      (always takeStock probes) fun _ _ => g.Related related own own' :=
    .always (probes_related hvoid hsearch)
      fun _ _ a a' ha => ⟨{ ha.first with }, { ha.second with }, ha.clocked, ha.consistent, ha.found⟩
  unfold run
  refine .bind (.modify ?_) fun _ _ => .bind hread fun n n' => ?_
  · exact fun a a' ha => ⟨ha.1.1.cleared, ha.1.2.cleared, ha.2, rfl, hnil⟩
  refine .bind (note_related _ _) fun _ _ => ?_
  refine .bind htaken fun _ _ => ?_
  refine .get_bind fun a a' ha => ?_
  refine .bind ((note_related _ _).inStates ha) fun _ _ => ?_
  exact .get_bind fun b b' hb => .pure fun _ _ _ => ⟨hb.consistent, hb.found⟩

end probes
end Setup

/-- A setup in which all clocks go alike, as each takes the same time for every reading. -/
structure RegularSetup extends Setup where
  regular : config.limits.timed = true → world.lapses = []

/-- With regular clocks it does not matter how long either analysis took so far. -/
theorem RegularSetup.clocked {g : RegularSetup} {own own' : Config} {a a' : Analyzer}
    (h : g.Ready own a) (h' : g.Ready own' a') : g.Clocked a a' := fun htimed =>
  (h.bench.time htimed).inStep (h'.bench.time htimed) (g.regular htimed)

/-! ### Starting -/

namespace Analysis

open Setup

variable {m : FeatureModel} {config own : Config} {w : World} {a₀ : Analyzer}

theorem start_eq_ok_iff : start (Analyzer.new m config w) = .ok () a₀ ↔
    ∃ b, Work.build config.order (Workbench.new m config.solver w) = .ok () b ∧
      a₀ = ⟨b, config, config.limits, Report.new b.model.name, false⟩ := by
  have hbench : (Analyzer.new m config w).bench = Workbench.new m config.solver w := rfl
  have horder : (Analyzer.new m config w).config.order = config.order := rfl
  rw [start_eq, hbench, horder]
  cases Work.build config.order (Workbench.new m config.solver w) with
  | error e b =>
    constructor
    · rintro ⟨⟩
    · rintro ⟨_, ⟨⟩, -⟩
  | ok x b =>
    constructor
    · rintro ⟨⟩
      exact ⟨b, rfl, rfl⟩
    · rintro ⟨_, ⟨⟩, rfl⟩
      rfl

theorem start_of_made {s : Store} (h : Store.ofModel m config.order = .ok s) (w : World) :
    ∃ a, start (Analyzer.new m config w) = .ok () a := by
  have hmade : (Store.attempt (Workbench.new m config.solver w).model config.order).outcome =
      .ok s := h
  have hbuild := Work.build_eq config.order (Workbench.new m config.solver w)
  rw [hmade] at hbuild
  exact ⟨_, start_eq_ok_iff.mpr ⟨_, hbuild, rfl⟩⟩

/-- Started from the setup, with whatever order and checks, an analyzer is ready for it. -/
theorem start_ready {g : Setup} (hfaults : g.world.faults = []) (hidle : g.world.Idle)
    (hsearch : g.config.SameSearch own)
    (h : start (Analyzer.new g.model own g.world) = .ok () a₀) : g.Ready own a₀ := by
  obtain ⟨b, hr, rfl⟩ := start_eq_ok_iff.mp h
  obtain ⟨⟨hstanding, -⟩, hmade, -, hbuilding⟩ := (Work.build_standing own.order).of_eq_ok rfl hr
  obtain ⟨vars, hvars, hother⟩ := Store.ofModel_reordered g.made own.order
  have hstore : b.store = { g.store with vars := vars } := Except.ok.inj (hmade.symm.trans hother)
  refine ⟨⟨hstanding.alike, ⟨vars, g.store.nextId, hvars, Nat.le_refl _, hstore⟩,
    hbuilding.settings.trans hsearch.solver, hbuilding.faults.trans hfaults,
    fun t ht => hidle t (hbuilding.token.symm.trans ht),
    fun _ => (World.InStep.refl _).paces.later hbuilding.time⟩, rfl, hsearch, hsearch.limits⟩

/-- Whatever is started has a setup, which is regular if the clock is. -/
theorem start_setup (hregular : config.limits.timed = true → w.lapses = [])
    (h : start (Analyzer.new m config w) = .ok () a₀) :
    ∃ g : RegularSetup, g.model = m ∧ g.config = config ∧ g.world = w := by
  obtain ⟨b, hr, -⟩ := start_eq_ok_iff.mp h
  obtain ⟨⟨-, visited, hvisit⟩, hmade, -, -⟩ := (Work.build_standing config.order).of_eq_ok rfl hr
  exact ⟨⟨⟨m, config, w, b.store, visited, hmade, hvisit⟩, hregular⟩, rfl, rfl, rfl⟩

theorem report_of_run {r : Report} {b : Analyzer}
    (h : start (Analyzer.new m config w) = .ok () a₀) (hr : run a₀ = .ok r b) :
    (after run a₀).report = r := by
  obtain ⟨hsound, visited, hvisit⟩ := start_sound h
  rw [after, hr]
  exact ((run_ensures hsound hvisit).of_eq_ok rfl hr).1.symm

theorem run_returns (hidle : w.Idle) (h : start (Analyzer.new m config w) = .ok () a₀)
    (hlimits : config.limits.Numeric) (hclock : ¬w.Overran (after run a₀).bench.world) :
    ∃ r b, run a₀ = .ok r b := by
  obtain ⟨hsound, visited, hvisit⟩ := start_sound h
  obtain ⟨r, b, hr, -⟩ := returns_of_ensures hlimits (run_keeps hsound hvisit) hclock hidle
  exact ⟨r, b, hr⟩

end Analysis
end Anomaly
end ProductLine
