import ProductLine.Proofs.Anomaly.Cancellation
import ProductLine.Proofs.Workbench.Renumbered

/-! # Probes in lockstep

What a probe leaves behind are numbers given out, time gone by, tags, and the knowledge that the dead
features are tagged. None of it reaches what other probes find: two analyses of one model, configured
alike but for what is checked, go in `Lockstep` through a probe that both of them make, whatever either
did before. There is one lemma for every probe, from those of its parts; each of them says that the analyses
then have found the same in the same order. -/

namespace ProductLine
namespace Anomaly

open Constraint Diagnosis Outcome Workbench

/-- The configurations differ in nothing but what is checked. -/
structure Config.SameButChecks (config config' : Config) : Prop where
  solver : config'.solver = config.solver
  limits : config'.limits = config.limits
  recentFirst : config'.recentFirst = config.recentFirst
  order : config'.order = config.order

/-- Diagnoses are searched for in the same way under both configurations. -/
structure Config.SameSearch (config config' : Config) : Prop where
  solver : config'.solver = config.solver
  limits : config'.limits = config.limits
  recentFirst : config'.recentFirst = config.recentFirst

theorem Config.SameSearch.refl (config : Config) : config.SameSearch config := ⟨rfl, rfl, rfl⟩

theorem Config.SameButChecks.sameSearch {config config' : Config} (h : config.SameButChecks config') :
    config.SameSearch config' := { h with }

/-- The report with more findings. -/
def Report.extend (r : Report) (fs : List Finding) : Report := { r with found := r.found ++ fs }

theorem Report.extend_nil (r : Report) : r.extend [] = r := by
  unfold extend
  rw [List.append_nil]

theorem Report.extend_extend (r : Report) (fs fs' : List Finding) :
    (r.extend fs).extend fs' = r.extend (fs ++ fs') := by
  unfold extend
  rw [List.append_assoc]

theorem Report.extend_inj {r : Report} {fs fs' : List Finding} (h : r.extend fs = r.extend fs') :
    fs = fs' := List.append_cancel_left (congrArg Report.found h)

/-- What undisturbed analyses of one model have in common: the store, made in the order of a
configuration, and a world whose pace their clocks keep if time is bounded. -/
structure Setup where
  model : FeatureModel
  config : Config
  world : World
  store : Store
  visited : List Feature
  made : Store.ofModel model config.order = .ok store
  visit : model.nonRoot config.order = .ok visited

/-- A category in two analyses: how they are configured, and what they have reported before. -/
structure Course where
  category : Category
  own : Config
  own' : Config
  before : Report
  before' : Report

/-- The names with one more of which it is known whether the feature is dead, if dead ones are looked
for. -/
def Course.known (k : Course) (name : String) (names : List String) : List String :=
  if k.category = .dead then name :: names else names

/-- A step that asks without reading the clock. -/
structure Hears (a b : Analyzer) : Prop where
  asks : Asks a b
  unread : b.bench.world.reading = a.bench.world.reading

theorem Hears.refl (a : Analyzer) : Hears a a := ⟨.refl a, rfl⟩

theorem Hears.trans {a b c : Analyzer} (h : Hears a b) (h' : Hears b c) : Hears a c :=
  ⟨h.asks.trans h'.asks, h'.unread.trans h.unread⟩

namespace Setup

variable (g : Setup)

/-- Whether the engine affirms that a product has the values. -/
def affirms (values : List (String × Bool)) : Bool :=
  Oracle.affirms g.config.solver (g.store.ac ++ assignments g.store.nextId values)

/-- The engine does not affirm that a product has the feature. -/
def Refused (name : String) : Prop := g.affirms [(name, true)] = false

/-- Whether a feature is optional and the engine affirms that a product has it. -/
def lives (name : String) : Bool := g.model.isOptional name && g.affirms [(name, true)]

/-- How an analyzer stands that nothing disturbs, however its model is tagged and in whatever order it
visits the features. -/
structure Ready (own : Config) (a : Analyzer) : Prop where
  bench : a.bench.Steady g.model g.store g.config.solver g.config.limits.timed g.world
  own_eq : a.config = own
  sameSearch : g.config.SameSearch own
  limits_eq : a.limits = g.config.limits

/-- Only refused features are tagged as dead, among the given names all of them, and so among all names
once the dead ones have been looked for. -/
structure Steady (own : Config) (names : List String) (a : Analyzer) : Prop
    extends g.Ready own a where
  dead : ∀ name, a.bench.model.hasTag name .dead = true → g.Refused name
  tagged : ∀ name ∈ names, g.Refused name → a.bench.model.hasTag name .dead = true
  checked : a.deadChecked = true → ∀ f ∈ g.visited, g.Refused f.name →
    a.bench.model.hasTag f.name .dead = true

/-- If time is bounded, the clocks go alike. -/
def Clocked (a a' : Analyzer) : Prop := Workbench.Clocked g.config.limits.timed a.bench a'.bench

/-- Both analyses stand, with clocks that go alike, and have found the same since the course began.
Nothing else was reported. -/
structure Lockstep (k : Course) (names : List String) (a a' : Analyzer) : Prop where
  first : g.Steady k.own names a
  second : g.Steady k.own' names a'
  clocked : g.Clocked a a'
  found : ∃ fs, (∀ f ∈ fs, f.category = k.category) ∧ a.report = k.before.extend fs ∧
    a'.report = k.before'.extend fs

variable {g : Setup} {own : Config} {names : List String} {k : Course} {a a' b b' : Analyzer}

theorem mem_names {name : String} (h : name ∈ g.visited.map (·.name)) : name ∈ g.model.names := by
  obtain ⟨f, hf, rfl⟩ := List.mem_map.mp h
  exact FeatureModel.mem_names_of_nonRoot g.visit hf

theorem mem_visited {o : FeatureOrder} {fs : List Feature} (h : g.model.nonRoot o = .ok fs)
    (name : String) : name ∈ fs.map (·.name) ↔ name ∈ g.visited.map (·.name) :=
  (FeatureModel.mem_nonRoot_names h g.visit name)

theorem Ready.cleared (h : g.Ready own a) : g.Steady own [] { a with
    bench := { a.bench with model := a.bench.model.clearTags }
    report := Report.new a.bench.model.name
    deadChecked := false } := by
  refine { h with
    bench := { h.bench with alike := h.bench.alike.trans (.clearTags _) }
    dead := fun name htag => ?_
    tagged := List.forall_mem_nil _
    checked := fun hchecked => absurd hchecked Bool.false_ne_true }
  rw [FeatureModel.hasTag_clearTags] at htag
  cases htag

theorem Steady.standing (h : g.Steady own names a) : Standing g.model a.bench :=
  h.bench.standing g.made

theorem Steady.asks (h : g.Steady own names a) (hb : Asks a b) : g.Steady own names b := by
  obtain ⟨c, hc, rfl⟩ := hb
  exact { h with
    bench := h.bench.probed hc
    dead := fun name htag => h.dead name (hc.model ▸ htag)
    tagged := fun name hname hrefused => hc.model.symm ▸ h.tagged name hname hrefused
    checked := fun hchecked f hf hrefused => hc.model.symm ▸ h.checked hchecked f hf hrefused }

theorem Clocked.hears (h : g.Clocked a a') (hb : Hears a b) (hb' : Hears a' b') : g.Clocked b b' :=
  fun htimed => (h htimed).congr hb.unread hb'.unread

theorem Clocked.refl (a : Analyzer) : g.Clocked a a := fun _ => .refl _

theorem Clocked.symm (h : g.Clocked a a') : g.Clocked a' a := fun htimed => (h htimed).symm

theorem Lockstep.asks (h : g.Lockstep k names a a') (hb : Asks a b) (hb' : Asks a' b')
    (hclocked : g.Clocked b b') : g.Lockstep k names b b' := by
  refine ⟨h.first.asks hb, h.second.asks hb', hclocked, ?_⟩
  obtain ⟨c, -, rfl⟩ := hb
  obtain ⟨c', -, rfl⟩ := hb'
  exact h.found

theorem Steady.tag (h : g.Steady own names a) {subject : String} {t : Feature.Anomaly}
    (hdead : t = .dead → g.Refused subject) :
    g.Steady own names { a with bench := { a.bench with
      model := a.bench.model.tag subject t } } := by
  refine { h with
    bench := { h.bench with alike := h.bench.alike.trans (.tag _ subject t) }
    dead := ?_
    tagged := fun name hname hrefused =>
      FeatureModel.hasTag_tag_iff.mpr (.inl (h.tagged name hname hrefused))
    checked := fun hchecked f hf hrefused =>
      FeatureModel.hasTag_tag_iff.mpr (.inl (h.checked hchecked f hf hrefused)) }
  intro name htag
  rcases FeatureModel.hasTag_tag_iff.mp htag with hbefore | ⟨rfl, ht, -⟩
  · exact h.dead name hbefore
  · exact hdead ht.symm

theorem Steady.known (h : g.Steady own names a) {name : String}
    (hname : k.category = .dead → g.Refused name → a.bench.model.hasTag name .dead = true) :
    g.Steady own (k.known name names) a := by
  refine { h with tagged := ?_ }
  unfold Course.known
  split
  · next hdead => exact List.forall_mem_cons.mpr ⟨hname hdead, h.tagged⟩
  · exact h.tagged

theorem Steady.mono {names' : List String} (h : g.Steady own names a) (hnames : names' ⊆ names) :
    g.Steady own names' a := { h with tagged := fun name hname => h.tagged name (hnames hname) }

theorem Lockstep.mono {names' : List String} (h : g.Lockstep k names a a') (hnames : names' ⊆ names) :
    g.Lockstep k names' a a' := ⟨h.first.mono hnames, h.second.mono hnames, h.clocked, h.found⟩

/-- The course of a category that begins where two analyses are. -/
def setOut (c : Category) (own own' : Config) (a a' : Analyzer) : Course :=
  ⟨c, own, own', a.report, a'.report⟩

theorem Steady.setOut {own' : Config} (h : g.Steady own [] a) (h' : g.Steady own' [] a')
    (hclocked : g.Clocked a a') (c : Category) : g.Lockstep (setOut c own own' a a') [] a a' :=
  ⟨h, h', hclocked, [], List.forall_mem_nil _, (Report.extend_nil _).symm, (Report.extend_nil _).symm⟩

theorem Lockstep.since {own' : Config} {c : Category}
    (h : g.Lockstep (setOut c own own' a a') names b b') :
    ∃ fs : List Finding, (∀ f ∈ fs, f.category = c) ∧ b.report = a.report.extend fs ∧
      b'.report = a'.report.extend fs := h.found

theorem Lockstep.of_known {name : String} (h : g.Lockstep k (k.known name names) a a') :
    g.Lockstep k names a a' := by
  apply h.mono
  unfold Course.known
  split
  · exact List.subset_cons_self _ _
  · exact List.Subset.refl _

end Setup

namespace Analysis

open Setup

variable {g : Setup} {own : Config} {names : List String} {k : Course} {α : Type}

/-! ### Asking -/

theorem exists_of_onBench_eq_ok {work : Work α} {a b : Analyzer} {x : α}
    (h : onBench work a = .ok x b) : ∃ c, work a.bench = .ok x c ∧ { a with bench := c } = b := by
  rw [onBench_eq] at h
  cases hwork : work a.bench with
  | error e c =>
    rw [hwork] at h
    cases h
  | ok y c =>
    rw [hwork] at h
    cases h
    exact ⟨c, rfl, rfl⟩

theorem onBench_agree {work work' : Work α} {Q : α → α → Prop} {limits : Limits}
    (hlimits : limits = g.config.limits) (h : Agree (fun b b' =>
      (b.Steady g.model g.store g.config.solver limits.timed g.world ∧
        b'.Steady g.model g.store g.config.solver limits.timed g.world) ∧
      Workbench.Clocked limits.timed b b') work work'
      fun x x' b b' => Q x x' ∧ Workbench.Clocked limits.timed b b') :
    Agree (g.Lockstep k names) (onBench work) (onBench work')
      fun x x' a a' => Q x x' ∧ g.Clocked a a' := by
  subst hlimits
  intro a a' ha x b x' b' hr hr'
  obtain ⟨c, hwork, rfl⟩ := exists_of_onBench_eq_ok hr
  obtain ⟨c', hwork', rfl⟩ := exists_of_onBench_eq_ok hr'
  exact h a.bench a'.bench ⟨⟨ha.first.bench, ha.second.bench⟩, ha.clocked⟩ x c x' c' hwork hwork'

/-- Analyses that only ask stay in lockstep. -/
theorem asks_lockstep {work work' : Analysis α} {Q : α → α → Prop}
    (h : Agree (g.Lockstep k names) work work' fun x x' a a' => Q x x' ∧ g.Clocked a a')
    (hasks : ∀ a, g.Steady k.own names a → Ensures (· = a) work (fun _ => Asks a) fun _ _ => True)
    (hasks' : ∀ a, g.Steady k.own' names a →
      Ensures (· = a) work' (fun _ => Asks a) fun _ _ => True) :
    Agree (g.Lockstep k names) work work' fun x x' a a' => Q x x' ∧ g.Lockstep k names a a' := by
  intro a a' ha x b x' b' hr hr'
  have hb := (hasks a ha.first).of_eq_ok rfl hr
  have hb' := (hasks' a' ha.second).of_eq_ok rfl hr'
  obtain ⟨hx, hclocked⟩ := h a a' ha x b x' b' hr hr'
  exact ⟨hx, ha.asks hb hb' hclocked⟩

theorem told_lockstep {work work' : Analysis α} {P P' : α → Prop}
    (h : ∀ a, g.Steady k.own names a →
      Ensures (· = a) work (fun x b => P x ∧ Hears a b) fun _ _ => True)
    (h' : ∀ a, g.Steady k.own' names a →
      Ensures (· = a) work' (fun x b => P' x ∧ Hears a b) fun _ _ => True) :
    Agree (g.Lockstep k names) work work'
      fun x x' a a' => (P x ∧ P' x') ∧ g.Lockstep k names a a' := by
  refine .ofStates fun a a' ha => ?_
  refine (Agree.ofEnsures (h a ha.first) (h' a' ha.second)).weaken ?_
  rintro x x' b b' ⟨⟨hx, hb⟩, hx', hb'⟩
  exact ⟨⟨hx, hx'⟩, ha.asks hb.asks hb'.asks (ha.clocked.hears hb hb')⟩

theorem note_hears {a : Analyzer} (n : Journal.Note) :
    Ensures (· = a) (note n) (fun _ b => True ∧ Hears a b) fun _ _ => True := by
  have hasks : Ensures (· = a) (note n) (fun _ => Asks a) fun _ _ => True := note_asks n
  rintro _ rfl
  exact ⟨trivial, hasks.of_eq_ok rfl rfl, funext (World.reading_congr rfl rfl rfl)⟩

theorem note_lockstep (n n' : Journal.Note) :
    Agree (g.Lockstep k names) (note n) (note n') fun _ _ => g.Lockstep k names :=
  (told_lockstep (fun _ _ => note_hears n) fun _ _ => note_hears n').weaken fun _ _ _ _ h => h.2

theorem infeasible_steady {a : Analyzer} {values : List (String × Bool)} (ha : g.Steady own names a)
    (hvalues : ∀ x ∈ values, x.1 ∈ g.model.names) :
    Ensures (· = a) (infeasible values) (fun found b => (found = !g.affirms values) ∧ Hears a b)
      fun _ _ => True := by
  have hboth := (Work.infeasible_affirms g.made ha.bench hvalues).both
    (Work.infeasible_probed ha.standing hvalues)
  refine (onBench_ensures hboth).mono ?_ fun _ _ _ => trivial
  rintro found _ ⟨c, ⟨⟨hfound, hread⟩, -, hc⟩, rfl⟩
  exact ⟨hfound, ⟨c, hc, rfl⟩, hread⟩

theorem infeasible_lockstep {values : List (String × Bool)}
    (hvalues : ∀ x ∈ values, x.1 ∈ g.model.names) :
    Agree (g.Lockstep k names) (infeasible values) (infeasible values) fun found found' a a' =>
      (found = (!g.affirms values) ∧ found' = !g.affirms values) ∧ g.Lockstep k names a a' :=
  told_lockstep (fun _ ha => infeasible_steady ha hvalues) fun _ ha => infeasible_steady ha hvalues

theorem diagnosePerturbation_steady {a : Analyzer} {values : List (String × Bool)}
    (ha : g.Steady own names a) (hvalues : ∀ x ∈ values, x.1 ∈ g.model.names) :
    Ensures (· = a) (diagnosePerturbation values) (fun _ => Asks a) fun _ _ => True := by
  unfold diagnosePerturbation
  refine .get_bind fun b hb => ?_
  rw [hb]
  refine (onBench_ensures (diagnosed_probed _ ha.standing hvalues)).mono ?_ fun _ _ _ => trivial
  rintro all _ ⟨c, ⟨-, hc⟩, rfl⟩
  exact ⟨c, hc, rfl⟩

theorem diagnosePerturbation_lockstep {values : List (String × Bool)}
    (hvalues : ∀ x ∈ values, x.1 ∈ g.model.names) :
    Agree (g.Lockstep k names) (diagnosePerturbation values) (diagnosePerturbation values)
      fun all all' a a' => Retells all all' ∧ g.Lockstep k names a a' := by
  refine asks_lockstep ?_ (fun _ ha => diagnosePerturbation_steady ha hvalues)
    fun _ ha => diagnosePerturbation_steady ha hvalues
  unfold diagnosePerturbation
  refine .get_bind fun a a' ha => ?_
  rw [ha.first.limits_eq, ha.second.limits_eq, ha.first.own_eq, ha.second.own_eq,
    ha.first.sameSearch.recentFirst, ha.second.sameSearch.recentFirst]
  exact (onBench_agree rfl (Work.perturbed_retells g.made _ hvalues)).inStates ha

/-! ### Recording -/

theorem recordTagged_lockstep (subject : String) {all all' : Enumeration} (h : Retells all all')
    (condition : Option String) :
    Agree (g.Lockstep k names) (recordTagged k.category subject all condition)
      (recordTagged k.category subject all' condition) fun _ _ => g.Lockstep k names := by
  unfold recordTagged
  have hexplained : Agree (g.Lockstep k names) (orFail (explanations all.diagnoses))
      (orFail (explanations all'.diagnoses))
      fun found found' a a' => found' = found ∧ g.Lockstep k names a a' := by
    rw [h.1]
    exact .orFail fun found found' hr hr' _ _ ha => ⟨Except.ok.inj (hr'.symm.trans hr), ha⟩
  refine .bind hexplained fun found found' => .assuming ?_
  rintro rfl
  rw [h.2]
  have hlines : ∀ lines : List String, List.Forall₂ (fun _ _ => True) lines lines := fun lines =>
    List.forall₂_same.mpr fun _ _ => trivial
  refine .bind (.forM (hlines _) fun _ _ _ => note_lockstep _ _) fun _ _ => ?_
  refine .modify fun a a' ha => ⟨{ ha.first with }, { ha.second with }, ha.clocked, ?_⟩
  obtain ⟨fs, hcategory, hfound, hfound'⟩ := ha.found
  refine ⟨fs ++ [⟨k.category, subject, found', condition, all.stopped.isSome⟩],
    List.forall_mem_append.mpr ⟨hcategory, List.forall_mem_singleton.mpr rfl⟩, ?_, ?_⟩
  · show a.report.extend [_] = _
    rw [hfound, Report.extend_extend]
  · show a'.report.extend [_] = _
    rw [hfound', Report.extend_extend]

/-- Of dead features only refused ones are recorded, and those are tagged. -/
theorem record_lockstep (subject : String) {all all' : Enumeration} (h : Retells all all')
    (condition : Option String)
    (hdead : k.category = .dead → g.Refused subject ∧ subject ∈ g.model.names) :
    Agree (g.Lockstep k names) (record k.category subject all condition)
      (record k.category subject all' condition) fun _ _ => g.Lockstep k (k.known subject names) := by
  have hknown : ∀ t, k.category.tag? = some t → ∀ {own a}, g.Steady own names a →
      g.Steady own (k.known subject names) { a with bench := { a.bench with
        model := a.bench.model.tag subject t } } := by
    intro t htag own a ha
    have hrefused : t = .dead → g.Refused subject := fun ht =>
      (hdead (eq_dead_of_tag? (htag.trans (congrArg some ht)))).1
    refine (ha.tag hrefused).known fun hk _ => FeatureModel.hasTag_tag_iff.mpr (.inr ⟨rfl, ?_, ?_⟩)
    · rw [hk] at htag
      exact Option.some.inj htag
    · rw [← ha.bench.alike.names]
      exact (hdead hk).2
  unfold record
  cases htag : k.category.tag? with
  | none =>
    have hnot : k.category ≠ .dead := by
      intro hk
      rw [hk] at htag
      cases htag
    have hsame : k.known subject names = names := if_neg hnot
    rw [hsame]
    exact recordTagged_lockstep subject h condition
  | some t =>
    have hput : Agree (g.Lockstep k names)
        (onBench (modify fun b => { b with model := b.model.tag subject t }))
        (onBench (modify fun b => { b with model := b.model.tag subject t }))
        fun _ _ => g.Lockstep k (k.known subject names) := by
      rintro a a' ha _ _ _ _ ⟨⟩ ⟨⟩
      exact ⟨hknown t htag ha.first, hknown t htag ha.second, ha.clocked, ha.found⟩
    exact .bind hput fun _ _ => recordTagged_lockstep subject h condition

/-- Of what is recorded of other categories nothing has to be known. -/
theorem recordOther_lockstep (hother : k.category ≠ .dead) (subject : String)
    {all all' : Enumeration} (h : Retells all all') (condition : Option String) :
    Agree (g.Lockstep k names) (record k.category subject all condition)
      (record k.category subject all' condition) fun _ _ => g.Lockstep k names :=
  (record_lockstep subject h condition fun hdead => absurd hdead hother).weaken
    fun _ _ _ _ ha => ha.of_known

theorem report_lockstep {f f' : Feature} (hname : f'.name = f.name)
    {values : List (String × Bool)} (hvalues : ∀ x ∈ values, x.1 ∈ g.model.names)
    (hdead : k.category = .dead → g.Refused f.name ∧ f.name ∈ g.model.names) :
    Agree (g.Lockstep k names) (report k.category f values) (report k.category f' values)
      fun _ _ => g.Lockstep k (k.known f.name names) := by
  unfold report
  rw [hname]
  refine .bind (note_lockstep _ _) fun _ _ => ?_
  refine .bind (diagnosePerturbation_lockstep hvalues) fun all all' => .assuming fun h => ?_
  exact record_lockstep f.name h none hdead

/-! ### Probes of one feature after the other -/

/-- The features have the same name, which is visited. -/
def Namesakes (g : Setup) (f f' : Feature) : Prop :=
  f'.name = f.name ∧ f.name ∈ g.visited.map (·.name)

theorem checkValue_lockstep {f f' : Feature} {value : Bool} (hf : Namesakes g f f')
    (hvalue : k.category = .dead → value = true) :
    Agree (g.Lockstep k names) (checkValue k.category value f) (checkValue k.category value f')
      fun _ _ => g.Lockstep k (k.known f.name names) := by
  have hmem := g.mem_names hf.2
  have hvalues : ∀ x ∈ [(f.name, value)], x.1 ∈ g.model.names := List.forall_mem_singleton.mpr hmem
  unfold checkValue
  rw [hf.1]
  refine .bind (infeasible_lockstep hvalues) fun found found' => .assuming ?_
  rintro ⟨hfound, hfound'⟩
  rw [← hfound] at hfound'
  rw [hfound']
  cases found with
  | true =>
    refine report_lockstep hf.1 hvalues fun hk => ⟨?_, hmem⟩
    rw [hvalue hk, eq_comm, Bool.not_eq_true'] at hfound
    exact hfound
  | false =>
    have hnot : k.category = .dead → ¬g.Refused f.name := by
      intro hk hrefused
      rw [hvalue hk] at hfound
      unfold Refused at hrefused
      rw [hrefused] at hfound
      cases hfound
    exact .pure fun a a' ha => ⟨ha.first.known fun hk h => absurd h (hnot hk),
      ha.second.known fun hk h => absurd h (hnot hk), ha.clocked, ha.found⟩

theorem model_lockstep : Agree (g.Lockstep k names) model model fun n n' a a' =>
    (g.model.Alike n ∧ g.model.Alike n') ∧ g.Lockstep k names a a' := by
  rintro a a' ha _ _ _ _ ⟨⟩ ⟨⟩
  exact ⟨⟨ha.first.bench.alike, ha.second.bench.alike⟩, ha⟩

theorem nonRoot_steady {a : Analyzer} (ha : g.Steady own names a) : Ensures (· = a) nonRoot
    (fun fs b => (∃ vs, g.model.nonRoot own.order = .ok vs ∧ fs.map (·.name) = vs.map (·.name)) ∧
      b = a) fun _ _ => True := by
  intro b hb
  have hrun : nonRoot a = orFail (a.bench.model.nonRoot a.config.order) a := rfl
  rw [hb, hrun, ha.own_eq]
  cases hfs : a.bench.model.nonRoot own.order with
  | error e => trivial
  | ok fs =>
    obtain ⟨vs, hvs, hnames⟩ := ha.bench.alike.symm.nonRoot hfs
    exact ⟨⟨vs, hvs, hnames.symm⟩, rfl⟩

theorem nonRoot_lockstep (horder : k.own'.order = k.own.order) :
    Agree (g.Lockstep k names) nonRoot nonRoot fun fs fs' a a' =>
      ((∀ name, name ∈ fs.map (·.name) ↔ name ∈ g.visited.map (·.name)) ∧
        List.Forall₂ (Namesakes g) fs fs') ∧ g.Lockstep k names a a' := by
  refine .ofStates fun a a' ha => ?_
  refine (Agree.ofEnsures (nonRoot_steady ha.first) (nonRoot_steady ha.second)).weaken ?_
  rintro fs fs' _ _ ⟨⟨⟨vs, hvs, hfs⟩, rfl⟩, ⟨vs', hvs', hfs'⟩, rfl⟩
  rw [horder, hvs] at hvs'
  cases hvs'
  have hmem : ∀ name, name ∈ fs.map (·.name) ↔ name ∈ g.visited.map (·.name) :=
    hfs ▸ g.mem_visited hvs
  have hsame := hfs.trans hfs'.symm
  rw [← List.forall₂_eq_eq_eq, List.forall₂_map_left_iff, List.forall₂_map_right_iff] at hsame
  have hnames : ∀ f ∈ fs, f.name ∈ g.visited.map (·.name) := fun f hf =>
    (hmem f.name).mp (List.mem_map_of_mem hf)
  exact ⟨⟨hmem, ((List.forall₂_and_left _ _).mpr ⟨hnames, hsame⟩).imp
    fun f f' h => ⟨h.2.symm, h.1⟩⟩, ha⟩

theorem noted_lockstep (horder : k.own'.order = k.own.order) {n n' : Journal.Note}
    {probe : List Feature → Analysis α} {post : α → α → Analyzer → Analyzer → Prop}
    (h : ∀ fs fs', (∀ name, name ∈ fs.map (·.name) ↔ name ∈ g.visited.map (·.name)) →
      List.Forall₂ (Namesakes g) fs fs' →
      Agree (g.Lockstep k names) (probe fs) (probe fs') post) :
    Agree (g.Lockstep k names) (note n >>= fun _ => nonRoot >>= probe)
      (note n' >>= fun _ => nonRoot >>= probe) post := by
  refine .bind (note_lockstep n n') fun _ _ => ?_
  exact .bind (nonRoot_lockstep horder) fun fs fs' => .assuming fun hfs => h fs fs' hfs.1 hfs.2

/-- Once all features have been gone through, all refused ones are tagged. -/
theorem checkDead_lockstep (hk : k.category = .dead) (horder : k.own'.order = k.own.order) :
    Agree (g.Lockstep k []) checkDead checkDead fun _ _ => g.Lockstep k [] := by
  unfold checkDead
  rw [← hk]
  refine noted_lockstep horder fun fs fs' hvisited hfs => ?_
  have hloop : Agree (g.Lockstep k []) (fs.forM (checkValue k.category true))
      (fs'.forM (checkValue k.category true)) fun _ _ => g.Lockstep k (fs.map (·.name)) := by
    refine Agree.forM_done (I := fun done => g.Lockstep k (done.map (·.name))) hfs ?_
    intro done f f' hf
    refine (checkValue_lockstep hf fun _ => rfl).weaken fun _ _ a a' ha => ha.mono ?_
    have hknown : k.known f.name (done.map (·.name)) = f.name :: done.map (·.name) := if_pos hk
    rw [hknown, List.map_append]
    exact List.append_subset.mpr ⟨List.subset_cons_self _ _,
      List.cons_subset_cons _ (List.nil_subset _)⟩
  refine .bind hloop fun _ _ => ?_
  have hchecked : ∀ {own a}, g.Steady own (fs.map (·.name)) a →
      g.Steady own [] { a with deadChecked := true } := by
    intro own a ha
    exact { ha with
      tagged := List.forall_mem_nil _
      checked := fun _ f hf => ha.tagged f.name ((hvisited f.name).mpr (List.mem_map_of_mem hf)) }
  exact .modify fun a a' ha => ⟨hchecked ha.first, hchecked ha.second, ha.clocked, ha.found⟩

theorem checkFullMandatory_lockstep (hk : k.category = .fullMandatory)
    (horder : k.own'.order = k.own.order) :
    Agree (g.Lockstep k names) checkFullMandatory checkFullMandatory fun _ _ =>
      g.Lockstep k names := by
  unfold checkFullMandatory
  rw [← hk]
  refine noted_lockstep horder fun fs fs' _ hfs => .forM hfs fun f f' hf => ?_
  exact (checkValue_lockstep hf fun hdead => nomatch hk.symm.trans hdead).weaken
    fun _ _ _ _ ha => ha.of_known

/-! ### Probes of several features -/

/-- Whether it is read off the tags or asked, a feature is dead if it is refused. -/
theorem isDead_steady {a : Analyzer} {f : Feature} (ha : g.Steady own names a)
    (hf : f.name ∈ g.visited.map (·.name)) :
    Ensures (· = a) (isDead f) (fun dead b => (dead = !g.affirms [(f.name, true)]) ∧ Hears a b)
      fun _ _ => True := by
  unfold isDead
  refine .get_bind fun b hb => ?_
  rw [hb]
  split
  · next hchecked =>
    refine .pureState ⟨?_, .refl a⟩
    obtain ⟨f', hvisited, hname⟩ := List.mem_map.mp hf
    rw [Bool.eq_iff_iff, Bool.not_eq_true']
    refine ⟨ha.dead f.name, fun hrefused => ?_⟩
    have htag := ha.checked hchecked f' hvisited
    rw [hname] at htag
    exact htag hrefused
  · exact infeasible_steady ha (List.forall_mem_singleton.mpr (g.mem_names hf))

theorem livingOptional?_steady {a : Analyzer} {f : Feature} (ha : g.Steady own names a)
    (hf : f.name ∈ g.visited.map (·.name)) :
    Ensures (· = a) (livingOptional? f) (fun o b =>
      o.toList = [f.name].filter g.lives ∧ Hears a b) fun _ _ => True := by
  unfold livingOptional?
  refine .bind model_returns fun n => .ofState ?_
  rintro _ ⟨rfl, rfl⟩
  rw [← ha.bench.alike.isOptional]
  split
  · next hoptional =>
    refine .bind (isDead_steady ha hf) fun dead => .pure ?_
    rintro b ⟨rfl, hb⟩
    refine ⟨?_, hb⟩
    unfold lives
    cases haffirms : g.affirms [(f.name, true)] <;> simp [hoptional, haffirms]
  · next hnot =>
    refine .pureState ⟨?_, .refl _⟩
    unfold lives
    simp [hnot]

theorem livingOptional_steady {a : Analyzer} (ha : g.Steady own names a) :
    Ensures (· = a) livingOptional (fun living b => (∃ vs, g.model.nonRoot own.order = .ok vs ∧
      living = (vs.map (·.name)).filter g.lives) ∧ Hears a b) fun _ _ => True := by
  unfold livingOptional
  refine .bind (nonRoot_steady ha) fun fs => .assuming ?_
  rintro ⟨vs, hvs, hnames⟩
  have hrun : Ensures (· = a) (fs.mapM livingOptional?) (fun os b =>
      os.filterMap id = (fs.map (·.name)).filter g.lives ∧ Hears a b) fun _ _ => True := by
    refine (Ensures.mapM_done (I := fun (done : List Feature) os b =>
      os.filterMap id = (done.map (·.name)).filter g.lives ∧ Hears a b) ?_).inState ⟨rfl, .refl a⟩
    intro done f rest os hsplit
    have hf : f.name ∈ g.visited.map (·.name) := by
      rw [← g.mem_visited hvs, ← hnames, hsplit]
      exact List.mem_map_of_mem (List.mem_append_right _ List.mem_cons_self)
    refine .ofState fun b hb => (livingOptional?_steady (ha.asks hb.2.asks) hf).weaken ?_
    rintro o c ⟨ho, hc⟩
    have hlast : [o].filterMap id = o.toList := by cases o <;> rfl
    refine ⟨?_, hb.2.trans hc⟩
    rw [List.filterMap_append, hb.1, hlast, ho, List.map_append, List.filter_append,
      List.map_singleton]
  refine .bind hrun fun os => .pure ?_
  rintro b ⟨hos, hb⟩
  exact ⟨⟨vs, hvs, hnames ▸ hos⟩, hb⟩

theorem livingOptional_lockstep (horder : k.own'.order = k.own.order) :
    Agree (g.Lockstep k names) livingOptional livingOptional fun living living' a a' =>
      (living' = living ∧ ∀ name ∈ living, name ∈ g.model.names) ∧ g.Lockstep k names a a' := by
  refine (told_lockstep (fun _ => livingOptional_steady) fun _ => livingOptional_steady).weaken ?_
  rintro _ _ _ _ ⟨⟨⟨vs, hvs, rfl⟩, vs', hvs', rfl⟩, ha⟩
  rw [horder, hvs] at hvs'
  cases hvs'
  refine ⟨⟨rfl, fun name hname => ?_⟩, ha⟩
  exact g.mem_names ((g.mem_visited hvs name).mp (List.mem_of_mem_filter hname))

theorem recordPartner_lockstep (hk : k.category = .conditionallyDead) {all all' : Enumeration}
    (h : Retells all all') (reported : List String) (f partner : String) :
    Agree (g.Lockstep k names) (recordPartner all reported f partner)
      (recordPartner all' reported f partner)
      fun reported reported' a a' => reported' = reported ∧ g.Lockstep k names a a' := by
  unfold recordPartner
  split
  · exact .pure fun _ _ ha => ⟨rfl, ha⟩
  · rw [← hk]
    have hother : k.category ≠ .dead := hk ▸ by decide
    exact .bind (recordOther_lockstep hother f h (some partner)) fun _ _ =>
      .pure fun _ _ ha => ⟨rfl, ha⟩

theorem checkPair_lockstep (hk : k.category = .conditionallyDead) (reported : List String)
    {pair : String × String} (hpair : pair.1 ∈ g.model.names ∧ pair.2 ∈ g.model.names) :
    Agree (g.Lockstep k names) (checkPair reported pair) (checkPair reported pair)
      fun reported reported' a a' => reported' = reported ∧ g.Lockstep k names a a' := by
  have hvalues : ∀ x ∈ [(pair.1, true), (pair.2, true)], x.1 ∈ g.model.names :=
    List.forall_mem_cons.mpr ⟨hpair.1, List.forall_mem_singleton.mpr hpair.2⟩
  unfold checkPair
  split
  · exact .pure fun _ _ ha => ⟨rfl, ha⟩
  · refine .bind (infeasible_lockstep hvalues) fun found found' => .assuming ?_
    rintro ⟨rfl, rfl⟩
    split
    · refine .bind (note_lockstep _ _) fun _ _ => ?_
      refine .bind (diagnosePerturbation_lockstep hvalues) fun all all' => .assuming fun h => ?_
      refine .bind (recordPartner_lockstep hk h _ _ _) fun reported reported' => .assuming ?_
      rintro rfl
      exact recordPartner_lockstep hk h _ _ _
    · exact .pure fun _ _ ha => ⟨rfl, ha⟩

theorem checkConditionallyDead_lockstep (hk : k.category = .conditionallyDead)
    (horder : k.own'.order = k.own.order) :
    Agree (g.Lockstep k names) checkConditionallyDead checkConditionallyDead fun _ _ =>
      g.Lockstep k names := by
  unfold checkConditionallyDead
  refine .bind (note_lockstep _ _) fun _ _ => ?_
  refine .bind (livingOptional_lockstep horder) fun living living' => .assuming ?_
  rintro ⟨rfl, hliving⟩
  have hpairs : List.Forall₂ (fun pair pair' : String × String => pair' = pair ∧
      pair.1 ∈ g.model.names ∧ pair.2 ∈ g.model.names) (pairs living') (pairs living') := by
    refine List.forall₂_same.mpr fun pair hpair => ⟨rfl, ?_⟩
    obtain ⟨hfirst, hsecond⟩ := mem_of_mem_pairs hpair
    exact ⟨hliving _ hfirst, hliving _ hsecond⟩
  have hloop : Agree (fun a a' => ([] : List String) = [] ∧ g.Lockstep k names a a')
      ((pairs living').foldlM checkPair []) ((pairs living').foldlM checkPair [])
      fun reported reported' a a' => reported' = reported ∧ g.Lockstep k names a a' := by
    refine Agree.foldlM (I := fun reported reported' a a' =>
      reported' = reported ∧ g.Lockstep k names a a') hpairs ?_
    rintro reported _ pair _ ⟨rfl, hpair⟩
    refine .assuming ?_
    rintro rfl
    exact checkPair_lockstep hk _ hpair
  refine .bind (hloop.strengthen fun _ _ ha => ⟨rfl, ha⟩) fun _ _ => ?_
  exact .pure fun _ _ ha => ha.2

theorem requiring_lockstep {n n' : FeatureModel} (hn : g.model.Alike n) (hn' : g.model.Alike n')
    (name : String) :
    Agree (g.Lockstep k names) (orFail (n.requiring name)) (orFail (n'.requiring name))
      fun fs fs' a a' => ((∀ p ∈ fs, p.name ∈ g.model.names) ∧
        (fs.find? fun p => n.isMandatory p.name).map (·.name) =
          (fs'.find? fun p => n'.isMandatory p.name).map (·.name)) ∧ g.Lockstep k names a a' := by
  refine .orFail fun fs fs' hfs hfs' _ _ ha => ⟨⟨fun p hp => ?_, ?_⟩, ha⟩
  · rw [hn.names]
    exact List.mem_map_of_mem (FeatureModel.requiring_subset hfs hp)
  · have hsame := hn.symm.trans hn'
    obtain ⟨others, hothers, hnames⟩ := hsame.requiring hfs
    rw [hfs'] at hothers
    cases hothers
    exact hsame.find?_isMandatory hnames

theorem checkRequired_lockstep (hk : k.category = .falseOptional) {f f' : Feature}
    (hf : Namesakes g f f') :
    Agree (g.Lockstep k names) (checkRequired f) (checkRequired f') fun _ _ =>
      g.Lockstep k names := by
  unfold checkRequired
  refine .bind model_lockstep fun n n' => .assuming ?_
  rintro ⟨hn, hn'⟩
  rw [hf.1, ← hn.isOptional, ← hn'.isOptional]
  split
  · refine .bind (requiring_lockstep hn hn' f.name) fun fs fs' => .assuming ?_
    rintro ⟨hfs, hfirst⟩
    cases hp : fs.find? fun p => n.isMandatory p.name with
    | none =>
      rw [hp, Option.map_none, eq_comm, Option.map_eq_none_iff] at hfirst
      rw [hfirst]
      exact .pure fun _ _ ha => ha
    | some p =>
      rw [hp, Option.map_some, eq_comm, Option.map_eq_some_iff] at hfirst
      obtain ⟨p', hp', hname⟩ := hfirst
      have hvalues : ∀ x ∈ [(f.name, false), (p.name, true)], x.1 ∈ g.model.names :=
        List.forall_mem_cons.mpr ⟨g.mem_names hf.2,
          List.forall_mem_singleton.mpr (hfs p (List.mem_of_find?_eq_some hp))⟩
      rw [hp']
      dsimp only
      rw [hname]
      refine .bind (infeasible_lockstep hvalues) fun found found' => .assuming ?_
      rintro ⟨rfl, rfl⟩
      split
      · rw [← hk]
        exact (report_lockstep hf.1 hvalues fun hdead => nomatch hk.symm.trans hdead).weaken
          fun _ _ _ _ ha => ha.of_known
      · exact .pure fun _ _ ha => ha
  · exact .pure fun _ _ ha => ha

theorem checkFalseOptional_lockstep (hk : k.category = .falseOptional)
    (horder : k.own'.order = k.own.order) :
    Agree (g.Lockstep k names) checkFalseOptional checkFalseOptional fun _ _ =>
      g.Lockstep k names := by
  unfold checkFalseOptional
  exact noted_lockstep horder fun fs fs' _ hfs => .forM hfs fun f f' hf => checkRequired_lockstep hk hf

/-! ### Probes of the whole model and of constraints -/

theorem diagnoseVoid_congr {a a' : Analyzer} (hlimits : a'.limits = a.limits)
    (hrecent : a'.config.recentFirst = a.config.recentFirst) : diagnoseVoid a' = diagnoseVoid a := by
  unfold diagnoseVoid
  rw [hlimits, hrecent]

theorem diagnoseImplied_congr {a a' : Analyzer} (hlimits : a'.limits = a.limits)
    (hrecent : a'.config.recentFirst = a.config.recentFirst) :
    diagnoseImplied a' = diagnoseImplied a := by
  unfold diagnoseImplied
  rw [hlimits, hrecent]

/-- What is diagnosed hangs on the limits and on the order of the candidates, which are the same. -/
theorem diagnoses_congr {β : Type} {diagnoses : Analyzer → β} {a a' : Analyzer}
    (hcongr : ∀ {a a' : Analyzer}, a'.limits = a.limits →
      a'.config.recentFirst = a.config.recentFirst → diagnoses a' = diagnoses a)
    (h : g.Lockstep k names a a') : diagnoses a' = diagnoses a := by
  refine hcongr (h.second.limits_eq.trans h.first.limits_eq.symm) ?_
  rw [h.first.own_eq, h.second.own_eq, h.first.sameSearch.recentFirst, h.second.sameSearch.recentFirst]

theorem diagnoseVoid_lockstep (a₀ : Analyzer) (hlimits : a₀.limits = g.config.limits) :
    Agree (g.Lockstep k names) (onBench (Work.probe [] (diagnoseVoid a₀)))
      (onBench (Work.probe [] (diagnoseVoid a₀))) fun found found' a a' =>
        Option.Rel Retells found found' ∧ g.Lockstep k names a a' := by
  have hasks : ∀ {own} a, g.Steady own names a →
      Ensures (· = a) (onBench (Work.probe [] (diagnoseVoid a₀))) (fun _ => Asks a)
        fun _ _ => True := by
    intro own a ha
    have hprobed := (diagnoseVoid_probed a₀ ha.standing).inState (Checked.refl a.bench)
    refine (onBench_ensures hprobed).mono ?_ fun _ _ _ => trivial
    rintro found _ ⟨b, ⟨-, hb⟩, rfl⟩
    exact ⟨b, hb.probed, rfl⟩
  exact asks_lockstep (onBench_agree hlimits (Work.void_retells g.made a₀)) hasks hasks

theorem checkConsistency_lockstep (hk : k.category = .void) :
    Agree (g.Lockstep k names) checkConsistency checkConsistency fun answer answer' a a' =>
      answer' = answer ∧ g.Lockstep k names a a' := by
  unfold checkConsistency
  rw [← hk]
  refine .bind (note_lockstep _ _) fun _ _ => ?_
  refine .get_bind fun a a' ha => ?_
  rw [diagnoses_congr diagnoseVoid_congr ha]
  refine .bind ((diagnoseVoid_lockstep a ha.first.limits_eq).inStates ha) fun found found' =>
    .assuming fun hfound => ?_
  cases hfound with
  | none => exact .pure fun _ _ ha => ⟨rfl, ha⟩
  | some h =>
    have hother : k.category ≠ .dead := hk ▸ by decide
    exact .bind (recordOther_lockstep hother _ h none) fun _ _ => .pure fun _ _ ha => ⟨rfl, ha⟩

theorem diagnoseImplied_lockstep (a₀ : Analyzer) (hlimits : a₀.limits = g.config.limits)
    {r : Relationship} (hr : r ∈ g.model.crossTree) :
    Agree (g.Lockstep k names) (onBench (Work.retracted r fun _ => diagnoseImplied a₀ r))
      (onBench (Work.retracted r fun _ => diagnoseImplied a₀ r)) fun found found' a a' =>
        Option.Rel (fun x x' => x'.1 = x.1 ∧ Retells x.2 x'.2) found found' ∧
          g.Lockstep k names a a' := by
  have hasks : ∀ {own} a, g.Steady own names a →
      Ensures (· = a) (onBench (Work.retracted r fun _ => diagnoseImplied a₀ r)) (fun _ => Asks a)
        fun _ _ => True := by
    intro own a ha
    exact (onBench_asks (diagnoseImplied_probed a₀ hr ha.standing)).mono (fun _ _ h => h.2)
      fun _ _ _ => trivial
  exact asks_lockstep (onBench_agree hlimits (Work.implied_retells g.made a₀ hr)) hasks hasks

theorem checkImplied_lockstep (hk : k.category = .redundant) {r : Relationship}
    (hr : r ∈ g.model.crossTree) :
    Agree (g.Lockstep k names) (checkImplied r) (checkImplied r) fun _ _ => g.Lockstep k names := by
  unfold checkImplied
  rw [← hk]
  refine .get_bind fun a a' ha => ?_
  rw [diagnoses_congr diagnoseImplied_congr ha]
  refine .bind ((diagnoseImplied_lockstep a ha.first.limits_eq hr).inStates ha) fun found found' =>
    .assuming fun hfound => ?_
  cases hfound with
  | none => exact .pure fun _ _ ha => ha
  | some h =>
    obtain ⟨hrule, hall⟩ := h
    dsimp only
    rw [hrule]
    have hother : k.category ≠ .dead := hk ▸ by decide
    exact recordOther_lockstep hother _ hall none

theorem checkRedundancies_lockstep (hk : k.category = .redundant) :
    Agree (g.Lockstep k names) checkRedundancies checkRedundancies fun _ _ =>
      g.Lockstep k names := by
  unfold checkRedundancies
  refine .bind (note_lockstep _ _) fun _ _ => ?_
  refine .bind model_lockstep fun n n' => .assuming ?_
  rintro ⟨hn, hn'⟩
  rw [← hn.crossTree, ← hn'.crossTree]
  have hsame : List.Forall₂ (fun r r' => r' = r ∧ r ∈ g.model.crossTree) g.model.crossTree
      g.model.crossTree := List.forall₂_same.mpr fun r hr => ⟨rfl, hr⟩
  refine .forM hsame ?_
  rintro r _ ⟨rfl, hr⟩
  exact checkImplied_lockstep hk hr

end Analysis
end Anomaly
end ProductLine
