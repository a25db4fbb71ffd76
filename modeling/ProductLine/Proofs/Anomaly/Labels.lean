import Mathlib.Data.List.Perm.Subperm
import Mathlib.Data.List.ProdSigma
import ProductLine.Proofs.Anomaly.Comparison

/-! # What probes label

Calls that fail, tags put on by hand and a changed world spoil what a `Sound` analyzer could say of its
findings. But every probe keeps an analyzer `AtBaseline`, and however it ends, the features are tagged by
what it has found, and it has labelled none but those that it was to label, each at most once (`Grows`).
There is one rule for every way of putting steps together, and one lemma for every probe. -/

namespace ProductLine
namespace Anomaly

open Constraint Diagnosis Outcome Workbench

/-! ### Labels -/

/-- What a finding puts on a feature: the tag of its category, and the name of the feature. -/
def Finding.label? (f : Finding) : Option (Feature.Anomaly × String) :=
  f.category.tag?.map fun t => (t, f.subject)

def labels (fs : List Finding) : List (Feature.Anomaly × String) := fs.filterMap Finding.label?

/-- The label that a finding of a category puts on a feature, if its category has a tag. -/
def Category.label (c : Category) (name : String) : List (Feature.Anomaly × String) :=
  c.tag?.toList.map fun t => (t, name)

def withTag (t : Feature.Anomaly) (names : List String) : List (Feature.Anomaly × String) :=
  names.map (Prod.mk t)

/-- Everything that an analysis may label: each feature but the root with each tag. -/
def allLabels (names : List String) : List (Feature.Anomaly × String) :=
  [.dead, .conditionallyDead, .fullMandatory, .falseOptional].product names

theorem labels_append (fs gs : List Finding) : labels (fs ++ gs) = labels fs ++ labels gs :=
  List.filterMap_append

theorem labels_singleton (f : Finding) : labels [f] = f.category.label f.subject := by
  unfold labels Finding.label? Category.label
  rw [List.filterMap_cons, List.filterMap_nil]
  cases f.category.tag? <;> rfl

theorem mem_labels {fs : List Finding} {t : Feature.Anomaly} {name : String} :
    (t, name) ∈ labels fs ↔ ∃ f ∈ fs, f.subject = name ∧ f.category.tag? = some t := by
  have hlabel : ∀ f : Finding, f.label? = some (t, name) ↔
      f.subject = name ∧ f.category.tag? = some t := by
    intro f
    unfold Finding.label?
    cases f.category.tag? <;> simp [and_comm]
  unfold labels
  rw [List.mem_filterMap]
  exact exists_congr fun f => and_congr_right fun _ => hlabel f

theorem Category.label_eq {c : Category} {t : Feature.Anomaly} (h : c.tag? = some t) (name : String) :
    c.label name = [(t, name)] := by
  unfold Category.label
  rw [h]
  rfl

theorem mem_withTag {t t' : Feature.Anomaly} {names : List String} {name : String} :
    (t', name) ∈ withTag t names ↔ t' = t ∧ name ∈ names := by
  unfold withTag
  rw [List.mem_map]
  constructor
  · rintro ⟨_, hname, heq⟩
    cases heq
    exact ⟨rfl, hname⟩
  · rintro ⟨rfl, hname⟩
    exact ⟨name, hname, rfl⟩

theorem withTag_subperm (t : Feature.Anomaly) {names names' : List String}
    (h : names.Subperm names') : (withTag t names).Subperm (withTag t names') :=
  (List.map_subperm_map_iff (Prod.mk_right_injective t)).mpr h

theorem allLabels_eq (names : List String) : allLabels names =
    (withTag .dead names ++ withTag .conditionallyDead names) ++
      (withTag .fullMandatory names ++ withTag .falseOptional names) := by
  simp [allLabels, List.product, withTag]

/-! ### AtBaseline analyzers -/

/-- The analyzer still has the store that was made, with its baseline posted, and its configuration; its
model differs in tags only. -/
structure Analyzer.AtBaseline (m : FeatureModel) (config : Config) (s : Store) (a : Analyzer) :
    Prop where
  alike : m.Alike a.bench.model
  store : ∃ n, s.nextId ≤ n ∧ a.bench.store = { s with nextId := n }
  settings : a.bench.settings = config.solver
  config_eq : a.config = config
  limits_eq : a.limits = config.limits

/-- An analyzer is still at its baseline, what it has found since is tagged, and so it has labelled some of
what was to be labelled, each at most once. -/
structure Analyzer.Grown (m : FeatureModel) (config : Config) (s : Store)
    (ls : List (Feature.Anomaly × String)) (a a₀ : Analyzer) : Prop
    extends a.AtBaseline m config s where
  found : ∃ fs, a.report.found = a₀.report.found ++ fs ∧
    a.bench.model = fs.foldl tagged a₀.bench.model ∧ (labels fs).Subperm ls

/-- Those of the names whose features are not known to be dead. -/
def Analyzer.spared (a : Analyzer) (names : List String) : List String :=
  names.filter fun name => !(a.deadChecked && a.bench.model.hasTag name .dead)

/-- The features but the root have these names, in visiting order. -/
def Visits (m : FeatureModel) (config : Config) (names : List String) : Prop :=
  ∃ visited, m.nonRoot config.order = .ok visited ∧ visited.map (·.name) = names

/-- The analyzer at the beginning of an analysis. -/
def Analyzer.renewed (a : Analyzer) : Analyzer :=
  { a with
    bench := { a.bench with model := a.bench.model.clearTags }
    report := Report.new a.bench.model.name
    deadChecked := false }

variable {m : FeatureModel} {config : Config} {s : Store} {w : World} {a a' a'' a₀ : Analyzer}
  {ls ls' : List (Feature.Anomaly × String)} {names : List String}

theorem Visits.subset (h : Visits m config names) : names ⊆ m.names := by
  obtain ⟨visited, hvisit, rfl⟩ := h
  intro name hname
  obtain ⟨f, hf, rfl⟩ := List.mem_map.mp hname
  exact FeatureModel.mem_names_of_nonRoot hvisit hf

namespace Analyzer

theorem AtBaseline.standing (ha : a.AtBaseline m config s) (hs : Store.ofModel m config.order = .ok s) :
    Standing m a.bench := by
  obtain ⟨hfaithful, hposting⟩ := Store.faithful_of_attempt hs
  obtain ⟨n, hn, hstore⟩ := ha.store
  refine ⟨ha.alike, ?_, ?_⟩
  · rw [hstore]
    exact hfaithful.numbered hn s.posting
  · rw [hstore]
    exact hposting

theorem AtBaseline.asks (ha : a.AtBaseline m config s) (h : Asks a a') : a'.AtBaseline m config s := by
  obtain ⟨b, hb, rfl⟩ := h
  obtain ⟨n, hn, hstore⟩ := ha.store
  obtain ⟨k, hk, hstore'⟩ := hb.store
  rw [hstore] at hk hstore'
  exact ⟨hb.model.symm ▸ ha.alike, ⟨k, Nat.le_trans hn hk, hstore'⟩, hb.settings.trans ha.settings,
    ha.config_eq, ha.limits_eq⟩

theorem AtBaseline.grown (ha : a.AtBaseline m config s) : a.Grown m config s [] a :=
  ⟨ha, [], (List.append_nil _).symm, rfl, .refl _⟩

theorem Grown.asks (ha : a.Grown m config s ls a₀) (h : Asks a a') : a'.Grown m config s ls a₀ := by
  refine ⟨ha.toAtBaseline.asks h, ?_⟩
  obtain ⟨b, hb, rfl⟩ := h
  exact hb.model.symm ▸ ha.found

theorem Grown.mono (ha : a.Grown m config s ls a₀) (hls : ls.Subperm ls') :
    a.Grown m config s ls' a₀ := by
  obtain ⟨fs, hfound, hmodel, hlabels⟩ := ha.found
  exact ⟨ha.toAtBaseline, fs, hfound, hmodel, hlabels.trans hls⟩

theorem Grown.trans (ha : a.Grown m config s ls a₀) (ha' : a'.Grown m config s ls' a) :
    a'.Grown m config s (ls ++ ls') a₀ := by
  obtain ⟨fs, hfound, hmodel, hlabels⟩ := ha.found
  obtain ⟨fs', hfound', hmodel', hlabels'⟩ := ha'.found
  refine ⟨ha'.toAtBaseline, fs ++ fs', ?_, ?_, ?_⟩
  · rw [hfound', hfound, List.append_assoc]
  · rw [hmodel', hmodel, List.foldl_append]
  · rw [labels_append]
    exact hlabels.append hlabels'

theorem Grown.add {f : Finding} (hbaseline : a'.AtBaseline m config s)
    (hreport : a'.report.found = a.report.found ++ [f])
    (hmodel : a'.bench.model = tagged a.bench.model f) :
    a'.Grown m config s (f.category.label f.subject) a :=
  ⟨hbaseline, [f], hreport, hmodel, labels_singleton f ▸ .refl _⟩

theorem mem_spared {name : String} : name ∈ a.spared names ↔
    name ∈ names ∧ (a.deadChecked = true → a.bench.model.hasTag name .dead = false) := by
  unfold spared
  rw [List.mem_filter]
  cases a.deadChecked <;> simp

theorem spared_sublist (a : Analyzer) (names : List String) : (a.spared names).Sublist names :=
  List.filter_sublist

theorem spared_asks (h : Asks a a') (names : List String) : a'.spared names = a.spared names := by
  obtain ⟨b, hb, rfl⟩ := h
  unfold spared
  rw [hb.model]

end Analyzer

namespace Analysis

variable {α β : Type} {step : Analysis α} {P : α → Prop}

/-- Begun at the baseline, the step labels at most what it is to label, each once, however it
ends. If it returns, this is so of its result. -/
def Grows (m : FeatureModel) (config : Config) (s : Store) (ls : List (Feature.Anomaly × String))
    (step : Analysis α) (P : α → Prop) : Prop :=
  ∀ a₀ : Analyzer, a₀.AtBaseline m config s → Ensures (· = a₀) step
    (fun x a => P x ∧ a.Grown m config s ls a₀) fun _ a => a.Grown m config s ls a₀

/-! ### Steps put together -/

namespace Grows

theorem bind {next : α → Analysis β} {Q : β → Prop} (h : Grows m config s ls step P)
    (k : ∀ x, P x → Grows m config s ls' (next x) Q) :
    Grows m config s (ls ++ ls') (step >>= next) Q := by
  intro a₀ ha
  have hfirst := (h a₀ ha).weakenFail fun _ a hgrown =>
    hgrown.mono (List.sublist_append_left ls ls').subperm
  refine .bindState hfirst fun x a hx => ?_
  exact (k x hx.1 a hx.2.toAtBaseline).mono (fun _ _ hy => ⟨hy.1, hx.2.trans hy.2⟩)
    fun _ _ hy => hx.2.trans hy

/-- What begins with a step that labels nothing labels what the rest does. -/
theorem next {next : α → Analysis β} {Q : β → Prop} (h : Grows m config s [] step P)
    (k : ∀ x, P x → Grows m config s ls (next x) Q) : Grows m config s ls (step >>= next) Q :=
  h.bind k

theorem mono (h : Grows m config s ls step P) (hls : ls.Subperm ls') :
    Grows m config s ls' step P := fun a₀ ha =>
  (h a₀ ha).mono (fun _ _ hx => ⟨hx.1, hx.2.mono hls⟩) fun _ _ hx => hx.mono hls

theorem pure {x : α} (h : P x) : Grows m config s ls (Pure.pure x) P := fun _ ha =>
  .pureState ⟨h, ha.grown.mono List.nil_subperm⟩

theorem get_bind {next : Analyzer → Analysis α}
    (h : ∀ a, a.AtBaseline m config s → Grows m config s ls (next a) P) :
    Grows m config s ls (MonadState.get >>= next) P := fun _ ha =>
  .get_bind fun _ heq => heq ▸ h _ ha _ ha

theorem orFail {r : Except Failure α} (h : ∀ x, r = .ok x → P x) :
    Grows m config s ls (ProductLine.orFail r) P := by
  intro a₀ ha
  have hgrown : a₀.Grown m config s ls a₀ := ha.grown.mono List.nil_subperm
  exact .orFail (fun x hx _ heq => ⟨h x hx, heq ▸ hgrown⟩) fun _ _ _ heq => heq ▸ hgrown

theorem discard (h : Grows m config s ls step P) :
    Grows m config s ls (Functor.discard step) fun _ => True := fun a₀ ha =>
  .discard ((h a₀ ha).weaken fun _ _ hx => ⟨trivial, hx.2⟩)

theorem forM {f : β → Analysis Unit} {l : List β} {ls : β → List (Feature.Anomaly × String)}
    (h : ∀ x ∈ l, Grows m config s (ls x) (f x) fun _ => True) :
    Grows m config s (l.flatMap ls) (l.forM f) fun _ => True := by
  intro a₀ ha
  have hrun : Ensures (·.Grown m config s [] a₀) (l.forM f)
      (fun _ a => a.Grown m config s (l.flatMap ls) a₀)
      fun _ a => a.Grown m config s (l.flatMap ls) a₀ := by
    refine Ensures.forM_done (I := fun done (a : Analyzer) =>
      a.Grown m config s (done.flatMap ls) a₀) fun done x rest hsplit => .ofState fun a hdone => ?_
    have hx : x ∈ l := hsplit ▸ List.mem_append_right _ List.mem_cons_self
    have hnext : (done ++ [x]).flatMap ls = done.flatMap ls ++ ls x := by
      rw [List.flatMap_append, List.flatMap_singleton]
    have hall : (done.flatMap ls ++ ls x).Subperm (l.flatMap ls) := by
      rw [hsplit, List.flatMap_append, List.flatMap_cons, ← List.append_assoc]
      exact (List.sublist_append_left _ _).subperm
    exact (h x hx a hdone.toAtBaseline).mono (fun _ _ hy => hnext ▸ hdone.trans hy.2)
      fun _ _ hy => (hdone.trans hy).mono hall
  exact (hrun.inState ha.grown).weaken fun _ _ hgrown => ⟨trivial, hgrown⟩

theorem ofAsks (h : ∀ a, a.AtBaseline m config s →
    Ensures (· = a) step (fun x a' => P x ∧ Asks a a') fun _ a' => Asks a a') :
    Grows m config s [] step P := fun a ha =>
  (h a ha).mono (fun _ _ hx => ⟨hx.1, ha.grown.asks hx.2⟩) fun _ _ hx => ha.grown.asks hx

/-- Work that only uses up numbers and adds failures labels nothing. -/
theorem ofProbed {work : Work α} (hs : Store.ofModel m config.order = .ok s)
    (h : ∀ b, Standing m b → Ensures (· = b) work (fun x c => P x ∧ Probed b c) fun _ => Probed b) :
    Grows m config s [] (onBench work) P := by
  refine .ofAsks fun a ha => (onBench_ensures (h a.bench (ha.standing hs))).mono ?_ ?_
  · rintro x _ ⟨b, hb, rfl⟩
    exact ⟨hb.1, b, hb.2, rfl⟩
  · rintro _ _ ⟨b, hb, rfl⟩
    exact ⟨b, hb, rfl⟩

end Grows

/-! ### Asking -/

theorem note_grows (k : Journal.Note) : Grows m config s [] (note k) fun _ => True :=
  .ofAsks fun _ _ => (note_asks k).weaken fun _ _ h => ⟨trivial, h⟩

theorem model_grows : Grows m config s [] model m.Alike :=
  .ofAsks fun a ha => model_returns.weaken fun _ _ h => ⟨h.1 ▸ ha.alike, h.2 ▸ .refl a⟩

theorem nonRoot_grows (hvisit : Visits m config names) :
    Grows m config s [] nonRoot fun fs => fs.map (·.name) = names ∧ ∀ f ∈ fs, f.name ∈ m.names := by
  obtain ⟨visited, hvisit, rfl⟩ := hvisit
  exact .ofAsks fun a ha => (nonRoot_returns ha.alike ha.config_eq hvisit).weaken fun _ _ h =>
    ⟨h.1, h.2 ▸ .refl a⟩

section made

variable (hs : Store.ofModel m config.order = .ok s)
include hs

theorem infeasible_grows {values : List (String × Bool)} (hvalues : ∀ x ∈ values, x.1 ∈ m.names) :
    Grows m config s [] (infeasible values) fun _ => True :=
  .ofAsks fun _ ha => (infeasible_asks (ha.standing hs) hvalues).mono
    (fun _ _ h => ⟨trivial, h.2⟩) fun _ _ h => h.2

theorem diagnosePerturbation_explained {values : List (String × Bool)} (ha : a.AtBaseline m config s)
    (hvalues : ∀ x ∈ values, x.1 ∈ m.names) :
    Ensures (· = a) (diagnosePerturbation values)
      (fun all a' => (∃ found, explanations all.diagnoses = .ok found) ∧ Asks a a')
      fun _ a' => Asks a a' :=
  (diagnosePerturbation_asks (ha.standing hs) hvalues).mono
    (fun _ _ h => ⟨(explanations_of_mend (ha.standing hs) h.1).imp fun _ => And.left, h.2⟩)
    fun _ _ h => h.2

/-! ### Recording -/

omit hs in
/-- A finding and its tag go together: the feature is tagged first, and after that nothing can fail. -/
theorem record_returns (c : Category) (subject : String) {all : Enumeration}
    (condition : Option String) (hall : ∃ found, explanations all.diagnoses = .ok found)
    (ha : a.AtBaseline m config s) :
    Ensures (· = a) (record c subject all condition)
      (fun _ a' => a'.Grown m config s (c.label subject) a) fun _ _ => False := by
  obtain ⟨found, hfound⟩ := hall
  have hrecorded : ∀ a₁ : Analyzer, a₁.AtBaseline m config s → a₁.report = a.report →
      (∀ f : Finding, f.category = c → f.subject = subject →
        a₁.bench.model = tagged a.bench.model f) →
      Ensures (· = a₁) (recordTagged c subject all condition)
        (fun _ a' => a'.Grown m config s (c.label subject) a) fun _ _ => False := by
    intro a₁ h₁ hreport htagged
    refine (recordTagged_returns hfound).weaken ?_
    rintro _ _ ⟨b, hb, rfl⟩
    exact .add (f := ⟨c, subject, found, condition, all.stopped.isSome⟩)
      { h₁.asks ⟨b, hb, rfl⟩ with } (hreport ▸ rfl) (hb.model.trans (htagged _ rfl rfl))
  unfold record
  cases htag : c.tag? with
  | none =>
    refine hrecorded a ha rfl fun f hc _ => ?_
    rw [tagged, hc, htag]
  | some t =>
    have hput : Ensures (· = a)
        (onBench (modify fun b => { b with model := b.model.tag subject t }))
        (fun _ a₁ => a₁ = { a with bench := { a.bench with model := a.bench.model.tag subject t } })
        fun _ _ => False := by
      rintro _ rfl
      rfl
    refine .bindState hput fun _ a₁ h₁ => ?_
    rw [h₁]
    refine hrecorded _ { ha with alike := ha.alike.trans (.tag _ subject t) } rfl ?_
    intro f hc hsubject
    rw [tagged, hc, htag, hsubject]

omit hs in
theorem record_grows (c : Category) (subject : String) {all : Enumeration}
    (condition : Option String) (hall : ∃ found, explanations all.diagnoses = .ok found) :
    Grows m config s (c.label subject) (record c subject all condition) fun _ => True := fun _ ha =>
  (record_returns c subject condition hall ha).mono (fun _ _ h => ⟨trivial, h⟩) fun _ _ => False.elim

theorem report_grows (c : Category) (f : Feature) {values : List (String × Bool)}
    (hvalues : ∀ x ∈ values, x.1 ∈ m.names) :
    Grows m config s (c.label f.name) (report c f values) fun _ => True := by
  unfold report
  refine (note_grows _).next fun _ _ => ?_
  exact (Grows.ofAsks fun _ ha => diagnosePerturbation_explained hs ha hvalues).next fun all hall =>
    record_grows c f.name none hall

/-! ### Probes of one feature after the other -/

theorem checkValue_grows (c : Category) (value : Bool) {f : Feature} (hf : f.name ∈ m.names) :
    Grows m config s (c.label f.name) (checkValue c value f) fun _ => True := by
  have hvalues : ∀ x ∈ [(f.name, value)], x.1 ∈ m.names := List.forall_mem_singleton.mpr hf
  unfold checkValue
  refine (infeasible_grows hs hvalues).next fun found _ => ?_
  cases found with
  | true => exact report_grows hs c f hvalues
  | false => exact .pure trivial

theorem checkRequired_grows {f : Feature} (hf : f.name ∈ m.names) :
    Grows m config s (Category.falseOptional.label f.name) (checkRequired f) fun _ => True := by
  unfold checkRequired
  refine model_grows.next fun n hn => ?_
  split
  · have hrequiring : Grows m config s [] (orFail (n.requiring f.name))
        fun fs => ∀ p ∈ fs, p.name ∈ m.names := .orFail fun fs hfs p hp => by
      rw [hn.names]
      exact List.mem_map_of_mem (FeatureModel.requiring_subset hfs hp)
    refine hrequiring.next fun fs hfs => ?_
    split
    · exact .pure trivial
    · next p hp =>
      have hvalues : ∀ x ∈ [(f.name, false), (p.name, true)], x.1 ∈ m.names :=
        List.forall_mem_cons.mpr
          ⟨hf, List.forall_mem_singleton.mpr (hfs p (List.mem_of_find?_eq_some hp))⟩
      refine (infeasible_grows hs hvalues).next fun found _ => ?_
      cases found with
      | true => exact report_grows hs .falseOptional f hvalues
      | false => exact .pure trivial
  · exact .pure trivial

section visited

variable (hvisit : Visits m config names)
include hvisit

omit hs in
theorem probed_grows {c : Category} {t : Feature.Anomaly} {k : Journal.Note}
    {probe : Feature → Analysis Unit} (htag : c.tag? = some t)
    (h : ∀ f : Feature, f.name ∈ m.names → Grows m config s (c.label f.name) (probe f) fun _ => True) :
    Grows m config s (withTag t names)
      (note k >>= fun _ => nonRoot >>= fun fs => fs.forM probe) fun _ => True := by
  refine (note_grows k).next fun _ _ => (nonRoot_grows hvisit).next fun fs hfs => ?_
  have hlabels : fs.flatMap (fun f => c.label f.name) = withTag t names := by
    rw [← hfs.1, withTag, List.map_map, List.map_eq_flatMap]
    exact congrArg fs.flatMap (funext fun f => Category.label_eq htag f.name)
  exact hlabels ▸ Grows.forM fun f hf => h f (hfs.2 f hf)

/-- When the search for dead features returns, they have been looked for. -/
theorem checkDead_grows (ha : a.AtBaseline m config s) :
    Ensures (· = a) checkDead
      (fun _ a' => a'.deadChecked = true ∧
        a'.Grown m config s (withTag .dead names) a)
      fun _ a' => a'.Grown m config s (withTag .dead names) a := by
  have hprobe := probed_grows (k := .probing .dead) hvisit rfl (fun f hf =>
    checkValue_grows hs .dead true hf) a ha
  have heq : checkDead = ((note (.probing .dead) >>= fun _ => nonRoot >>= fun fs =>
      fs.forM (checkValue .dead true)) >>= fun _ => modify fun a => { a with deadChecked := true } :
        Analysis Unit) := by
    unfold checkDead
    simp only [bind_assoc]
  rw [heq]
  exact .bind hprobe fun _ => .modify fun b hb => ⟨rfl, { hb.2 with }⟩

theorem checkFullMandatory_grows :
    Grows m config s (withTag .fullMandatory names) checkFullMandatory
      fun _ => True :=
  probed_grows hvisit rfl fun _ hf => checkValue_grows hs .fullMandatory false hf

theorem checkFalseOptional_grows :
    Grows m config s (withTag .falseOptional names) checkFalseOptional
      fun _ => True :=
  probed_grows hvisit rfl fun _ hf => checkRequired_grows hs hf

/-! ### Conditionally dead features -/

omit hvisit in
/-- A feature that is known to be dead is not said to be alive. -/
theorem isDead_spares {f : Feature} (ha : a.AtBaseline m config s) (hf : f.name ∈ m.names) :
    Ensures (· = a) (isDead f)
      (fun dead a' => (dead = false → a.deadChecked = true →
        a.bench.model.hasTag f.name .dead = false) ∧ Asks a a') fun _ a' => Asks a a' := by
  unfold isDead
  apply Ensures.get_bind
  rintro _ rfl
  split
  · exact .pureState ⟨fun hdead _ => hdead, .refl _⟩
  · next hnot =>
    exact (infeasible_asks (ha.standing hs) (List.forall_mem_singleton.mpr hf)).mono
      (fun _ _ h => ⟨fun _ hchecked => absurd hchecked hnot, h.2⟩) fun _ _ h => h.2

omit hvisit in
theorem livingOptional?_spares {f : Feature} (ha : a.AtBaseline m config s) (hf : f.name ∈ m.names) :
    Ensures (· = a) (livingOptional? f)
      (fun o a' => o.toList ⊆ a.spared [f.name] ∧ Asks a a') fun _ a' => Asks a a' := by
  unfold livingOptional?
  refine .bind model_returns fun n => .ofState ?_
  rintro _ ⟨-, rfl⟩
  split
  · refine .bind (isDead_spares hs ha hf) fun dead => .pure ?_
    rintro a₁ ⟨hspared, h₁⟩
    refine ⟨fun name hname => ?_, h₁⟩
    cases dead with
    | true => cases hname
    | false =>
      obtain rfl := List.mem_singleton.mp hname
      exact Analyzer.mem_spared.mpr ⟨hname, hspared rfl⟩
  · exact .pureState ⟨List.nil_subset _, .refl _⟩

theorem livingOptional_spares (ha : a.AtBaseline m config s) :
    Ensures (· = a) livingOptional
      (fun living a' => living ⊆ a.spared names ∧ Asks a a') fun _ a' => Asks a a' := by
  obtain ⟨visited, hvisit, rfl⟩ := hvisit
  unfold livingOptional
  refine .bind (nonRoot_returns ha.alike ha.config_eq hvisit) fun fs => .assuming fun hfs => ?_
  have hrun : Ensures (· = a) (fs.mapM livingOptional?)
      (fun os a' => os.filterMap id ⊆ a.spared (visited.map (·.name)) ∧ Asks a a')
      fun _ a' => Asks a a' := by
    refine (Ensures.mapM_done (I := fun _ os a' => os.filterMap id ⊆
      a.spared (visited.map (·.name)) ∧ Asks a a') ?_).inState ⟨List.nil_subset _, .refl a⟩
    intro done f rest os hsplit
    have hf : f ∈ fs := hsplit ▸ List.mem_append_right _ List.mem_cons_self
    have hname : f.name ∈ visited.map (·.name) := hfs.1 ▸ List.mem_map_of_mem hf
    refine .ofState fun a₁ h₁ => ?_
    refine (livingOptional?_spares hs (ha.asks h₁.2) (hfs.2 f hf)).mono ?_ fun _ _ h => h₁.2.trans h
    rintro o a₂ ⟨ho, h₂⟩
    rw [Analyzer.spared_asks h₁.2] at ho
    have hlast : [o].filterMap id = o.toList := by cases o <;> rfl
    rw [List.filterMap_append, hlast]
    refine ⟨List.append_subset.mpr ⟨h₁.1, List.Subset.trans ho ?_⟩, h₁.2.trans h₂⟩
    exact List.filter_subset _ (List.cons_subset.mpr ⟨hname, List.nil_subset _⟩)
  exact .bind hrun fun os => .pure fun _ h => h

/-- The features reported so far are some of those that may be, each once, and they are tagged. -/
structure Reported (m : FeatureModel) (config : Config) (s : Store) (names : List String)
    (a₀ : Analyzer) (reported : List String) (a : Analyzer) : Prop where
  nodup : reported.Nodup
  subset : reported ⊆ names
  grown : a.Grown m config s (withTag .conditionallyDead reported) a₀

section reported

variable {reported : List String}

omit hs hvisit in
theorem Reported.labelled (h : Reported m config s names a₀ reported a) :
    a.Grown m config s (withTag .conditionallyDead names) a₀ :=
  h.grown.mono (withTag_subperm _ (h.nodup.subperm h.subset))

omit hs hvisit in
theorem Reported.asks (h : Reported m config s names a₀ reported a) (ha : Asks a a') :
    Reported m config s names a₀ reported a' := ⟨h.nodup, h.subset, h.grown.asks ha⟩

omit hs hvisit in
theorem recordPartner_reports {all : Enumeration} {f partner : String}
    (h : Reported m config s names a₀ reported a) (hf : f ∈ names)
    (hall : ∃ found, explanations all.diagnoses = .ok found) :
    Ensures (· = a) (recordPartner all reported f partner) (Reported m config s names a₀)
      fun _ _ => False := by
  unfold recordPartner
  split
  · exact .pureState h
  · next hnew =>
    have hrecord := record_returns .conditionallyDead f (some partner) hall h.grown.toAtBaseline
    refine .bind hrecord fun _ => .pure fun a₁ h₁ => ⟨?_, ?_, ?_⟩
    · exact h.nodup.append (List.nodup_singleton f) (List.disjoint_singleton.mpr hnew)
    · exact List.append_subset.mpr ⟨h.subset, List.cons_subset.mpr ⟨hf, List.nil_subset _⟩⟩
    · rw [withTag, List.map_append]
      exact h.grown.trans h₁

omit hvisit in
theorem checkPair_reports {pair : String × String} (h : Reported m config s names a₀ reported a)
    (hnames : names ⊆ m.names) (hpair : pair.1 ∈ names ∧ pair.2 ∈ names) :
    Ensures (· = a) (checkPair reported pair) (Reported m config s names a₀)
      fun _ a' => a'.Grown m config s (withTag .conditionallyDead names) a₀ := by
  have hvalues : ∀ x ∈ [(pair.1, true), (pair.2, true)], x.1 ∈ m.names :=
    List.forall_mem_cons.mpr
      ⟨hnames hpair.1, List.forall_mem_singleton.mpr (hnames hpair.2)⟩
  have ha := h.grown.toAtBaseline
  unfold checkPair
  split
  · exact .pureState h
  refine .bindState ((infeasible_asks (ha.standing hs) hvalues).weakenFail
    fun _ _ h₁ => (h.asks h₁.2).labelled) fun found a₁ h₁ => ?_
  cases found with
  | false => exact .pureState (h.asks h₁.2)
  | true =>
    refine .bindState (note_asks _) fun _ a₂ h₂ => ?_
    have hasked := h₁.2.trans h₂
    refine .bindState ((diagnosePerturbation_explained hs (ha.asks hasked) hvalues).weakenFail
      fun _ _ h₃ => (h.asks (hasked.trans h₃)).labelled) fun all a₃ h₃ => ?_
    have hbefore := h.asks (hasked.trans h₃.2)
    refine .bindState ((recordPartner_reports hbefore hpair.1 h₃.1).weakenFail
      fun _ _ => False.elim) fun reported₁ a₄ h₄ => ?_
    exact (recordPartner_reports h₄ hpair.2 h₃.1).weakenFail fun _ _ => False.elim

end reported

/-- The search for conditionally dead features puts its tag on none that is known to be dead. -/
theorem checkConditionallyDead_spares (ha : a.AtBaseline m config s) :
    Ensures (· = a) checkConditionallyDead
      (fun _ a' => a'.Grown m config s (withTag .conditionallyDead (a.spared names)) a)
      fun _ a' => a'.Grown m config s (withTag .conditionallyDead (a.spared names)) a := by
  have hnames : a.spared names ⊆ m.names :=
    List.Subset.trans (Analyzer.spared_sublist a names).subset hvisit.subset
  unfold checkConditionallyDead
  refine .bindState (note_asks _) fun _ a₁ h₁ => ?_
  refine .bindState ((livingOptional_spares hs hvisit (ha.asks h₁)).weakenFail
    fun _ _ h₂ => (ha.grown.asks (h₁.trans h₂)).mono List.nil_subperm) ?_
  rintro living a₂ ⟨hliving, h₂⟩
  rw [Analyzer.spared_asks h₁] at hliving
  have hbegin : Reported m config s (a.spared names) a [] a₂ :=
    ⟨List.nodup_nil, List.nil_subset _, ha.grown.asks (h₁.trans h₂)⟩
  refine .discard (.weaken (.inState (.foldlM fun reported pair hpair => .ofState fun a₃ h₃ => ?_)
    hbegin) fun _ _ => Reported.labelled)
  obtain ⟨hfirst, hsecond⟩ := mem_of_mem_pairs hpair
  exact checkPair_reports hs h₃ hnames ⟨hliving hfirst, hliving hsecond⟩

theorem checkConditionallyDead_grows :
    Grows m config s (withTag .conditionallyDead names) checkConditionallyDead fun _ => True := by
  intro a ha
  have hsub := withTag_subperm .conditionallyDead (Analyzer.spared_sublist a names).subperm
  exact (checkConditionallyDead_spares hs hvisit ha).mono
    (fun _ _ h => ⟨trivial, h.mono hsub⟩) fun _ _ h => h.mono hsub

end visited

/-! ### Probes of the whole model and of constraints -/

theorem diagnoseVoid_grows (a : Analyzer) :
    Grows m config s [] (onBench (Work.probe [] (diagnoseVoid a))) fun o =>
      ∀ all, o = some all → ∃ found, explanations all.diagnoses = .ok found :=
  .ofProbed hs fun b hb => ((diagnoseVoid_probed a hb).inState (Checked.refl b)).mono
    (fun _ _ h => ⟨fun all hall => (explanations_of_mend hb (h.1.mend all hall)).imp
      fun _ => And.left, h.2.probed⟩) fun _ _ h => h.2.probed

theorem checkConsistency_grows : Grows m config s [] checkConsistency fun _ => True := by
  unfold checkConsistency
  refine (note_grows _).next fun _ _ => .get_bind fun a _ => ?_
  refine (diagnoseVoid_grows hs a).next fun o ho => ?_
  cases o with
  | none => exact .pure trivial
  | some all =>
    exact (record_grows .void Category.void.name none (ho all rfl)).bind fun _ _ => .pure trivial

theorem diagnoseImplied_grows (a : Analyzer) {r : Relationship} (hr : r ∈ m.crossTree) :
    Grows m config s [] (onBench (Work.retracted r fun _ => diagnoseImplied a r))
      fun o => ∀ rule all, o = some (rule, all) → ∃ found, explanations all.diagnoses = .ok found :=
  .ofProbed hs fun _ hb => (diagnoseImplied_probed a hr hb).mono
    (fun _ _ h => ⟨fun rule all hall => (explanations_of_mend hb (h.1.mend rule all hall).2).imp
      fun _ => And.left, h.2⟩) fun _ _ h => h.2

theorem checkImplied_grows {r : Relationship} (hr : r ∈ m.crossTree) :
    Grows m config s [] (checkImplied r) fun _ => True := by
  unfold checkImplied
  refine .get_bind fun a _ => (diagnoseImplied_grows hs a hr).next fun o ho => ?_
  cases o with
  | none => exact .pure trivial
  | some found => exact record_grows .redundant found.1 none (ho found.1 found.2 rfl)

theorem checkRedundancies_grows : Grows m config s [] checkRedundancies fun _ => True := by
  unfold checkRedundancies
  refine (note_grows _).next fun _ _ => model_grows.next fun n hn => ?_
  have hall : Grows m config s (n.crossTree.flatMap fun _ => []) (n.crossTree.forM checkImplied)
      fun _ => True := .forM fun r hr => checkImplied_grows hs (hn.crossTree ▸ hr)
  exact hall.mono (by simp)

/-- Whatever is probed, some features are tagged, and the analyzer is still at its baseline. -/
theorem ofProbe_grows (p : Journal.Probe) : ∃ ls, Grows m config s ls (ofProbe p) fun _ => True := by
  obtain ⟨visited, hvisited⟩ := Store.nonRoot_of_attempt hs
  have hvisit : Visits m config (visited.map (·.name)) := ⟨visited, hvisited, rfl⟩
  cases p with
  | consistency => exact ⟨_, .discard (checkConsistency_grows hs)⟩
  | dead => exact ⟨_, fun _ ha => (checkDead_grows hs hvisit ha).weaken fun _ _ h => ⟨trivial, h.2⟩⟩
  | conditionallyDead => exact ⟨_, checkConditionallyDead_grows hs hvisit⟩
  | fullMandatory => exact ⟨_, checkFullMandatory_grows hs hvisit⟩
  | falseOptional => exact ⟨_, checkFalseOptional_grows hs hvisit⟩
  | redundant => exact ⟨_, checkRedundancies_grows hs⟩

end made

/-- A started analyzer is at its baseline, in a world that differs from the one before in the journal
only. -/
theorem start_atBaseline (h : start (Analyzer.new m config w) = .ok () a) :
    ∃ s, Store.ofModel m config.order = .ok s ∧ a.AtBaseline m config s ∧
      a.bench.world.faults = w.faults ∧ a.bench.world.token = w.token ∧
      a.bench.world.reading = w.reading := by
  obtain ⟨b, hr, rfl⟩ := start_eq_ok_iff.mp h
  obtain ⟨⟨hstanding, -⟩, hmade, -, hbuilding⟩ :=
    (Work.build_standing config.order).of_eq_ok rfl hr
  exact ⟨b.store, hmade, ⟨hstanding.alike, ⟨_, Nat.le_refl _, rfl⟩, hbuilding.settings, rfl, rfl⟩,
    hbuilding.faults, hbuilding.token, hbuilding.reading⟩

end Analysis
end Anomaly
end ProductLine
