import ProductLine.Proofs.Anomaly.Preservation
import ProductLine.Proofs.Anomaly.Pairs
import ProductLine.Proofs.Anomaly.Used
import ProductLine.Proofs.Workbench.Posed

/-! # Every diagnosis is asked for right

When an analysis has found something, it announces it and looks for diagnoses. What was added to the
baseline and what was taken back is said by the announcement (`Perturbs`), so that the journal tells which
question is due whenever diagnoses are looked for. Each step of an analysis keeps it so that only such
questions were asked (`Analyzer.Recounts`), and with them each probe and the whole analysis do, whatever
was done before, whatever faults there are, and however they end (`sought_posed`). -/

namespace ProductLine
namespace Anomaly

open Constraint Diagnosis Journal Workbench

/-- The note announces that the baseline cannot hold any more, now that the first constraints are taken back
and the second ones are added. -/
inductive Perturbs (m : FeatureModel) (s : Store) :
    Note → List Constraint → List Constraint → Prop where
  | void : Perturbs m s .void [] []
  | dead {f : String} {n : Nat} (hn : s.nextId ≤ n) :
      Perturbs m s (.found .dead f) [] (assignments n [(f, true)])
  | fullMandatory {f : String} {n : Nat} (hn : s.nextId ≤ n) :
      Perturbs m s (.found .fullMandatory f) [] (assignments n [(f, false)])
  | falseOptional {f : String} {n : Nat} {fs : List Feature} {p : Feature} (hn : s.nextId ≤ n)
      (hfs : m.requiring f = .ok fs) (hp : fs.find? (fun q => m.isMandatory q.name) = some p) :
      Perturbs m s (.found .falseOptional f) [] (assignments n [(f, false), (p.name, true)])
  | incompatible {f g : String} {n : Nat} (hn : s.nextId ≤ n) :
      Perturbs m s (.incompatible f g) [] (assignments n [(f, true), (g, true)])
  | redundant {r : Relationship} {rule x y : String} {rest : List Value} {n : Nat} (hn : s.nextId ≤ n)
      (hr : r ∈ m.crossTree) (hrule : r.rule = .ok rule) (hleft : r.left = .text x)
      (hright : r.right = .text y :: rest) :
      Perturbs m s (.redundant rule) (s.constraintsOf r)
        [⟨n, Encoding.negation r.kind x y, .negation, some r⟩]

/-- The question is the well posed one how what the note announces can be mended. -/
def Fits (m : FeatureModel) (s : Store) (recentFirst : Bool) (n : Note)
    (candidates background : List Constraint) : Prop :=
  ∃ retracted added, Perturbs m s n retracted added ∧
    Analysis.Asked s recentFirst retracted added candidates background

/-- The analyzer is at its baseline, and since the workbench only such questions were asked as fit what
was announced last. -/
structure Analyzer.Recounts (m : FeatureModel) (config : Config) (s : Store) (b : Workbench)
    (a : Analyzer) : Prop where
  atBaseline : a.AtBaseline m config s
  told : b.Recounts (Fits m s config.recentFirst) a.bench

namespace Analysis

open Analyzer

variable {α : Type} {step : Analysis α} {P : α → Prop} {m : FeatureModel} {config : Config} {s : Store}
  {w : World} {a a₀ : Analyzer} {b : Workbench} {ls : List (Feature.Anomaly × String)}
  {values : List (String × Bool)} {k : Note}

/-! ### Steps that diagnose nothing -/

theorem recounts_of_grows (h : Grows m config s ls step P)
    (htold : ∀ a : Analyzer, a.Recounts m config s b → Ensures (· = a) step
      (fun _ a' => b.Recounts (Fits m s config.recentFirst) a'.bench)
      fun _ a' => b.Recounts (Fits m s config.recentFirst) a'.bench) :
    Ensures (Recounts m config s b) step (fun x a => P x ∧ a.Recounts m config s b)
      fun _ => Recounts m config s b :=
  .ofState fun a ha => ((h a ha.atBaseline).both (htold a ha)).mono
    (fun _ _ hx => ⟨hx.1.1, hx.1.2.toAtBaseline, hx.2⟩) fun _ _ hx => ⟨hx.1.toAtBaseline, hx.2⟩

theorem recounts_of_keeps (h : Grows m config s ls step P)
    (hkeeps : Keeps (fun a => b.Recounts (Fits m s config.recentFirst) a.bench) step) :
    Ensures (Recounts m config s b) step (fun x a => P x ∧ a.Recounts m config s b)
      fun _ => Recounts m config s b :=
  recounts_of_grows h fun _ ha => Ensures.inState hkeeps ha.told

theorem note_recounts (hk : ∀ candidates background, k ≠ .sought candidates background) :
    Keeps (Recounts m config s b) (note k) := by
  have hnoted : Keeps (b.Recounts (Fits m s config.recentFirst)) (Work.note k) :=
    Ensures.modify fun _ h => h.push hk rfl
  exact (recounts_of_keeps (note_grows k) (note_keeps hnoted)).weaken fun _ _ h => h.2

theorem model_recounts : Ensures (Recounts m config s b) model
    (fun n a => m.Alike n ∧ a.Recounts m config s b) fun _ => Recounts m config s b :=
  recounts_of_keeps model_grows model_keeps

section made

variable (hs : Store.ofModel m config.order = .ok s)
include hs

theorem nonRoot_recounts : Ensures (Recounts m config s b) nonRoot
    (fun fs a => (∀ f ∈ fs, f.name ∈ m.names) ∧ a.Recounts m config s b)
    fun _ => Recounts m config s b := by
  obtain ⟨visited, hvisit⟩ := Store.nonRoot_of_attempt hs
  exact (recounts_of_keeps (nonRoot_grows ⟨visited, hvisit, rfl⟩) nonRoot_keeps).weaken
    fun _ _ h => ⟨h.1.2, h.2⟩

theorem infeasible_recounts (hvalues : ∀ x ∈ values, x.1 ∈ m.names) :
    Keeps (Recounts m config s b) (infeasible values) :=
  (recounts_of_keeps (infeasible_grows hs hvalues) (infeasible_keeps recounts_insensitive values)).weaken
    fun _ _ h => h.2

theorem livingOptional_recounts : Ensures (Recounts m config s b) livingOptional
    (fun living a => living ⊆ m.names ∧ a.Recounts m config s b) fun _ => Recounts m config s b := by
  obtain ⟨visited, hvisit⟩ := Store.nonRoot_of_attempt hs
  have hnames : Visits m config (visited.map (·.name)) := ⟨visited, hvisit, rfl⟩
  have hgrows : Grows m config s [] livingOptional fun living => living ⊆ m.names :=
    .ofAsks fun a ha => (livingOptional_spares hs hnames ha).weaken fun _ _ h =>
      ⟨List.Subset.trans h.1 (List.Subset.trans (spared_sublist a _).subset hnames.subset), h.2⟩
  exact recounts_of_keeps hgrows (livingOptional_keeps recounts_insensitive)

omit hs in
theorem record_recounts (c : Category) (subject : String) {all : Enumeration}
    (condition : Option String) (hall : ∃ found, explanations all.diagnoses = .ok found) :
    Keeps (Recounts m config s b) (record c subject all condition) := by
  have hexplained : ∀ line, Keeps (b.Recounts (Fits m s config.recentFirst))
      (Work.note (.explained line)) := fun line =>
    Ensures.modify fun _ h => h.push (fun _ _ => Note.noConfusion) rfl
  exact (recounts_of_keeps (record_grows c subject condition hall)
    (record_keeps recounts_insensitive hexplained c subject all condition)).weaken fun _ _ h => h.2

/-! ### Steps that diagnose -/

theorem diagnosePerturbation_explains (ha : a.AtBaseline m config s)
    (hvalues : ∀ x ∈ values, x.1 ∈ m.names) (hk : b.Explains (Fits m s config.recentFirst) k a.bench)
    (hperturbs : ∀ n, s.nextId ≤ n → Perturbs m s k [] (assignments n values)) :
    Ensures (· = a) (diagnosePerturbation values)
      (fun _ a' => b.Recounts (Fits m s config.recentFirst) a'.bench)
      fun _ a' => b.Recounts (Fits m s config.recentFirst) a'.bench := by
  obtain ⟨n, hn, hstore⟩ := ha.store
  have hfits : ∀ candidates background,
      Asked a.bench.store a.config.recentFirst [] (assignments a.bench.store.nextId values)
        candidates background → Fits m s config.recentFirst k candidates background := by
    rw [hstore, ha.config_eq]
    exact fun _ _ h => ⟨_, _, hperturbs n hn, h⟩
  unfold diagnosePerturbation
  apply Ensures.get_bind
  rintro _ rfl
  exact onBench_promises ((diagnosed_explains (ha.standing hs) hvalues hk hfits).mono
    (fun _ _ h => h.recounts) fun _ _ h => h.recounts)

theorem announced_recounts (hk : k.announces = true) (hvalues : ∀ x ∈ values, x.1 ∈ m.names)
    (hperturbs : ∀ n, s.nextId ≤ n → Perturbs m s k [] (assignments n values)) :
    Ensures (Recounts m config s b) (note k >>= fun _ => diagnosePerturbation values)
      (fun all a => (∃ found, explanations all.diagnoses = .ok found) ∧ a.Recounts m config s b)
      fun _ => Recounts m config s b := by
  have hgrows : Grows m config s [] (note k >>= fun _ => diagnosePerturbation values)
      fun all => ∃ found, explanations all.diagnoses = .ok found :=
    (note_grows k).next fun _ _ => .ofAsks fun _ ha => diagnosePerturbation_explained hs ha hvalues
  refine recounts_of_grows hgrows fun a ha => ?_
  have hnoted : Ensures (· = a) (note k)
      (fun _ a' => a'.AtBaseline m config s ∧ b.Explains (Fits m s config.recentFirst) k a'.bench)
      fun _ a' => b.Recounts (Fits m s config.recentFirst) a'.bench := by
    rintro _ rfl
    exact ⟨{ ha.atBaseline with }, ha.told.announce hk rfl⟩
  exact .bindState hnoted fun _ a' ha' => diagnosePerturbation_explains hs ha'.1 hvalues ha'.2 hperturbs

theorem diagnoseVoid_recounted (ha : a.config = config) :
    Ensures (Recounts m config s b) (onBench (Work.probe [] (diagnoseVoid a)))
      (fun o a' => (∀ all, o = some all → ∃ found, explanations all.diagnoses = .ok found) ∧
        a'.Recounts m config s b) fun _ => Recounts m config s b := by
  refine recounts_of_grows (diagnoseVoid_grows hs a) fun a' ha' => ?_
  obtain ⟨n, hn, hstore⟩ := ha'.atBaseline.store
  have hfits : ∀ candidates background,
      Asked a'.bench.store a.config.recentFirst [] [] candidates background →
        Fits m s config.recentFirst .void candidates background := by
    rw [hstore, ha]
    exact fun _ _ h => ⟨_, _, .void, h⟩
  exact onBench_promises (diagnoseVoid_recounts a (ha'.atBaseline.standing hs) ha'.told hfits)

theorem diagnoseImplied_recounted (ha : a.config = config) {r : Relationship} (hr : r ∈ m.crossTree) :
    Ensures (Recounts m config s b) (onBench (Work.retracted r fun _ => diagnoseImplied a r))
      (fun o a' => (∀ rule all, o = some (rule, all) →
        ∃ found, explanations all.diagnoses = .ok found) ∧ a'.Recounts m config s b)
      fun _ => Recounts m config s b := by
  refine recounts_of_grows (diagnoseImplied_grows hs a hr) fun a' ha' => ?_
  obtain ⟨n, hn, hstore⟩ := ha'.atBaseline.store
  have hfits : ∀ rule x y rest, r.rule = .ok rule → r.left = .text x → r.right = .text y :: rest →
      ∀ candidates background, Asked a'.bench.store a.config.recentFirst
        (a'.bench.store.constraintsOf r) [a'.bench.opposite r x y] candidates background →
          Fits m s config.recentFirst (.redundant rule) candidates background := by
    intro rule x y rest hrule hleft hright
    unfold Workbench.opposite
    rw [hstore, ha]
    exact fun _ _ h => ⟨_, _, .redundant hn hr hrule hleft hright, h⟩
  exact onBench_promises (diagnoseImplied_recounts a hr (ha'.atBaseline.standing hs) ha'.told hfits)

/-! ### Probes of one feature after the other -/

theorem report_recounts {c : Category} {f : Feature} (hvalues : ∀ x ∈ values, x.1 ∈ m.names)
    (hperturbs : ∀ n, s.nextId ≤ n → Perturbs m s (.found c f.name) [] (assignments n values)) :
    Keeps (Recounts m config s b) (report c f values) := by
  have heq : report c f values = (note (.found c f.name) >>= fun _ => diagnosePerturbation values) >>=
      fun all => record c f.name all none := (bind_assoc _ _ _).symm
  rw [heq]
  exact Ensures.bind (announced_recounts hs rfl hvalues hperturbs) fun all => .assuming fun hall =>
    record_recounts c f.name none hall

theorem checkValue_recounts {c : Category} {value : Bool} {f : Feature} (hf : f.name ∈ m.names)
    (hperturbs : ∀ n, s.nextId ≤ n →
      Perturbs m s (.found c f.name) [] (assignments n [(f.name, value)])) :
    Keeps (Recounts m config s b) (checkValue c value f) := by
  have hvalues : ∀ x ∈ [(f.name, value)], x.1 ∈ m.names := List.forall_mem_singleton.mpr hf
  refine (infeasible_recounts hs hvalues).bind fun found => ?_
  cases found with
  | true => exact report_recounts hs hvalues hperturbs
  | false => exact .pure ()

/-- The model under analysis differs from the one of the store in tags only, so it has the same mandatory
features that require a feature. -/
theorem checkRequired_recounts {f : Feature} (hf : f.name ∈ m.names) :
    Keeps (Recounts m config s b) (checkRequired f) := by
  unfold checkRequired
  refine Ensures.bind model_recounts fun n => .assuming fun hn => ?_
  split
  · have hrequiring : Ensures (Recounts m config s b) (orFail (n.requiring f.name))
        (fun fs a => n.requiring f.name = .ok fs ∧ a.Recounts m config s b)
        fun _ => Recounts m config s b := .orFail (fun _ hfs _ ha => ⟨hfs, ha⟩) fun _ _ _ => id
    refine Ensures.bind hrequiring fun fs => .assuming fun hfs => ?_
    split
    · exact .pure fun _ => id
    · next p hp =>
      obtain ⟨fs', hfs', hnames⟩ := hn.symm.requiring hfs
      have hfirst := hn.symm.find?_isMandatory hnames
      rw [hp, Option.map_some, eq_comm, Option.map_eq_some_iff] at hfirst
      obtain ⟨p', hp', hname⟩ := hfirst
      have hvalues : ∀ x ∈ [(f.name, false), (p.name, true)], x.1 ∈ m.names := by
        refine List.forall_mem_cons.mpr ⟨hf, List.forall_mem_singleton.mpr ?_⟩
        rw [← hname]
        exact List.mem_map_of_mem (FeatureModel.requiring_subset hfs' (List.mem_of_find?_eq_some hp'))
      refine (infeasible_recounts hs hvalues).bind fun found => ?_
      cases found with
      | true => exact report_recounts hs hvalues fun k hk => hname ▸ .falseOptional hk hfs' hp'
      | false => exact .pure ()
  · exact .pure fun _ => id

theorem probed_recounts {aim : Journal.Probe} {probe : Feature → Analysis Unit}
    (h : ∀ f : Feature, f.name ∈ m.names → Keeps (Recounts m config s b) (probe f)) :
    Keeps (Recounts m config s b) (note (.probing aim) >>= fun _ => nonRoot >>= fun fs => fs.forM probe) :=
  (note_recounts fun _ _ => Note.noConfusion).bind fun _ =>
    Ensures.bind (nonRoot_recounts hs) fun _ => .assuming fun hfs => .forM fun f hf => h f (hfs f hf)

theorem checkDead_recounts : Keeps (Recounts m config s b) checkDead := by
  have heq : checkDead = ((note (.probing .dead) >>= fun _ => nonRoot >>= fun fs =>
      fs.forM (checkValue .dead true)) >>= fun _ => modify fun a => { a with deadChecked := true } :
        Analysis Unit) := by
    unfold checkDead
    simp only [bind_assoc]
  rw [heq]
  refine Keeps.bind (probed_recounts hs fun f hf => checkValue_recounts hs hf fun _ => .dead) fun _ => ?_
  exact Ensures.modify fun _ ha => ⟨{ ha.atBaseline with }, ha.told⟩

theorem checkFullMandatory_recounts : Keeps (Recounts m config s b) checkFullMandatory :=
  probed_recounts hs fun _ hf => checkValue_recounts hs hf fun _ => .fullMandatory

theorem checkFalseOptional_recounts : Keeps (Recounts m config s b) checkFalseOptional :=
  probed_recounts hs fun _ hf => checkRequired_recounts hs hf

/-! ### Conditionally dead features -/

omit hs in
theorem recordPartner_recounts {all : Enumeration} (hall : ∃ found, explanations all.diagnoses = .ok found)
    (reported : List String) (f partner : String) :
    Keeps (Recounts m config s b) (recordPartner all reported f partner) := by
  unfold recordPartner
  split
  · exact .pure reported
  · exact (record_recounts _ f _ hall).bind fun _ => .pure _

theorem checkPair_recounts (reported : List String) {pair : String × String}
    (hpair : pair.1 ∈ m.names ∧ pair.2 ∈ m.names) :
    Keeps (Recounts m config s b) (checkPair reported pair) := by
  have hvalues : ∀ x ∈ [(pair.1, true), (pair.2, true)], x.1 ∈ m.names :=
    List.forall_mem_cons.mpr ⟨hpair.1, List.forall_mem_singleton.mpr hpair.2⟩
  unfold checkPair
  split
  · exact .pure reported
  · refine (infeasible_recounts hs hvalues).bind fun found => ?_
    cases found with
    | false => exact .pure reported
    | true =>
      have hasked := announced_recounts (b := b) (k := .incompatible pair.1 pair.2) hs rfl hvalues
        fun _ => .incompatible
      rw [if_pos rfl, ← bind_assoc]
      exact Ensures.bind hasked fun all => .assuming fun hall =>
        (recordPartner_recounts hall _ _ _).bind fun _ => recordPartner_recounts hall _ _ _

theorem checkConditionallyDead_recounts : Keeps (Recounts m config s b) checkConditionallyDead := by
  refine (note_recounts fun _ _ => Note.noConfusion).bind fun _ => ?_
  refine Ensures.bind (livingOptional_recounts hs) fun living => .assuming fun hliving => ?_
  refine Ensures.discard (.foldlM (I := fun _ => Recounts m config s b) fun reported pair hpair => ?_)
  obtain ⟨hfirst, hsecond⟩ := mem_of_mem_pairs hpair
  exact checkPair_recounts hs reported ⟨hliving hfirst, hliving hsecond⟩

/-! ### Probes of the whole model and of constraints -/

theorem checkConsistency_recounts : Keeps (Recounts m config s b) checkConsistency := by
  unfold checkConsistency
  refine (note_recounts fun _ _ => Note.noConfusion).bind fun _ => Ensures.get_bind fun a ha => ?_
  refine Ensures.bind ((diagnoseVoid_recounted hs ha.atBaseline.config_eq).inState ha) fun o =>
    .assuming fun ho => ?_
  cases o with
  | none => exact .pure fun _ => id
  | some all => exact (record_recounts _ _ none (ho all rfl)).bind fun _ => .pure false

theorem checkImplied_recounts {r : Relationship} (hr : r ∈ m.crossTree) :
    Keeps (Recounts m config s b) (checkImplied r) := by
  unfold checkImplied
  refine Ensures.get_bind fun a ha => ?_
  refine Ensures.bind ((diagnoseImplied_recounted hs ha.atBaseline.config_eq hr).inState ha) fun o =>
    .assuming fun ho => ?_
  cases o with
  | none => exact .pure fun _ => id
  | some found => exact record_recounts .redundant found.1 none (ho found.1 found.2 rfl)

theorem checkRedundancies_recounts : Keeps (Recounts m config s b) checkRedundancies := by
  refine (note_recounts fun _ _ => Note.noConfusion).bind fun _ => ?_
  refine Ensures.bind model_recounts fun n => .assuming fun hn => .forM fun r hr => ?_
  exact checkImplied_recounts hs (hn.crossTree ▸ hr)

theorem ofProbe_recounts (p : Journal.Probe) : Keeps (Recounts m config s b) (ofProbe p) := by
  cases p with
  | consistency => exact (checkConsistency_recounts hs).discard
  | dead => exact checkDead_recounts hs
  | conditionallyDead => exact checkConditionallyDead_recounts hs
  | fullMandatory => exact checkFullMandatory_recounts hs
  | falseOptional => exact checkFalseOptional_recounts hs
  | redundant => exact checkRedundancies_recounts hs

/-! ### The whole analysis -/

omit hs in
theorem ifAsked_recounts (asked : Config → Bool) {probe : Analysis Unit}
    (h : Keeps (Recounts m config s b) probe) : Keeps (Recounts m config s b) (ifAsked asked probe) := by
  refine Keeps.get_bind fun a => ?_
  split
  · exact h
  · exact .pure ()

theorem probes_recounts : Keeps (Recounts m config s b) probes := by
  have hset : ∀ consistent, Keeps (Recounts m config s b) (modify fun a => { a with
      report := { a.report with consistent := consistent } } : Analysis PUnit) :=
    fun consistent => Ensures.modify fun _ ha => ⟨{ ha.atBaseline with }, ha.told⟩
  refine (checkConsistency_recounts hs).bind fun consistent => (hset consistent).bind fun _ => ?_
  cases consistent with
  | true =>
    refine (ifAsked_recounts _ (checkDead_recounts hs)).bind fun _ => ?_
    refine (ifAsked_recounts _ (checkConditionallyDead_recounts hs)).bind fun _ => ?_
    refine (ifAsked_recounts _ (checkFullMandatory_recounts hs)).bind fun _ => ?_
    refine (ifAsked_recounts _ (checkFalseOptional_recounts hs)).bind fun _ => ?_
    exact ifAsked_recounts _ (checkRedundancies_recounts hs)
  | false => exact note_recounts fun _ _ => Note.noConfusion

theorem run_recounts : Keeps (Recounts m config s b) run := by
  have hrenewed : Keeps (Recounts m config s b) (modify Analyzer.renewed) := Ensures.modify fun a ha =>
    ⟨{ ha.atBaseline with alike := ha.atBaseline.alike.trans (.clearTags _) },
      recounts_insensitive.model _ _ ha.told⟩
  have hstocked : Keeps (Recounts m config s b) (always takeStock probes) :=
    Ensures.always (probes_recounts hs) (fun _ _ ha => ⟨{ ha.atBaseline with }, ha.told⟩)
      fun _ _ ha => ⟨{ ha.atBaseline with }, ha.told⟩
  refine hrenewed.bind fun _ => Keeps.get_bind fun _ => ?_
  refine (note_recounts fun _ _ => Note.noConfusion).bind fun _ => hstocked.bind fun _ => ?_
  refine Keeps.get_bind fun a => (note_recounts fun _ _ => Note.noConfusion).bind fun _ => ?_
  exact Keeps.get_bind fun c => .pure c.report

end made

/-- **Every diagnosis is asked for right.** Take an analyzer of any model that can be built, in any
configuration and with any faults, that was used in whatever way. Whenever the whole analysis or one of its
probes looks for diagnoses, for the first ones or further down at any depth, and however it ends, it has
announced before what cannot hold: the baseline with something added and something else taken back
(`Perturbs`). What it asks then is well posed (`Poses`). The candidates are constraints of relationships in
the order of the configuration, and no number repeats among them or in the background. Together with the
background they are exactly what was announced. The root, the assignments and the opposite of a constraint
are always in the background. -/
theorem sought_posed (hstart : start (Analyzer.new m config w) = .ok () a₀) (ha : Used a₀ a) :
    ∃ s, Store.ofModel m config.order = .ok s ∧
      a.bench.Recounts (Fits m s config.recentFirst) (after run a).bench ∧
      ∀ p, a.bench.Recounts (Fits m s config.recentFirst) (after (ofProbe p) a).bench := by
  obtain ⟨s, hs, ha₀, -⟩ := start_atBaseline hstart
  have hbegin : a.Recounts m config s a.bench := ⟨ha.atBaseline hs ha₀, .refl _⟩
  refine ⟨s, hs, ?_, fun p => ?_⟩
  · rw [after_eq_endState]
    exact ((run_recounts hs).endState hbegin).told
  · rw [after_eq_endState]
    exact ((ofProbe_recounts hs p).endState hbegin).told

/-- The analyzer of a model with a dead and a full mandatory feature, after an analysis that was called off,
in a world that disturbs no more. -/
def resumed : Analyzer :=
  let a := after run (after start (Analyzer.new blocked .standard limited))
  { a with bench := { a.bench with world := .calm } }

/-- Two steps down in the search for what keeps `B` out of all products, one candidate is left; two more are
in the background, with the root and the assignment, whose number tells of the earlier analysis. -/
theorem sought_posed_resumed : ∃ a₀ s, start (Analyzer.new blocked .standard limited) = .ok () a₀ ∧
    Used a₀ resumed ∧ Store.ofModel blocked .declared = .ok s ∧ ∃ n candidates background,
      .sought candidates background ∈ (after run resumed).bench.world.notes.toList ∧
        ids candidates = [1] ∧ ids background = [3, 11, 2, 0] ∧
        Fits blocked s true n candidates background := by
  have hstart : start (Analyzer.new blocked .standard limited) =
      .ok () (after start (Analyzer.new blocked .standard limited)) := rfl
  have hused : Used (after start (Analyzer.new blocked .standard limited)) resumed :=
    .surrounded (.run .start) .calm
  -- The run only shows that there is such a question; the theorem says what it is about.
  have hsought : ((after run resumed).bench.world.notes.toList.any fun
      | .sought candidates background => ids candidates == [1] && ids background == [3, 11, 2, 0]
      | _ => false) = true := by decide +kernel
  obtain ⟨k, hk, hids⟩ := List.any_eq_true.mp hsought
  obtain ⟨candidates, background, rfl⟩ : ∃ cs ds, k = .sought cs ds := by
    cases k <;> first | exact ⟨_, _, rfl⟩ | cases hids
  rw [Bool.and_eq_true] at hids
  obtain ⟨s, hs, ⟨noted, hnotes, haccounted⟩, -⟩ := sought_posed hstart hused
  have hnone : resumed.bench.world.notes.toList = [] := rfl
  rw [hnone, List.nil_append] at hnotes
  obtain ⟨before, later, hsplit⟩ := List.append_of_mem (hnotes ▸ hk)
  obtain ⟨n, -, hfits⟩ := haccounted _ _ _ _ hsplit
  exact ⟨_, s, hstart, hused, hs, n, _, _, hk, eq_of_beq hids.1, eq_of_beq hids.2, hfits⟩

end Analysis
end Anomaly
end ProductLine
