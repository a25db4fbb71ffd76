import ProductLine.Proofs.Anomaly.Explanations
import ProductLine.Proofs.Workbench.Diagnoses

/-! # Steps of an analysis

Every explanation in the report of a `Sound` analyzer is a repair. The steps that all probes are made
of keep it so, whether they succeed or fail: asking changes nothing of the report (`infeasible_asks`,
`diagnosePerturbation_asks`), and what is recorded with diagnoses that mend the model is explained by
repairs (`record_adds`). -/

namespace ProductLine
namespace Anomaly

open Constraint Diagnosis Outcome Workbench

/-! ### Explanations -/

namespace Analysis

/-- Every explanation consists of the rules of one of the diagnoses, and of some at all. -/
theorem explain_of_explanations {diagnoses : List (List Constraint)} {found : List (List String)}
    (h : explanations diagnoses = .ok found) :
    ∀ rules ∈ found, rules ≠ [] ∧ ∃ d ∈ diagnoses, explain d = .ok rules := by
  refine foldlM_ok (I := fun found => ∀ rules ∈ found, rules ≠ [] ∧
    ∃ d ∈ diagnoses, explain d = .ok rules) h (List.forall_mem_nil _) ?_
  intro found d hd found' hfound hstep
  obtain ⟨rules, hrules, hstep⟩ := bind_eq_ok_iff.mp hstep
  rw [← pure_eq_ok_iff.mp hstep]
  split
  · exact hfound
  · next hnew =>
    refine List.forall_mem_append.mpr ⟨hfound, List.forall_mem_singleton.mpr ⟨?_, d, hd, hrules⟩⟩
    rintro rfl
    exact hnew rfl

/-- The explanations are those of some of the diagnoses, in their order. -/
theorem explanations_foldlM {diagnoses : List (List Constraint)} {before found : List (List String)}
    (h : diagnoses.foldlM (fun found diagnosis => do
      let rules ← explain diagnosis
      return if rules.isEmpty || found.contains rules then found else found ++ [rules]) before =
        .ok found) :
    ∃ kept added, kept.Sublist diagnoses ∧
      List.Forall₂ (fun d rules => explain d = .ok rules) kept added ∧ found = before ++ added := by
  induction diagnoses generalizing before with
  | nil =>
    rw [List.foldlM_nil, pure_eq_ok_iff] at h
    exact ⟨[], [], .slnil, .nil, by rw [List.append_nil, h]⟩
  | cons d diagnoses ih =>
    rw [List.foldlM_cons, bind_eq_ok_iff] at h
    obtain ⟨mid, hmid, h⟩ := h
    obtain ⟨rules, hrules, hmid⟩ := bind_eq_ok_iff.mp hmid
    obtain ⟨kept, added, hsub, hexplain, hfound⟩ := ih h
    rw [← pure_eq_ok_iff.mp hmid] at hfound
    split at hfound
    · exact ⟨kept, added, .cons _ hsub, hexplain, hfound⟩
    · refine ⟨d :: kept, rules :: added, .cons_cons _ hsub, .cons hrules hexplain, ?_⟩
      rw [hfound, List.append_assoc, List.singleton_append]

theorem explanations_discerned {diagnoses : List (List Constraint)} {found : List (List String)}
    {cs : List Constraint} (h : explanations diagnoses = .ok found)
    (hunlike : diagnoses.Pairwise (Unlike cs)) :
    found.Pairwise (Discerned cs) := by
  obtain ⟨kept, added, hsub, hexplain, rfl⟩ := explanations_foldlM h
  have hkept := hunlike.sublist hsub
  clear h hunlike hsub
  induction hexplain with
  | nil => exact List.Pairwise.nil
  | cons hd hrest ih =>
    rw [List.pairwise_cons] at hkept ⊢
    refine ⟨fun rules' hmem => ?_, ih hkept.2⟩
    obtain ⟨d', hd', hrules'⟩ := exists_of_mem_mapM (mapM_eq_ok_iff.mpr hrest) rules' hmem
    exact hkept.1 d' hd' _ _ hd hrules'

/-- Diagnoses that have rules have an explanation. -/
theorem explanations_eq_nil_iff {diagnoses : List (List Constraint)} {found : List (List String)}
    (h : explanations diagnoses = .ok found)
    (hrules : ∀ d ∈ diagnoses, ∀ rules, explain d = .ok rules → rules ≠ []) :
    found = [] ↔ diagnoses = [] := by
  cases diagnoses with
  | nil =>
    cases h
    exact iff_of_true rfl rfl
  | cons d diagnoses =>
    refine iff_of_false ?_ (List.cons_ne_nil d diagnoses)
    unfold explanations at h
    rw [List.foldlM_cons, bind_eq_ok_iff] at h
    obtain ⟨mid, hmid, h⟩ := h
    obtain ⟨rules, hexplain, hmid⟩ := bind_eq_ok_iff.mp hmid
    obtain ⟨-, added, -, -, rfl⟩ := explanations_foldlM h
    have hsome : rules.isEmpty = false :=
      List.isEmpty_eq_false_iff.mpr (hrules d List.mem_cons_self rules hexplain)
    rw [← pure_eq_ok_iff.mp hmid, hsome]
    exact List.append_ne_nil_of_left_ne_nil (List.cons_ne_nil rules []) added

theorem explanations_total {diagnoses : List (List Constraint)}
    (h : ∀ d ∈ diagnoses, ∀ c ∈ d, ∃ o, c.rule = .ok o) :
    ∃ found, explanations diagnoses = .ok found := by
  refine foldlM_total ?_ []
  intro found d hd
  obtain ⟨rules, hrules⟩ := explain_total (h d hd)
  exact ⟨_, bind_eq_ok_iff.mpr ⟨rules, hrules, rfl⟩⟩

end Analysis

/-! ### Tags -/

/-- The model with the tag of a finding. -/
def tagged (m : FeatureModel) (f : Finding) : FeatureModel :=
  match f.category.tag? with
  | some tag => m.tag f.subject tag
  | none => m

theorem hasTag_tagged_iff {n : FeatureModel} {f : Finding} {name : String} {t : Feature.Anomaly} :
    (tagged n f).hasTag name t = true ↔ n.hasTag name t = true ∨
      f.subject = name ∧ f.category.tag? = some t ∧ name ∈ n.names := by
  unfold tagged
  cases f.category.tag? with
  | none => simp
  | some tag =>
    show (n.tag f.subject tag).hasTag name t = true ↔ _
    rw [FeatureModel.hasTag_tag_iff, Option.some.injEq, eq_comm (a := name), eq_comm (a := t)]

theorem hasTag_foldl_tagged_iff {n : FeatureModel} {fs : List Finding} {name : String}
    {t : Feature.Anomaly} :
    (fs.foldl tagged n).hasTag name t = true ↔ n.hasTag name t = true ∨
      ∃ f ∈ fs, f.subject = name ∧ f.category.tag? = some t ∧ name ∈ n.names := by
  induction fs generalizing n with
  | nil => simp
  | cons f fs ih =>
    have hnames : (tagged n f).names = n.names := by
      unfold tagged
      split
      · exact FeatureModel.names_tag _ _ _
      · rfl
    rw [List.foldl_cons, ih, hasTag_tagged_iff, hnames, or_assoc]
    simp

theorem eq_dead_of_tag? {c : Category} (h : c.tag? = some .dead) : c = .dead := by
  cases c <;> first | rfl | cases h

/-- Only dead features are tagged as dead, those aside that were so before; and once they have been
looked for, all of them are. -/
structure Marked (m : FeatureModel) (o : FeatureOrder) (n : FeatureModel) (checked : Bool) : Prop where
  dead : ∀ name, n.hasTag name .dead = true → m.hasTag name .dead = true ∨ m.IsDead name
  checked : checked = true → ∀ visited, m.nonRoot o = .ok visited → ∀ f ∈ visited,
    m.IsDead f.name → n.hasTag f.name .dead = true

theorem Marked.tag {m n : FeatureModel} {o : FeatureOrder} {checked : Bool} {subject : String}
    {t : Feature.Anomaly} (h : Marked m o n checked) (hdead : t = .dead → m.IsDead subject) :
    Marked m o (n.tag subject t) checked := by
  constructor
  · intro name hname
    rcases FeatureModel.hasTag_tag_iff.mp hname with hbefore | ⟨rfl, ht, -⟩
    · exact h.dead name hbefore
    · exact .inr (hdead ht.symm)
  · intro hchecked visited hvisit f hf hfdead
    exact FeatureModel.hasTag_tag_iff.mpr (.inl (h.checked hchecked visited hvisit f hf hfdead))

theorem Marked.cleared (m n : FeatureModel) (o : FeatureOrder) : Marked m o n.clearTags false := by
  refine ⟨fun name htag => ?_, fun hchecked => absurd hchecked Bool.false_ne_true⟩
  rw [FeatureModel.hasTag_clearTags] at htag
  cases htag

/-! ### Sound analyzers -/

/-- No fault is to come in the world, and the engine takes every question about the model. -/
def Faultless (m : FeatureModel) (config : Config) (w : World) : Prop :=
  w.faults = [] ∧ config.solver.Takes m.names

/-- No fault is to come, the engine takes every question, and nothing calls the analysis off. -/
def Undisturbed (m : FeatureModel) (config : Config) (w : World) : Prop :=
  Faultless m config w ∧ w.Idle

/-- The workbench stands at its baseline, with the store that was made, and every explanation in the
report is a repair that names relationships of the model. Begun in a faultless world, the engine has
not failed, and begun in an idle one, nothing is called off; undisturbed by both, every finding is
justified, and its explanations are discerned. As long as the engine has not failed, the tags can be
relied on. -/
structure Analyzer.Sound (m : FeatureModel) (config : Config) (w : World) (a : Analyzer) :
    Prop where
  standing : Standing m a.bench
  config_eq : a.config = config
  limits_eq : a.limits = config.limits
  repaired : ∀ f ∈ a.report.found, ∀ rules ∈ f.diagnoses, f.Repaired m rules
  sourced : ∀ f ∈ a.report.found, f.Sourced m
  justified : Undisturbed m config w → ∀ f ∈ a.report.found, f.Justified m
  discerned : Undisturbed m config w → ∀ s, Store.ofModel m config.order = .ok s →
    ∀ f ∈ a.report.found, f.diagnoses.Pairwise (Discerned s.cf)
  unfailing : Faultless m config w → a.bench.Calm ∧ a.bench.failures = []
  idle : w.Idle → a.bench.world.Idle
  time : w.Precedes a.bench.world
  made : ∃ s n, Store.ofModel m config.order = .ok s ∧ a.bench.store = { s with nextId := n }
  marked : a.bench.failures = [] → Marked m config.order a.bench.model a.deadChecked

variable {m : FeatureModel} {config : Config} {w : World} {a a' a'' : Analyzer} {c : Category}

theorem Analyzer.Sound.quiet (h : a.Sound m config w) :
    Undisturbed m config w → Analysis.Quiet a.bench := fun hw =>
  ⟨(h.unfailing hw.1).1, (h.unfailing hw.1).2, h.idle hw.2⟩

theorem Analyzer.Sound.cf_eq (h : a.Sound m config w) {s : Store}
    (hs : Store.ofModel m config.order = .ok s) : a.bench.store.cf = s.cf := by
  obtain ⟨t, n, ht, hstore⟩ := h.made
  rw [hs] at ht
  cases ht
  rw [hstore]

/-- A step that asks: of the analyzer only the workbench is another one, and of that only numbers
and failures. -/
def Asks (a a' : Analyzer) : Prop := ∃ b, Probed a.bench b ∧ a' = { a with bench := b }

/-- A step that adds findings of a category with their tags, and maybe failures. -/
structure Adds (c : Category) (fs : List Finding) (a a' : Analyzer) : Prop where
  found : a'.report.found = a.report.found ++ fs
  category : ∀ f ∈ fs, f.category = c
  consistent : a'.report.consistent = a.report.consistent
  cf : a'.bench.store.cf = a.bench.store.cf
  failures : a.bench.failures <+: a'.bench.failures
  model : a'.bench.model = fs.foldl tagged a.bench.model

theorem Asks.refl (a : Analyzer) : Asks a a := ⟨a.bench, Probed.refl _, rfl⟩

theorem Asks.trans (h : Asks a a') (h' : Asks a' a'') : Asks a a'' := by
  obtain ⟨b, hb, rfl⟩ := h
  obtain ⟨b', hb', rfl⟩ := h'
  exact ⟨b', hb.trans hb', rfl⟩

theorem Asks.sound (h : Asks a a') (ha : a.Sound m config w) : a'.Sound m config w := by
  obtain ⟨b, hb, rfl⟩ := h
  refine { ha with
    standing := hb.standing ha.standing
    unfailing := ?_
    idle := fun hw => hb.idle (ha.idle hw)
    time := ha.time.trans hb.time
    made := ?_
    marked := ?_ }
  · intro hfaultless
    obtain ⟨hcalm, hfailures⟩ := ha.unfailing hfaultless
    exact ⟨hb.calm hcalm, (hb.unfailing hcalm).trans hfailures⟩
  · obtain ⟨s, n, hs, hstore⟩ := ha.made
    obtain ⟨k, -, hnumbered⟩ := hb.store
    exact ⟨s, k, hs, by rw [hnumbered, hstore]⟩
  · intro hfail
    rw [hb.model]
    exact ha.marked (List.prefix_nil.mp (hfail ▸ hb.failures))

theorem Asks.adds (h : Asks a a') (c : Category) : Adds c [] a a' := by
  obtain ⟨b, hb, rfl⟩ := h
  exact ⟨(List.append_nil _).symm, List.forall_mem_nil _, rfl, hb.cf, hb.failures, hb.model⟩

theorem Adds.trans {fs fs' : List Finding} (h : Adds c fs a a') (h' : Adds c fs' a' a'') :
    Adds c (fs ++ fs') a a'' := by
  refine ⟨?_, List.forall_mem_append.mpr ⟨h.category, h'.category⟩,
    h'.consistent.trans h.consistent, h'.cf.trans h.cf, h.failures.trans h'.failures, ?_⟩
  · rw [h'.found, h.found, List.append_assoc]
  · rw [h'.model, h.model, List.foldl_append]

theorem Adds.failures_eq_nil {fs : List Finding} (h : Adds c fs a a')
    (ha' : a'.bench.failures = []) : a.bench.failures = [] :=
  List.prefix_nil.mp (ha' ▸ h.failures)

/-- Diagnoses mend a model whatever is found later. -/
theorem Adds.allMend {fs : List Finding} {quiet : Prop} {skip : Relationship → Prop}
    {p : Selection → Prop} {all : Enumeration} (h : Adds c fs a a')
    (hall : Analysis.AllMend m a.bench.store quiet skip p all) :
    Analysis.AllMend m a'.bench.store quiet skip p all := hall.mono h.cf id fun _ => Iff.rfl

namespace Analysis

theorem onBench_ensures {α : Type} {work : Work α} {Q : α → Workbench → Prop}
    {F : Failure → Workbench → Prop} (h : Ensures (· = a.bench) work Q F) :
    Ensures (· = a) (onBench work) (fun x a' => ∃ b, Q x b ∧ a' = { a with bench := b })
      (fun e a' => ∃ b, F e b ∧ a' = { a with bench := b }) := by
  intro s hs
  have hw := h a.bench rfl
  rw [hs]
  unfold onBench
  cases hr : work a.bench with
  | ok x b =>
    rw [hr] at hw
    exact ⟨b, hw, rfl⟩
  | error e b =>
    rw [hr] at hw
    exact ⟨b, hw, rfl⟩

theorem onBench_asks {α : Type} {work : Work α} {Q : α → List Oracle.SolverFailure → Prop}
    {F : Failure → World → Prop} (h : Ensures (· = a.bench) work
      (fun x b => Q x b.failures ∧ Probed a.bench b)
      (fun e b => F e b.world ∧ Probed a.bench b)) :
    Ensures (· = a) (onBench work) (fun x a' => Q x a'.bench.failures ∧ Asks a a')
      (fun e a' => F e a'.bench.world ∧ Asks a a') := by
  refine (onBench_ensures h).mono ?_ ?_
  · rintro x _ ⟨b, ⟨hQ, hb⟩, rfl⟩
    exact ⟨hQ, b, hb, rfl⟩
  · rintro e _ ⟨b, ⟨hF, hb⟩, rfl⟩
    exact ⟨hF, b, hb, rfl⟩

theorem note_asks {fail : Failure → Analyzer → Prop} (n : Journal.Note) :
    Ensures (· = a) (note n) (fun _ a' => Asks a a') fail := by
  intro s hs
  rw [hs]
  exact ⟨_, ((Checked.refl a.bench).noted n).probed, rfl⟩

theorem explained_asks {fail : Failure → Analyzer → Prop} (f : Finding) :
    Ensures (· = a) (f.explanations.forM fun line => note (.explained line))
      (fun _ a' => Asks a a') fail := by
  refine (Ensures.forM (I := Asks a) fun line _ => ?_).inState (.refl a)
  exact .ofState fun a₁ h₁ => (note_asks _).weaken fun _ _ h => h₁.trans h

theorem infeasible_asks {values : List (String × Bool)} (ha : Standing m a.bench)
    (hvalues : ∀ x ∈ values, x.1 ∈ m.names) :
    Ensures (· = a) (infeasible values)
      (fun found a' => Work.Finds m values found a'.bench.failures ∧ Asks a a')
      (fun e a' => CalledOff a.bench.world e ∧ Asks a a') :=
  onBench_asks (F := fun e _ => CalledOff a.bench.world e) (Work.infeasible_probed ha hvalues)

theorem diagnosePerturbation_asks {values : List (String × Bool)} (ha : Standing m a.bench)
    (hvalues : ∀ x ∈ values, x.1 ∈ m.names) :
    Ensures (· = a) (diagnosePerturbation values)
      (fun all a' => AllMend m a.bench.store (Quiet a.bench) (fun _ => False)
        (fun v => ∀ x ∈ values, v x.1 = x.2) all ∧ Asks a a')
      (fun e a' => Stops a.bench.world a.limits e a'.bench.world ∧ Asks a a') := by
  unfold diagnosePerturbation
  apply Ensures.get_bind
  rintro _ rfl
  exact onBench_asks (Q := fun all _ => AllMend m _ _ (fun _ => False)
    (fun v => ∀ x ∈ values, v x.1 = x.2) all) (diagnosed_probed _ ha hvalues)

/-- What the explanations of diagnoses tell of a model. -/
structure Tells (m : FeatureModel) (skip : Relationship → Prop) (p : Selection → Prop)
    (diagnoses : List (List Constraint)) (found : List (List String)) : Prop where
  repairs : ∀ rules ∈ found, m.Admits (fun r => skip r ∨ Named rules r) p
  sourced : ∀ rules ∈ found, rules ≠ [] ∧ ∀ rule ∈ rules, ∃ r ∈ m.relationships, r.rule = .ok rule
  eq_nil_iff : ¬m.Admits skip p → (found = [] ↔ diagnoses = [])

/-- Diagnoses that mend the model have rules, without whose relationships it would have a product.
-/
theorem explanations_of_mend {b : Workbench} {quiet : Prop} {skip : Relationship → Prop}
    {p : Selection → Prop} {all : Enumeration} (hb : Standing m b)
    (hall : AllMend m b.store quiet skip p all) :
    ∃ found, explanations all.diagnoses = .ok found ∧ Tells m skip p all.diagnoses found := by
  have hrule : ∀ d ∈ all.diagnoses, ∀ c ∈ d, ∃ r ∈ m.relationships, ∃ rule,
      r.rule = .ok rule ∧ c.rule = .ok (some rule) := fun d hd _ hc =>
    exists_rule_of_mem hb.faithful ((hall.mends d hd).subset hc)
  obtain ⟨found, hfound⟩ := explanations_total fun d hd c hc => by
    obtain ⟨-, -, rule, -, hrule⟩ := hrule d hd c hc
    exact ⟨some rule, hrule⟩
  have hsome := explain_of_explanations hfound
  refine ⟨found, hfound, ⟨fun rules hmem => ?_, fun rules hmem => ⟨(hsome rules hmem).1, ?_⟩,
    fun hnone => explanations_eq_nil_iff hfound fun d hd rules hexplain => ?_⟩⟩
  · obtain ⟨-, d, hd, hexplain⟩ := hsome rules hmem
    exact (hall.mends d hd).admits.mono (fun r _ => Or.imp_right (named_of_explain hexplain))
      fun _ => id
  · intro rule hin
    obtain ⟨-, d, hd, hexplain⟩ := hsome rules hmem
    obtain ⟨c, hc, hown⟩ := (mem_explain_iff hexplain).mp hin
    obtain ⟨r, hr, rule', hrule', hown'⟩ := hrule d hd c hc
    rw [hown'] at hown
    cases hown
    exact ⟨r, hr, hrule'⟩
  · -- a diagnosis without rules would be empty, and then nothing would have to be mended
    rintro rfl
    refine hnone ((hall.mends d hd).admits.mono (fun r _ => Or.rec id fun hblamed => ?_) fun _ => id)
    obtain ⟨c, hc, -⟩ := hblamed
    obtain ⟨-, -, rule, -, hown⟩ := hrule d hd c hc
    exact absurd ((mem_explain_iff hexplain).mpr ⟨c, hc, hown⟩) List.not_mem_nil

/-- What is left to do for recording a finding once its feature is tagged. -/
def recordTagged (c : Category) (subject : String) (all : Enumeration) (condition : Option String) :
    Analysis Unit := do
  let diagnoses ← orFail (explanations all.diagnoses)
  let finding : Finding := ⟨c, subject, diagnoses, condition, all.stopped.isSome⟩
  finding.explanations.forM fun line => note (.explained line)
  modify fun a => { a with report := a.report.add finding }

theorem recordTagged_ensures {a₁ : Analyzer} (c : Category) (subject : String) (all : Enumeration)
    (condition : Option String) :
    Ensures (· = a₁) (recordTagged c subject all condition)
      (fun _ a' => ∃ diagnoses truncated b, Probed a₁.bench b ∧ a' = { a₁ with
        bench := b
        report := a₁.report.add ⟨c, subject, diagnoses, condition, truncated⟩ })
      fun _ a' => a' = a₁ := by
  unfold recordTagged
  refine .bind (.orFail (fun _ _ _ h => h) fun _ _ _ h => h) fun diagnoses => ?_
  refine .bind (explained_asks _) fun _ => .modify ?_
  rintro _ ⟨b, hb, rfl⟩
  exact ⟨diagnoses, _, b, hb, rfl⟩

theorem recordTagged_returns {a₁ : Analyzer} {subject : String} {all : Enumeration}
    {condition : Option String} {found : List (List String)}
    (hfound : explanations all.diagnoses = .ok found) :
    Ensures (· = a₁) (recordTagged c subject all condition)
      (fun _ a' => ∃ b, Probed a₁.bench b ∧ a' = { a₁ with
        bench := b
        report := a₁.report.add ⟨c, subject, found, condition, all.stopped.isSome⟩ })
      fun _ _ => False := by
  unfold recordTagged
  simp only [hfound, orFail, pure_bind]
  refine .bind (explained_asks _) fun _ => .modify ?_
  rintro _ ⟨b, hb, rfl⟩
  exact ⟨b, hb, rfl⟩

/-- Once the features are tagged, a finding is added whose explanations are repairs. -/
theorem recordTagged_adds {a₁ : Analyzer} {subject : String} {all : Enumeration}
    {condition : Option String} {skip : Relationship → Prop} {p : Selection → Prop}
    (ha : a₁.Sound m config w) (hall : AllMend m a₁.bench.store (Undisturbed m config w) skip p all)
    (hdenies : ∀ diagnoses truncated,
      Finding.Denies m ⟨c, subject, diagnoses, condition, truncated⟩ skip p)
    (hjust : Undisturbed m config w → ¬m.Admits skip p) :
    Ensures (· = a₁) (recordTagged c subject all condition)
      (fun _ a' => a'.Sound m config w ∧ ∃ diagnoses truncated b, Probed a₁.bench b ∧
        a' = { a₁ with
          bench := b
          report := a₁.report.add ⟨c, subject, diagnoses, condition, truncated⟩ })
      fun _ _ => False := by
  obtain ⟨found, hfound, htells⟩ := explanations_of_mend ha.standing hall
  apply (recordTagged_returns hfound).weaken
  rintro _ _ ⟨b, hb, rfl⟩
  have hsound : ({ a₁ with bench := b } : Analyzer).Sound m config w := Asks.sound ⟨b, hb, rfl⟩ ha
  refine ⟨{ hsound with repaired := ?_, sourced := ?_, justified := ?_, discerned := ?_ },
    found, _, b, hb, rfl⟩
  · refine List.forall_mem_append.mpr ⟨hsound.repaired, List.forall_mem_singleton.mpr ?_⟩
    exact fun rules hmem => (hdenies found _).repaired (htells.repairs rules hmem)
  · exact List.forall_mem_append.mpr ⟨hsound.sourced, List.forall_mem_singleton.mpr htells.sourced⟩
  · intro hquiet
    refine List.forall_mem_append.mpr ⟨hsound.justified hquiet, List.forall_mem_singleton.mpr ?_⟩
    have hnot := hjust hquiet
    refine ⟨skip, p, hdenies found _, hnot, (htells.eq_nil_iff hnot).trans ?_⟩
    exact (hall.eq_nil_iff hquiet).trans (or_iff_right hnot)
  · intro hquiet s hs
    refine List.forall_mem_append.mpr ⟨hsound.discerned hquiet s hs,
      List.forall_mem_singleton.mpr ?_⟩
    exact explanations_discerned hfound (ha.cf_eq hs ▸ hall.unlike hquiet)

/-- What is recorded is explained by repairs. Of dead features only those are recorded that are dead,
unless the engine failed. -/
theorem record_adds (c : Category) (subject : String) {all : Enumeration}
    (condition : Option String) {skip : Relationship → Prop} {p : Selection → Prop}
    (ha : a.Sound m config w) (hall : AllMend m a.bench.store (Undisturbed m config w) skip p all)
    (hdenies : ∀ diagnoses truncated,
      Finding.Denies m ⟨c, subject, diagnoses, condition, truncated⟩ skip p)
    (hjust : Undisturbed m config w → ¬m.Admits skip p)
    (hdead : c = .dead → a.bench.failures = [] → m.IsDead subject) :
    Ensures (· = a) (record c subject all condition)
      (fun _ a' => a'.Sound m config w ∧
        ∃ diagnoses truncated, Adds c [⟨c, subject, diagnoses, condition, truncated⟩] a a')
      fun _ _ => False := by
  unfold record
  cases htag : c.tag? with
  | none =>
    apply (recordTagged_adds ha hall hdenies hjust).weaken
    rintro _ _ ⟨hsound, diagnoses, truncated, b, hb, rfl⟩
    refine ⟨hsound, diagnoses, truncated, rfl, List.forall_mem_singleton.mpr rfl, rfl, hb.cf,
      hb.failures, hb.model.trans ?_⟩
    rw [List.foldl_cons, List.foldl_nil, tagged, htag]
  | some tag =>
    have htagged : ({ a with bench := { a.bench with
        model := a.bench.model.tag subject tag } } : Analyzer).Sound m config w :=
      { ha with
        standing := { ha.standing with alike := ha.standing.alike.trans (.tag _ subject tag) }
        marked := fun hfail => (ha.marked hfail).tag fun ht =>
          hdead (eq_dead_of_tag? (htag.trans (congrArg some ht))) hfail }
    intro s hs
    rw [hs]
    apply (recordTagged_adds htagged hall hdenies hjust).weaken ?_ _ rfl
    rintro _ _ ⟨hsound, diagnoses, truncated, b, hb, rfl⟩
    refine ⟨hsound, diagnoses, truncated, rfl, List.forall_mem_singleton.mpr rfl, rfl, hb.cf,
      hb.failures, hb.model.trans ?_⟩
    rw [List.foldl_cons, List.foldl_nil, tagged, htag]

end Analysis
end Anomaly
end ProductLine
