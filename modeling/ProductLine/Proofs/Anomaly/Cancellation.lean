import ProductLine.Proofs.Anomaly.Calls
import ProductLine.Proofs.Workbench.Cancellation

/-! # An analysis that is called off

An analysis under a token that lets some checks pass follows the free one, which has no token
(`run_shadows`). If the free one makes no more checks than pass, nothing is different; otherwise the
other one is called off, and what it has found and counted until then is what the free one had at
that check (`run_called_off`). -/

namespace ProductLine
namespace Anomaly

open Constraint Journal Outcome

namespace Analyzer

variable {a a' a'' : Analyzer}

/-- The work on the bench goes onward, and findings are added. -/
structure Onward (a a' : Analyzer) : Prop where
  bench : a.bench.Onward a'.bench
  found : a.report.found <+: a'.report.found

theorem Onward.trans (h : Onward a a') (h' : Onward a' a'') : Onward a a'' :=
  ⟨h.bench.trans h'.bench, h.found.trans h'.found⟩

theorem onward_bench {b : Workbench} (h : a.bench.Onward b) : Onward a { a with bench := b } :=
  ⟨h, List.prefix_rfl⟩

/-- An analysis under a token that lets a number of checks pass, or all of them. -/
def budget (most : Option Nat) : Budget Analyzer where
  most := most
  checks a := a.bench.calls
  limited a := { a with bench := (Workbench.budget most).limited a.bench }
  Onward := Onward
  refl a := ⟨.refl a.bench, List.prefix_rfl⟩
  trans := Onward.trans
  checks_le h := h.bench.calls_le

/-- There is no token, and the root is posted. -/
def Unlimited (a : Analyzer) : Prop := a.bench.Unlimited

end Analyzer

/-! ### Failures of the model -/

theorem treeNode_ne_cancelled (v : Value) : FeatureModel.treeNode v ≠ .error .cancelled := by
  unfold FeatureModel.treeNode
  split <;> exact fun h => nomatch h

theorem treeEdge_ne_cancelled (r : Relationship) (parent child : Value) :
    FeatureModel.treeEdge r parent child ≠ .error .cancelled := by
  unfold FeatureModel.treeEdge
  apply bind_ne_error (treeNode_ne_cancelled parent)
  intro p
  apply bind_ne_error (treeNode_ne_cancelled child)
  intro c h
  exact nomatch h

theorem edgesOf_ne_cancelled (r : Relationship) : FeatureModel.edgesOf r ≠ .error .cancelled := by
  unfold FeatureModel.edgesOf
  split
  · split
    · exact fun h => nomatch h
    · exact bind_ne_error (treeEdge_ne_cancelled _ _ _) fun _ h => nomatch h
  · exact mapM_ne_error fun child => treeEdge_ne_cancelled r r.left child

theorem order_ne_cancelled (m : FeatureModel) (o : FeatureOrder) : m.order o ≠ .error .cancelled := by
  have htree : m.tree ≠ .error .cancelled := by
    unfold FeatureModel.tree
    exact bind_ne_error (mapM_ne_error edgesOf_ne_cancelled) fun _ h => nomatch h
  unfold FeatureModel.order
  split
  · exact fun h => nomatch h
  · exact fun h => nomatch h
  · exact bind_ne_error htree fun _ h => nomatch h

theorem nonRoot_ne_cancelled (m : FeatureModel) (o : FeatureOrder) :
    m.nonRoot o ≠ .error .cancelled := by
  have hroot : m.root ≠ .error .cancelled := by
    unfold FeatureModel.root
    split <;> exact fun h => nomatch h
  unfold FeatureModel.nonRoot
  apply bind_ne_error hroot
  intro root
  exact bind_ne_error (order_ne_cancelled m o) fun _ h => nomatch h

theorem requiring_ne_cancelled (m : FeatureModel) (name : String) :
    m.requiring name ≠ .error .cancelled := by
  have hlookUp : ∀ r : Relationship, m.lookUp r.left ≠ .error .cancelled := by
    intro r
    unfold FeatureModel.lookUp
    split <;> exact fun h => nomatch h
  unfold FeatureModel.requiring
  exact bind_ne_error (mapM_ne_error hlookUp) fun _ h => nomatch h

theorem explain_ne_cancelled (cs : List Constraint) : explain cs ≠ .error .cancelled := by
  have hrule : ∀ c : Constraint, c.rule ≠ .error .cancelled := by
    intro c
    unfold Constraint.rule
    split
    · exact bind_ne_error (Work.rule_ne_cancelled _) fun _ h => nomatch h
    · exact fun h => nomatch h
  unfold explain
  apply foldlM_ne_error
  intro rules c
  apply bind_ne_error (hrule c)
  intro rule
  split <;> exact fun h => nomatch h

theorem explanations_ne_cancelled (diagnoses : List (List Constraint)) :
    Analysis.explanations diagnoses ≠ .error .cancelled := by
  unfold Analysis.explanations
  apply foldlM_ne_error
  intro found diagnosis
  exact bind_ne_error (explain_ne_cancelled diagnosis) fun _ h => nomatch h

namespace Analysis

open Analyzer

variable {most : Option Nat} {α : Type}

/-! ### Steps -/

theorem onBench_eq (work : Work α) (a : Analyzer) : onBench work a = match work a.bench with
    | .ok x b => .ok x { a with bench := b }
    | .error e b => .error e { a with bench := b } := rfl

theorem onBench_shadows {work : Work α}
    (h : (Workbench.budget most).Shadows Workbench.Unlimited work fun _ => Workbench.Unlimited) :
    (budget most).Shadows Unlimited (onBench work) fun _ => Unlimited := by
  intro a ha
  obtain ⟨hfree, hfollows⟩ := h a.bench ha
  have hquick : ((budget most).limited a).bench = (Workbench.budget most).limited a.bench := rfl
  rw [onBench_eq, onBench_eq, hquick]
  cases hr : work a.bench with
  | ok x b =>
    rw [hr] at hfree hfollows
    refine ⟨⟨hfree.1, onward_bench hfree.2⟩, fun hopen => ?_⟩
    rcases hfollows hopen with ⟨hb, hsame⟩ | ⟨t, hoff, ht, hcut⟩
    · rw [hsame]
      exact .inl ⟨hb, rfl⟩
    · rw [hoff]
      exact .inr ⟨_, rfl, onward_bench ht, hcut.most, hcut.more, hcut.onward, List.prefix_rfl⟩
  | error e b =>
    rw [hr] at hfree hfollows
    refine ⟨⟨hfree.1, onward_bench hfree.2⟩, fun hopen => ?_⟩
    rcases hfollows hopen with ⟨hb, hsame⟩ | ⟨t, hoff, ht, hcut⟩
    · rw [hsame]
      exact .inl ⟨hb, rfl⟩
    · rw [hoff]
      exact .inr ⟨_, rfl, onward_bench ht, hcut.most, hcut.more, hcut.onward, List.prefix_rfl⟩

theorem note_shadows {n : Note} (h : n.outcome? = none) :
    (budget most).Shadows Unlimited (note n) fun _ => Unlimited :=
  onBench_shadows (Work.note_shadows h fun _ hb => ⟨hb.free, hb.root⟩)

/-- A step that touches nothing but the report, to which it adds at most, or the tags. -/
theorem modify_shadows {f : Analyzer → Analyzer}
    (hlimited : ∀ a, f ((budget most).limited a) = (budget most).limited (f a))
    (hbench : ∀ a, ∃ m, (f a).bench = { a.bench with model := m })
    (hfound : ∀ a, a.report.found <+: (f a).report.found) :
    (budget most).Shadows Unlimited (modify f : Analysis PUnit) fun _ => Unlimited := by
  refine .modify hlimited ?_ ?_ ?_
  · intro a
    obtain ⟨m, hm⟩ := hbench a
    show (f a).bench.calls = a.bench.calls
    rw [hm]
  · intro a _
    obtain ⟨m, hm⟩ := hbench a
    refine ⟨?_, hfound a⟩
    rw [hm]
    exact .refl a.bench
  · intro a ha
    obtain ⟨m, hm⟩ := hbench a
    unfold Analyzer.Unlimited
    rw [hm]
    exact ⟨ha.free, ha.root⟩

theorem model_shadows : (budget most).Shadows Unlimited model fun _ => Unlimited :=
  .get_bind (fun _ _ => rfl) fun _ ha => .pure fun _ hb => hb ▸ ha

theorem orFail_shadows {r : Except Failure α} (h : r ≠ .error .cancelled) :
    (budget most).Shadows Unlimited (orFail r) fun _ => Unlimited := .orFail (fun _ _ _ => id) h

theorem nonRoot_shadows : (budget most).Shadows Unlimited nonRoot fun _ => Unlimited := by
  unfold nonRoot
  apply Budget.Shadows.bind model_shadows
  intro m
  exact .get_bind (fun _ _ => rfl) fun a ha =>
    (orFail_shadows (nonRoot_ne_cancelled m _)).inState ha

theorem infeasible_shadows (values : List (String × Bool)) :
    (budget most).Shadows Unlimited (infeasible values) fun _ => Unlimited :=
  onBench_shadows (probe_infeasible_shadows values)

theorem diagnosePerturbation_shadows (values : List (String × Bool)) :
    (budget most).Shadows Unlimited (diagnosePerturbation values) fun _ => Unlimited := by
  unfold diagnosePerturbation
  exact .get_bind (fun _ _ => rfl) fun a ha =>
    (onBench_shadows (probe_diagnose_shadows a.limits a.config.recentFirst values)).inState ha

theorem record_shadows (c : Category) (subject : String) (all : Diagnosis.Enumeration)
    (condition : Option String) :
    (budget most).Shadows Unlimited (record c subject all condition) fun _ => Unlimited := by
  have hrest : (budget most).Shadows Unlimited (recordTagged c subject all condition)
      fun _ => Unlimited := by
    apply Budget.Shadows.bind (orFail_shadows (explanations_ne_cancelled _))
    intro diagnoses
    apply Budget.Shadows.bind (.forM fun line _ => note_shadows rfl)
    intro _
    exact modify_shadows (fun _ => rfl) (fun a => ⟨a.bench.model, rfl⟩)
      fun a => List.prefix_append _ _
  unfold record
  dsimp only
  split
  · next tag _ =>
    have htag : (budget most).Shadows Unlimited (onBench (modify fun b =>
        { b with model := b.model.tag subject tag })) fun _ => Unlimited := onBench_shadows
      (.modify (fun _ => rfl) (fun _ => rfl) (fun b _ => .refl b) fun b hb => ⟨hb.free, hb.root⟩)
    apply Budget.Shadows.bind htag
    intro _
    exact hrest
  · exact hrest

theorem report_shadows (c : Category) (f : Feature) (values : List (String × Bool)) :
    (budget most).Shadows Unlimited (report c f values) fun _ => Unlimited := by
  unfold report
  apply Budget.Shadows.bind (note_shadows rfl)
  intro _
  apply Budget.Shadows.bind (diagnosePerturbation_shadows values)
  intro all
  exact record_shadows _ _ _ _

/-! ### Probes -/

theorem checkConsistency_shadows :
    (budget most).Shadows Unlimited checkConsistency fun _ => Unlimited := by
  unfold checkConsistency
  apply Budget.Shadows.bind (note_shadows rfl)
  intro _
  refine .get_bind (fun _ _ => rfl) fun a ha => ?_
  apply Budget.Shadows.bind ((onBench_shadows (probe_void_shadows a)).inState ha)
  intro found
  cases found with
  | none => exact .pure fun _ => id
  | some all =>
    apply Budget.Shadows.bind (record_shadows _ _ _ _)
    intro _
    exact .pure fun _ => id

theorem checkValue_shadows (c : Category) (value : Bool) (f : Feature) :
    (budget most).Shadows Unlimited (checkValue c value f) fun _ => Unlimited := by
  unfold checkValue
  apply Budget.Shadows.bind (infeasible_shadows _)
  intro found
  split
  · exact report_shadows _ _ _
  · exact .pure fun _ => id

theorem noted_shadows {n : Note} {probe : List Feature → Analysis Unit} (hn : n.outcome? = none)
    (h : ∀ fs, (budget most).Shadows Unlimited (probe fs) fun _ => Unlimited) :
    (budget most).Shadows Unlimited (note n >>= fun _ => nonRoot >>= probe) fun _ => Unlimited := by
  apply Budget.Shadows.bind (note_shadows hn)
  intro _
  exact .bind nonRoot_shadows h

theorem checkDead_shadows : (budget most).Shadows Unlimited checkDead fun _ => Unlimited := by
  unfold checkDead
  refine noted_shadows rfl fun fs => ?_
  apply Budget.Shadows.bind (.forM fun f _ => checkValue_shadows _ _ _)
  intro _
  exact modify_shadows (fun _ => rfl) (fun a => ⟨a.bench.model, rfl⟩) fun _ => List.prefix_rfl

theorem livingOptional?_shadows (f : Feature) :
    (budget most).Shadows Unlimited (livingOptional? f) fun _ => Unlimited := by
  have hdead : (budget most).Shadows Unlimited (isDead f) fun _ => Unlimited := by
    unfold isDead
    refine .get_bind (fun _ _ => rfl) fun a ha => ?_
    split
    · exact .pure fun _ hb => hb ▸ ha
    · exact (infeasible_shadows _).inState ha
  unfold livingOptional?
  apply Budget.Shadows.bind model_shadows
  intro m
  split
  · apply Budget.Shadows.bind hdead
    intro dead
    exact .pure fun _ => id
  · exact .pure fun _ => id

theorem recordPartner_shadows (all : Diagnosis.Enumeration) (reported : List String)
    (f partner : String) :
    (budget most).Shadows Unlimited (recordPartner all reported f partner) fun _ => Unlimited := by
  unfold recordPartner
  split
  · exact .pure fun _ => id
  · apply Budget.Shadows.bind (record_shadows _ _ _ _)
    intro _
    exact .pure fun _ => id

theorem checkPair_shadows (reported : List String) (pair : String × String) :
    (budget most).Shadows Unlimited (checkPair reported pair) fun _ => Unlimited := by
  unfold checkPair
  split
  · exact .pure fun _ => id
  · apply Budget.Shadows.bind (infeasible_shadows _)
    intro found
    split
    · apply Budget.Shadows.bind (note_shadows rfl)
      intro _
      apply Budget.Shadows.bind (diagnosePerturbation_shadows _)
      intro all
      apply Budget.Shadows.bind (recordPartner_shadows _ _ _ _)
      intro reported'
      exact recordPartner_shadows _ _ _ _
    · exact .pure fun _ => id

theorem checkConditionallyDead_shadows :
    (budget most).Shadows Unlimited checkConditionallyDead fun _ => Unlimited := by
  have hliving : (budget most).Shadows Unlimited livingOptional fun _ => Unlimited := by
    unfold livingOptional
    apply Budget.Shadows.bind nonRoot_shadows
    intro fs
    apply Budget.Shadows.bind (.mapM fun f _ => livingOptional?_shadows f)
    intro found
    exact .pure fun _ => id
  unfold checkConditionallyDead
  apply Budget.Shadows.bind (note_shadows rfl)
  intro _
  apply Budget.Shadows.bind hliving
  intro names
  apply Budget.Shadows.bind (.foldlM (I := fun _ => Unlimited) fun reported pair _ =>
    checkPair_shadows reported pair)
  intro _
  exact .pure fun _ => id

theorem checkFullMandatory_shadows :
    (budget most).Shadows Unlimited checkFullMandatory fun _ => Unlimited :=
  noted_shadows rfl fun _ => .forM fun _ _ => checkValue_shadows _ _ _

theorem checkRequired_shadows (f : Feature) :
    (budget most).Shadows Unlimited (checkRequired f) fun _ => Unlimited := by
  unfold checkRequired
  apply Budget.Shadows.bind model_shadows
  intro m
  split
  · apply Budget.Shadows.bind (orFail_shadows (requiring_ne_cancelled m _))
    intro requiring
    split
    · exact .pure fun _ => id
    · apply Budget.Shadows.bind (infeasible_shadows _)
      intro found
      split
      · exact report_shadows _ _ _
      · exact .pure fun _ => id
  · exact .pure fun _ => id

theorem checkFalseOptional_shadows :
    (budget most).Shadows Unlimited checkFalseOptional fun _ => Unlimited :=
  noted_shadows rfl fun _ => .forM fun _ _ => checkRequired_shadows _

theorem checkImplied_shadows (r : Relationship) :
    (budget most).Shadows Unlimited (checkImplied r) fun _ => Unlimited := by
  unfold checkImplied
  refine .get_bind (fun _ _ => rfl) fun a ha => ?_
  apply Budget.Shadows.bind ((onBench_shadows (retracted_implied_shadows a r)).inState ha)
  intro found
  split
  · exact .pure fun _ => id
  · exact record_shadows _ _ _ _

theorem checkRedundancies_shadows :
    (budget most).Shadows Unlimited checkRedundancies fun _ => Unlimited := by
  unfold checkRedundancies
  apply Budget.Shadows.bind (note_shadows rfl)
  intro _
  apply Budget.Shadows.bind model_shadows
  intro m
  exact .forM fun r _ => checkImplied_shadows r

/-! ### The whole analysis -/

theorem ifAsked_shadows (asked : Config → Bool) {probe : Analysis Unit}
    (h : (budget most).Shadows Unlimited probe fun _ => Unlimited) :
    (budget most).Shadows Unlimited (ifAsked asked probe) fun _ => Unlimited := by
  unfold ifAsked
  refine .get_bind (fun _ _ => rfl) fun a ha => ?_
  split
  · exact h.inState ha
  · exact .pure fun _ hb => hb ▸ ha

theorem probes_shadows : (budget most).Shadows Unlimited probes fun _ => Unlimited := by
  unfold probes
  apply Budget.Shadows.bind checkConsistency_shadows
  intro consistent
  have hset : (budget most).Shadows Unlimited
      (modify fun a => { a with report := { a.report with consistent := consistent } } :
        Analysis PUnit) fun _ => Unlimited :=
    modify_shadows (fun _ => rfl) (fun a => ⟨a.bench.model, rfl⟩) fun _ => List.prefix_rfl
  apply Budget.Shadows.bind hset
  intro _
  split
  · apply Budget.Shadows.bind (ifAsked_shadows _ checkDead_shadows)
    intro _
    apply Budget.Shadows.bind (ifAsked_shadows _ checkConditionallyDead_shadows)
    intro _
    apply Budget.Shadows.bind (ifAsked_shadows _ checkFullMandatory_shadows)
    intro _
    apply Budget.Shadows.bind (ifAsked_shadows _ checkFalseOptional_shadows)
    intro _
    exact ifAsked_shadows _ checkRedundancies_shadows
  · exact note_shadows rfl

/-- The first analysis adds findings to none. -/
theorem run_shadows :
    (budget most).Shadows (fun a => Unlimited a ∧ a.report.found = []) run fun _ => Unlimited := by
  have hreset : (budget most).Shadows (fun a => Unlimited a ∧ a.report.found = [])
      (modify fun a => { a with
        bench := { a.bench with model := a.bench.model.clearTags }
        report := Report.new a.bench.model.name
        deadChecked := false } : Analysis Unit) fun _ => Unlimited := by
    refine .modify (fun _ => rfl) (fun _ => rfl) ?_ fun a ha => ⟨ha.1.free, ha.1.root⟩
    intro a ha
    refine ⟨.refl a.bench, ?_⟩
    rw [ha.2]
    exact List.nil_prefix
  have hstock : (budget most).Shadows Unlimited (always takeStock probes) fun _ => Unlimited :=
    .always probes_shadows (fun _ => rfl) (fun _ => rfl) (fun h => ⟨h.bench, h.found⟩)
      (fun h => ⟨h.bench, h.found⟩) fun _ _ => id
  unfold run
  apply Budget.Shadows.bind hreset
  intro _
  apply Budget.Shadows.bind model_shadows
  intro m
  apply Budget.Shadows.bind (note_shadows rfl)
  intro _
  apply Budget.Shadows.bind hstock
  intro _
  refine .get_bind (fun _ _ => rfl) fun a ha => ?_
  apply Budget.Shadows.bind ((note_shadows rfl).inState ha)
  intro _
  exact .get_bind (fun _ _ => rfl) fun b hb => .pure fun _ hc => hc ▸ hb

/-! ### The start -/

variable {m : FeatureModel} {config : Config} {w : World} {a a₀ : Analyzer}

theorem start_eq (a : Analyzer) : start a = match Work.build a.config.order a.bench with
    | .ok _ b => .ok () { a with
      bench := b
      report := Report.new b.model.name
      deadChecked := false }
    | .error e b => .error e { a with bench := b } := by
  have hopen : start a = (do
      onBench (Work.build a.config.order)
      let m ← model
      modify fun a => { a with report := Report.new m.name, deadChecked := false } :
        Analysis Unit) a := bind_eq_of_ok rfl
  have hbench := onBench_eq (Work.build a.config.order) a
  rw [hopen]
  cases hr : Work.build a.config.order a.bench with
  | ok x b =>
    rw [hr] at hbench
    rw [bind_eq_of_ok hbench]
    rfl
  | error e b =>
    rw [hr] at hbench
    exact bind_eq_of_error hbench

theorem start_under (token : Option CancelToken) :
    start (Analyzer.new m config (w.under token)) =
      endIn (fun a => { a with bench := a.bench.under token })
        (start (Analyzer.new m config w)) := by
  have hbench : (Analyzer.new m config (w.under token)).bench =
      (Analyzer.new m config w).bench.under token := rfl
  rw [start_eq, start_eq, hbench]
  show (match Work.build config.order ((Analyzer.new m config w).bench.under token) with
    | .ok _ b => _
    | .error e b => _) = endIn _ (match Work.build config.order (Analyzer.new m config w).bench with
    | .ok _ b => _
    | .error e b => _)
  rw [Work.build_under]
  cases Work.build config.order (Analyzer.new m config w).bench with
  | ok x b => rfl
  | error e b => rfl

/-- An analyzer that was started has found and counted nothing. -/
structure Fresh (a : Analyzer) : Prop where
  found : a.report.found = []
  calls : a.bench.calls = 0
  failures : a.bench.failures = []

theorem start_fresh (h : start (Analyzer.new m config w) = .ok () a) : Fresh a := by
  rw [start_eq, Work.build_eq] at h
  cases hr : (Store.attempt (Analyzer.new m config w).bench.model
      (Analyzer.new m config w).config.order).outcome with
  | ok s =>
    rw [hr] at h
    cases h
    exact ⟨rfl, rfl, rfl⟩
  | error e =>
    rw [hr] at h
    cases h

theorem start_unlimited (h : start (Analyzer.new m config (w.under none)) = .ok () a) :
    Unlimited a := by
  obtain ⟨hsound, -⟩ := start_sound h
  obtain ⟨f, c, -, hroot, -, -⟩ := hsound.standing.faithful.root
  have hac : a.bench.store.ac = a.bench.store.cf ++ [c] := by
    unfold Store.ac
    rw [hroot]
    rfl
  have hnd := hsound.standing.faithful.ids_nodup
  rw [hac, ids_append, List.nodup_append] at hnd
  refine ⟨?_, c, hroot, fun hi => hnd.2.2 _ hi _ List.mem_cons_self rfl, ?_⟩
  · have hsame : start (Analyzer.new m config (w.under none)) =
        endIn (fun a => { a with bench := a.bench.under none })
          (start (Analyzer.new m config (w.under none))) :=
      @start_under m config (w.under none) none
    rw [h] at hsame
    exact congrArg (fun r => (endState r).bench.world.token) hsame
  · rw [hsound.standing.posted, hac]
    exact id_mem_ids (List.mem_append_right _ (List.mem_singleton_self c))

/-! ### The first analysis -/

/-- What came of the checks of the first analysis, one after the other, as the journal tells. -/
def checks (a₀ : Analyzer) : List (Option Oracle.SolverFailure) :=
  outcomes ((after run a₀).bench.world.notes.toList.drop a₀.bench.world.notes.toList.length)

/-- The report tells the calls and failures of the engine. -/
structure Stocked (a : Analyzer) : Prop where
  calls : a.report.calls = a.bench.calls
  failures : a.report.failures = a.bench.failures

theorem run_stocked (a : Analyzer) : Stocked (after run a) := by
  have hprobes : Ensures (fun _ => True) (always takeStock probes) (fun _ => Stocked)
      fun _ => Stocked := by
    have hany : Ensures (fun _ => True) probes (fun _ _ => True) fun _ _ => True := by
      intro a _
      split <;> trivial
    exact hany.always (fun _ _ _ => ⟨rfl, rfl⟩) fun _ _ _ => ⟨rfl, rfl⟩
  have hbegun : Ensures (· = a)
      (modify fun a => { a with
        bench := { a.bench with model := a.bench.model.clearTags }
        report := Report.new a.bench.model.name
        deadChecked := false } : Analysis Unit) (fun _ _ => True) fun _ => Stocked :=
    Ensures.modify fun _ _ => trivial
  have hmodel : Ensures (fun _ => True) model (fun _ _ => True) fun _ => Stocked :=
    fun _ _ => trivial
  have hstarted : ∀ n, Ensures (fun _ => True) (note n) (fun _ _ => True) fun _ => Stocked :=
    fun _ _ _ => trivial
  have hfinished : ∀ n, Ensures Stocked (note n) (fun _ => Stocked) fun _ => Stocked :=
    fun _ _ h => ⟨h.calls, h.failures⟩
  apply after_of_ensures
  unfold run
  apply Ensures.bind hbegun
  intro _
  apply Ensures.bind hmodel
  intro _
  apply Ensures.bind (hstarted _)
  intro _
  apply Ensures.bind hprobes
  intro _
  apply Ensures.get_bind
  intro b hb
  apply Ensures.bind ((hfinished _).inState hb)
  intro _
  apply Ensures.get_bind
  intro c hc
  exact Ensures.pureState hc

theorem after_eq_endState (step : Analysis α) (a : Analyzer) :
    after step a = endState (step a) := by
  unfold after endState
  cases step a <;> rfl

theorem checks_eq {noted : List Note}
    (hnotes : (after run a₀).bench.world.notes.toList = a₀.bench.world.notes.toList ++ noted) :
    checks a₀ = outcomes noted := by
  unfold checks
  rw [hnotes, List.drop_left]

theorem Fresh.goes (h : Fresh a₀) (ha : Unlimited a₀) :
    (budget none).Goes (fun _ => Unlimited) a₀ (run a₀) := (run_shadows a₀ ⟨ha, h.found⟩).1

theorem Fresh.counts (h : Fresh a₀) (ha : Unlimited a₀) :
    (after run a₀).bench.calls = (checks a₀).length ∧
      (after run a₀).bench.failures = (checks a₀).reduceOption := by
  obtain ⟨noted, hnotes, hcalls, hfailures⟩ := (h.goes ha).onward.bench
  rw [← after_eq_endState] at hnotes hcalls hfailures
  rw [checks_eq hnotes, hcalls, hfailures, h.calls, h.failures, Nat.zero_add, List.nil_append]
  exact ⟨rfl, rfl⟩

theorem Fresh.follows (h : Fresh a₀) (ha : Unlimited a₀) (most : Option Nat) :
    (budget most).Follows a₀ (run a₀)
      (run { a₀ with bench := a₀.bench.under (some ⟨false, 0, most⟩) }) := by
  have hquick : (budget most).limited a₀ =
      { a₀ with bench := a₀.bench.under (some ⟨false, a₀.bench.calls, most⟩) } := rfl
  have hopen : (budget most).Open a₀ := by
    intro n _
    show a₀.bench.calls ≤ n
    rw [h.calls]
    exact Nat.zero_le n
  have hfollows := (run_shadows a₀ ⟨ha, h.found⟩).2 hopen
  rwa [hquick, h.calls] at hfollows

theorem Fresh.idle (h : Fresh a₀) (ha : Unlimited a₀) :
    after run { a₀ with bench := a₀.bench.under (some .idle) } =
      (budget none).limited (after run a₀) := by
  rw [after_eq_endState, after_eq_endState]
  rcases h.follows ha none with ⟨-, hsame⟩ | ⟨t, -, -, hcut⟩
  · have hidle : CancelToken.idle = ⟨false, 0, none⟩ := rfl
    rw [hidle, hsame]
    cases run a₀ <;> rfl
  · exact absurd hcut.most fun hnone => nomatch hnone

/-- What has been done when an analysis was called off is what the free one had done then. -/
theorem Fresh.cut (h : Fresh a₀) {n : Nat} {t : Analyzer} (ht : Onward a₀ t)
    (hcut : (budget (some n)).Refused t (after run a₀)) :
    t.bench.calls = n ∧ t.bench.failures = ((checks a₀).take n).reduceOption := by
  have hn : t.bench.calls = n := (Option.some.inj hcut.most).symm
  obtain ⟨noted, hnotes, hcalls, hfailures⟩ := ht.bench
  obtain ⟨more, hmore, -, -⟩ := hcut.onward.bench
  rw [hnotes, List.append_assoc] at hmore
  rw [h.calls, Nat.zero_add] at hcalls
  refine ⟨hn, ?_⟩
  rw [checks_eq hmore, outcomes_append, ← hn, hcalls, List.take_left, hfailures, h.failures,
    List.nil_append]

/-- **An analysis that is called off leaves a prefix.** Under a token that lets `n` checks pass, the
first analysis is called off exactly if the one without a token makes more checks. What it has found
then is what the other one found first, and the calls and failures that it tells are those of the
checks that passed; if it is not called off, it tells the same. The checks that are made are those
that a token lets pass that is never cancelled. -/
theorem run_called_off (n : Nat)
    (hstart : start (Analyzer.new m config (w.under none)) = .ok () a₀) :
    ∃ aᵢ aₙ, start (Analyzer.new m config (w.under (some .idle))) = .ok () aᵢ ∧
      start (Analyzer.new m config (w.under (some (.after n)))) = .ok () aₙ ∧
      (after run aᵢ).bench.world.token = some ⟨false, (checks a₀).length, none⟩ ∧
      (after run a₀).report.calls = (checks a₀).length ∧
      (after run a₀).report.failures = (checks a₀).reduceOption ∧
      ((∃ a, run aₙ = .error .cancelled a) ↔ n < (checks a₀).length) ∧
      (∀ a, run aₙ = .error .cancelled a →
        a.report.found <+: (after run a₀).report.found ∧ a.report.calls = n ∧
        a.report.failures = ((checks a₀).take n).reduceOption) ∧
      ((checks a₀).length ≤ n → (after run aₙ).report = (after run a₀).report) := by
  have hfresh := start_fresh hstart
  have ha := start_unlimited hstart
  have hquick : ∀ token, start (Analyzer.new m config (w.under (some token))) =
      .ok () { a₀ with bench := a₀.bench.under (some token) } := by
    intro token
    have hunder := @start_under m config (w.under none) (some token)
    rw [hstart] at hunder
    exact hunder
  have hstocked := run_stocked a₀
  obtain ⟨hcalls, hfailures⟩ := hfresh.counts ha
  refine ⟨_, _, hquick .idle, hquick (.after n), ?_, hstocked.calls.trans hcalls,
    hstocked.failures.trans hfailures, ?_⟩
  · rw [hfresh.idle ha, ← hcalls]
    rfl
  have hlate := run_stocked { a₀ with bench := a₀.bench.under (some (.after n)) }
  have hfollows := hfresh.follows ha (some n)
  have hafter : CancelToken.after n = ⟨false, 0, some n⟩ := rfl
  rw [hafter] at hlate ⊢
  unfold after at hlate
  -- either the token lets all checks pass, or the run is cut at the check that it does not let pass
  rcases hfollows with ⟨hopen, hsame⟩ | ⟨t, hoff, ht, hcut⟩
  · rw [← after_eq_endState] at hopen
    have hle : (checks a₀).length ≤ n := hcalls ▸ hopen n rfl
    have hnot : ∀ a, run { a₀ with bench := a₀.bench.under (some ⟨false, 0, some n⟩) } ≠
        .error .cancelled a := fun a => by
      rw [hsame]
      exact (hfresh.goes ha).endIn_ne_cancelled _ a
    refine ⟨iff_of_false (fun ⟨a, hoff⟩ => hnot a hoff) (Nat.not_lt_of_le hle),
      fun a hoff => absurd hoff (hnot a), fun _ => ?_⟩
    rw [after_eq_endState, after_eq_endState, hsame]
    cases run a₀ <;> rfl
  · rw [← after_eq_endState] at hcut
    rw [hoff] at hlate ⊢
    obtain ⟨hn, htold⟩ := hfresh.cut ht hcut
    have hmore : n < (checks a₀).length := by
      have hlt : t.bench.calls < (after run a₀).bench.calls := hcut.more
      rwa [hn, hcalls] at hlt
    refine ⟨iff_of_true ⟨t, rfl⟩ hmore, ?_, fun hle => absurd hmore (Nat.not_lt_of_le hle)⟩
    rintro _ ⟨⟩
    exact ⟨hcut.onward.found, hlate.calls.trans hn, hlate.failures.trans htold⟩

/-- Called off after nine checks, of which the eighth ran out of time, the analysis tells of nine calls
and one failure. -/
theorem run_called_off_blocked : ∃ a₀ aₙ a,
    start (Analyzer.new blocked .standard (limited.under none)) = .ok () a₀ ∧
      start (Analyzer.new blocked .standard (limited.under (some (.after 9)))) = .ok () aₙ ∧
      run aₙ = .error .cancelled a ∧ a.report.calls = 9 ∧ a.report.failures.length = 1 ∧
      a.report.found <+: (after run a₀).report.found := by
  have hstart : start (Analyzer.new blocked .standard (limited.under none)) =
      .ok () (after start (Analyzer.new blocked .standard (limited.under none))) := rfl
  obtain ⟨hmore, hfailed⟩ : 9 < (checks (after start
        (Analyzer.new blocked .standard (limited.under none)))).length ∧
      ((checks (after start
        (Analyzer.new blocked .standard (limited.under none)))).take 9).reduceOption.length = 1 := by
    decide +kernel
  obtain ⟨-, aₙ, -, hquick, -, -, -, hiff, hcut, -⟩ := run_called_off 9 hstart
  obtain ⟨a, hoff⟩ := hiff.mpr hmore
  obtain ⟨hfound, hcalls, hfailures⟩ := hcut a hoff
  exact ⟨_, aₙ, a, hstart, hquick, hoff, hcalls, hfailures ▸ hfailed, hfound⟩

end Analysis
end Anomaly
end ProductLine
