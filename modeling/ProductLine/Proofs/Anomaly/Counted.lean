import ProductLine.Proofs.Anomaly.Preservation
import ProductLine.Proofs.Anomaly.Cancellation
import ProductLine.Proofs.Workbench.Booked

/-! # What the statistics of a report count

The calls of the engine are counted and its failures listed on the workbench, which outlives an
analysis. Every probe and the whole analysis go on with these books, under whatever token and however
they end (`ofProbe_booked`, `run_booked`), so they tell of everything since the analyzer was started
(`Reached.booked`). The report of an analysis takes over the books as they are at its end. It tells of
the earlier calls as well, and its statistics are those of the analysis itself exactly if there were
none (`run_takes_over`). -/

namespace ProductLine
namespace Anomaly

open Constraint Journal

/-- The books of the analyzer's workbench are those of another workbench, gone on with. -/
def Analyzer.Booked (b : Workbench) (a : Analyzer) : Prop := b.Booked a.bench

/-- Between two moments of an analyzer the engine was called so often, and that came of the calls, one
after the other, as the world around counts them and as the journal tells. -/
structure Between (a a' : Analyzer) (called : List (Option Oracle.SolverFailure)) : Prop where
  counted : a'.bench.world.calls = a.bench.world.calls + called.length
  told : ∃ noted, a'.bench.world.notes.toList = a.bench.world.notes.toList ++ noted ∧
    outcomes noted = called

namespace Analysis

open Analyzer

variable {α : Type} {b : Workbench}

/-! ### Steps -/

theorem note_booked {n : Note} (h : n.outcome? = none) : Keeps (Booked b) (note n) :=
  note_keeps (Work.note_booked h)

theorem nonRoot_booked : Keeps (Booked b) nonRoot := nonRoot_keeps

theorem infeasible_booked (values : List (String × Bool)) : Keeps (Booked b) (infeasible values) :=
  infeasible_keeps Work.booked_insensitive values

theorem diagnosePerturbation_booked (values : List (String × Bool)) :
    Keeps (Booked b) (diagnosePerturbation values) := by
  unfold diagnosePerturbation
  refine Keeps.get_bind fun a => onBench_keeps ?_
  exact (Work.perturbation_keeps Work.booked_insensitive values).bind fun cs =>
    Work.probe_keeps Work.booked_insensitive cs fun _ =>
      Keeps.get_bind fun c => Work.diagnose_booked _ _ _

theorem record_booked (c : Category) (subject : String) (all : Diagnosis.Enumeration)
    (condition : Option String) : Keeps (Booked b) (record c subject all condition) :=
  record_keeps Work.booked_insensitive (fun _ => Work.note_booked rfl) c subject all condition

theorem report_booked (c : Category) (f : Feature) (values : List (String × Bool)) :
    Keeps (Booked b) (report c f values) :=
  (note_booked rfl).bind fun _ =>
    (diagnosePerturbation_booked values).bind fun all => record_booked c f.name all none

/-! ### Probes -/

theorem diagnoseVoid_booked (a : Analyzer) (posted : List Constraint) :
    Keeps (Workbench.Booked b) (diagnoseVoid a posted) := by
  unfold diagnoseVoid
  refine (Work.isConsistent_keeps Work.booked_insensitive posted).bind fun consistent => ?_
  cases consistent with
  | true => exact (Work.note_booked rfl).bind fun _ => .pure none
  | false =>
    exact (Work.note_booked rfl).bind fun _ => Keeps.get_bind fun c =>
      (Work.diagnose_booked _ _ _).bind fun all => .pure (some all)

theorem checkConsistency_booked : Keeps (Booked b) checkConsistency := by
  unfold checkConsistency
  refine (note_booked rfl).bind fun _ => Keeps.get_bind fun a => ?_
  have hprobed : Keeps (Workbench.Booked b) (Work.probe [] (diagnoseVoid a)) :=
    Work.probe_keeps Work.booked_insensitive [] (diagnoseVoid_booked a)
  refine (onBench_keeps hprobed).bind fun found => ?_
  cases found with
  | none => exact .pure true
  | some all => exact (record_booked _ _ all none).bind fun _ => .pure false

theorem checkValue_booked (c : Category) (value : Bool) (f : Feature) :
    Keeps (Booked b) (checkValue c value f) := by
  refine (infeasible_booked _).bind fun found => ?_
  cases found with
  | true => exact report_booked c f _
  | false => exact .pure ()

theorem checkDead_booked : Keeps (Booked b) checkDead :=
  (note_booked rfl).bind fun _ => nonRoot_booked.bind fun _ =>
    (Keeps.forM (checkValue_booked .dead true)).bind fun _ => Ensures.modify fun _ ha => ha

theorem recordPartner_booked (all : Diagnosis.Enumeration) (reported : List String)
    (f partner : String) : Keeps (Booked b) (recordPartner all reported f partner) :=
  recordPartner_keeps Work.booked_insensitive (fun _ => Work.note_booked rfl) all reported f partner

theorem checkPair_booked (reported : List String) (pair : String × String) :
    Keeps (Booked b) (checkPair reported pair) := by
  unfold checkPair
  split
  · exact .pure reported
  · refine (infeasible_booked _).bind fun found => ?_
    cases found with
    | true =>
      refine (note_booked rfl).bind fun _ => (diagnosePerturbation_booked _).bind fun all => ?_
      exact (recordPartner_booked all _ _ _).bind fun _ => recordPartner_booked all _ _ _
    | false => exact .pure reported

theorem checkConditionallyDead_booked : Keeps (Booked b) checkConditionallyDead :=
  (note_booked rfl).bind fun _ => (livingOptional_keeps Work.booked_insensitive).bind fun _ =>
    (Keeps.foldlM checkPair_booked).discard

theorem checkFullMandatory_booked : Keeps (Booked b) checkFullMandatory :=
  (note_booked rfl).bind fun _ => nonRoot_booked.bind fun _ =>
    Keeps.forM (checkValue_booked .fullMandatory false)

theorem checkRequired_booked (f : Feature) : Keeps (Booked b) (checkRequired f) := by
  refine model_keeps.bind fun n => ?_
  split
  · refine (Keeps.orFail _).bind fun requiring => ?_
    split
    · exact .pure ()
    · refine (infeasible_booked _).bind fun found => ?_
      cases found with
      | true => exact report_booked .falseOptional f _
      | false => exact .pure ()
  · exact .pure ()

theorem checkFalseOptional_booked : Keeps (Booked b) checkFalseOptional :=
  (note_booked rfl).bind fun _ => nonRoot_booked.bind fun _ => Keeps.forM checkRequired_booked

theorem diagnoseImplied_booked (a : Analyzer) (r : Relationship) :
    Keeps (Workbench.Booked b) (diagnoseImplied a r) := by
  refine Keeps.get_bind fun c => (Work.isConsistent_keeps Work.booked_insensitive _).bind fun consistent => ?_
  cases consistent with
  | true => exact .pure none
  | false =>
    exact (Keeps.orFail _).bind fun rule => (Work.note_booked rfl).bind fun _ =>
      Keeps.get_bind fun d => (Work.diagnose_booked _ _ _).bind fun all => .pure (some (rule, all))

theorem checkImplied_booked (r : Relationship) : Keeps (Booked b) (checkImplied r) := by
  refine Keeps.get_bind fun a => ?_
  have hretracted : Keeps (Workbench.Booked b) (Work.retracted r fun _ => diagnoseImplied a r) :=
    Work.retracted_keeps Work.booked_insensitive r fun _ => diagnoseImplied_booked a r
  refine (onBench_keeps hretracted).bind fun found => ?_
  cases found with
  | none => exact .pure ()
  | some found => exact record_booked .redundant found.1 found.2 none

theorem checkRedundancies_booked : Keeps (Booked b) checkRedundancies :=
  (note_booked rfl).bind fun _ => model_keeps.bind fun _ => Keeps.forM checkImplied_booked

theorem ofProbe_booked (p : Probe) : Keeps (Booked b) (ofProbe p) := by
  cases p with
  | consistency => exact checkConsistency_booked.discard
  | dead => exact checkDead_booked
  | conditionallyDead => exact checkConditionallyDead_booked
  | fullMandatory => exact checkFullMandatory_booked
  | falseOptional => exact checkFalseOptional_booked
  | redundant => exact checkRedundancies_booked

/-! ### The whole analysis -/

theorem ifAsked_booked (asked : Config → Bool) {probe : Analysis Unit} (h : Keeps (Booked b) probe) :
    Keeps (Booked b) (ifAsked asked probe) := by
  refine Keeps.get_bind fun a => ?_
  split
  · exact h
  · exact .pure ()

theorem probes_booked : Keeps (Booked b) probes := by
  have hset : ∀ consistent, Keeps (Booked b) (modify fun a => { a with
      report := { a.report with consistent := consistent } } : Analysis PUnit) :=
    fun consistent => Ensures.modify fun _ ha => ha
  refine checkConsistency_booked.bind fun consistent => (hset consistent).bind fun _ => ?_
  cases consistent with
  | true =>
    refine (ifAsked_booked _ checkDead_booked).bind fun _ => ?_
    refine (ifAsked_booked _ checkConditionallyDead_booked).bind fun _ => ?_
    refine (ifAsked_booked _ checkFullMandatory_booked).bind fun _ => ?_
    refine (ifAsked_booked _ checkFalseOptional_booked).bind fun _ => ?_
    exact ifAsked_booked _ checkRedundancies_booked
  | false => exact note_booked rfl

/-- An analysis goes on with the books that it finds; it does not open new ones. -/
theorem run_booked : Keeps (Booked b) run := by
  have hrenewed : Keeps (Booked b) (modify fun a => { a with
      bench := { a.bench with model := a.bench.model.clearTags }
      report := Report.new a.bench.model.name
      deadChecked := false } : Analysis PUnit) := Ensures.modify fun _ ha => ha.unbooked rfl
  have hstocked : Keeps (Booked b) (always takeStock probes) :=
    Ensures.always probes_booked (fun _ _ ha => ha) fun _ _ ha => ha
  refine hrenewed.bind fun _ => model_keeps.bind fun n => (note_booked rfl).bind fun _ => ?_
  refine hstocked.bind fun _ => Keeps.get_bind fun a => (note_booked rfl).bind fun _ => ?_
  exact Keeps.get_bind fun c => .pure c.report

theorem after_booked {step : Analysis α} {a : Analyzer} (h : ∀ b, Keeps (Booked b) step) :
    a.bench.Booked (after step a).bench := by
  rw [after_eq_endState]
  exact (h a.bench).endState (Workbench.Booked.refl a.bench)

end Analysis

variable {m : FeatureModel} {config : Config} {w : World} {a a' a₀ : Analyzer}

open Analysis in
theorem Reached.booked (h : Reached a₀ a) : a₀.bench.Booked a.bench := by
  induction h with
  | start => exact .refl _
  | run _ ih => exact ih.trans (after_booked fun _ => run_booked)
  | probe _ p ih => exact ih.trans (after_booked fun _ => ofProbe_booked p)

theorem between_of_booked (h : a.bench.Booked a'.bench) :
    ∃ called, Between a a' called ∧ a'.bench.calls = a.bench.calls + called.length ∧
      a'.bench.failures = a.bench.failures ++ called.reduceOption := by
  obtain ⟨noted, hnotes, hcalls, hfailures⟩ := h.onward
  have hmade := h.made
  exact ⟨_, ⟨by omega, noted, hnotes, rfl⟩, hcalls, hfailures⟩

namespace Analysis

/-- **A report tells of all calls since the analyzer was started.** After any calls of the analyzer,
under any token, with any faults and however the analysis ends, its report counts the calls of the engine
that it made and those `before` it, and lists the failures of both. So the statistics are those of the
analysis itself exactly if there were no calls before it, or no failures. -/
theorem run_takes_over (hstart : start (Analyzer.new m config w) = .ok () a₀) (ha : Reached a₀ a) :
    ∃ before during, Between a₀ a before ∧ Between a (after run a) during ∧
      (after run a).report.calls = before.length + during.length ∧
      (after run a).report.failures = before.reduceOption ++ during.reduceOption ∧
      ((after run a).report.calls = during.length ↔ before = []) ∧
      ((after run a).report.failures = during.reduceOption ↔ before.reduceOption = []) := by
  have hfresh := start_fresh hstart
  have hstocked := run_stocked a
  obtain ⟨before, hbefore, hcalls, hfailures⟩ := between_of_booked ha.booked
  obtain ⟨during, hduring, hcalls', hfailures'⟩ :=
    between_of_booked (after_booked (a := a) fun _ => run_booked)
  -- nothing is booked when an analyzer is started, so all that is booked came before or during
  rw [hfresh.calls, Nat.zero_add] at hcalls
  rw [hfresh.failures, List.nil_append] at hfailures
  have htold : (after run a).report.calls = before.length + during.length := by
    rw [hstocked.calls, hcalls', hcalls]
  have hlisted : (after run a).report.failures = before.reduceOption ++ during.reduceOption := by
    rw [hstocked.failures, hfailures', hfailures]
  refine ⟨before, during, hbefore, hduring, htold, hlisted, ?_, ?_⟩
  · rw [htold, Nat.add_eq_right, List.length_eq_zero_iff]
  · rw [hlisted, List.append_left_eq_self]

/-- Called off once, the analysis is called off at once when it is tried again. It asks the engine
nothing then, and tells of the twelve calls and the failure of the first attempt. -/
theorem run_takes_over_limited : ∃ a₀ a,
    start (Analyzer.new blocked .standard limited) = .ok () a₀ ∧ a = after run a₀ ∧
      Between a (after run a) [] ∧ (after run a).report.calls = 12 ∧
      (after run a).report.failures.length = 1 := by
  have hstart : start (Analyzer.new blocked .standard limited) =
      .ok () (after start (Analyzer.new blocked .standard limited)) := rfl
  generalize ha₀ : after start (Analyzer.new blocked .standard limited) = a₀ at hstart
  obtain ⟨hcalls, hfailures, hstill⟩ : (after run (after run a₀)).report.calls = 12 ∧
      (after run (after run a₀)).report.failures.length = 1 ∧
      (after run (after run a₀)).bench.world.calls = (after run a₀).bench.world.calls := by
    rw [← ha₀]
    decide +kernel
  obtain ⟨before, during, -, hduring, -⟩ := run_takes_over hstart (.run .start)
  have hnone : during.length = 0 := by
    have hcounted := hduring.counted
    omega
  rw [List.length_eq_zero_iff] at hnone
  exact ⟨a₀, _, hstart, rfl, hnone ▸ hduring, hcalls, hfailures⟩

/-- A world in which the engine runs out of time at the eighth call. -/
def lapsed : World := { World.calm with faults := [(8, .timeout)] }

/-- Of two analyses, one after the other, the second one tells of the calls of both and of a failure that
only the first one had. -/
theorem run_not_own : ∃ a₀ a during,
    start (Analyzer.new blocked .standard lapsed) = .ok () a₀ ∧ a = after run a₀ ∧
      Between a (after run a) during ∧ (after run a).report.calls ≠ during.length ∧
      (after run a).report.failures ≠ during.reduceOption := by
  have hstart : start (Analyzer.new blocked .standard lapsed) =
      .ok () (after start (Analyzer.new blocked .standard lapsed)) := rfl
  generalize ha₀ : after start (Analyzer.new blocked .standard lapsed) = a₀ at hstart
  obtain ⟨hmore, hfailed⟩ : (after run (after run a₀)).bench.world.calls <
      (after run a₀).bench.world.calls + (after run (after run a₀)).report.calls ∧
      (after run a₀).bench.failures.length = 1 := by
    rw [← ha₀]
    decide +kernel
  obtain ⟨during, hduring, -, hfailures⟩ :=
    between_of_booked (after_booked (a := after run a₀) fun _ => run_booked)
  refine ⟨a₀, _, during, hstart, rfl, hduring, ?_, ?_⟩
  · have hcounted := hduring.counted
    omega
  · rw [(run_stocked _).failures, hfailures]
    intro hown
    have hnone := List.append_left_eq_self.mp hown
    rw [hnone] at hfailed
    exact absurd hfailed Nat.zero_ne_one

end Analysis
end Anomaly
end ProductLine
