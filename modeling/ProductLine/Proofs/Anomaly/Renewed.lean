import ProductLine.Proofs.Anomaly.Independent
import ProductLine.Proofs.Anomaly.Used

/-! # An analysis does not hang on what was before

A used analyzer is as ready as a fresh one (`Ready.of_atBaseline`), though it has given out other
numbers, and undisturbed analyses that stand there find the same (`run_alike`). The tags that were put
on before are taken off first, and so those in the end are the same, too (`run_forgets`). -/

namespace ProductLine
namespace Anomaly

open Workbench Analysis

variable {m n : FeatureModel} {config own : Config} {s : Store} {w w₀ : World} {a a₀ : Analyzer}

namespace Setup

variable {g : Setup}

theorem Ready.of_atBaseline (ha : a.AtBaseline g.model g.config g.store)
    (hfaults : a.bench.world.faults = []) (hidle : a.bench.world.Idle)
    (hpace : g.config.limits.timed = true → g.world.Paces a.bench.world) : g.Ready g.config a := by
  obtain ⟨k, hk, hstore⟩ := ha.store
  exact ⟨⟨ha.alike, ⟨g.store.vars, k, fun _ => Iff.rfl, hk, hstore⟩, ha.settings, hfaults, hidle,
    hpace⟩, ha.config_eq, .refl _, ha.limits_eq⟩

/-- Analyses with one configuration go in lockstep from the beginning to the end. -/
theorem run_alike : Agree (fun a a' => (g.Ready own a ∧ g.Ready own a') ∧ g.Clocked a a') run run
    fun r r' _ _ => r'.consistent = r.consistent ∧ r'.found = r.found := by
  have happend : ∀ (c : Category) (ds ds' fs : List Finding), (∀ f ∈ fs, f.category = c) →
      ds' = ds → ds' ++ fs = ds ++ fs := fun _ _ _ fs _ hds => congrArg (· ++ fs) hds
  have hvoid : g.Compared (fun ds ds' => ds' = ds) own own checkConsistency checkConsistency :=
    compared_of_lockstep (happend .void) fun _ _ => checkConsistency_lockstep rfl
  refine run_related hvoid (fun c => compared_ifAsked (fun _ _ => ?_) ?_ ?_) rfl
  · exact compared_of_lockstep (happend c) fun a a' =>
      (search_parallel g c _ rfl rfl).weaken fun _ _ _ _ hb => ⟨rfl, hb⟩
  · exact fun hown hnot => absurd (hown.symm.trans hnot) Bool.noConfusion
  · exact fun hnot hown => absurd (hown.symm.trans hnot) Bool.noConfusion

end Setup

namespace Analysis

/-! ### Beginning anew -/

theorem run_renewed (a : Analyzer) : run a.renewed = run a := by
  have hcleared : a.renewed.renewed = a.renewed := by
    have halike := FeatureModel.Alike.clearTags a.bench.model
    unfold Analyzer.renewed
    rw [FeatureModel.Alike.iff_clearTags_eq.mp halike, halike.name]
  have hopen : ∀ b : Analyzer, run b = (do
      note (.started (← model).name)
      always takeStock probes
      let report := (← get).report
      note (.finished report.elapsed report.calls)
      return (← get).report : Analysis Report) b.renewed := fun _ => rfl
  rw [hopen, hcleared, ← hopen]

/-- Nothing that was found or that failed before matters to an analyzer that begins anew, as if it had
come from a world in which the engine may fail. -/
theorem renewed_sound (hs : Store.ofModel m config.order = .ok s) (ha : a.AtBaseline m config s) :
    a.renewed.Sound m config { a.bench.world with faults := [(0, .timeout)] } where
  standing := { ha.standing hs with alike := ha.alike.trans (.clearTags _) }
  config_eq := ha.config_eq
  limits_eq := ha.limits_eq
  repaired := List.forall_mem_nil _
  sourced := List.forall_mem_nil _
  justified := fun _ => List.forall_mem_nil _
  discerned := fun _ _ _ => List.forall_mem_nil _
  unfailing := fun hfaultless => absurd hfaultless.1 (List.cons_ne_nil _ _)
  idle := id
  time := .unread rfl rfl rfl
  made := ⟨s, ha.store.imp fun _ hstore => ⟨hs, hstore.2⟩⟩
  marked := fun _ => .cleared m _ _

theorem run_returns_of_atBaseline (hs : Store.ofModel m config.order = .ok s)
    (ha : a.AtBaseline m config s) (hidle : a.bench.world.Idle) (hlimits : config.limits.Numeric)
    (hclock : ¬a.bench.world.Overran (after run a).bench.world) : ∃ r b, run a = .ok r b := by
  obtain ⟨visited, hvisit⟩ := Store.nonRoot_of_attempt hs
  have hstill : ¬World.Overran { a.bench.world with faults := [(0, .timeout)] }
      (after run a.renewed).bench.world := by
    unfold after at hclock ⊢
    rw [run_renewed]
    exact fun h => hclock (h.earlier (.unread rfl rfl rfl))
  obtain ⟨r, b, hr, -⟩ :=
    returns_of_ensures hlimits (run_keeps (renewed_sound hs ha) hvisit) hstill hidle
  exact ⟨r, b, run_renewed a ▸ hr⟩

/-! ### Used and fresh analyzers -/

/-- **An analysis does not hang on what was before.** However an analyzer was used, with calls that
failed or were called off, with faults of the engine and with tags put on by hand: in a world without
faults and cancellation it finds what a fresh analyzer of the model finds, in the same order and with the
same explanations, agrees on whether there is a product, and leaves the same tags. If time is bounded,
their clocks have to go alike. Both analyses return, unless the clock overruns. -/
theorem run_forgets (hstart : start (Analyzer.new m config w₀) = .ok () a₀) (ha : Used a₀ a)
    (hfaults : a.bench.world.faults = []) (hidle : a.bench.world.Idle)
    (hn : n.clearTags = m.clearTags) (hfaults' : w.faults = []) (hidle' : w.Idle)
    (hclocks : config.limits.timed = true → w.InStep a.bench.world) :
    ∃ a₁, start (Analyzer.new n config w) = .ok () a₁ ∧
      (config.limits.Numeric → ¬a.bench.world.Overran (after run a).bench.world →
        ∃ r b, run a = .ok r b) ∧
      (config.limits.Numeric → ¬w.Overran (after run a₁).bench.world → ∃ r b, run a₁ = .ok r b) ∧
      ∀ r b r' b', run a = .ok r b → run a₁ = .ok r' b' →
        r.consistent = r'.consistent ∧ r.found = r'.found ∧ b.bench.model = b'.bench.model := by
  obtain ⟨s, hs, hbaseline₀, -⟩ := start_atBaseline hstart
  have hbaseline := ha.atBaseline hs hbaseline₀
  have halike : m.Alike n := FeatureModel.Alike.iff_clearTags_eq.mpr hn
  obtain ⟨a₁, hstart'⟩ := start_of_made (Store.ofModel_alike halike hs) w
  obtain ⟨s', hs', hbaseline', hfaultsEq, htoken, hreading⟩ := start_atBaseline hstart'
  obtain rfl : s = s' := Except.ok.inj ((Store.ofModel_alike halike hs).symm.trans hs')
  have hfresh : a₁.AtBaseline m config s := { hbaseline' with alike := halike.trans hbaseline'.alike }
  refine ⟨a₁, hstart', run_returns_of_atBaseline hs hbaseline hidle, run_returns hidle' hstart', ?_⟩
  intro r b r' b' hr hr'
  obtain ⟨visited, hvisit⟩ := Store.nonRoot_of_attempt hs
  let g : Setup := ⟨m, config, w, s, visited, hs, hvisit⟩
  have hready : g.Ready config a := Setup.Ready.of_atBaseline hbaseline hfaults hidle fun htimed =>
    (hclocks htimed).paces
  have hready' : g.Ready config a₁ := Setup.Ready.of_atBaseline hfresh (hfaultsEq.trans hfaults')
    (fun t ht => hidle' t (htoken.symm.trans ht))
    fun _ => ((World.InStep.refl w).congr rfl hreading).paces
  have hclocked : g.Clocked a₁ a := fun htimed => (hclocks htimed).congr hreading rfl
  obtain ⟨hconsistent, hfound⟩ :=
    Setup.run_alike a₁ a ⟨⟨hready', hready⟩, hclocked⟩ r' b' r b hr' hr
  have htags := ((run_atBaseline hs hbaseline).of_eq_ok rfl hr).2
  have htags' := ((run_atBaseline hs hfresh).of_eq_ok rfl hr').2
  exact ⟨hconsistent, hfound, by rw [htags, htags', hfound]⟩

/-- An analyzer that was asked for an analysis, whose feature `A` was tagged as dead by hand, that looked
for conditionally dead features then, and that is in a calm world now. -/
def meddled (a₀ : Analyzer) : Analyzer :=
  let run := after run a₀
  let marked := { run with bench := { run.bench with model := run.bench.model.tag "A" .dead } }
  let probed := after (ofProbe .conditionallyDead) marked
  { probed with bench := { probed.bench with world := .calm } }

theorem used_meddled (a₀ : Analyzer) : Used a₀ (meddled a₀) :=
  ((Used.start.run.retagged _ (FeatureModel.Alike.iff_clearTags_eq.mp (.tag _ "A" .dead))).probe
    .conditionallyDead).surrounded .calm

/-- The first analysis is called off after the engine has failed once, and `B` as well as `A` is tagged as
dead before the second one. Nothing of this is left in the end. -/
theorem run_forgets_meddled : ∃ a₀ a₁ r b r' b',
    start (Analyzer.new blocked .standard limited) = .ok () a₀ ∧
      (∃ c, run a₀ = .error .cancelled c ∧ c.bench.failures.length = 1) ∧
      (meddled a₀).bench.model.tags = [("Root", []), ("A", ["dead"]), ("B", ["dead"])] ∧
      start (Analyzer.new blocked .standard .calm) = .ok () a₁ ∧ run (meddled a₀) = .ok r b ∧
      run a₁ = .ok r' b' ∧ r.subjects .dead = ["B"] ∧ r'.found = r.found ∧
      b.bench.model.tags = [("Root", []), ("A", ["full mandatory"]), ("B", ["dead"])] ∧
      b'.bench.model = b.bench.model := by
  have hstart : start (Analyzer.new blocked .standard limited) =
      .ok () (after start (Analyzer.new blocked .standard limited)) := rfl
  obtain ⟨a₁, hstart', hreturns, hreturns', hsame⟩ := run_forgets hstart (used_meddled _) rfl
    idle_calm rfl rfl idle_calm fun _ => .refl _
  obtain ⟨r, b, hr⟩ := hreturns numeric_standard (World.not_overran_of_still rfl rfl)
  obtain ⟨r', b', hr'⟩ := hreturns' numeric_standard (World.not_overran_of_still rfl rfl)
  obtain ⟨-, hfound, htags⟩ := hsame r b r' b' hr hr'
  have hcancelled : ∃ c, run (after start (Analyzer.new blocked .standard limited)) =
      .error .cancelled c ∧ c.bench.failures.length = 1 := by
    have hoff : (match run (after start (Analyzer.new blocked .standard limited)) with
        | .error .cancelled c => decide (c.bench.failures.length = 1)
        | _ => false) = true := by decide +kernel
    split at hoff
    · next c hcancelled => exact ⟨c, hcancelled, of_decide_eq_true hoff⟩
    · cases hoff
  have hreport : (match run (meddled (after start (Analyzer.new blocked .standard limited))) with
      | .ok r b => decide (r.subjects .dead = ["B"] ∧
        b.bench.model.tags = [("Root", []), ("A", ["full mandatory"]), ("B", ["dead"])])
      | .error _ _ => false) = true := by decide +kernel
  rw [hr] at hreport
  obtain ⟨hdead, hleft⟩ := of_decide_eq_true hreport
  exact ⟨_, a₁, r, b, r', b', hstart, hcancelled, by decide +kernel, hstart', hr, hr', hdead,
    hfound.symm, hleft, htags.symm⟩

end Analysis
end Anomaly
end ProductLine
