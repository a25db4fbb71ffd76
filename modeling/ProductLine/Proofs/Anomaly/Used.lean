import ProductLine.Proofs.Anomaly.Labels

/-! # What use leaves of an analyzer

An analysis begins without tags and findings. Wherever it ends, it has left the tags of its findings and
no others, and if dead features were looked for, no conditionally dead one is among them (`run_tallied`).
So a used analyzer is at its baseline, and an analysis that returns leaves exactly the tags of its findings
(`Used.atBaseline`, `run_atBaseline`). -/

namespace ProductLine
namespace Anomaly

open Workbench

variable {m : FeatureModel} {config : Config} {s : Store} {a a' a₀ : Analyzer}
  {ls ls' : List (Feature.Anomaly × String)} {names : List String}

namespace Analysis

/-! ### Labels of an analysis -/

/-- What has been found since the beginning labels features as it may. If dead features are looked for,
none of them is said to be conditionally dead. -/
structure Tallied (m : FeatureModel) (config : Config) (s : Store)
    (ls : List (Feature.Anomaly × String)) (a a₀ : Analyzer) : Prop
    extends a.Grown m config s ls a₀ where
  separate : config.checkDead = true → ∀ name, (.dead, name) ∈ labels a.report.found →
    (.conditionallyDead, name) ∉ labels a.report.found

theorem mem_labels_of_grown (h : a.Grown m config s ls a₀) {l : Feature.Anomaly × String}
    (hl : l ∈ labels a.report.found) : l ∈ labels a₀.report.found ∨ l ∈ ls := by
  obtain ⟨fs, hfound, -, hlabels⟩ := h.found
  rw [hfound, labels_append, List.mem_append] at hl
  exact hl.imp_right fun hmem => hlabels.subset hmem

/-- The tags are those that there were at the beginning, and the labels of what has been found since. -/
theorem hasTag_iff_of_grown (h : a.Grown m config s ls a₀) (ha₀ : a₀.AtBaseline m config s)
    (hnone : a₀.report.found = []) {name : String} (hname : name ∈ m.names) {t : Feature.Anomaly} :
    a.bench.model.hasTag name t = true ↔
      a₀.bench.model.hasTag name t = true ∨ (t, name) ∈ labels a.report.found := by
  obtain ⟨fs, hfound, hmodel, -⟩ := h.found
  rw [hnone, List.nil_append] at hfound
  rw [ha₀.alike.names] at hname
  rw [hfound, hmodel, hasTag_foldl_tagged_iff, mem_labels]
  simp only [hname, and_true]

namespace Tallied

theorem mono (h : Tallied m config s ls a a₀) (hls : ls.Subperm ls') :
    Tallied m config s ls' a a₀ := ⟨h.toGrown.mono hls, h.separate⟩

theorem asks (h : Tallied m config s ls a a₀) (ha : Asks a a') : Tallied m config s ls a' a₀ := by
  refine ⟨h.toGrown.asks ha, ?_⟩
  obtain ⟨b, -, rfl⟩ := ha
  exact h.separate

theorem since (h : Tallied m config s ls a' a) (ha₀ : a₀.AtBaseline m config s) (ha : Asks a₀ a) :
    Tallied m config s ls a' a₀ := ⟨(ha₀.grown.asks ha).trans h.toGrown, h.separate⟩

theorem grown (h : Tallied m config s ls a a₀) (ha' : a'.Grown m config s ls' a)
    (hnew : ∀ name, (.dead, name) ∉ ls' ∧ (.conditionallyDead, name) ∉ ls') :
    Tallied m config s (ls ++ ls') a' a₀ := by
  refine ⟨h.toGrown.trans ha', fun hasked name hdead hcond => h.separate hasked name ?_ ?_⟩
  · exact (mem_labels_of_grown ha' hdead).resolve_right (hnew name).1
  · exact (mem_labels_of_grown ha' hcond).resolve_right (hnew name).2

end Tallied

section begun

variable (ha₀ : a₀.AtBaseline m config s) (hnone : a₀.report.found = [])
include hnone

theorem not_mem_of_grown_dead (ha : a.Grown m config s (withTag .dead names) a₀)
    (name : String) : (.conditionallyDead, name) ∉ labels a.report.found := by
  intro hcond
  rcases mem_labels_of_grown ha hcond with hbefore | hnew
  · rw [hnone] at hbefore
    cases hbefore
  · cases (mem_withTag.mp hnew).1

/-- Until conditionally dead features are looked for, there are none. -/
theorem tallied_dead (ha : a.Grown m config s (withTag .dead names) a₀) :
    Tallied m config s (withTag .dead names) a a₀ :=
  ⟨ha, fun _ name _ => not_mem_of_grown_dead hnone ha name⟩

include ha₀

/-- Of the features that have been found dead, none is found conditionally dead after that. -/
theorem tallied_conditionallyDead (hnames : names ⊆ m.names)
    (ha : a.Grown m config s (withTag .dead names) a₀)
    (hchecked : config.checkDead = true → a.deadChecked = true)
    (ha' : a'.Grown m config s (withTag .conditionallyDead (a.spared names)) a) :
    Tallied m config s (withTag .dead names ++ withTag .conditionallyDead names) a' a₀ := by
  refine ⟨(ha.trans ha').mono ?_, fun hasked name hdead hcond => ?_⟩
  · exact (List.subperm_append_left _).mpr (withTag_subperm _ (Analyzer.spared_sublist a names).subperm)
  · have hspared := (mem_labels_of_grown ha' hcond).resolve_left (not_mem_of_grown_dead hnone ha name)
    obtain ⟨hname, halive⟩ := Analyzer.mem_spared.mp (mem_withTag.mp hspared).2
    have hbefore : (.dead, name) ∈ labels a.report.found :=
      (mem_labels_of_grown ha' hdead).resolve_right fun hnew => nomatch (mem_withTag.mp hnew).1
    have htag := (hasTag_iff_of_grown ha ha₀ hnone (hnames hname)).mpr (.inr hbefore)
    rw [halive (hchecked hasked)] at htag
    cases htag

end begun

theorem ifAsked_grows {asked : Config → Bool} {probe : Analysis Unit}
    (h : Grows m config s ls probe fun _ => True) :
    Grows m config s ls (ifAsked asked probe) fun _ => True := fun a ha =>
  ifAsked_ensures ha.config_eq (fun _ => h a ha) fun _ => ⟨trivial, ha.grown.mono List.nil_subperm⟩

/-! ### The whole analysis -/

section made

variable (hs : Store.ofModel m config.order = .ok s)
include hs

section visited

variable (hvisit : Visits m config names)
include hvisit

theorem askedDead_grows (ha : a.AtBaseline m config s) :
    Ensures (· = a) (ifAsked (·.checkDead) checkDead)
      (fun _ b => (config.checkDead = true → b.deadChecked = true) ∧
        b.Grown m config s (withTag .dead names) a)
      fun _ b => b.Grown m config s (withTag .dead names) a :=
  ifAsked_ensures ha.config_eq
    (fun _ => (checkDead_grows hs hvisit ha).weaken fun _ _ h => ⟨fun _ => h.1, h.2⟩)
    fun hnot => ⟨fun hasked => absurd (hasked.symm.trans hnot) Bool.noConfusion,
      ha.grown.mono List.nil_subperm⟩

theorem askedConditionallyDead_tallied (ha₀ : a₀.AtBaseline m config s) (hnone : a₀.report.found = [])
    (ha : a.Grown m config s (withTag .dead names) a₀)
    (hchecked : config.checkDead = true → a.deadChecked = true) :
    Ensures (· = a) (ifAsked (·.checkConditionallyDead) checkConditionallyDead)
      (fun _ b => Tallied m config s
        (withTag .dead names ++ withTag .conditionallyDead names) b a₀)
      fun _ b => Tallied m config s
        (withTag .dead names ++ withTag .conditionallyDead names) b a₀ := by
  have hspared : ∀ {b : Analyzer}, b.Grown m config s (withTag .conditionallyDead (a.spared names)) a →
      Tallied m config s (withTag .dead names ++ withTag .conditionallyDead names) b a₀ := fun h =>
    tallied_conditionallyDead ha₀ hnone hvisit.subset ha hchecked h
  refine ifAsked_ensures ha.config_eq (fun _ => ?_) fun _ => ?_
  · exact (checkConditionallyDead_spares hs hvisit ha.toAtBaseline).mono (fun _ _ => hspared)
      fun _ _ => hspared
  · exact (tallied_dead hnone ha).mono (List.sublist_append_left _ _).subperm

theorem others_grows : Grows m config s (withTag .fullMandatory names ++ withTag .falseOptional names)
    (ifAsked (·.checkFullMandatory) checkFullMandatory >>= fun _ =>
      ifAsked (·.checkFalseOptional) checkFalseOptional >>= fun _ =>
        ifAsked (·.checkRedundancy) checkRedundancies) fun _ => True := by
  refine (ifAsked_grows (checkFullMandatory_grows hs hvisit)).bind fun _ _ => ?_
  rw [← List.append_nil (withTag .falseOptional names)]
  refine (ifAsked_grows (checkFalseOptional_grows hs hvisit)).bind fun _ _ => ?_
  exact ifAsked_grows (checkRedundancies_grows hs)

/-- The dead features are looked for first, and the conditionally dead ones right after that. -/
theorem probes_tallied (ha : a.AtBaseline m config s) (hnone : a.report.found = []) :
    Ensures (· = a) probes (fun _ b => Tallied m config s (allLabels names) b a)
      fun _ b => Tallied m config s (allLabels names) b a := by
  have hall := allLabels_eq names
  have hdeadEnd : ∀ {b : Analyzer}, b.Grown m config s (withTag .dead names) a →
      Tallied m config s (allLabels names) b a := fun h =>
    (tallied_dead hnone h).mono (List.sublist_append_left _ _).subperm
  have hvoidEnd : ∀ {b : Analyzer}, b.Grown m config s [] a →
      Tallied m config s (allLabels names) b a := fun h => hdeadEnd (h.mono List.nil_subperm)
  unfold probes
  refine .bindState ((checkConsistency_grows hs a ha).weakenFail fun _ _ => hvoidEnd) ?_
  rintro answer a₁ ⟨-, h₁⟩
  have hset : Ensures (· = a₁)
      (modify fun a => { a with report := { a.report with consistent := answer } } : Analysis Unit)
      (fun _ b => b.Grown m config s [] a) fun _ b => Tallied m config s (allLabels names) b a :=
    .modify fun _ heq => { heq ▸ h₁ with }
  refine .bindState hset fun _ a₂ h₂ => ?_
  cases answer with
  | false => exact (note_asks _).weaken fun _ _ h => hvoidEnd (h₂.asks h)
  | true =>
    refine .bindState ((askedDead_grows hs hvisit h₂.toAtBaseline).weakenFail
      fun _ _ h => hdeadEnd (h₂.trans h)) ?_
    rintro _ a₃ ⟨hchecked, h₃⟩
    have hsearch := askedConditionallyDead_tallied hs hvisit ha hnone (h₂.trans h₃) hchecked
    refine .bindState (hsearch.weakenFail fun _ _ h => h.mono ?_) fun _ a₄ h₄ => ?_
    · rw [hall]
      exact (List.sublist_append_left _ _).subperm
    · have hend : ∀ {b : Analyzer}, b.Grown m config s
          (withTag .fullMandatory names ++ withTag .falseOptional names) a₄ →
          Tallied m config s (allLabels names) b a := fun h => by
        rw [hall]
        exact h₄.grown h fun name => by simp [mem_withTag]
      exact (others_grows hs hvisit a₄ h₄.toAtBaseline).mono (fun _ _ h => hend h.2) fun _ _ => hend

/-- Wherever an analysis ends, it has begun without tags and findings, and has left the tags of what it
has found since. -/
theorem run_tallied (ha : a.AtBaseline m config s) :
    Ensures (· = a) run
      (fun r b => r = b.report ∧ Tallied m config s (allLabels names) b a.renewed)
      fun _ b => Tallied m config s (allLabels names) b a.renewed := by
  have hnew : a.renewed.AtBaseline m config s := { ha with alike := ha.alike.trans (.clearTags _) }
  have hbegun : Ensures (· = a) (modify Analyzer.renewed : Analysis Unit)
      (fun _ b => b = a.renewed) fun _ b => Tallied m config s (allLabels names) b a.renewed := by
    rintro _ rfl
    rfl
  unfold run
  refine .bind hbegun fun _ => .bind model_returns fun n => .assuming fun _ => ?_
  refine .bindState (note_asks _) fun _ a₁ h₁ => ?_
  have hnone : a₁.report.found = [] := by
    obtain ⟨b, -, rfl⟩ := h₁
    rfl
  have htaken : Ensures (· = a₁) (always takeStock probes)
      (fun _ b => Tallied m config s (allLabels names) b a.renewed)
      fun _ b => Tallied m config s (allLabels names) b a.renewed :=
    (probes_tallied hs hvisit (hnew.asks h₁) hnone).always
      (fun _ _ hb => { hb.since hnew h₁ with }) fun _ _ hb => { hb.since hnew h₁ with }
  refine .bind htaken fun _ => .get_bind fun b hb => ?_
  refine .bindState (note_asks _) fun _ c hc => .get_bind ?_
  rintro _ rfl
  exact .pureState ⟨rfl, hb.asks hc⟩

end visited

/-- The whole analysis begins without tags and findings, so in the end there are no tags but those of what
it has found. -/
theorem run_atBaseline (ha : a.AtBaseline m config s) :
    Ensures (· = a) run (fun r b => b.AtBaseline m config s ∧
      b.bench.model = r.found.foldl tagged m.clearTags) fun _ b => b.AtBaseline m config s := by
  obtain ⟨visited, hvisit⟩ := Store.nonRoot_of_attempt hs
  refine (run_tallied hs ⟨visited, hvisit, rfl⟩ ha).mono ?_ fun _ _ hb => hb.toAtBaseline
  rintro _ b ⟨rfl, hb⟩
  obtain ⟨fs, hfound, hmodel, -⟩ := hb.found
  refine ⟨hb.toAtBaseline, ?_⟩
  rw [hfound, hmodel, ← FeatureModel.Alike.iff_clearTags_eq.mp ha.alike]
  rfl

end made

end Analysis

/-- **Whatever an analyzer was used for, it stands on the store that was made.** This holds after any
number of calls, however each of them ended, with any tags put on by hand, and in any world. -/
theorem Used.atBaseline (h : Used a₀ a) (hs : Store.ofModel m config.order = .ok s)
    (ha₀ : a₀.AtBaseline m config s) : a.AtBaseline m config s := by
  induction h with
  | start => exact ha₀
  | run _ ih => exact Analysis.after_of_ensures ((Analysis.run_atBaseline hs ih).weaken fun _ _ hb => hb.1)
  | probe _ p ih =>
    obtain ⟨ls, hprobe⟩ := Analysis.ofProbe_grows hs p
    exact Analysis.after_of_ensures ((hprobe _ ih).mono (fun _ _ hb => hb.2.toAtBaseline)
      fun _ _ hb => hb.toAtBaseline)
  | retagged _ n hn ih =>
    exact { ih with alike := ih.alike.trans (FeatureModel.Alike.iff_clearTags_eq.mpr hn) }
  | surrounded _ w ih => exact { ih with }

end Anomaly
end ProductLine
