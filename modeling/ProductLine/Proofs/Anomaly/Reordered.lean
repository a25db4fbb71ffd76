import ProductLine.Proofs.Anomaly.Comparison

/-! # The visiting order only reorders a report

Two undisturbed analyses of one model may visit its features in different orders. What a probe of one
feature finds is told by the name of the feature, whatever was done before (`Uniform.rightUnique`), so
probes of one feature after the other find the same in another order. The loop over the pairs reports
those features that clash with some other one, in whatever order the pairs come (`perm_clashing`). So
the findings of whole analyses are `Rearranged` (`run_reordered`). -/

namespace ProductLine
namespace Anomaly

open Constraint Diagnosis Outcome Workbench Analysis

/-- What becomes of the findings of a category if the features are visited in another order. Those about
the model or its constraints stay as they are, and those about single features change places. The
conditionally dead features are the same ones, each found once, but their partners may be others. -/
def Rearranged (c : Category) (fs fs' : List Finding) : Prop :=
  match c with
  | .void | .redundant => fs' = fs
  | .dead | .fullMandatory | .falseOptional => fs'.Perm fs
  | .conditionallyDead => (fs'.map (·.subject)).Perm (fs.map (·.subject))

theorem rearranged_refl (c : Category) (fs : List Finding) : Rearranged c fs fs := by
  cases c with
  | void | redundant => rfl
  | dead | fullMandatory | falseOptional | conditionallyDead => exact .refl _

theorem Rearranged.append {c : Category} {ds ds' fs fs' : List Finding} (h : Rearranged c ds ds')
    (h' : Rearranged c fs fs') : Rearranged c (ds ++ fs) (ds' ++ fs') := by
  cases c with
  | void | redundant => exact congrArg₂ (· ++ ·) h h'
  | dead | fullMandatory | falseOptional => exact List.Perm.append h h'
  | conditionallyDead =>
    unfold Rearranged
    rw [List.map_append, List.map_append]
    exact List.Perm.append h h'

namespace Setup

theorem rearranged_append {c : Category} {ds ds' : List Finding} (fs : List Finding)
    (hfs : ∀ f ∈ fs, f.category = c) (h : EachCategory Rearranged ds ds') :
    EachCategory Rearranged (ds ++ fs) (ds' ++ fs) :=
  h.append hfs hfs fun _ _ hc => hc.append (rearranged_refl _ fs)

variable {g : RegularSetup} {own own' : Config} {c : Category} {a a' b : Analyzer}
  {probe : Feature → Analysis Unit} {P Q : List Finding → Prop}

/-! ### Analyses by themselves -/

/-- What goes in lockstep with itself leaves an analyzer that still stands. -/
theorem steady_of_lockstep {α : Type} {work : Analysis α} (ha : g.Steady own [] a)
    (h : Agree (g.Lockstep (setOut c own own a a) []) work work
      fun _ _ => g.Lockstep (setOut c own own a a) []) :
    Ensures (· = a) work (fun _ b => g.Steady own [] b) fun _ _ => True :=
  (h.alone (ha.setOut ha (.refl a) c)).weaken fun _ _ hb => hb.first

/-- The analyzer still stands and has found something of a category. -/
structure Finds (g : Setup) (own : Config) (c : Category) (P : List Finding → Prop)
    (a b : Analyzer) : Prop where
  steady : g.Steady own [] b
  found : ∃ fs, (∀ f ∈ fs, f.category = c) ∧ b.report = a.report.extend fs ∧ P fs

theorem Finds.ofAsks (ha : g.Steady own [] a) (h : Asks a b) (hP : P []) :
    g.Finds own c P a b := by
  refine ⟨ha.asks h, [], List.forall_mem_nil _, ?_, hP⟩
  obtain ⟨d, -, rfl⟩ := h
  exact (Report.extend_nil _).symm

theorem Finds.trans {R : List Finding → Prop} {d : Analyzer} (h : g.Finds own c P a b)
    (h' : g.Finds own c Q b d) (happend : ∀ fs fs', P fs → Q fs' → R (fs ++ fs')) :
    g.Finds own c R a d := by
  obtain ⟨fs, hcategory, hreport, hP⟩ := h.found
  obtain ⟨fs', hcategory', hreport', hQ⟩ := h'.found
  refine ⟨h'.steady, fs ++ fs', List.forall_mem_append.mpr ⟨hcategory, hcategory'⟩, ?_,
    happend fs fs' hP hQ⟩
  rw [hreport', hreport, Report.extend_extend]

theorem Finds.afterAsks {d : Analyzer} (h : Asks a b) (h' : g.Finds own c P b d) :
    g.Finds own c P a d := by
  obtain ⟨e, -, rfl⟩ := h
  exact ⟨h'.steady, h'.found⟩

/-- What two analyses find by themselves can be compared. -/
theorem compared_of_finds {work : Analysis Unit} {P : Config → List Finding → Prop}
    (h : ∀ {own a}, g.Steady own [] a →
      Ensures (· = a) work (fun _ => g.Finds own c (P own) a) fun _ _ => True)
    (hP : ∀ fs fs', P own fs → P own' fs' → Rearranged c fs fs') :
    g.Compared (EachCategory Rearranged) own own' work work := by
  intro a a' ha ha' _
  refine (Agree.ofEnsures (h ha) (h ha')).weaken ?_
  rintro _ _ b b' ⟨hb, hb'⟩
  obtain ⟨fs, hcategory, hreport, hfs⟩ := hb.found
  obtain ⟨fs', hcategory', hreport', hfs'⟩ := hb'.found
  have hclocked : g.Clocked b b' := RegularSetup.clocked hb.steady.toReady hb'.steady.toReady
  exact ⟨rfl, hb.steady, hb'.steady, hclocked, fs, fs', hreport, hreport', fun _ _ hds =>
    hds.append hcategory hcategory' fun _ _ h => h.append (hP fs fs' hfs hfs')⟩

theorem noted_steady {α : Type} {n : Journal.Note} {work : List Feature → Analysis α}
    {post : α → Analyzer → Prop} (ha : g.Steady own [] a)
    (h : ∀ fs vs b, g.model.nonRoot own.order = .ok vs → fs.map (·.name) = vs.map (·.name) →
      Asks a b → Ensures (· = b) (work fs) post fun _ _ => True) :
    Ensures (· = a) (note n >>= fun _ => nonRoot >>= work) post fun _ _ => True := by
  refine .bindState (note_asks n) fun _ b hb => ?_
  refine .bindState (nonRoot_steady (ha.asks hb)) ?_
  rintro fs _ ⟨⟨vs, hvs, hnames⟩, rfl⟩
  exact h fs vs _ hvs hnames hb

theorem visited_perm {vs vs' : List Feature} (hnames : g.model.names.Nodup)
    (hvs : g.model.nonRoot own.order = .ok vs) (hvs' : g.model.nonRoot own'.order = .ok vs') :
    (vs'.map (·.name)).Perm (vs.map (·.name)) :=
  (FeatureModel.nonRoot_perm hnames hvs').trans (FeatureModel.nonRoot_perm hnames hvs).symm

/-! ### Probes of one feature after the other -/

/-- An analyzer that nothing disturbs finds this when it probes a feature of the name. -/
def Yields (g : Setup) (probe : Feature → Analysis Unit) (name : String) (fs : List Finding) :
    Prop :=
  ∃ own f a b, g.Steady own [] a ∧ (f.name = name ∧ name ∈ g.visited.map (·.name)) ∧
    probe f a = .ok () b ∧ b.report = a.report.extend fs

/-- Analyses go in lockstep through probes of features of one name, in whatever orders they visit the
features. -/
def Uniform (g : Setup) (c : Category) (probe : Feature → Analysis Unit) : Prop :=
  ∀ k : Course, k.category = c → ∀ f f', Namesakes g f f' →
    Agree (g.Lockstep k []) (probe f) (probe f') fun _ _ => g.Lockstep k []

/-- What is found of one feature after the other, in the order of an analysis. -/
def Gathered (g : Setup) (probe : Feature → Analysis Unit) (own : Config) (fs : List Finding) :
    Prop :=
  ∃ vs fss, g.model.nonRoot own.order = .ok vs ∧
    List.Forall₂ (g.Yields probe) (vs.map (·.name)) fss ∧ fs = fss.flatten

namespace Uniform

variable (h : g.Uniform c probe)
include h

theorem rightUnique : Relator.RightUnique (g.Yields probe) := by
  rintro _ fs fs' ⟨own, f, a, b, ha, ⟨rfl, hf⟩, hr, hreport⟩
    ⟨own', f', a', b', ha', ⟨hname, -⟩, hr', hreport'⟩
  have hclocked : g.Clocked a a' := RegularSetup.clocked ha.toReady ha'.toReady
  have hb := h (setOut c own own' a a') rfl f f' ⟨hname, hf⟩ a a' (ha.setOut ha' hclocked c)
    _ _ _ _ hr hr'
  obtain ⟨gs, -, hfound, hfound'⟩ := hb.since
  rw [Report.extend_inj (hreport.symm.trans hfound),
    Report.extend_inj (hreport'.symm.trans hfound')]

theorem finds (ha : g.Steady own [] a) {f : Feature} (hf : f.name ∈ g.visited.map (·.name)) :
    Ensures (· = a) (probe f) (fun _ => g.Finds own c (g.Yields probe f.name) a)
      fun _ _ => True := by
  rintro _ rfl
  cases hr : probe f _ with
  | error e b => trivial
  | ok x b =>
    have hb := h (setOut c own own _ _) rfl f f ⟨rfl, hf⟩ _ _ (ha.setOut ha (.refl _) c) _ _ _ _ hr hr
    obtain ⟨fs, hcategory, hreport, -⟩ := hb.since
    exact ⟨hb.first, fs, hcategory, hreport, own, f, _, b, ha, ⟨rfl, hf⟩, hr, hreport⟩

theorem forM_finds (ha : g.Steady own [] a) {fs : List Feature}
    (hfs : ∀ f ∈ fs, f.name ∈ g.visited.map (·.name)) :
    Ensures (· = a) (fs.forM probe) (fun _ => g.Finds own c (fun found => ∃ fss,
      List.Forall₂ (g.Yields probe) (fs.map (·.name)) fss ∧ found = fss.flatten) a)
      fun _ _ => True := by
  refine (Ensures.forM_done (I := fun done : List Feature => g.Finds own c (fun found => ∃ fss,
    List.Forall₂ (g.Yields probe) (done.map (·.name)) fss ∧ found = fss.flatten) a) ?_).inState
    (.ofAsks ha (.refl a) ⟨[], .nil, rfl⟩)
  intro done f rest hsplit
  refine .ofState fun b hb => ?_
  have hf : f ∈ fs := hsplit ▸ List.mem_append_right _ List.mem_cons_self
  refine (h.finds hb.steady (hfs f hf)).weaken fun _ d hd => hb.trans hd ?_
  rintro _ gs ⟨fss, hfss, rfl⟩ hgs
  refine ⟨fss ++ [gs], ?_, by rw [List.flatten_append, List.flatten_singleton]⟩
  rw [List.map_append]
  exact List.rel_append hfss (.cons hgs .nil)

theorem noted_finds (ha : g.Steady own [] a) {n : Journal.Note} :
    Ensures (· = a) (note n >>= fun _ => nonRoot >>= fun fs => fs.forM probe)
      (fun _ => g.Finds own c (g.Gathered probe own) a) fun _ _ => True := by
  refine noted_steady ha fun fs vs b hvs hnames hb => ?_
  have hfs : ∀ f ∈ fs, f.name ∈ g.visited.map (·.name) := fun f hf =>
    (g.mem_visited hvs f.name).mp (hnames ▸ List.mem_map_of_mem hf)
  refine (h.forM_finds (ha.asks hb) hfs).weaken fun _ d hd => .afterAsks hb ⟨hd.steady, ?_⟩
  obtain ⟨found, hcategory, hreport, fss, hfss, rfl⟩ := hd.found
  exact ⟨_, hcategory, hreport, vs, fss, hvs, hnames ▸ hfss, rfl⟩

theorem gathered_perm (hnames : g.model.names.Nodup) {fs fs' : List Finding}
    (hfs : g.Gathered probe own fs) (hfs' : g.Gathered probe own' fs') : fs'.Perm fs := by
  obtain ⟨vs, fss, hvs, hfss, rfl⟩ := hfs
  obtain ⟨vs', fss', hvs', hfss', rfl⟩ := hfs'
  exact (List.rel_perm_imp h.rightUnique hfss' hfss (visited_perm hnames hvs hvs')).flatten

end Uniform

theorem checkValue_uniform {value : Bool} (hvalue : c = .dead → value = true) :
    g.Uniform c (checkValue c value) := by
  rintro k rfl f f' hf
  exact (checkValue_lockstep hf hvalue).weaken fun _ _ _ _ ha => ha.of_known

theorem checkRequired_uniform : g.Uniform .falseOptional checkRequired :=
  fun _ hk _ _ hf => checkRequired_lockstep hk hf

theorem checkDead_finds (ha : g.Steady own [] a) : Ensures (· = a) checkDead
    (fun _ => g.Finds own .dead (g.Gathered (checkValue .dead true) own) a) fun _ _ => True := by
  have hsteady : Ensures (· = a) checkDead (fun _ b => g.Steady own [] b) fun _ _ => True :=
    steady_of_lockstep (c := .dead) ha (checkDead_lockstep rfl rfl)
  have hparts : checkDead = ((note (.probing .dead) >>= fun _ => nonRoot >>= fun fs =>
      fs.forM (checkValue .dead true)) >>= fun _ =>
        modify fun a => { a with deadChecked := true }) := by
    simp only [checkDead, bind_assoc]
  have hfound : Ensures (· = a) checkDead (fun _ b => ∃ fs : List Finding,
      (∀ f ∈ fs, f.category = .dead) ∧ b.report = a.report.extend fs ∧
        g.Gathered (checkValue .dead true) own fs) fun _ _ => True := by
    rw [hparts]
    refine .bind ((checkValue_uniform fun _ => rfl).noted_finds ha) fun _ => ?_
    exact .modify fun b hb => hb.found
  exact (hsteady.both hfound).mono (fun _ _ hb => ⟨hb.1, hb.2⟩) fun _ _ _ => trivial

theorem checkFullMandatory_finds (ha : g.Steady own [] a) : Ensures (· = a) checkFullMandatory
    (fun _ => g.Finds own .fullMandatory (g.Gathered (checkValue .fullMandatory false) own) a)
    fun _ _ => True := by
  unfold checkFullMandatory
  exact (checkValue_uniform (c := .fullMandatory) fun h => nomatch h).noted_finds ha

theorem checkFalseOptional_finds (ha : g.Steady own [] a) : Ensures (· = a) checkFalseOptional
    (fun _ => g.Finds own .falseOptional (g.Gathered checkRequired own) a) fun _ _ => True :=
  checkRequired_uniform.noted_finds ha

/-! ### Pairs of features -/

/-- Whether the engine does not affirm that a product has both features. -/
def clashes (g : Setup) (f f' : String) : Bool := !g.affirms [(f, true), (f', true)]

theorem clashes_comm (f f' : String) : g.clashes f f' = g.clashes f' f := by
  unfold clashes affirms
  refine congrArg (!·) (Oracle.affirms_congr _ fun x => ?_)
  simp [formulas, assignments, or_comm]

theorem recordTagged_reports (subject : String) (all : Enumeration) (condition : Option String) :
    Ensures (fun b => b.report = a.report) (recordTagged c subject all condition) (fun _ b =>
      ∃ diagnoses truncated,
        b.report = a.report.extend [⟨c, subject, diagnoses, condition, truncated⟩])
      fun _ _ => True := by
  refine .ofState fun b hb => (recordTagged_ensures c subject all condition).mono ?_
    fun _ _ _ => trivial
  rintro _ _ ⟨diagnoses, truncated, d, -, rfl⟩
  exact ⟨diagnoses, truncated, congrArg (Report.extend · _) hb⟩

theorem record_finds {subject : String} {all : Enumeration} {condition : Option String}
    (ha : g.Steady own [] a) (hc : c ≠ .dead) :
    Ensures (· = a) (record c subject all condition) (fun _ => g.Finds own c (fun fs =>
      ∃ diagnoses truncated, fs = [⟨c, subject, diagnoses, condition, truncated⟩]) a)
      fun _ _ => True := by
  have hsteady : Ensures (· = a) (record c subject all condition) (fun _ b => g.Steady own [] b)
      fun _ _ => True :=
    steady_of_lockstep (c := c) ha (recordOther_lockstep hc subject ⟨rfl, rfl⟩ condition)
  have hreports : Ensures (· = a) (record c subject all condition) (fun _ b =>
      ∃ diagnoses truncated,
        b.report = a.report.extend [⟨c, subject, diagnoses, condition, truncated⟩])
      fun _ _ => True := by
    unfold record
    cases c.tag? with
    | none => exact (recordTagged_reports subject all condition).inState rfl
    | some tag =>
      have hput : Ensures (· = a)
          (onBench (modify fun b => { b with model := b.model.tag subject tag }))
          (fun _ b => b.report = a.report) fun _ _ => True := by
        rintro _ rfl
        rfl
      exact .bind hput fun _ => recordTagged_reports subject all condition
  refine (hsteady.both hreports).mono ?_ fun _ _ _ => trivial
  rintro _ b ⟨hb, diagnoses, truncated, hreport⟩
  exact ⟨hb, _, List.forall_mem_singleton.mpr rfl, hreport, diagnoses, truncated, rfl⟩

theorem recordPartner_finds {all : Enumeration} {reported : List String} {f partner : String}
    (ha : g.Steady own [] a) :
    Ensures (· = a) (recordPartner all reported f partner) (fun reported' =>
      g.Finds own .conditionallyDead (Entered [(f, some partner)] reported reported') a)
      fun _ _ => True := by
  unfold recordPartner
  split
  · next hin =>
    exact .pureState (.ofAsks ha (.refl a) (.of_mem (List.forall_mem_singleton.mpr hin)))
  · next hnew =>
    refine .bind (record_finds ha (by decide)) fun _ => .pure fun b hb => ⟨hb.steady, ?_⟩
    obtain ⟨fs, hcategory, hreport, diagnoses, truncated, rfl⟩ := hb.found
    have hfresh : (⟨.conditionallyDead, f, diagnoses, some partner, truncated⟩ : Finding).subject ∉
        reported := hnew
    exact ⟨_, hcategory, hreport, entered_new hfresh⟩

theorem checkPair_finds {reported : List String} {pair : String × String} (ha : g.Steady own [] a)
    (hpair : pair.1 ∈ g.model.names ∧ pair.2 ∈ g.model.names) :
    Ensures (· = a) (checkPair reported pair) (fun reported' =>
      g.Finds own .conditionallyDead (Entered (partners g.clashes pair) reported reported') a)
      fun _ _ => True := by
  have hvalues : ∀ x ∈ [(pair.1, true), (pair.2, true)], x.1 ∈ g.model.names :=
    List.forall_mem_cons.mpr ⟨hpair.1, List.forall_mem_singleton.mpr hpair.2⟩
  unfold checkPair
  split
  · next hin =>
    refine .pureState (.ofAsks ha (.refl a) (.of_mem fun x hx => ?_))
    rcases mem_of_mem_partners hx with hleft | hright
    · exact hleft ▸ hin.1
    · exact hright ▸ hin.2
  refine .bindState (infeasible_steady ha hvalues) fun found a₁ h₁ => ?_
  obtain ⟨hfound, hasked⟩ : found = g.clashes pair.1 pair.2 ∧ Asks a a₁ := ⟨h₁.1, h₁.2.asks⟩
  cases found with
  | false =>
    refine .pureState (.ofAsks ha hasked ?_)
    rw [partners_of_not hfound.symm]
    exact .of_mem (List.forall_mem_nil _)
  | true =>
    rw [partners_of_clash hfound.symm]
    have hsteady₁ := ha.asks hasked
    refine .bindState (note_asks _) fun _ a₂ h₂ => ?_
    have hsteady₂ := hsteady₁.asks h₂
    refine .bindState (diagnosePerturbation_steady hsteady₂ hvalues) fun all a₃ h₃ => ?_
    refine .bindState (recordPartner_finds (hsteady₂.asks h₃)) fun reported₁ a₄ h₄ => ?_
    refine (recordPartner_finds h₄.steady).weaken fun reported₂ a₅ h₅ => ?_
    exact .afterAsks (hasked.trans (h₂.trans h₃)) (h₄.trans h₅ fun _ _ => Entered.append)

/-- What the loop over the pairs of features enters, in the order of an analysis. -/
def Paired (g : Setup) (own : Config) (fs : List Finding) : Prop :=
  ∃ vs, g.model.nonRoot own.order = .ok vs ∧ fs.map Finding.entry =
    ((pairs ((vs.map (·.name)).filter g.lives)).flatMap (partners g.clashes)).foldl enter []

theorem checkConditionallyDead_finds (ha : g.Steady own [] a) :
    Ensures (· = a) checkConditionallyDead
      (fun _ => g.Finds own .conditionallyDead (g.Paired own) a) fun _ _ => True := by
  unfold checkConditionallyDead
  refine .bindState (note_asks _) fun _ a₁ h₁ => ?_
  refine .bindState (livingOptional_steady (ha.asks h₁)) ?_
  rintro _ a₂ ⟨⟨vs, hvs, rfl⟩, ⟨h₂, -⟩⟩
  have hsteady := (ha.asks h₁).asks h₂
  have hmem : ∀ name ∈ (vs.map (·.name)).filter g.lives, name ∈ g.model.names := fun name hname =>
    g.mem_names ((g.mem_visited hvs name).mp (List.mem_of_mem_filter hname))
  refine .discard ((Ensures.foldlM_done (I := fun done reported => g.Finds own .conditionallyDead
    (Entered (done.flatMap (partners g.clashes)) [] reported) a₂) ?_).inState
    (.ofAsks hsteady (.refl a₂) (.of_mem (List.forall_mem_nil _))) |>.weaken ?_)
  · intro done pair rest reported hsplit
    have hin : pair ∈ pairs ((vs.map (·.name)).filter g.lives) :=
      hsplit ▸ List.mem_append_right _ List.mem_cons_self
    obtain ⟨hfirst, hsecond⟩ := mem_of_mem_pairs hin
    refine .ofState fun a₃ h₃ => ?_
    refine (checkPair_finds h₃.steady ⟨hmem _ hfirst, hmem _ hsecond⟩).weaken ?_
    intro reported' a₄ h₄
    rw [List.flatMap_append, List.flatMap_singleton]
    exact h₃.trans h₄ fun _ _ => Entered.append
  · intro reported a₃ h₃
    refine .afterAsks (h₁.trans h₂) ⟨h₃.steady, ?_⟩
    obtain ⟨fs, hcategory, hreport, hentered⟩ := h₃.found
    exact ⟨fs, hcategory, hreport, vs, hvs, (hentered [] rfl).2⟩

theorem paired_perm (hnames : g.model.names.Nodup) {fs fs' : List Finding} (hfs : g.Paired own fs)
    (hfs' : g.Paired own' fs') : (fs'.map (·.subject)).Perm (fs.map (·.subject)) := by
  obtain ⟨vs, hvs, hentries⟩ := hfs
  obtain ⟨vs', hvs', hentries'⟩ := hfs'
  rw [← map_fst_entry, ← map_fst_entry, hentries, hentries']
  exact perm_clashing ((FeatureModel.nonRoot_nodup hnames hvs).filter _) clashes_comm
    ((visited_perm hnames hvs hvs').filter _)

/-! ### All probes -/

theorem search_compared (hnames : g.model.names.Nodup) (c : Category) :
    g.Compared (EachCategory Rearranged) own own' (search c) (search c) := by
  cases c with
  | void => exact compared_pure ()
  | dead =>
    exact compared_of_finds checkDead_finds fun _ _ =>
      (checkValue_uniform fun _ => rfl).gathered_perm hnames
  | conditionallyDead =>
    exact compared_of_finds checkConditionallyDead_finds fun _ _ => paired_perm hnames
  | fullMandatory =>
    exact compared_of_finds checkFullMandatory_finds fun _ _ =>
      (checkValue_uniform (c := .fullMandatory) fun h => nomatch h).gathered_perm hnames
  | falseOptional =>
    exact compared_of_finds checkFalseOptional_finds fun _ _ =>
      checkRequired_uniform.gathered_perm hnames
  | redundant =>
    exact compared_of_lockstep (c := .redundant) (fun _ _ => rearranged_append) fun _ _ =>
      (checkRedundancies_lockstep rfl).weaken fun _ _ _ _ hb => ⟨rfl, hb⟩

/-- Analyses that look for the same, in whatever orders. -/
theorem run_rearranged (hnames : g.model.names.Nodup) (hasked : ∀ c, asked c own' = asked c own) :
    Agree (fun a a' => g.Ready own a ∧ g.Ready own' a') run run fun r r' _ _ =>
      r'.consistent = r.consistent ∧ ∀ c, Rearranged c (r.findings c) (r'.findings c) := by
  have hnil : EachCategory Rearranged [] [] := fun c => rearranged_refl c []
  refine (run_related ?_ (fun c => ?_) hnil).strengthen fun _ _ h =>
    ⟨h, RegularSetup.clocked h.1 h.2⟩
  · exact compared_of_lockstep (c := .void) (fun _ _ => rearranged_append) fun _ _ =>
      checkConsistency_lockstep rfl
  · refine compared_ifAsked (fun _ _ => search_compared hnames c) (fun hown hown' => ?_)
      fun hown hown' => ?_
    · rw [hasked, hown] at hown'
      cases hown'
    · rw [hasked, hown] at hown'
      cases hown'

end Setup

namespace Analysis

variable {m : FeatureModel} {config : Config} {w : World} {a₀ : Analyzer}

/-- What can be analysed in one order can be in any order. -/
theorem start_reordered (h : start (Analyzer.new m config w) = .ok () a₀) (o : FeatureOrder) :
    ∃ a₀', start (Analyzer.new m { config with order := o } w) = .ok () a₀' := by
  obtain ⟨b, hr, -⟩ := start_eq_ok_iff.mp h
  have hbuilt := (Work.build_standing config.order).of_eq_ok rfl hr
  obtain ⟨vars, -, hother⟩ := Store.ofModel_reordered hbuilt.2.1 o
  exact start_of_made hother w

/-- **The visiting order only reorders the report.** In a world without faults and cancellation, and with
a regular clock if time is bounded, a model with distinct names that can be analysed in one order can be
analysed in any other order, too. Both analyses return, unless the clock overruns. They agree on whether
there is a product, and list the same findings about the whole model and about constraints. Their
findings about dead, full mandatory and false optional features are the same in another order, with all
their explanations, and the same features are found to be conditionally dead. -/
theorem run_reordered (hnames : m.names.Nodup) (hfaults : w.faults = []) (hidle : w.Idle)
    (hregular : config.limits.timed = true → w.lapses = [])
    (hstart : start (Analyzer.new m config w) = .ok () a₀) (o : FeatureOrder) :
    ∃ a₀', start (Analyzer.new m { config with order := o } w) = .ok () a₀' ∧
      (∀ a ∈ [a₀, a₀'], config.limits.Numeric → ¬w.Overran (after run a).bench.world →
        ∃ r b, run a = .ok r b) ∧
      ∀ r b r' b', run a₀ = .ok r b → run a₀' = .ok r' b' →
        r'.consistent = r.consistent ∧ ∀ c, Rearranged c (r.findings c) (r'.findings c) := by
  obtain ⟨a₀', hstart'⟩ := start_reordered hstart o
  obtain ⟨g, rfl, rfl, rfl⟩ := start_setup hregular hstart
  have hready := start_ready hfaults hidle (.refl _) hstart
  have hsearch : g.config.SameSearch { g.config with order := o } := ⟨rfl, rfl, rfl⟩
  have hready' := start_ready hfaults hidle hsearch hstart'
  have hasked : ∀ c, asked c { g.config with order := o } = asked c g.config := by
    intro c
    cases c <;> rfl
  have hreturns' := run_returns hidle hstart'
  refine ⟨a₀', hstart', List.forall_mem_cons.mpr ⟨run_returns hidle hstart,
    List.forall_mem_singleton.mpr hreturns'⟩, fun r b r' b' hr hr' => ?_⟩
  exact Setup.run_rearranged hnames hasked a₀ a₀' ⟨hready, hready'⟩ r b r' b' hr hr'

/-! ### A model that looks different depth-first -/

open FeatureModel in
/-- Adds a root and five optional features, declared before their relationships in the other direction.
`B` goes with neither `A` nor `C`, and neither `D` nor `E` goes at all. -/
def tangle : Edit Unit := do
  addFeatures (.list [.text "Root", .text "A", .text "B", .text "C", .text "D", .text "E"])
  ["E", "D", "C", "B", "A"].forM fun f =>
    discard (addRelationship .optional (.text f) (.text "Root"))
  [("A", "B"), ("B", "C"), ("D", "Root")].forM fun pair =>
    discard (addConstraint .excludes (.text pair.1) (.text pair.2))
  discard (addConstraint .requires (.text "E") (.text "D"))

/-- A model with two dead features and three conditionally dead ones. -/
def tangled : FeatureModel := .edited tangle (.empty (.text "tangled"))

theorem made_tangled : tangled.Made := by
  have hmakes : FeatureModel.Makes tangle := by
    unfold tangle
    refine Ensures.bind (FeatureModel.makes_addFeatures _) fun _ => ?_
    refine Ensures.bind (Ensures.forM fun f _ => Ensures.discard
      (FeatureModel.makes_addRelationship _ _ _)) fun _ => ?_
    refine Ensures.bind (Ensures.forM fun pair _ => Ensures.discard
      (FeatureModel.makes_addConstraint _ _ _)) fun _ => ?_
    exact Ensures.discard (FeatureModel.makes_addConstraint _ _ _)
  exact hmakes.made (.empty _)

/-- Depth-first, `E` comes before `D`, and `B` is paired with `C` first. -/
theorem run_reordered_tangled : ∃ a₀ a₀' r b r' b',
    start (Analyzer.new tangled .standard .calm) = .ok () a₀ ∧
      start (Analyzer.new tangled { Config.standard with order := .depthFirst } .calm) = .ok () a₀' ∧
      run a₀ = .ok r b ∧ run a₀' = .ok r' b' ∧ (r.consistent = true ∧ r'.consistent = true) ∧
      (r.subjects .dead = ["D", "E"] ∧ r'.subjects .dead = ["E", "D"] ∧
        (r'.findings .dead).Perm (r.findings .dead)) ∧
      (r.findings .conditionallyDead).map Finding.entry =
        [("A", some "B"), ("B", some "A"), ("C", some "B")] ∧
      (r'.findings .conditionallyDead).map Finding.entry =
        [("C", some "B"), ("B", some "C"), ("A", some "B")] := by
  have hstart : start (Analyzer.new tangled .standard .calm) =
      .ok () (after start (Analyzer.new tangled .standard .calm)) :=
    eq_ok_after (by decide +kernel)
  obtain ⟨a₀', hstart', hreturns, hfound⟩ :=
    run_reordered made_tangled.names_nodup rfl idle_calm (fun _ => rfl) hstart .depthFirst
  obtain rfl : after start (Analyzer.new tangled { Config.standard with order := .depthFirst } .calm) =
      a₀' := by rw [after, hstart']
  have hreturned : ∀ a ∈ [after start (Analyzer.new tangled .standard .calm),
      after start (Analyzer.new tangled { Config.standard with order := .depthFirst } .calm)],
      ∃ r b, run a = .ok r b := fun a ha =>
    hreturns a ha numeric_standard (World.not_overran_of_still rfl rfl)
  obtain ⟨r, b, hr⟩ := hreturned _ List.mem_cons_self
  obtain ⟨r', b', hr'⟩ := hreturned _ (List.mem_cons_of_mem _ List.mem_cons_self)
  have hdeclared : (fun r : Report =>
      (r.consistent, r.subjects .dead, (r.findings .conditionallyDead).map Finding.entry))
      (after run (after start (Analyzer.new tangled .standard .calm))).report =
        (true, ["D", "E"], [("A", some "B"), ("B", some "A"), ("C", some "B")]) := by decide +kernel
  have hdepthFirst : (fun r : Report =>
      (r.subjects .dead, (r.findings .conditionallyDead).map Finding.entry))
      (after run (after start
        (Analyzer.new tangled { Config.standard with order := .depthFirst } .calm))).report =
        (["E", "D"], [("C", some "B"), ("B", some "C"), ("A", some "B")]) := by decide +kernel
  rw [report_of_run hstart hr, Prod.mk.injEq, Prod.mk.injEq] at hdeclared
  rw [report_of_run hstart' hr', Prod.mk.injEq] at hdepthFirst
  obtain ⟨hconsistent, hrearranged⟩ := hfound r b r' b' hr hr'
  exact ⟨_, _, r, b, r', b', hstart, hstart', hr, hr',
    ⟨hdeclared.1, hconsistent.trans hdeclared.1⟩,
    ⟨hdeclared.2.1, hdepthFirst.1, hrearranged .dead⟩, hdeclared.2.2, hdepthFirst.2⟩

end Analysis
end Anomaly
end ProductLine
