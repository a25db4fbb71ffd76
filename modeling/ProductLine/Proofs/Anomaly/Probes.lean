import ProductLine.Proofs.Anomaly.Steps

/-! # What the probes find

Whatever happens in a probe, the analyzer stays sound, and only findings of the probe's own category
are added; as long as the engine does not fail, they are as said (`Detects`). Dead and full mandatory
features are found exactly (`checkDead_detects`, `checkFullMandatory_detects`). -/

namespace ProductLine
namespace Anomaly
namespace Analysis

open Constraint Diagnosis Outcome Workbench

variable {m : FeatureModel} {config : Config} {w : World} {a : Analyzer} {c : Category}
  {visited : List Feature}

/-- A step that does not come to its end: it is called off, or it is in trouble by itself, which is
that the clock overran unless a bound is no number. -/
structure Halts (m : FeatureModel) (config : Config) (w : World) (e : Failure) (a : Analyzer) :
    Prop where
  cause : CalledOff w e ∨ config.limits.Trouble e
  sound : a.Sound m config w
  overrun : e = .clockOverrun → w.Overran a.bench.world

theorem Halts.of_asks {a' : Analyzer} {e : Failure} (ha : a.Sound m config w)
    (h : Stops a.bench.world config.limits e a'.bench.world ∧ Asks a a') :
    Halts m config w e a' := by
  have hstops := h.1.before ha.idle ha.time
  exact ⟨hstops.cause, h.2.sound ha, hstops.overrun⟩

/-- A step that adds findings of a category to a sound analyzer. As long as the engine does not fail,
they are as said. -/
structure Detects (m : FeatureModel) (config : Config) (w : World) (c : Category)
    (P : List Finding → Prop) (a a' : Analyzer) : Prop where
  sound : a'.Sound m config w
  found : ∃ fs, Adds c fs a a' ∧ (a'.bench.failures = [] → P fs)

theorem Detects.trans {P Q R : List Finding → Prop} {a' a'' : Analyzer}
    (h : Detects m config w c P a a') (h' : Detects m config w c Q a' a'')
    (happend : ∀ fs gs, P fs → Q gs → R (fs ++ gs)) : Detects m config w c R a a'' := by
  obtain ⟨fs, hadds, hP⟩ := h.found
  obtain ⟨gs, hadds', hQ⟩ := h'.found
  refine ⟨h'.sound, fs ++ gs, hadds.trans hadds', ?_⟩
  intro hfail
  exact happend fs gs (hP (hadds'.failures_eq_nil hfail)) (hQ hfail)

theorem Detects.ofAsks {P : List Finding → Prop} {a' : Analyzer} (h : Asks a a')
    (ha : a.Sound m config w) (hP : a'.bench.failures = [] → P []) :
    Detects m config w c P a a' := ⟨h.sound ha, [], h.adds c, hP⟩

theorem Detects.afterAsks {P : List Finding → Prop} {a' a'' : Analyzer} (h : Asks a a')
    (h' : Detects m config w c P a' a'') : Detects m config w c P a a'' := by
  obtain ⟨fs, hadds, hP⟩ := h'.found
  exact ⟨h'.sound, fs, (h.adds c).trans hadds, hP⟩

theorem Detects.mono {P Q : List Finding → Prop} {a' : Analyzer}
    (h : Detects m config w c P a a') (hPQ : ∀ fs, P fs → Q fs) : Detects m config w c Q a a' := by
  obtain ⟨fs, hadds, hP⟩ := h.found
  exact ⟨h.sound, fs, hadds, fun hfail => hPQ fs (hP hfail)⟩

/-- What is found item by item, each after those before it, is found of the list. -/
theorem forM_detects {ι : Type} {P : List ι → List Finding → Prop} {f : ι → Analysis Unit}
    {items : List ι} (ha : a.Sound m config w) (hnil : P [] [])
    (hstep : ∀ done x rest, items = done ++ x :: rest → ∀ a₁ : Analyzer, a₁.Sound m config w →
      Ensures (· = a₁) (f x)
        (fun _ => Detects m config w c (fun gs => ∀ fs, P done fs → P (done ++ [x]) (fs ++ gs)) a₁)
        (Halts m config w)) :
    Ensures (· = a) (items.forM f) (fun _ => Detects m config w c (P items) a)
      (Halts m config w) := by
  have hdone : ∀ (done : List ι) x rest, items = done ++ x :: rest →
      Ensures (Detects m config w c (P done) a) (f x)
        (fun _ => Detects m config w c (P (done ++ [x])) a) (Halts m config w) := by
    intro done x rest hl
    apply Ensures.ofState
    intro a₁ h₁
    apply (hstep done x rest hl a₁ h₁.sound).weaken
    intro _ a₂ h₂
    exact h₁.trans h₂ fun fs gs hfs hgs => hgs fs hfs
  exact (Ensures.forM_done (I := fun done => Detects m config w c (P done) a) hdone).inState
    (.ofAsks (.refl a) ha fun _ => hnil)

open Classical in
/-- The findings are about those of the items that have a property, one after the other. -/
def Picks {ι : Type} (p : ι → Prop) (about : ι → Finding → Prop) (items : List ι)
    (fs : List Finding) : Prop := List.Forall₂ about (items.filter fun x => p x) fs

section picks

variable {ι : Type} {p : ι → Prop} {about : ι → Finding → Prop} {items items' : List ι} {x : ι}
  {fs gs : List Finding}

theorem Picks.nil : Picks p about [] [] := List.Forall₂.nil

theorem Picks.append (h : Picks p about items fs) (h' : Picks p about items' gs) :
    Picks p about (items ++ items') (fs ++ gs) := by
  unfold Picks
  rw [List.filter_append]
  exact List.rel_append h h'

theorem Picks.some {fd : Finding} (hp : p x) (hfd : about x fd) : Picks p about [x] [fd] := by
  unfold Picks
  rw [List.filter_cons_of_pos (by simpa using hp)]
  exact .cons hfd .nil

theorem Picks.none (hp : ¬p x) : Picks p about [x] [] := by
  unfold Picks
  rw [List.filter_cons_of_neg (by simpa using hp)]
  exact .nil

open Classical in
theorem Picks.map_eq {g : Finding → ι} (h : Picks p (fun x fd => g fd = x) items fs) :
    fs.map g = items.filter fun x => p x := by
  unfold Picks at h
  rw [← List.forall₂_eq_eq_eq, List.forall₂_map_left_iff]
  exact h.flip

end picks

theorem model_returns {fail : Failure → Analyzer → Prop} :
    Ensures (· = a) model (fun n a' => n = a.bench.model ∧ a' = a) fail := by
  intro s hs
  rw [hs]
  exact ⟨rfl, rfl⟩

theorem nonRoot_returns {fail : Failure → Analyzer → Prop} (halike : m.Alike a.bench.model)
    (hconfig : a.config = config) (hvisit : m.nonRoot config.order = .ok visited) :
    Ensures (· = a) nonRoot
      (fun fs a' => (fs.map (·.name) = visited.map (·.name) ∧ ∀ f ∈ fs, f.name ∈ m.names) ∧ a' = a)
      fail := by
  obtain ⟨fs, hfs, hnames⟩ := halike.nonRoot hvisit
  have hmem : ∀ f ∈ fs, f.name ∈ m.names := by
    intro f hf
    have hname : f.name ∈ visited.map (·.name) := hnames ▸ List.mem_map_of_mem hf
    obtain ⟨g, hg, hgf⟩ := List.mem_map.mp hname
    exact hgf ▸ FeatureModel.mem_names_of_nonRoot hvisit hg
  intro s hs
  have hrun : nonRoot s = .ok fs s := by
    show orFail (s.bench.model.nonRoot s.config.order) s = _
    rw [hs, hconfig, hfs]
    rfl
  rw [hrun]
  exact ⟨⟨hnames, hmem⟩, hs⟩

/-- Asking whether no product has values may be called off, but does not fail otherwise. -/
theorem infeasible_halts {values : List (String × Bool)} (ha : a.Sound m config w)
    (hvalues : ∀ x ∈ values, x.1 ∈ m.names) :
    Ensures (· = a) (infeasible values)
      (fun found a' => Work.Finds m values found a'.bench.failures ∧ Asks a a')
      (Halts m config w) :=
  (infeasible_asks ha.standing hvalues).weakenFail fun _ _ h =>
    .of_asks ha ⟨.calledOff h.1, h.2⟩

theorem diagnosePerturbation_halts {values : List (String × Bool)} (ha : a.Sound m config w)
    (hvalues : ∀ x ∈ values, x.1 ∈ m.names) :
    Ensures (· = a) (diagnosePerturbation values)
      (fun all a' => AllMend m a.bench.store (Undisturbed m config w) (fun _ => False)
        (fun v => ∀ x ∈ values, v x.1 = x.2) all ∧ Asks a a')
      (Halts m config w) :=
  (diagnosePerturbation_asks ha.standing hvalues).mono
    (fun _ _ h => ⟨h.1.mono rfl ha.quiet fun _ => Iff.rfl, h.2⟩)
    fun _ _ h => .of_asks ha (ha.limits_eq ▸ h)

/-- What was found not to be allowed is not so, if nothing disturbed the analysis. -/
theorem not_admits_of_found {values : List (String × Bool)} {p : Selection → Prop}
    (ha : a.Sound m config w) (hyes : a.bench.failures = [] → ¬m.Allows values)
    (hp : ∀ s : Selection, (∀ x ∈ values, s x.1 = x.2) ↔ p s) :
    Undisturbed m config w → ¬m.Admits (fun _ => False) p := by
  intro hw hadmits
  refine hyes (ha.unfailing hw.1).2 (FeatureModel.allows_iff_admits.mpr ?_)
  exact hadmits.mono (fun _ _ => id) fun s hs => (hp s).mpr hs

/-! ### Findings about one feature -/

theorem report_adds {f : Feature} {values : List (String × Bool)} {p : Selection → Prop}
    (ha : a.Sound m config w) (hvalues : ∀ x ∈ values, x.1 ∈ m.names)
    (hp : ∀ s : Selection, (∀ x ∈ values, s x.1 = x.2) ↔ p s)
    (hdenies : ∀ diagnoses truncated,
      Finding.Denies m ⟨c, f.name, diagnoses, none, truncated⟩ (fun _ => False) p)
    (hyes : a.bench.failures = [] → ¬m.Allows values)
    (hdead : c = .dead → a.bench.failures = [] → m.IsDead f.name) :
    Ensures (· = a) (report c f values)
      (fun _ a' => a'.Sound m config w ∧
        ∃ diagnoses truncated, Adds c [⟨c, f.name, diagnoses, none, truncated⟩] a a')
      (Halts m config w) := by
  unfold report
  apply Ensures.bindState (note_asks _)
  intro _ a₁ h₁
  apply Ensures.bindState (diagnosePerturbation_halts (h₁.sound ha) hvalues)
  intro all a₂ h₂
  have hasked := (h₁.trans h₂.2).adds c
  have hrecord := record_adds c f.name none (h₂.2.sound (h₁.sound ha))
    (((h₂.2.adds c).allMend h₂.1).mono rfl id hp) hdenies (not_admits_of_found ha hyes hp)
    fun hc hfail => hdead hc (hasked.failures_eq_nil hfail)
  apply hrecord.mono
  · rintro _ a₃ ⟨hsound, diagnoses, truncated, hadds⟩
    exact ⟨hsound, diagnoses, truncated, hasked.trans hadds⟩
  · intro _ _ h
    exact h.elim

/-- The findings are about exactly the names that cannot have the value. -/
def Excluded (m : FeatureModel) (value : Bool) : List String → List Finding → Prop :=
  Picks (fun name => ¬m.Allows [(name, value)]) fun name fd => fd.subject = name

theorem checkValue_detects {f : Feature} {value : Bool} (ha : a.Sound m config w)
    (hf : f.name ∈ m.names) (hvalue : c = .dead → value = true)
    (hdenies : ∀ diagnoses truncated, Finding.Denies m ⟨c, f.name, diagnoses, none, truncated⟩
      (fun _ => False) fun s => s f.name = value) :
    Ensures (· = a) (checkValue c value f)
      (fun _ => Detects m config w c (Excluded m value [f.name]) a) (Halts m config w) := by
  have hvalues : ∀ x ∈ [(f.name, value)], x.1 ∈ m.names := List.forall_mem_singleton.mpr hf
  unfold checkValue
  apply Ensures.bindState (infeasible_halts ha hvalues)
  intro found a₁ h₁
  cases found with
  | false =>
    apply Ensures.pureState
    exact .ofAsks h₁.2 ha fun _ => .none (not_not_intro (h₁.1.no rfl))
  | true =>
    have hdead : c = .dead → a₁.bench.failures = [] → m.IsDead f.name := fun hc hfail =>
      FeatureModel.not_allows_true_iff.mp (hvalue hc ▸ h₁.1.yes rfl hfail)
    apply (report_adds (h₁.2.sound ha) hvalues (fun _ => List.forall_mem_singleton) hdenies
      (h₁.1.yes rfl) hdead).weaken
    rintro _ a₂ ⟨hsound, diagnoses, truncated, hadds⟩
    refine .afterAsks h₁.2 ⟨hsound, _, hadds, fun hfail => ?_⟩
    exact .some (h₁.1.yes rfl (hadds.failures_eq_nil hfail)) rfl

theorem checkValues_detects {fs : List Feature} {value : Bool} (ha : a.Sound m config w)
    (hfs : ∀ f ∈ fs, f.name ∈ m.names) (hvalue : c = .dead → value = true)
    (hdenies : ∀ f ∈ fs, ∀ diagnoses truncated,
      Finding.Denies m ⟨c, f.name, diagnoses, none, truncated⟩ (fun _ => False)
        fun s => s f.name = value) :
    Ensures (· = a) (fs.forM (checkValue c value))
      (fun _ => Detects m config w c (Excluded m value (fs.map (·.name))) a)
      (Halts m config w) := by
  apply forM_detects (P := fun fs : List Feature => Excluded m value (fs.map (·.name))) ha Picks.nil
  intro done f rest hsplit a₁ h₁
  have hf : f ∈ fs := hsplit ▸ List.mem_append_right _ List.mem_cons_self
  apply (checkValue_detects h₁ (hfs f hf) hvalue (hdenies f hf)).weaken
  intro _ a₂ h₂
  refine h₂.mono fun gs hgs gs' hgs' => ?_
  rw [List.map_append]
  exact Picks.append hgs' hgs

/-! ### Probes of one feature after the other -/

theorem noted_ensures {n : Journal.Note} {probe : List Feature → Analysis Unit}
    {post : Unit → Analyzer → Prop} (ha : a.Sound m config w)
    (hvisit : m.nonRoot config.order = .ok visited)
    (h : ∀ fs a₁, fs.map (·.name) = visited.map (·.name) → (∀ f ∈ fs, f.name ∈ m.names) →
      Asks a a₁ → Ensures (· = a₁) (probe fs) post (Halts m config w)) :
    Ensures (· = a) (note n >>= fun _ => nonRoot >>= probe) post (Halts m config w) := by
  apply Ensures.bindState (note_asks _)
  intro _ a₁ h₁
  have hsound := h₁.sound ha
  apply Ensures.bind (nonRoot_returns hsound.standing.alike hsound.config_eq hvisit)
  intro fs
  apply Ensures.assuming
  intro hfs
  exact h fs a₁ hfs.1 hfs.2 h₁

/-- All dead ones among the features are tagged by the findings about them. -/
theorem hasTag_of_excluded {a' : Analyzer} {fs : List Finding} (ha : a.Sound m config w)
    (hvisit : m.nonRoot config.order = .ok visited) (hadds : Adds .dead fs a a')
    (hfs : Excluded m true (visited.map (·.name)) fs) {f : Feature} (hf : f ∈ visited)
    (hdead : m.IsDead f.name) : a'.bench.model.hasTag f.name .dead = true := by
  have hfound : f.name ∈ fs.map (·.subject) := by
    rw [Picks.map_eq hfs, List.mem_filter]
    exact ⟨List.mem_map_of_mem hf, by simpa using FeatureModel.not_allows_true_iff.mpr hdead⟩
  obtain ⟨fd, hfd, hsubject⟩ := List.mem_map.mp hfound
  rw [hadds.model, hasTag_foldl_tagged_iff]
  refine .inr ⟨fd, hfd, hsubject, ?_, ?_⟩
  · rw [hadds.category fd hfd]
    rfl
  · rw [← ha.standing.alike.names]
    exact FeatureModel.mem_names_of_nonRoot hvisit hf

/-- The features that no product has are recorded as dead. -/
theorem checkDead_detects (ha : a.Sound m config w) (hvisit : m.nonRoot config.order = .ok visited) :
    Ensures (· = a) checkDead
      (fun _ => Detects m config w .dead (Excluded m true (visited.map (·.name))) a)
      (Halts m config w) := by
  unfold checkDead
  refine noted_ensures ha hvisit ?_
  intro fs a₁ hnames hfs h₁
  apply Ensures.bind (checkValues_detects (c := .dead) (h₁.sound ha) hfs (fun _ => rfl)
    fun f hf _ _ => .dead rfl (hfs f hf))
  intro _
  apply Ensures.modify
  intro a₂ h₂
  rw [hnames] at h₂
  obtain ⟨hsound, fs', hadds, hexact⟩ := h₂.afterAsks h₁
  refine ⟨{ hsound with marked := fun hfail => { hsound.marked hfail with checked := ?_ } }, fs',
    { hadds with }, hexact⟩
  intro _ visited' hvisit' f hf hdead
  rw [hvisit] at hvisit'
  cases hvisit'
  exact hasTag_of_excluded ha hvisit hadds (hexact hfail) hf hdead

theorem checkFullMandatory_detects (ha : a.Sound m config w)
    (hvisit : m.nonRoot config.order = .ok visited) :
    Ensures (· = a) checkFullMandatory
      (fun _ => Detects m config w .fullMandatory (Excluded m false (visited.map (·.name))) a)
      (Halts m config w) := by
  unfold checkFullMandatory
  refine noted_ensures ha hvisit ?_
  intro fs a₁ hnames hfs h₁
  have hdenies : ∀ f ∈ fs, ∀ diagnoses truncated,
      Finding.Denies m ⟨.fullMandatory, f.name, diagnoses, none, truncated⟩ (fun _ => False)
        fun s => s f.name = false := by
    intro f hf diagnoses truncated
    refine .fullMandatory rfl fun root hroot hname => FeatureModel.root_not_mem_nonRoot hvisit hroot ?_
    rw [hname, ← hnames]
    exact List.mem_map_of_mem hf
  apply (checkValues_detects (c := .fullMandatory) (h₁.sound ha) hfs (fun h => nomatch h)
    hdenies).weaken
  intro _ a₂ h₂
  rw [hnames] at h₂
  exact h₂.afterAsks h₁

end Analysis
end Anomaly
end ProductLine
