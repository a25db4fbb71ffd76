import ProductLine.Anomaly.Verdict
import ProductLine.Proofs.Anomaly.Pairs
import ProductLine.Proofs.Anomaly.Probes
import ProductLine.Proofs.FeatureModel.Made

/-! # What the probes of several features find

Features are conditionally dead or false optional only together with others, and a constraint is
redundant only beside the others. As long as the engine does not fail, conditionally dead features are
found exactly (`checkConditionallyDead_detects`), by what the loop over the pairs has entered after
some of them. Of optional features exactly those are found that the first mandatory feature which
requires them insists on (`checkFalseOptional_detects`), and redundant constraints are found exactly
again (`checkRedundancies_detects`). -/

namespace ProductLine
namespace Anomaly
namespace Analysis

open Constraint Diagnosis Outcome Workbench

variable {m : FeatureModel} {config : Config} {w : World} {a : Analyzer} {c : Category}
  {visited : List Feature}

/-! ### Features that do not go together -/

/-- Whether a feature is dead is answered rightly, unless the engine failed or the model had tags at
the beginning. -/
theorem isDead_asks {f : Feature} (ha : a.Sound m config w)
    (hvisit : m.nonRoot config.order = .ok visited) (hf : f.name ∈ visited.map (·.name)) :
    Ensures (· = a) (isDead f)
      (fun dead a' => (a'.bench.failures = [] → m.Made → (dead = true ↔ m.IsDead f.name)) ∧
        Asks a a') (Halts m config w) := by
  obtain ⟨g, hg, hgf⟩ := List.mem_map.mp hf
  have hmem : f.name ∈ m.names := hgf ▸ FeatureModel.mem_names_of_nonRoot hvisit hg
  unfold isDead
  apply Ensures.get_bind
  intro s hs
  rw [hs]
  split
  · next hchecked =>
    apply Ensures.pureState
    refine ⟨fun hfail hmade => ⟨fun htag => ?_, fun hdead => ?_⟩, Asks.refl a⟩
    · rcases (ha.marked hfail).dead _ htag with hbefore | hdead
      · rw [hmade.hasTag_eq_false] at hbefore
        cases hbefore
      · exact hdead
    · rw [← hgf] at hdead ⊢
      exact (ha.marked hfail).checked hchecked visited hvisit g hg hdead
  · apply (infeasible_halts ha (List.forall_mem_singleton.mpr hmem)).weaken
    intro found a' h
    refine ⟨fun hfail _ => ?_, h.2⟩
    rw [← FeatureModel.not_allows_true_iff]
    cases found with
    | false => exact iff_of_false Bool.false_ne_true (not_not_intro (h.1.no rfl))
    | true => exact iff_of_true rfl (h.1.yes rfl hfail)

theorem living_append (names names' : List String) :
    living m (names ++ names') = living m names ++ living m names' := List.filter_append ..

theorem living_singleton {name : String} {o : Option String} (hsome : ∀ n, o = some n → n = name)
    (h : o.isSome = true ↔ m.isOptional name = true ∧ m.Allows [(name, true)]) :
    o.toList = living m [name] := by
  unfold living
  cases o with
  | none => rw [List.filter_cons_of_neg (by simpa using h), List.filter_nil, Option.toList_none]
  | some n =>
    rw [List.filter_cons_of_pos (by simpa using h), List.filter_nil, hsome n rfl, Option.toList_some]

theorem livingOptional?_asks {f : Feature} (ha : a.Sound m config w)
    (hvisit : m.nonRoot config.order = .ok visited) (hf : f.name ∈ visited.map (·.name)) :
    Ensures (· = a) (livingOptional? f)
      (fun o a' => (∀ name, o = some name → name = f.name) ∧
        (a'.bench.failures = [] → m.Made → o.toList = living m [f.name]) ∧ Asks a a')
      (Halts m config w) := by
  unfold livingOptional?
  apply Ensures.bind model_returns
  intro n
  apply Ensures.ofState
  rintro _ ⟨rfl, rfl⟩
  rw [← ha.standing.alike.isOptional]
  split
  · next hoptional =>
    apply Ensures.bind (isDead_asks ha hvisit hf)
    intro dead
    apply Ensures.pure
    rintro a₁ ⟨hdead, h₁⟩
    have hsome : ∀ name, (if dead = true then none else some f.name) = some name →
        name = f.name := by
      intro name hname
      split at hname
      · cases hname
      · exact (Option.some.inj hname).symm
    refine ⟨hsome, fun hfail hmade => living_singleton hsome ?_, h₁⟩
    have hallows : m.Allows [(f.name, true)] ↔ dead = false := by
      rw [← Bool.not_eq_true, hdead hfail hmade, ← FeatureModel.not_allows_true_iff, not_not]
    cases dead <;> simp [hoptional, hallows]
  · next hnot =>
    apply Ensures.pureState
    have hsome : ∀ name, none = some name → name = f.name := fun _ h => nomatch h
    exact ⟨hsome, fun _ _ => living_singleton hsome (by simp [hnot]), Asks.refl _⟩

theorem livingOptional_asks (ha : a.Sound m config w)
    (hvisit : m.nonRoot config.order = .ok visited) :
    Ensures (· = a) livingOptional
      (fun names a' => names ⊆ m.names ∧
        (a'.bench.failures = [] → m.Made → names = living m (visited.map (·.name))) ∧ Asks a a')
      (Halts m config w) := by
  unfold livingOptional
  apply Ensures.bind (nonRoot_returns ha.standing.alike ha.config_eq hvisit)
  intro fs
  apply Ensures.assuming
  rintro ⟨hnames, hfs⟩
  have hrun : Ensures (· = a) (fs.mapM livingOptional?)
      (fun os a' => os.filterMap id ⊆ m.names ∧
        (a'.bench.failures = [] → m.Made → os.filterMap id = living m (fs.map (·.name))) ∧
        Asks a a')
      (Halts m config w) := by
    refine (Ensures.mapM_done (I := fun (done : List Feature) os a' => os.filterMap id ⊆ m.names ∧
      (a'.bench.failures = [] → m.Made → os.filterMap id = living m (done.map (·.name))) ∧
      Asks a a') ?_).inState ⟨List.nil_subset _, fun _ _ => rfl, Asks.refl a⟩
    intro done f rest os hsplit
    have hf : f ∈ fs := hsplit ▸ List.mem_append_right _ List.mem_cons_self
    apply Ensures.ofState
    rintro a₁ ⟨hsub, hliving, h₁⟩
    apply (livingOptional?_asks (h₁.sound ha) hvisit (hnames ▸ List.mem_map_of_mem hf)).weaken
    rintro o a₂ ⟨hsome, hone, h₂⟩
    have hlast : [o].filterMap id = o.toList := by cases o <;> rfl
    rw [List.filterMap_append, hlast]
    refine ⟨List.append_subset.mpr ⟨hsub, ?_⟩, fun hfail hmade => ?_, h₁.trans h₂⟩
    · intro name hname
      rw [hsome name (Option.mem_toList.mp hname)]
      exact hfs f hf
    · rw [List.map_append, List.map_singleton, living_append, hone hfail hmade,
        hliving ((h₂.adds .conditionallyDead).failures_eq_nil hfail) hmade]
  apply Ensures.bind hrun
  intro os
  apply Ensures.pure
  intro a₁ h₁
  rw [← hnames]
  exact h₁

/-- Findings that make some entries, one for every key that has none yet; those that had one were
reported before, and those that have one now are reported. -/
def Entered (entries : List (String × Option String)) (reported reported' : List String)
    (gs : List Finding) : Prop :=
  ∀ fs : List Finding, reported = fs.map (·.subject) → reported' = (fs ++ gs).map (·.subject) ∧
    (fs ++ gs).map Finding.entry = entries.foldl enter (fs.map Finding.entry)

theorem map_fst_entry (fs : List Finding) : (fs.map Finding.entry).map Prod.fst = fs.map (·.subject) := by
  rw [List.map_map]
  rfl

theorem Entered.of_mem {entries : List (String × Option String)} {reported : List String}
    (h : ∀ x ∈ entries, x.1 ∈ reported) : Entered entries reported reported [] := by
  intro fs hfs
  rw [List.append_nil]
  refine ⟨hfs, (foldl_enter_of_mem ?_).symm⟩
  rw [map_fst_entry, ← hfs]
  exact h

theorem Entered.append {entries entries' : List (String × Option String)}
    {reported reported' reported'' : List String} {gs gs' : List Finding}
    (h : Entered entries reported reported' gs) (h' : Entered entries' reported' reported'' gs') :
    Entered (entries ++ entries') reported reported'' (gs ++ gs') := by
  intro fs hfs
  obtain ⟨hreported, hentries⟩ := h fs hfs
  obtain ⟨hreported', hentries'⟩ := h' _ hreported
  rw [← List.append_assoc, List.foldl_append, ← hentries]
  exact ⟨hreported', hentries'⟩

theorem entered_new {reported : List String} {fd : Finding} (h : fd.subject ∉ reported) :
    Entered [fd.entry] reported (reported ++ [fd.subject]) [fd] := by
  rintro fs rfl
  rw [List.foldl_cons, List.foldl_nil, enter, map_fst_entry, List.map_append, List.map_append]
  exact ⟨rfl, (if_neg h).symm⟩

theorem recordPartner_detects {all : Enumeration} {reported : List String} {f partner : String}
    (ha : a.Sound m config w) (hboth : f ∈ m.names ∧ partner ∈ m.names)
    (hall : AllMend m a.bench.store (Undisturbed m config w) (fun _ => False)
      (fun v => v f = true ∧ v partner = true) all)
    (hjust : Undisturbed m config w →
      ¬m.Admits (fun _ => False) fun v => v f = true ∧ v partner = true) :
    Ensures (· = a) (recordPartner all reported f partner)
      (fun reported' => Detects m config w .conditionallyDead
        (Entered [(f, some partner)] reported reported') a) (Halts m config w) := by
  unfold recordPartner
  split
  · next hin =>
    apply Ensures.pureState
    exact .ofAsks (.refl a) ha fun _ => .of_mem (List.forall_mem_singleton.mpr hin)
  · next hnew =>
    have hrecord := record_adds .conditionallyDead f (some partner) ha hall
      (fun _ _ => .conditionallyDead rfl rfl hboth) hjust fun h => nomatch h
    apply Ensures.bind (hrecord.weakenFail fun _ _ => False.elim)
    intro _
    apply Ensures.pure
    rintro a₁ ⟨hsound, diagnoses, truncated, hadds⟩
    have hfresh : (⟨.conditionallyDead, f, diagnoses, some partner, truncated⟩ : Finding).subject ∉
        reported := hnew
    exact ⟨hsound, _, hadds, fun _ => entered_new hfresh⟩

theorem clash_iff {f g : String} : clash m f g = true ↔ ¬m.Allows [(f, true), (g, true)] := by
  simp only [clash, decide_eq_true_eq]

/-- Two features that do not go together are entered, each with the other as its partner. -/
theorem checkPair_detects {reported : List String} {pair : String × String}
    (ha : a.Sound m config w) (hpair : pair.1 ∈ m.names ∧ pair.2 ∈ m.names) :
    Ensures (· = a) (checkPair reported pair)
      (fun reported' => Detects m config w .conditionallyDead
        (Entered (partners (clash m) pair) reported reported') a) (Halts m config w) := by
  have hvalues : ∀ x ∈ [(pair.1, true), (pair.2, true)], x.1 ∈ m.names := by simpa using hpair
  unfold checkPair
  split
  · next hin =>
    apply Ensures.pureState
    refine .ofAsks (.refl a) ha fun _ => .of_mem fun x hx => ?_
    rcases mem_of_mem_partners hx with hleft | hright
    · exact hleft ▸ hin.1
    · exact hright ▸ hin.2
  apply Ensures.bindState (infeasible_halts ha hvalues)
  intro found a₁ h₁
  have hsound₁ := h₁.2.sound ha
  cases found with
  | false =>
    apply Ensures.pureState
    refine .ofAsks h₁.2 ha fun _ => ?_
    rw [partners_of_not (Bool.eq_false_iff.mpr fun h => clash_iff.mp h (h₁.1.no rfl))]
    exact .of_mem (List.forall_mem_nil _)
  | true =>
    apply Ensures.bindState (note_asks _)
    intro _ a₂ h₂
    have hsound₂ := h₂.sound hsound₁
    apply Ensures.bindState (diagnosePerturbation_halts hsound₂ hvalues)
    intro all a₃ h₃
    have hall := (h₃.2.adds .conditionallyDead).allMend h₃.1
    -- both features are recorded with what is found once, so that is put in either order
    have hboth : ∀ v : Selection, (∀ x ∈ [(pair.1, true), (pair.2, true)], v x.1 = x.2) ↔
        v pair.1 = true ∧ v pair.2 = true := by
      intro v
      simp
    have hswapped := fun v => (hboth v).trans and_comm
    have hnot := fun {p} => not_admits_of_found (p := p) hsound₁ (h₁.1.yes rfl)
    apply Ensures.bindState (recordPartner_detects (h₃.2.sound hsound₂) hpair
      (hall.mono rfl id hboth) (hnot hboth))
    intro reported₁ a₄ h₄
    obtain ⟨fs, hadds, -⟩ := h₄.found
    apply (recordPartner_detects h₄.sound hpair.symm (hall.mono hadds.cf id hswapped)
      (hnot hswapped)).weaken
    intro reported₂ a₅ h₅
    have hentered := Detects.afterAsks (h₂.trans h₃.2) (h₄.trans h₅ fun _ _ => Entered.append)
    obtain ⟨gs, hgs, hentries⟩ := hentered.found
    refine .afterAsks h₁.2 ⟨hentered.sound, gs, hgs, fun hfail => ?_⟩
    rw [partners_of_clash (clash_iff.mpr (h₁.1.yes rfl (hgs.failures_eq_nil hfail)))]
    exact hentries hfail

theorem clash_comm (f g : String) : clash m f g = clash m g f := by
  have hcomm : m.Allows [(f, true), (g, true)] ↔ m.Allows [(g, true), (f, true)] := by
    unfold FeatureModel.Allows
    simp [and_comm]
  exact decide_eq_decide.mpr (not_congr hcomm)

/-- Those features are recorded as conditionally dead that do not go with some other one, each with
the first such one. -/
theorem checkConditionallyDead_detects (ha : a.Sound m config w)
    (hvisit : m.nonRoot config.order = .ok visited) :
    Ensures (· = a) checkConditionallyDead
      (fun _ => Detects m config w .conditionallyDead (fun fs => m.Made →
        (fs.map Finding.entry).Perm (rivals m (living m (visited.map (·.name))))) a)
      (Halts m config w) := by
  unfold checkConditionallyDead
  apply Ensures.bindState (note_asks _)
  intro _ a₁ h₁
  apply Ensures.bindState (livingOptional_asks (h₁.sound ha) hvisit)
  rintro names a₂ ⟨hsub, hliving, h₂⟩
  have hsound₂ := h₂.sound (h₁.sound ha)
  apply Ensures.discard
  -- invariant of the pairs: entered is what the pairs so far say, in their order
  have hrun : Ensures (· = a₂) ((pairs names).foldlM checkPair [])
      (fun reported => Detects m config w .conditionallyDead
        (Entered ((pairs names).flatMap (partners (clash m))) [] reported) a₂)
      (Halts m config w) := by
    refine (Ensures.foldlM_done (I := fun done reported => Detects m config w .conditionallyDead
      (Entered (done.flatMap (partners (clash m))) [] reported) a₂) ?_).inState
      (.ofAsks (.refl a₂) hsound₂ fun _ => .of_mem (List.forall_mem_nil _))
    intro done pair rest reported hsplit
    have hmem : pair ∈ pairs names := hsplit ▸ List.mem_append_right _ List.mem_cons_self
    have hpair := mem_of_mem_pairs hmem
    apply Ensures.ofState
    intro a₃ h₃
    apply (checkPair_detects h₃.sound ⟨hsub hpair.1, hsub hpair.2⟩).weaken
    intro reported' a₄ h₄
    rw [List.flatMap_append, List.flatMap_singleton]
    exact h₃.trans h₄ fun _ _ => Entered.append
  apply hrun.weaken
  intro reported a₃ h₃
  obtain ⟨fs, hadds, hentered⟩ := h₃.found
  refine .afterAsks (h₁.trans h₂) ⟨h₃.sound, fs, hadds, fun hfail hmade => ?_⟩
  have hentries := (hentered hfail [] rfl).2
  have hnodup : (living m (visited.map (·.name))).Nodup :=
    (FeatureModel.nonRoot_nodup hmade.names_nodup hvisit).filter _
  rw [List.nil_append] at hentries
  rw [hentries, hliving (hadds.failures_eq_nil hfail) hmade]
  exact perm_partners hnodup clash_comm

/-! ### Features that others require -/

/-- The first mandatory feature that requires an optional one is in no product without it. -/
structure Insists (m : FeatureModel) (name : String) (p : Feature) : Prop where
  optional : m.isOptional name = true
  first : ∃ fs, m.requiring name = .ok fs ∧ fs.find? (fun q => m.isMandatory q.name) = some p
  notWithout : ¬m.Allows [(name, false), (p.name, true)]

theorem Insists.unique {name : String} {p q : Feature} (h : Insists m name p)
    {fs : List Feature} (hfs : m.requiring name = .ok fs)
    (hq : fs.find? (fun q => m.isMandatory q.name) = some q) : q = p := by
  obtain ⟨fs', hfs', hp⟩ := h.first
  cases hfs.symm.trans hfs'
  exact Option.some.inj (hq.symm.trans hp)

/-- The findings are about exactly the names of which the first mandatory feature that requires them
insists on them. -/
def InsistedOn (m : FeatureModel) : List String → List Finding → Prop :=
  Picks (fun name => ∃ p, Insists m name p) fun name fd => fd.subject = name

/-- With the first mandatory feature that requires it at hand, an optional feature is recorded exactly if
that one is in no product without it. -/
theorem requirer_detects {f p : Feature} {fs : List Feature} (ha : a.Sound m config w)
    (hf : f.name ∈ m.names) (hoptional : m.isOptional f.name = true)
    (hfs : m.requiring f.name = .ok fs) (hp : fs.find? (fun q => m.isMandatory q.name) = some p) :
    Ensures (· = a) (do
      if ← infeasible [(f.name, false), (p.name, true)] then
        report .falseOptional f [(f.name, false), (p.name, true)])
      (fun _ => Detects m config w .falseOptional (InsistedOn m [f.name]) a) (Halts m config w) := by
  have hmem : p.name ∈ m.names := List.mem_map_of_mem
    (FeatureModel.requiring_subset hfs (List.mem_of_find?_eq_some hp))
  have hvalues : ∀ x ∈ [(f.name, false), (p.name, true)], x.1 ∈ m.names := by
    simpa using And.intro hf hmem
  have hboth : ∀ v : Selection, (∀ x ∈ [(f.name, false), (p.name, true)], v x.1 = x.2) ↔
      v f.name = false ∧ v p.name = true := by
    intro v
    simp
  apply Ensures.bindState (infeasible_halts ha hvalues)
  intro found a₁ h₁
  cases found with
  | true =>
    have hother : Category.falseOptional ≠ .dead := by decide
    apply (report_adds (h₁.2.sound ha) hvalues hboth (fun _ _ => .falseOptional rfl hfs hp)
      (h₁.1.yes rfl) fun h => absurd h hother).weaken
    rintro _ a₂ ⟨hsound, diagnoses, truncated, hadds⟩
    refine .afterAsks h₁.2 ⟨hsound, _, hadds, fun hfail => ?_⟩
    exact .some ⟨p, hoptional, ⟨fs, hfs, hp⟩, h₁.1.yes rfl (hadds.failures_eq_nil hfail)⟩ rfl
  | false =>
    apply Ensures.pureState
    refine .ofAsks h₁.2 ha fun _ => .none ?_
    rintro ⟨p', hp'⟩
    have hnot := hp'.notWithout
    rw [← hp'.unique hfs hp] at hnot
    exact hnot (h₁.1.no rfl)

/-- An optional feature is recorded exactly if the first mandatory feature that requires it is in no
product without it. -/
theorem checkRequired_detects {f : Feature} (ha : a.Sound m config w) (hf : f.name ∈ m.names) :
    Ensures (· = a) (checkRequired f)
      (fun _ => Detects m config w .falseOptional (InsistedOn m [f.name]) a) (Halts m config w) := by
  have hleft : ∀ r ∈ m.crossTree, ∃ s, r.left = .text s := by
    intro r hr
    obtain ⟨-, x, -, -, -, -, hx, -⟩ := ha.standing.faithful.crossTree r hr
    exact ⟨x, hx⟩
  obtain ⟨fs, hfs⟩ := FeatureModel.requiring_total hleft f.name
  obtain ⟨fs', hfs', hnames⟩ := ha.standing.alike.requiring hfs
  -- the model itself has a feature of the same name
  have hfirst := ha.standing.alike.find?_isMandatory hnames
  unfold checkRequired
  apply Ensures.bindState model_returns
  rintro n _ ⟨rfl, rfl⟩
  rw [← ha.standing.alike.isOptional]
  split
  · next hoptional =>
    simp only [hfs', orFail, pure_bind]
    split
    · next hnone =>
      apply Ensures.pureState
      refine .ofAsks (.refl _) ha fun _ => .none ?_
      rintro ⟨p, hp⟩
      obtain ⟨_, hfs'', hsome⟩ := hp.first
      cases hfs.symm.trans hfs''
      rw [hnone, hsome] at hfirst
      cases hfirst
    · next q hq =>
      rw [hq, Option.map_some] at hfirst
      obtain ⟨p, hp, hpq⟩ := Option.map_eq_some_iff.mp hfirst
      rw [← hpq]
      exact requirer_detects ha hf hoptional hfs hp
  · next hnot =>
    apply Ensures.pureState
    refine .ofAsks (.refl _) ha fun _ => .none ?_
    rintro ⟨_, hp⟩
    exact hnot hp.optional

theorem checkFalseOptional_detects (ha : a.Sound m config w)
    (hvisit : m.nonRoot config.order = .ok visited) :
    Ensures (· = a) checkFalseOptional
      (fun _ => Detects m config w .falseOptional (InsistedOn m (visited.map (·.name))) a)
      (Halts m config w) := by
  unfold checkFalseOptional
  apply noted_ensures ha hvisit
  intro fs a₁ hvisited hfs h₁
  have hrun : Ensures (· = a₁) (fs.forM checkRequired)
      (fun _ => Detects m config w .falseOptional (InsistedOn m (fs.map (·.name))) a₁)
      (Halts m config w) := by
    apply forM_detects (P := fun fs : List Feature => InsistedOn m (fs.map (·.name))) (h₁.sound ha)
      Picks.nil
    intro done f rest hsplit a₂ h₂
    have hf : f ∈ fs := hsplit ▸ List.mem_append_right _ List.mem_cons_self
    apply (checkRequired_detects h₂ (hfs f hf)).weaken
    intro _ a₃ h₃
    refine h₃.mono fun gs hgs gs' hgs' => ?_
    rw [List.map_append]
    exact Picks.append hgs' hgs
  rw [← hvisited]
  exact hrun.weaken fun _ _ h₂ => h₂.afterAsks h₁

/-! ### Constraints that others imply -/

/-- The findings are about exactly the redundant ones among constraints from the first one on. -/
def Implied (m : FeatureModel) (rs : List Relationship) : List Finding → Prop :=
  Picks (fun x : Relationship × Nat => m.IsRedundant x.2) (fun x fd => x.1.rule = .ok fd.subject)
    rs.zipIdx

theorem Implied.append {done : List Relationship} {r : Relationship} {fs gs : List Finding}
    (h : Implied m done fs)
    (h' : Picks (fun x : Relationship × Nat => m.IsRedundant x.2)
      (fun x fd => x.1.rule = .ok fd.subject) [(r, done.length)] gs) :
    Implied m (done ++ [r]) (fs ++ gs) := by
  unfold Implied
  rw [List.zipIdx_append, List.zipIdx_singleton, Nat.zero_add]
  exact Picks.append h h'

theorem checkImplied_detects {done rest : List Relationship} {r : Relationship}
    (ha : a.Sound m config w) (hsplit : m.crossTree = done ++ r :: rest) :
    Ensures (· = a) (checkImplied r)
      (fun _ => Detects m config w .redundant (fun gs => ∀ fs, (m.Arranged → Implied m done fs) →
        m.Arranged → Implied m (done ++ [r]) (fs ++ gs)) a)
      (Halts m config w) := by
  have hr : r ∈ m.crossTree := hsplit ▸ List.mem_append_right _ List.mem_cons_self
  unfold checkImplied
  apply Ensures.get_bind
  intro s hs
  rw [hs]
  have hasks := onBench_asks (diagnoseImplied_probed a hr ha.standing)
  rw [ha.limits_eq] at hasks
  apply Ensures.bindState (hasks.weakenFail fun _ _ => .of_asks ha)
  intro result a₁ h₁
  cases result with
  | none =>
    apply Ensures.pureState
    exact .ofAsks h₁.2 ha fun _ fs hfs hm =>
      (hfs hm).append (.none ((hm.admits_same_iff hsplit).mp (h₁.1.no rfl)))
  | some found =>
    obtain ⟨rule, all⟩ := found
    obtain ⟨hrule, hall⟩ := h₁.1.mend rule all rfl
    have hrecord := record_adds .redundant rule none (h₁.2.sound ha)
      ((h₁.2.adds .redundant).allMend (hall.mono rfl ha.quiet fun _ => Iff.rfl))
      (fun _ _ => .redundant rfl hr hrule)
      (fun hw => h₁.1.yes _ rfl ((h₁.2.sound ha).unfailing hw.1).2) fun h => nomatch h
    apply (hrecord.weakenFail fun _ _ => False.elim).weaken
    rintro _ a₂ ⟨hsound, diagnoses, truncated, hadds⟩
    refine .afterAsks h₁.2 ⟨hsound, _, hadds, fun hfail fs hfs hm => (hfs hm).append ?_⟩
    have hnot := h₁.1.yes _ rfl (hadds.failures_eq_nil hfail)
    exact .some (not_not.mp (mt (hm.admits_same_iff hsplit).mpr hnot)) hrule

theorem checkImplieds_detects {rs : List Relationship} {rest : List Relationship}
    (ha : a.Sound m config w) (hsplit : m.crossTree = rs ++ rest) :
    Ensures (· = a) (rs.forM checkImplied)
      (fun _ => Detects m config w .redundant (fun fs => m.Arranged → Implied m rs fs) a)
      (Halts m config w) := by
  apply forM_detects (P := fun rs fs => m.Arranged → Implied m rs fs) ha fun _ => Picks.nil
  intro done r others hrs a₁ h₁
  have hall : m.crossTree = done ++ r :: (others ++ rest) := by
    rw [hsplit, hrs, List.append_assoc, List.cons_append]
  exact checkImplied_detects h₁ hall

theorem checkRedundancies_detects (ha : a.Sound m config w) :
    Ensures (· = a) checkRedundancies
      (fun _ => Detects m config w .redundant (fun fs => m.Arranged → Implied m m.crossTree fs) a)
      (Halts m config w) := by
  unfold checkRedundancies
  apply Ensures.bindState (note_asks _)
  intro _ a₁ h₁
  apply Ensures.bindState model_returns
  rintro n _ ⟨rfl, rfl⟩
  rw [← (h₁.sound ha).standing.alike.crossTree]
  apply (checkImplieds_detects (h₁.sound ha) (List.append_nil _).symm).weaken
  intro _ a₂ h₂
  exact h₂.afterAsks h₁

end Analysis
end Anomaly
end ProductLine
