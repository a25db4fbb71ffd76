import ProductLine.Anomaly.Probes
import ProductLine.Proofs.Anomaly.Explanations
import ProductLine.Proofs.Constraint.Redundancy
import ProductLine.Proofs.Workbench.Probes

/-! # What diagnoses on a workbench are

The engine that an analysis asks is an honest setting (`setting_honest`), however often it fails.
So whatever diagnoses are found name relationships of the model without which it would have a
product that is as the probe asked for (`Mends`): for the model itself (`diagnoseVoid_probed`), with
assignments (`diagnosed_probed`), and with a constraint replaced by its opposite
(`diagnoseImplied_probed`). On a `Quiet` workbench the setting is exact (`setting_exact`), so that the
diagnoses are minimal ones. -/

namespace ProductLine

open Constraint Workbench

namespace Anomaly
namespace Analysis

open Diagnosis

variable {m : FeatureModel} {b : Workbench} {limits : Limits} {candidates background : List Constraint}

/-- What can end the search for diagnoses between two worlds: it is called off, or it is in trouble by
itself, which is that the clock overran unless a bound is no number. -/
structure Stops (w : World) (limits : Limits) (e : Failure) (w' : World) : Prop where
  cause : CalledOff w e ∨ limits.Trouble e
  overrun : e = .clockOverrun → w.Overran w'

theorem Stops.before {w₀ w w' : World} {e : Failure} (h : Stops w limits e w')
    (hidle : w₀.Idle → w.Idle) (htime : w₀.Precedes w) : Stops w₀ limits e w' :=
  ⟨h.cause.imp_left (·.before hidle), fun he => (h.overrun he).earlier htime⟩

theorem Stops.calledOff {w w' : World} {e : Failure} (h : CalledOff w e) : Stops w limits e w' :=
  ⟨.inl h, fun he => Failure.noConfusion (h.1.symm.trans he)⟩

theorem Stops.refused {w w' : World} {e : Failure} (h : limits.Refuses e) : Stops w limits e w' :=
  ⟨.inr fun hnum => absurd hnum h.1, fun he => by
    obtain ⟨-, bound, hbound⟩ := h
    exact Failure.noConfusion (hbound.symm.trans he)⟩

theorem Stops.afterChecked {c d : Workbench} {e : Failure} (hc : Checked b c)
    (h : Stops c.world limits e d.world ∧ Checked c d) :
    Stops b.world limits e d.world ∧ Checked b d :=
  ⟨h.1.before hc.idle hc.time, hc.trans h.2⟩

theorem setting_honest {all : List Constraint} (limits : Limits)
    (hsound : b.store.posting.Sound) (hvars : ∀ c ∈ all, c.formula.vars ⊆ b.store.vars) :
    setting.Honest (Checked b) (fun e c => Stops b.world limits e c.world ∧ Checked b c) all where
  isConsistent _ hcs := (Work.isConsistent_checked hsound fun c hc => hvars c (hcs hc)).mono
    (fun _ _ h => ⟨h.1.yes, h.2⟩) fun _ _ h => ⟨.calledOff h.1, h.2⟩
  note n := Work.note_checked n
  readClock := Work.readClock_checked

/-- The workbench may have come out of checks, and between the two the clock told the times. -/
def Timed (b : Workbench) (times : List Int) (c : Workbench) : Prop :=
  Checked b c ∧ ∀ now ∈ times, b.world.Told c.world now

theorem Timed.later {times : List Int} {c d : Workbench} (h : Timed b times c) (h' : Checked c d) :
    Timed b times d := ⟨h.1.trans h', fun now hnow => (h.2 now hnow).later h'.time⟩

theorem setting_timed {all : List Constraint} (limits : Limits)
    (hsound : b.store.posting.Sound) (hvars : ∀ c ∈ all, c.formula.vars ⊆ b.store.vars) :
    setting.Timed (Timed b) (fun e c => Stops b.world limits e c.world ∧ Checked b c) all := by
  have hhonest : ∀ c, Checked b c →
      setting.Honest (Checked c) (fun e d => Stops c.world limits e d.world ∧ Checked c d) all := by
    intro c hc
    exact setting_honest limits (hc.store ▸ hsound) (hc.store ▸ hvars)
  refine ⟨fun times => ⟨?_, ?_, ?_⟩, ?_, fun h => ⟨h.1, fun t ht => h.2 t (List.mem_cons_of_mem _ ht)⟩⟩
  · intro cs hcs
    apply Ensures.ofState
    intro c hc
    exact (((hhonest c hc.1).isConsistent cs hcs).inState (.refl c)).mono
      (fun _ d hd => ⟨hd.1, hc.later hd.2⟩) fun _ _ => Stops.afterChecked hc.1
  · intro n
    apply Ensures.ofState
    intro c hc
    exact (((hhonest c hc.1).note n).inState (.refl c)).mono (fun _ d hd => hc.later hd)
      fun _ _ => Stops.afterChecked hc.1
  · apply Ensures.ofState
    intro c hc
    exact ((hhonest c hc.1).readClock.inState (.refl c)).mono (fun _ d hd => hc.later hd)
      fun _ _ => Stops.afterChecked hc.1
  · rintro times c hc
    refine ⟨@Work.readClock_checked b (fun _ _ => False) c hc.1, ?_⟩
    exact List.forall_mem_cons.mpr ⟨(World.told_tick _).earlier hc.1.time,
      fun t ht => (hc.2 t ht).later (World.precedes_tick _)⟩

theorem diagnose_checked (hsound : b.store.posting.Sound) (hc : (ids candidates).Nodup)
    (hd : ∀ c ∈ background, c.id ∉ ids candidates)
    (hvars : ∀ c ∈ background ++ candidates, c.formula.vars ⊆ b.store.vars) :
    Ensures (Checked b) (diagnose limits candidates background)
      (fun all c => (∀ d ∈ all.diagnoses, Repairs candidates background d) ∧ Checked b c)
      (fun e c => Stops b.world limits e c.world ∧ Checked b c) := by
  have he := setting_timed limits hsound hvars
  have hstart : ∀ c, Checked b c → Timed b [] c := fun c hc => ⟨hc, List.forall_mem_nil _⟩
  unfold diagnose
  apply Ensures.bind (first_honest (setting_honest limits hsound hvars) hc hd (List.Subset.refl _))
  intro found
  apply Ensures.assuming
  intro hfound
  have hsub : found ⊆ candidates := fun c hmem => List.mem_reverse.mp (hfound.1.subset hmem)
  have hall : Ensures (Checked b) (enumerate setting limits found candidates background)
      (fun all c => (∀ d ∈ all.diagnoses, Repairs candidates background d) ∧ Checked b c)
      (fun e c => Stops b.world limits e c.world ∧ Checked b c) := by
    refine ((enumerate_honest hc hd he ?_ ?_ ⟨hsub, hfound.2⟩).strengthen hstart).weaken
      fun _ _ h => ⟨h.1, h.2.1⟩
    · intro e _ c he hc
      exact ⟨.refused he, hc.1⟩
    · intro start now c hround hc
      have htold := hc.2 start (List.mem_cons_of_mem _ (List.mem_singleton_self _))
      refine ⟨⟨.inr fun _ => rfl, fun _ => ?_⟩, hc.1⟩
      exact ⟨start, now, htold, hc.2 now List.mem_cons_self, hround⟩
  apply Ensures.bind hall
  intro all
  apply Ensures.assuming
  intro hall
  split
  · apply Ensures.bind (Work.note_checked _)
    intro _
    apply Ensures.pure
    intro c h
    exact ⟨hall, h⟩
  · apply Ensures.pure
    intro c h
    exact ⟨hall, h⟩

/-! ### Searches that nothing disturbs -/

/-- The engine has not failed and will not fail, and nothing is called off. -/
structure Quiet (b : Workbench) : Prop where
  calm : b.Calm
  unfailing : b.failures = []
  idle : b.world.Idle

theorem Quiet.checked {c : Workbench} (h : Quiet b) (hc : Checked b c) : Quiet c :=
  ⟨hc.calm h.calm, (hc.unfailing h.calm).trans h.unfailing, hc.idle h.idle⟩

/-- On a quiet workbench every answer is right. -/
theorem setting_exact {all : List Constraint} (hb : Quiet b) (hsound : b.store.posting.Sound)
    (hvars : ∀ c ∈ all, c.formula.vars ⊆ b.store.vars) : setting.Exact (Checked b) all where
  isConsistent cs hcs := (Work.isConsistent_checked hsound fun c hc => hvars c (hcs hc)).mono
    (fun answer c h => ⟨⟨h.1.yes, fun hcons => by
      by_contra hno
      exact h.1.no (Bool.eq_false_iff.mpr hno) (hb.checked h.2).unfailing hcons⟩, h.2⟩)
    fun _ _ h => h.1.2 hb.idle
  note n := Work.note_checked n
  readClock := Work.readClock_checked

/-- What a search finds that nothing disturbs: minimal diagnoses of which none contains another, and some
unless there is nothing to explain or the background cannot hold. -/
structure Thorough (candidates background : List Constraint) (diagnoses : List (List Constraint)) :
    Prop where
  minimal : ∀ d ∈ diagnoses, IsMinimal candidates background d
  apart : diagnoses.Pairwise Apart
  eq_nil_iff : diagnoses = [] ↔
    Consistent (union background candidates) ∨ ¬Consistent (union background [])

theorem enumerate_thorough {keeps : Workbench → Prop} (limits : Limits)
    (hc : (ids candidates).Nodup) (hd : ∀ c ∈ background, c.id ∉ ids candidates)
    (he : setting.Exact keeps (background ++ candidates)) :
    Ensures keeps (enumerate setting limits (preferred candidates background) candidates background)
      (fun all _ => Thorough candidates background all.diagnoses) fun _ _ => True := by
  refine ((enumerate_spread hc hd he limits).strengthen fun _ h => ⟨List.forall_mem_nil _, h⟩).mono
    (fun all _ h => ⟨h.2.1, h.2.2, ?_⟩) fun _ _ _ => trivial
  rw [← preferred_eq_nil_iff hc hd, ← List.head?_eq_none_iff, h.1]
  cases preferred candidates background <;> simp

theorem diagnose_thorough (hsound : b.store.posting.Sound) (hc : (ids candidates).Nodup)
    (hd : ∀ c ∈ background, c.id ∉ ids candidates)
    (hvars : ∀ c ∈ background ++ candidates, c.formula.vars ⊆ b.store.vars) :
    Ensures (Checked b) (diagnose limits candidates background)
      (fun all _ => Quiet b → Thorough candidates background all.diagnoses) fun _ _ => True := by
  by_cases hb : Quiet b
  · have he := setting_exact hb hsound hvars
    unfold diagnose
    apply Ensures.bind ((first_exact he hc hd (List.Subset.refl _)).weakenFail
      fun _ _ => False.elim)
    intro found
    apply Ensures.assuming
    intro hfound
    rw [hfound]
    apply Ensures.bind (enumerate_thorough limits hc hd he)
    intro all
    split
    · exact Ensures.bind (Ensures.modify fun _ h => h) fun _ => Ensures.pure fun _ h _ => h
    · exact Ensures.pure fun _ h _ => h
  · intro c _
    split
    · exact fun h => absurd h hb
    · trivial

/-! ### Diagnoses of a model -/

/-- The diagnosis is one of constraints of relationships. Without the relationships that it names,
and without those skipped anyway, the model would have a product with the property. -/
structure Mends (m : FeatureModel) (s : Store) (skip : Relationship → Prop)
    (p : Selection → Prop) (diagnosis : List Constraint) : Prop where
  subset : diagnosis ⊆ s.cf
  admits : m.Admits (fun r => skip r ∨ Blames diagnosis r) p

/-- The explanation of one diagnosis contains that of the other only by an equivocal rule. -/
def Unlike (cs d d' : List Constraint) : Prop :=
  ∀ rules rules', explain d = .ok rules → explain d' = .ok rules' → Discerned cs rules rules'

/-- None of the minimal diagnoses contains another, so their explanations are unlike each other. -/
theorem Thorough.unlike {cs : List Constraint} {diagnoses : List (List Constraint)}
    (h : Thorough candidates background diagnoses) (hc : (ids candidates).Nodup)
    (hd : ∀ c ∈ background, c.id ∉ ids candidates) (hcs : candidates ⊆ cs)
    (hrule : ∀ c ∈ candidates, ∃ rule, c.rule = .ok (some rule)) : diagnoses.Pairwise (Unlike cs) := by
  refine h.apart.imp_of_mem ?_
  rintro d d' hmem hmem' hne rules rules' he he' (hpart | hpart)
  · exact equivocal_of_subset hc hd hcs hrule (h.minimal d hmem) (h.minimal d' hmem') hne.1 he he'
      hpart
  · obtain ⟨rule, hin, hin', hequivocal⟩ := equivocal_of_subset hc hd hcs hrule
      (h.minimal d' hmem') (h.minimal d hmem) hne.2 he' he hpart
    exact ⟨rule, hin', hin, hequivocal⟩

/-- Every diagnosis of the enumeration mends the model. If it was quiet, their explanations are
unlike each other, and there are some unless the model has a product with the property anyway or would
have none even without all its relationships. -/
structure AllMend (m : FeatureModel) (s : Store) (quiet : Prop) (skip : Relationship → Prop)
    (p : Selection → Prop) (all : Enumeration) : Prop where
  mends : ∀ d ∈ all.diagnoses, Mends m s skip p d
  unlike : quiet → all.diagnoses.Pairwise (Unlike s.cf)
  eq_nil_iff : quiet → (all.diagnoses = [] ↔ m.Admits skip p ∨ ¬m.Admits (fun _ => True) p)

theorem AllMend.mono {s t : Store} {quiet quiet' : Prop} {skip : Relationship → Prop}
    {p q : Selection → Prop} {all : Enumeration} (h : AllMend m s quiet skip p all)
    (hcf : t.cf = s.cf) (hquiet : quiet' → quiet) (hp : ∀ v, p v ↔ q v) :
    AllMend m t quiet' skip q all := by
  obtain rfl : p = q := funext fun v => propext (hp v)
  refine ⟨fun d hd => ?_, fun hq => ?_, fun hq => h.eq_nil_iff (hquiet hq)⟩
  · have hmend := h.mends d hd
    exact ⟨hcf ▸ hmend.subset, hmend.admits⟩
  · rw [hcf]
    exact h.unlike (hquiet hq)

theorem candidates_subset (recentFirst : Bool) (s : Store) :
    Analysis.candidates recentFirst s ⊆ s.cf := by
  unfold Analysis.candidates
  split
  · exact List.reverse_subset.mpr (List.Subset.refl _)
  · exact List.Subset.refl _

theorem subset_candidates (recentFirst : Bool) (s : Store) :
    s.cf ⊆ Analysis.candidates recentFirst s := by
  unfold Analysis.candidates
  split
  · exact List.subset_reverse.mpr (List.Subset.refl _)
  · exact List.Subset.refl _

theorem ids_candidates_nodup {s : Store} (h : (ids s.cf).Nodup) (recentFirst : Bool) :
    (ids (Analysis.candidates recentFirst s)).Nodup := by
  unfold Analysis.candidates
  split
  · rw [ids_reverse]
    exact List.nodup_reverse.mpr h
  · exact h

theorem background_eq {s : Store} {group extra : List Constraint}
    (hnd : (ids (s.ac ++ extra)).Nodup) (hg : group ⊆ s.cf)
    (hposted : s.posted = subtract s.ac group ++ extra) : s.background = s.root.toList ++ extra := by
  unfold Store.ac at hnd hposted
  rw [List.append_assoc, ids_append, List.nodup_append] at hnd
  have hapart : ∀ c ∈ s.root.toList ++ extra, c.id ∉ ids s.cf := fun c hc hi =>
    hnd.2.2 _ hi _ (id_mem_ids hc) rfl
  have hroot : subtract s.root.toList group = s.root.toList := subtract_eq_self fun c hc hi =>
    hapart c (List.mem_append_left _ hc) (List.map_subset _ hg hi)
  have hnone : subtract (subtract s.cf group) s.cf = [] :=
    subtract_eq_nil (List.map_subset _ subtract_subset)
  rw [append_subtract, hroot, List.append_assoc] at hposted
  unfold Store.background
  rw [hposted, append_subtract, hnone, subtract_eq_self hapart, List.nil_append]

/-- With a group of constraints replaced by others, every diagnosis names relationships without
which the model would have a product that is as those others say. -/
theorem diagnose_mends {s : Store} {extra : List Constraint} (limits : Limits) (recentFirst : Bool)
    (group : List Constraint) (skip : Relationship → Prop) (hstore : b.store = s)
    (hf : s.Faithful m) (hnd : (ids (s.ac ++ extra)).Nodup)
    (hextra : ∀ c ∈ extra, c.formula.vars ⊆ m.names) (hg : group ⊆ s.cf)
    (hskip : ∀ c ∈ s.cf, ∀ r, c.source = some r → (c ∈ group ↔ skip r))
    (hposting : s.posting = .of (subtract s.ac group ++ extra)) :
    Ensures (Checked b)
      (diagnose limits (subtract (Analysis.candidates recentFirst s) group) s.background)
      (fun all c => AllMend m s (Quiet b) skip (fun v => ∀ c ∈ extra, c.formula.eval v = true) all ∧
        Checked b c)
      (fun e c => Stops b.world limits e c.world ∧ Checked b c) := by
  subst hstore
  have hsub : subtract (Analysis.candidates recentFirst b.store) group ⊆ b.store.cf :=
    List.Subset.trans subtract_subset (candidates_subset recentFirst b.store)
  have hids : (ids (subtract (Analysis.candidates recentFirst b.store) group)).Nodup :=
    ids_subtract_nodup (ids_candidates_nodup hf.ids_cf_nodup recentFirst)
  have hsound : b.store.posting.Sound := by
    rw [hposting]
    exact .of_nodup (hnd.sublist ((subtract_sublist.append (List.Sublist.refl extra)).map _))
  have hout : ∀ c ∈ b.store.cf, ∀ r, c.source = some r →
      (c ∈ subtract (Analysis.candidates recentFirst b.store) group ↔ ¬skip r) := by
    intro c hc r hsource
    rw [mem_subtract, and_iff_right (subset_candidates recentFirst b.store hc),
      id_mem_ids_iff hf.ids_cf_nodup hg hc, hskip c hc r hsource]
  -- the root and what was put in have numbers of their own
  have hapart : ∀ c ∈ b.store.root.toList ++ extra,
      c.id ∉ ids (subtract (Analysis.candidates recentFirst b.store) group) := by
    intro c hc hi
    unfold Store.ac at hnd
    rw [List.append_assoc, ids_append, List.nodup_append] at hnd
    exact hnd.2.2 _ (List.map_subset _ hsub hi) _ (id_mem_ids hc) rfl
  rw [background_eq hnd hg (Store.posted_of_posting hposting)]
  have hvars : ∀ c ∈ (b.store.root.toList ++ extra) ++
      subtract (Analysis.candidates recentFirst b.store) group, c.formula.vars ⊆ m.names :=
    List.forall_mem_append.mpr ⟨List.forall_mem_append.mpr ⟨hf.root_vars, hextra⟩,
      fun c hc => hf.vars_subset c (hsub hc)⟩
  have hrules : ∀ c ∈ subtract (Analysis.candidates recentFirst b.store) group,
      ∃ rule, c.rule = .ok (some rule) := by
    intro c hc
    obtain ⟨-, -, rule, -, hrule⟩ := exists_rule_of_mem hf (hsub hc)
    exact ⟨rule, hrule⟩
  have hposts := hf.vars_of_names hvars
  refine ((diagnose_checked hsound hids hapart hposts).both
    (diagnose_thorough hsound hids hapart hposts)).mono
    (fun all c h => ⟨⟨?_, fun hb => (h.2 hb).unlike hids hapart hsub hrules, ?_⟩, h.1.2⟩)
    fun _ _ h => h.1
  · intro d hd
    have hr := h.1.1 d hd
    exact ⟨List.Subset.trans hr.subset hsub, hf.admits_of_repairs hextra hnd hsub hids
      (fun c hc r hsource => (hout c hc r hsource).mpr) hr⟩
  · intro hb
    have hnone : ∀ c ∈ b.store.cf, ∀ r, c.source = some r → (c ∈ ([] : List Constraint) ↔ ¬True) :=
      fun _ _ _ _ => iff_of_false List.not_mem_nil (not_not_intro trivial)
    rw [(h.2 hb).eq_nil_iff, hf.consistent_union_iff hextra hnd hsub hids hout,
      hf.consistent_union_iff hextra hnd (List.nil_subset _) List.nodup_nil hnone]

theorem diagnosed_probed {values : List (String × Bool)} (recentFirst : Bool)
    (hb : Standing m b) (hvalues : ∀ x ∈ values, x.1 ∈ m.names) :
    Ensures (· = b)
      (perturbation values >>= fun cs => Work.probe cs fun _ => do
        let s := (← get).store
        diagnose limits (Analysis.candidates recentFirst s) s.background)
      (fun all c => AllMend m b.store (Quiet b) (fun _ => False)
        (fun v => ∀ x ∈ values, v x.1 = x.2) all ∧ Probed b c)
      (fun e c => Stops b.world limits e c.world ∧ Probed b c) := by
  have hf : (b.perturbed values).store.Faithful m :=
    hb.faithful.numbered (Nat.le_add_right _ _) _
  have hposting : (b.perturbed values).store.posting =
      .of (subtract b.store.ac [] ++ assignments b.store.nextId values) := by
    rw [subtract_nil]
    rfl
  have hmends := diagnose_mends limits recentFirst [] (fun _ => False) rfl hf
    (hb.faithful.ids_assignments_nodup values) (vars_assignments_subset hvalues) (List.nil_subset _)
    (fun _ _ _ _ => iff_of_false List.not_mem_nil id) hposting
  rw [subtract_nil] at hmends
  have hquiet : Quiet b → Quiet (b.perturbed values) := fun hb => ⟨hb.calm, hb.unfailing, hb.idle⟩
  refine Work.perturbed_probed (Q := fun all _ => AllMend m b.store (Quiet b) (fun _ => False)
    (fun v => ∀ x ∈ values, v x.1 = x.2) all) hb hvalues (Ensures.get_bind ?_)
  intro c hc
  rw [hc.store]
  apply (hmends.inState hc).weaken
  intro all d h
  exact ⟨h.1.mono rfl hquiet fun v => eval_assignments, h.2⟩

/-- What the search for a product is worth. -/
structure VoidFinds (m : FeatureModel) (s : Store) (quiet : Prop) (result : Option Enumeration)
    (failures : List Oracle.SolverFailure) : Prop where
  no : result = none → m.HasProduct
  yes : ∀ all, result = some all → failures = [] → ¬m.HasProduct
  mend : ∀ all, result = some all → AllMend m s quiet (fun _ => False) (fun _ => True) all

theorem hasProduct_iff_allows : m.HasProduct ↔ m.Allows [] := by
  unfold FeatureModel.HasProduct FeatureModel.Allows
  exact exists_congr fun s => (and_iff_left (List.forall_mem_nil _)).symm

theorem hasProduct_iff_admits : m.HasProduct ↔ m.Admits (fun _ => False) fun _ => True := by
  rw [hasProduct_iff_allows, FeatureModel.allows_iff_admits]
  simp only [List.not_mem_nil, false_imp_iff, implies_true]

theorem diagnose_void_mends {c : Workbench} (limits : Limits) (recentFirst : Bool)
    (hb : Standing m b) (hc : Checked (b.posting (b.store.ac ++ [])) c) :
    Ensures (Checked c) (diagnose limits (Analysis.candidates recentFirst c.store) c.store.background)
      (fun all d => AllMend m b.store (Quiet c) (fun _ => False) (fun _ => True) all ∧ Checked c d)
      (fun e d => Stops c.world limits e d.world ∧ Checked c d) := by
  have hf : (b.posting (b.store.ac ++ [])).store.Faithful m :=
    hb.faithful.numbered (Nat.le_refl _) _
  have hnd : (ids (b.store.ac ++ [])).Nodup := by
    rw [List.append_nil]
    exact hb.faithful.ids_nodup
  have hposting : (b.posting (b.store.ac ++ [])).store.posting =
      .of (subtract b.store.ac [] ++ []) := by
    rw [subtract_nil]
    rfl
  have hmends := diagnose_mends limits recentFirst [] (fun _ => False) hc.store hf hnd
    (List.forall_mem_nil _) (List.nil_subset _) (fun _ _ _ _ => iff_of_false List.not_mem_nil id)
    hposting
  rw [subtract_nil] at hmends
  rw [hc.store]
  exact hmends.weaken fun all d h =>
    ⟨h.1.mono rfl id fun _ => iff_of_true (List.forall_mem_nil _) trivial, h.2⟩

theorem diagnoseVoid_probed (a : Analyzer) (hb : Standing m b) :
    Ensures (Checked b) (Work.probe [] (diagnoseVoid a))
      (fun result c => VoidFinds m b.store (Quiet b) result c.failures ∧ Checked b c)
      (fun e c => Stops b.world a.limits e c.world ∧ Checked b c) := by
  have hnd : (ids (b.store.ac ++ [])).Nodup := by
    rw [List.append_nil]
    exact hb.faithful.ids_nodup
  have hproduct : Consistent (post [] (b.store.ac ++ [])) ↔ m.HasProduct := by
    rw [post_nil_of_nodup hnd, hasProduct_iff_allows]
    exact hb.faithful.consistent_assignments_iff (n := 0) (List.forall_mem_nil _)
  have hvars : ∀ c ∈ b.store.ac ++ [], c.formula.vars ⊆ m.names :=
    List.forall_mem_append.mpr ⟨hb.faithful.vars_ac_subset, List.forall_mem_nil _⟩
  have hf : (b.posting (b.store.ac ++ [])).store.Faithful m :=
    hb.faithful.numbered (Nat.le_refl _) _
  refine Work.probe_checked hb.posting hnd ?_
  unfold diagnoseVoid
  apply Ensures.bindState ((Work.isConsistent_checked (.of_nodup hnd)
    (hf.vars_of_names hvars)).weakenFail
    fun e c h => ⟨.calledOff h.1, h.2⟩)
  rintro answer c ⟨hanswer, hc⟩
  rw [hproduct] at hanswer
  cases answer with
  | true =>
    apply Ensures.bind ((Work.note_checked _).inState hc)
    intro _
    apply Ensures.pure
    intro d hd
    exact ⟨⟨fun _ => hanswer.yes rfl,
      fun _ h => absurd h.symm (Option.some_ne_none _),
      fun _ h => absurd h.symm (Option.some_ne_none _)⟩, hd⟩
  | false =>
    apply Ensures.bind ((Work.note_checked (b := c) _).inState (.refl c))
    intro _
    apply Ensures.get_bind
    intro d hd
    have hmends := (diagnose_void_mends a.limits a.config.recentFirst hb (hc.trans hd)).inState (.refl d)
    apply Ensures.bind (hmends.weakenFail fun _ _ => Stops.afterChecked (hc.trans hd))
    intro all
    apply Ensures.pure
    intro u hu
    refine ⟨⟨fun h => absurd h (Option.some_ne_none _), ?_, ?_⟩, hc.trans (hd.trans hu.2)⟩
    · intro _ _ hfail
      have hprefix : c.failures <+: [] := hfail ▸ hd.failures.trans hu.2.failures
      exact hanswer.no rfl (List.prefix_nil.mp hprefix)
    · intro all' h
      cases h
      have hquiet : Quiet b → Quiet (b.posting (b.store.ac ++ [])) := fun hb =>
        ⟨hb.calm, hb.unfailing, hb.idle⟩
      exact hu.1.mono rfl (fun hb => (hquiet hb).checked (hc.trans hd)) fun _ => Iff.rfl

/-- What the search for a product against a constraint is worth. -/
structure ImpliedFinds (m : FeatureModel) (s : Store) (quiet : Prop) (r : Relationship)
    (result : Option (String × Enumeration)) (failures : List Oracle.SolverFailure) : Prop where
  no : result = none → m.Admits (fun r' => r.same r' = true) fun v => ¬r.Holds v
  yes : ∀ found, result = some found → failures = [] →
    ¬m.Admits (fun r' => r.same r' = true) fun v => ¬r.Holds v
  mend : ∀ rule all, result = some (rule, all) → r.rule = .ok rule ∧
    AllMend m s quiet (fun r' => r.same r' = true) (fun v => ¬r.Holds v) all

section replaced

variable {r : Relationship} {x y : String} {rest : List Value}

theorem vars_opposite_subset (hx : x ∈ m.names) (hy : y ∈ m.names) :
    ∀ c ∈ [b.opposite r x y], c.formula.vars ⊆ m.names :=
  List.forall_mem_singleton.mpr (Encoding.vars_negation_subset hx hy)

theorem vars_replaced_subset (hb : Standing m b) (r : Relationship) (hx : x ∈ m.names)
    (hy : y ∈ m.names) : ∀ c ∈ (b.replaced r x y).store.posted, c.formula.vars ⊆ m.names :=
  List.forall_mem_append.mpr ⟨fun c hc => hb.faithful.vars_ac_subset c (subtract_subset hc),
    vars_opposite_subset hx hy⟩

variable (hb : Standing m b) (hkind : r.kind.isCrossTree = true) (hleft : r.left = .text x)
  (hright : r.right = .text y :: rest) (hx : x ∈ m.names) (hy : y ∈ m.names)

include hb hkind hleft hright hx hy

/-- With a constraint replaced by its opposite, what is posted can hold exactly if a product of the rest
breaks the constraint. -/
theorem consistent_replaced_iff : Consistent (post [] (b.replaced r x y).store.posted) ↔
    m.Admits (fun r' => r.same r' = true) fun v => ¬r.Holds v := by
  rw [post_nil_of_nodup (Work.ids_replaced_nodup hb r x y)]
  exact hb.faithful.consistent_opposite_iff (Encoding.vars_negation_subset hx hy) fun _ =>
    Encoding.eval_negation_iff hkind hleft hright

theorem diagnose_replaced_mends {c : Workbench} (limits : Limits) (recentFirst : Bool)
    (hc : Checked (b.replaced r x y) c) :
    Ensures (Checked c)
      (diagnose limits (subtract (Analysis.candidates recentFirst c.store) (c.store.constraintsOf r))
        c.store.background)
      (fun all d => AllMend m b.store (Quiet c) (fun r' => r.same r' = true) (fun v => ¬r.Holds v)
        all ∧ Checked c d)
      (fun e d => Stops c.world limits e d.world ∧ Checked c d) := by
  have hf : (b.replaced r x y).store.Faithful m := hb.faithful.numbered (Nat.le_add_right _ _) _
  have hmends := diagnose_mends limits recentFirst (b.store.constraintsOf r)
    (fun r' => r.same r' = true) hc.store hf (Work.ids_opposite_nodup hb r x y)
    (vars_opposite_subset hx hy) (List.filter_subset_self _)
    (fun _ hc _ => Store.mem_constraintsOf_iff_same hc) rfl
  rw [hc.store]
  refine hmends.weaken fun all d h => ⟨h.1.mono rfl id fun v => ?_, h.2⟩
  exact List.forall_mem_singleton.trans (Encoding.eval_negation_iff hkind hleft hright)

end replaced

/-- The diagnoses of a model with a constraint replaced by its opposite. -/
theorem diagnoseImplied_probed (a : Analyzer) {r : Relationship} (hr : r ∈ m.crossTree)
    (hb : Standing m b) :
    Ensures (· = b) (Work.retracted r fun _ => diagnoseImplied a r)
      (fun result c => ImpliedFinds m b.store (Quiet b) r result c.failures ∧ Probed b c)
      (fun e c => Stops b.world a.limits e c.world ∧ Probed b c) := by
  obtain ⟨hkind, x, y, rest, hx, hy, hleft, hright⟩ := hb.faithful.crossTree r hr
  obtain ⟨rule, hrule⟩ := hb.faithful.rule r (List.mem_append_right _ hr)
  have hf : (b.replaced r x y).store.Faithful m := hb.faithful.numbered (Nat.le_add_right _ _) _
  refine Work.retracted_probed hb hkind hleft hright ((hb.faithful.mem_vars x).mpr hx)
    ((hb.faithful.mem_vars y).mpr hy) ?_
  unfold diagnoseImplied
  apply Ensures.get_bind
  intro c hc
  have hcheck := Work.isConsistent_checked (.of_nodup (Work.ids_replaced_nodup hb r x y))
    (hf.vars_of_names (vars_replaced_subset hb r hx hy))
  rw [hc.store]
  apply Ensures.bindState ((hcheck.inState hc).weakenFail fun e d h => ⟨.calledOff h.1, h.2⟩)
  rintro answer d ⟨hanswer, hd⟩
  cases answer with
  | true =>
    apply Ensures.pureState
    refine ⟨⟨fun _ => ?_, ?_, ?_⟩, hd⟩
    · exact (consistent_replaced_iff hb hkind hleft hright hx hy).mp (hanswer.yes rfl)
    · exact fun _ h => absurd h.symm (Option.some_ne_none _)
    · exact fun _ _ h => absurd h.symm (Option.some_ne_none _)
  | false =>
    simp only [hrule, orFail, pure_bind]
    apply Ensures.bind ((Work.note_checked _).inState (.refl d))
    intro _
    apply Ensures.get_bind
    intro t ht
    have hdt := hd.trans ht
    have hmends := (diagnose_replaced_mends hb hkind hleft hright hx hy a.limits
      a.config.recentFirst hdt).inState (.refl t)
    apply Ensures.bind (hmends.weakenFail fun _ _ => Stops.afterChecked hdt)
    intro all
    apply Ensures.pure
    intro u hu
    refine ⟨⟨fun h => absurd h (Option.some_ne_none _), ?_, ?_⟩, hdt.trans hu.2⟩
    · intro _ _ hfail
      have hprefix : d.failures <+: [] := hfail ▸ ht.failures.trans hu.2.failures
      rw [← consistent_replaced_iff hb hkind hleft hright hx hy]
      exact hanswer.no rfl (List.prefix_nil.mp hprefix)
    · intro rule' all' h
      cases h
      have hreplaced : Quiet b → Quiet (b.replaced r x y) := fun hb =>
        ⟨hb.calm, hb.unfailing, hb.idle⟩
      exact ⟨hrule, hu.1.mono rfl (fun hb => (hreplaced hb).checked hdt) fun _ => Iff.rfl⟩

end Analysis
end Anomaly
end ProductLine
