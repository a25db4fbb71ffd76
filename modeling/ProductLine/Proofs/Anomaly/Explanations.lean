import ProductLine.Anomaly.Repair
import ProductLine.Proofs.Constraint.Products
import ProductLine.Proofs.Diagnosis.Incomparable

/-! # What explanations say

An explanation has the rules of the relationships behind a diagnosis. So it names all of these
relationships (`named_of_explain`). A minimal diagnosis has with a constraint all candidates that say
the same (`mem_of_eval_eq`); if one of two minimal diagnoses is explained by fewer rules than the
other and still is no part of it, then some rule stands for constraints that do not say the same
(`equivocal_of_subset`). -/

namespace ProductLine
namespace Anomaly

open Constraint Diagnosis Outcome

/-! ### Rules behind diagnoses -/

variable {diagnosis : List Constraint} {rules : List String}

theorem rule_eq_of_source {c : Constraint} {r : Relationship} {rule : String}
    (hsource : c.source = some r) (hrule : r.rule = .ok rule) : c.rule = .ok (some rule) := by
  unfold Constraint.rule
  rw [hsource]
  exact bind_eq_ok_iff.mpr ⟨rule, hrule, rfl⟩

theorem exists_rule_of_mem {m : FeatureModel} {s : Store} (hs : s.Faithful m) {c : Constraint}
    (hc : c ∈ s.cf) :
    ∃ r ∈ m.relationships, ∃ rule, r.rule = .ok rule ∧ c.rule = .ok (some rule) := by
  obtain ⟨r, hr, hsource, -⟩ := hs.sound c hc
  obtain ⟨rule, hrule⟩ := hs.rule r hr
  exact ⟨r, hr, rule, hrule, rule_eq_of_source hsource hrule⟩

theorem rule_of_source {c : Constraint} {r : Relationship} {o : Option String}
    (h : c.rule = .ok o) (hr : c.source = some r) : ∃ rule, o = some rule ∧ r.rule = .ok rule := by
  unfold Constraint.rule at h
  rw [hr] at h
  obtain ⟨rule, hrule, h⟩ := bind_eq_ok_iff.mp h
  exact ⟨rule, (pure_eq_ok_iff.mp h).symm, hrule⟩

/-- What is there after constraints are explained is there before or the rule of one of them. -/
theorem explain_foldlM {cs : List Constraint} {before : List String}
    (h : cs.foldlM (fun rules c => do
      match ← c.rule with
      | some rule => return if rule ∈ rules then rules else rules ++ [rule]
      | none => return rules) before = .ok rules) :
    (∀ c ∈ cs, ∃ o, c.rule = .ok o) ∧
      ∀ rule, rule ∈ rules ↔ rule ∈ before ∨ ∃ c ∈ cs, c.rule = .ok (some rule) := by
  induction cs generalizing before with
  | nil =>
    rw [List.foldlM_nil, pure_eq_ok_iff] at h
    subst h
    exact ⟨List.forall_mem_nil _, fun rule => (or_iff_left fun ⟨_, h, _⟩ => nomatch h).symm⟩
  | cons c cs ih =>
    rw [List.foldlM_cons, bind_eq_ok_iff] at h
    obtain ⟨mid, hmid, h⟩ := h
    obtain ⟨o, ho, hmid⟩ := bind_eq_ok_iff.mp hmid
    obtain ⟨hall, hrest⟩ := ih h
    have hstep : ∀ rule, rule ∈ mid ↔ rule ∈ before ∨ c.rule = .ok (some rule) := by
      intro rule
      rw [ho]
      cases o with
      | none =>
        rw [← pure_eq_ok_iff.mp hmid]
        exact (or_iff_left fun h => nomatch h).symm
      | some own =>
        rw [← pure_eq_ok_iff.mp hmid, Except.ok.injEq, Option.some.injEq]
        split
        · next hin =>
          refine ⟨.inl, ?_⟩
          rintro (hbefore | rfl)
          · exact hbefore
          · exact hin
        · rw [List.mem_append, List.mem_singleton, eq_comm]
    refine ⟨List.forall_mem_cons.mpr ⟨⟨o, ho⟩, hall⟩, fun rule => ?_⟩
    rw [hrest, hstep, List.exists_mem_cons_iff, or_assoc]

theorem mem_explain_iff (h : explain diagnosis = .ok rules) {rule : String} :
    rule ∈ rules ↔ ∃ c ∈ diagnosis, c.rule = .ok (some rule) := by
  rw [(explain_foldlM h).2]
  exact or_iff_right List.not_mem_nil

theorem named_of_explain (h : explain diagnosis = .ok rules) {r : Relationship}
    (hr : Blames diagnosis r) : Named rules r := by
  obtain ⟨c, hc, hsource⟩ := hr
  obtain ⟨o, ho⟩ := (explain_foldlM h).1 c hc
  obtain ⟨rule, rfl, hrule⟩ := rule_of_source ho hsource
  exact ⟨rule, (mem_explain_iff h).mpr ⟨c, hc, ho⟩, hrule⟩

theorem admits_of_none_skipped {m : FeatureModel} {p : Selection → Prop}
    (h : m.Admits (fun r => False ∨ Named rules r) p) : m.Admits (Named rules) p := by
  simpa only [false_or] using h

/-- What a finding says cannot be would be without the relationships of a repair. -/
theorem Finding.Denies.repaired {m : FeatureModel} {f : Finding} {skip : Relationship → Prop}
    {p : Selection → Prop} (h : f.Denies m skip p)
    (hadmits : m.Admits (fun r => skip r ∨ Named rules r) p) : f.Repaired m rules := by
  unfold Finding.Repaired
  cases h with
  | void h =>
    rw [h]
    exact admits_of_none_skipped hadmits
  | dead h _ =>
    rw [h]
    exact admits_of_none_skipped hadmits
  | fullMandatory h _ =>
    rw [h]
    exact admits_of_none_skipped hadmits
  | conditionallyDead h hpartner _ =>
    rw [h]
    exact ⟨_, hpartner, admits_of_none_skipped hadmits⟩
  | falseOptional h hrequiring hfirst =>
    rw [h]
    exact ⟨_, _, hrequiring, hfirst, admits_of_none_skipped hadmits⟩
  | redundant h hr hrule =>
    rw [h]
    exact ⟨_, hr, hrule, hadmits⟩

theorem explain_total (h : ∀ c ∈ diagnosis, ∃ o, c.rule = .ok o) :
    ∃ rules, explain diagnosis = .ok rules := by
  refine foldlM_total ?_ []
  intro rules c hc
  obtain ⟨o, ho⟩ := h c hc
  cases o with
  | none => exact ⟨_, bind_eq_ok_iff.mpr ⟨none, ho, rfl⟩⟩
  | some rule => exact ⟨_, bind_eq_ok_iff.mpr ⟨some rule, ho, rfl⟩⟩

/-! ### Explanations of minimal diagnoses -/

/-- The rule is that of two constraints that do not say the same. -/
def Equivocal (cs : List Constraint) (rule : String) : Prop :=
  ∃ c ∈ cs, ∃ d ∈ cs, c.rule = .ok (some rule) ∧ d.rule = .ok (some rule) ∧
    ∃ v, c.formula.eval v ≠ d.formula.eval v

/-- An explanation contains another one only if they share an equivocal rule. -/
def Discerned (cs : List Constraint) (rules rules' : List String) : Prop :=
  rules ⊆ rules' ∨ rules' ⊆ rules → ∃ rule ∈ rules, rule ∈ rules' ∧ Equivocal cs rule

section minimal

variable {candidates background diagnosis' : List Constraint} {c d : Constraint}
variable (hc : (ids candidates).Nodup) (hd : ∀ b ∈ background, b.id ∉ ids candidates)
include hc hd

/-- With a constraint a minimal diagnosis has all candidates that say the same. -/
theorem mem_of_eval_eq (h : IsMinimal candidates background diagnosis) (hmem : c ∈ diagnosis)
    (hcand : d ∈ candidates) (hsame : ∀ v, c.formula.eval v = d.formula.eval v) :
    d ∈ diagnosis := by
  obtain ⟨⟨hsub, hcons⟩, hmin⟩ := h
  by_contra hnot
  have hunion : ∀ removed, union background (subtract candidates removed) =
      union background [] ++ subtract candidates removed := fun removed =>
    union_eq_append (ids_subtract_nodup hc) (apart_of_subset hd subtract_subset)
  have hpart : IsDiagnosis candidates background (subtract diagnosis [c]) := by
    refine ⟨List.Subset.trans subtract_subset hsub, ?_⟩
    rw [hunion] at hcons ⊢
    obtain ⟨v, hv⟩ := hcons
    refine ⟨v, List.forall_mem_map.mpr fun e he => ?_⟩
    rcases List.mem_append.mp he with he | he
    · exact hv _ (List.mem_map_of_mem (List.mem_append_left _ he))
    · obtain ⟨hcand', hstays⟩ := mem_subtract.mp he
      by_cases hold : e.id ∈ ids diagnosis
      · -- only the constraint itself comes back, and it says what the other one says
        have heq : e = c := by
          apply eq_of_id_eq hc hcand' (hsub hmem)
          by_contra hne
          refine hstays (mem_ids_subtract.mpr ⟨hold, fun hi => hne ?_⟩)
          exact List.mem_singleton.mp hi
        rw [heq, hsame v]
        refine hv _ (List.mem_map_of_mem (List.mem_append_right _ (mem_subtract.mpr ⟨hcand, ?_⟩)))
        exact fun hi => hnot ((id_mem_ids_iff hc hsub hcand).mp hi)
      · exact hv _ (List.mem_map_of_mem (List.mem_append_right _
          (mem_subtract.mpr ⟨hcand', hold⟩)))
  have hback := hmin _ subtract_subset hpart hmem
  exact (mem_subtract.mp hback).2 List.mem_cons_self

/-- Of two minimal diagnoses of which one is no part of the other, an explanation may be contained in
the other one only by an equivocal rule. -/
theorem equivocal_of_subset {cs : List Constraint} {rules' : List String} (hcs : candidates ⊆ cs)
    (hrule : ∀ c ∈ candidates, ∃ rule, c.rule = .ok (some rule))
    (hmin : IsMinimal candidates background diagnosis)
    (hmin' : IsMinimal candidates background diagnosis') (hnot : ¬ids diagnosis ⊆ ids diagnosis')
    (h : explain diagnosis = .ok rules) (h' : explain diagnosis' = .ok rules')
    (hsub : rules ⊆ rules') : ∃ rule ∈ rules, rule ∈ rules' ∧ Equivocal cs rule := by
  obtain ⟨i, hi, hnot⟩ := Set.not_subset.mp hnot
  obtain ⟨c, hmem, rfl⟩ := mem_ids.mp hi
  have hcand := hmin.1.1 hmem
  obtain ⟨rule, hown⟩ := hrule c hcand
  have hrules := (mem_explain_iff h).mpr ⟨c, hmem, hown⟩
  obtain ⟨d, hmem', hother⟩ := (mem_explain_iff h').mp (hsub hrules)
  refine ⟨rule, hrules, hsub hrules, c, hcs hcand, d, hcs (hmin'.1.1 hmem'), hown, hother, ?_⟩
  by_contra hsame
  rw [not_exists] at hsame
  exact hnot (id_mem_ids (mem_of_eval_eq hc hd hmin' hmem' hcand fun v =>
    (not_not.mp (hsame v)).symm))

end minimal
end Anomaly
end ProductLine
