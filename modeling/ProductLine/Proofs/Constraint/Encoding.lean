import Mathlib.Data.List.Perm.Basic
import ProductLine.FeatureModel.Product
import ProductLine.Constraint.Encoding
import ProductLine.Proofs.Outcome

/-! # What the formulas of a relationship say

The formulas that `Encoding` gives for a relationship are true exactly in the selections in which
the relationship holds (`structural_means`, `crossTree_means`), and the opposite of a
cross-tree constraint is true exactly where it does not (`eval_negation_iff`). All of them speak of
features only. -/

namespace ProductLine
namespace Encoding

open Formula Outcome Relationship

variable {features members rights : List String} {r : Relationship} {v : Selection}

/-! ### Names -/

theorem find?_text {name : String} (h : name ∈ features) :
    features.find? (fun f => decide (Value.Key.text f = .text name)) = some name := by
  cases hfind : features.find? fun f => decide (Value.Key.text f = .text name) with
  | none => exact absurd (decide_eq_true rfl) (List.find?_eq_none.mp hfind name h)
  | some f =>
    have hname := List.find?_some hfind
    rw [decide_eq_true_eq, Value.Key.text.injEq] at hname
    rw [hname]

theorem feature_eq_ok_iff {name : Value} {f : String} :
    feature features r name = .ok f ↔ name = .text f ∧ f ∈ features := by
  unfold feature
  constructor
  · intro h
    split at h
    · cases h
    · next key hkey =>
      split at h
      · next g hg =>
        cases h
        have hmem : f ∈ features := List.mem_of_find?_eq_some hg
        have hname := List.find?_some hg
        rw [decide_eq_true_eq] at hname
        rw [← hname] at hkey
        exact ⟨(Value.key?_eq_text_iff name f).mp hkey, hmem⟩
      · obtain ⟨_, -, h⟩ := bind_eq_ok_iff.mp h
        cases h
  · rintro ⟨rfl, hmem⟩
    rw [Value.key?_text]
    simp only [find?_text hmem]

theorem mapM_feature_eq_ok_iff {right : List Value} :
    right.mapM (feature features r) = .ok rights ↔
      right = rights.map .text ∧ rights ⊆ features := by
  rw [mapM_eq_ok_iff]
  constructor
  · intro h
    induction h with
    | nil => exact ⟨rfl, List.nil_subset _⟩
    | cons hf _ ih =>
      obtain ⟨rfl, hmem⟩ := feature_eq_ok_iff.mp hf
      rw [ih.1]
      exact ⟨rfl, List.cons_subset.mpr ⟨hmem, ih.2⟩⟩
  · rintro ⟨rfl, hsub⟩
    rw [List.forall₂_map_left_iff, List.forall₂_same]
    exact fun f hf => feature_eq_ok_iff.mpr ⟨rfl, hsub hf⟩

/-! ### Groups -/

theorem eval_implies (f g : Formula String) :
    (implies f g).eval v = true ↔ (f.eval v = true → g.eval v = true) := by
  rw [eval]
  cases f.eval v <;> simp

theorem eval_both (f g : Formula String) : (both f g).eval v = true ↔ f.eval v = g.eval v := by
  simp only [both, eval]
  cases f.eval v <;> cases g.eval v <;> decide

theorem eval_onlyMember {parent member : String} {place : Nat} :
    (onlyMember parent members member place).eval v = true ↔
      (v member = true ↔ v parent = true ∧ (members.eraseIdx place).countP v = 0) := by
  unfold onlyMember
  rw [eval_both, eval_all, Bool.eq_iff_iff, List.all_cons, Bool.and_eq_true, List.all_map,
    List.all_eq_true, List.countP_eq_zero]
  simp only [eval, Function.comp_apply, Bool.not_eq_true']
  exact iff_congr Iff.rfl (and_congr_right fun _ => forall₂_congr fun f _ =>
    (Bool.not_eq_true (v f)).to_iff.symm)

theorem satisfies_alternative {parent : String} :
    Satisfies v (alternative parent members) ↔ ∀ place, (h : place < members.length) →
      (v members[place] = true ↔
        v parent = true ∧ (members.eraseIdx place).countP v = 0) := by
  unfold Satisfies alternative
  rw [List.forall_mem_map]
  constructor
  · intro h place hplace
    exact eval_onlyMember.mp (h (members[place], place) (List.mem_zipIdx_iff_getElem?.mpr
      (List.getElem?_eq_getElem hplace)))
  · rintro h ⟨member, place⟩ hmem
    obtain ⟨hplace, hmember⟩ := List.getElem?_eq_some_iff.mp (List.mem_zipIdx_iff_getElem?.mp hmem)
    have hat := h place hplace
    rw [hmember] at hat
    exact eval_onlyMember.mpr hat

/-- What a place of a list adds to the number of selected places. -/
theorem countP_eraseIdx_add {place : Nat} (h : place < members.length) :
    members.countP v = (members.eraseIdx place).countP v + if v members[place] then 1 else 0 := by
  rw [← (List.getElem_cons_eraseIdx_perm h).countP_eq v, List.countP_cons]

/-- In an alternative group that is not empty, exactly one place is selected with the parent, and
none without it. -/
theorem satisfies_alternative_iff {parent : String} (hne : members ≠ []) :
    Satisfies v (alternative parent members) ↔
      members.countP v = if v parent then 1 else 0 := by
  rw [satisfies_alternative]
  constructor
  · intro h
    by_cases hsome : ∃ place, ∃ hplace : place < members.length, v members[place] = true
    · obtain ⟨place, hplace, hsel⟩ := hsome
      obtain ⟨hparent, hothers⟩ := (h place hplace).mp hsel
      rw [countP_eraseIdx_add hplace, hothers, if_pos hsel, if_pos hparent]
    · have hzero : members.countP v = 0 := by
        rw [List.countP_eq_zero]
        intro f hf hsel
        obtain ⟨place, hplace, rfl⟩ := List.getElem_of_mem hf
        exact hsome ⟨place, hplace, hsel⟩
      have hpos : 0 < members.length := List.length_pos_of_ne_nil hne
      have hothers : (members.eraseIdx 0).countP v = 0 := by
        have := countP_eraseIdx_add (v := v) hpos
        omega
      have hparent : ¬v parent = true := fun hp =>
        hsome ⟨0, hpos, (h 0 hpos).mpr ⟨hp, hothers⟩⟩
      rw [hzero, if_neg hparent]
  · intro h place hplace
    have hadd := countP_eraseIdx_add (v := v) hplace
    rw [h] at hadd
    by_cases hsel : v members[place] = true
    · rw [if_pos hsel] at hadd
      refine ⟨?_, fun _ => hsel⟩
      intro _
      by_cases hparent : v parent = true
      · rw [if_pos hparent] at hadd
        exact ⟨hparent, by omega⟩
      · rw [if_neg hparent] at hadd
        omega
    · rw [if_neg hsel] at hadd
      refine ⟨fun h => absurd h hsel, fun ⟨hparent, hothers⟩ => ?_⟩
      rw [if_pos hparent] at hadd
      omega

theorem vars_all {fs : List (Formula String)} : (Formula.all fs).vars = fs.flatMap vars := by
  fun_induction Formula.all fs with
  | case1 => rfl
  | case2 f => rw [List.flatMap_singleton]
  | case3 f g fs ih => rw [vars, ih, ← List.flatMap_cons]

theorem vars_any {fs : List (Formula String)} : (Formula.any fs).vars = fs.flatMap vars := by
  fun_induction Formula.any fs with
  | case1 => rfl
  | case2 f => rw [List.flatMap_singleton]
  | case3 f g fs ih => rw [vars, ih, ← List.flatMap_cons]

theorem vars_both (f g : Formula String) :
    (both f g).vars = f.vars ++ g.vars ++ (g.vars ++ f.vars) := rfl

theorem vars_alternative_subset {parent : String} {f : Formula String} (hp : parent ∈ features)
    (hm : members ⊆ features) (hf : f ∈ alternative parent members) : f.vars ⊆ features := by
  obtain ⟨⟨member, place⟩, hmem, rfl⟩ := List.mem_map.mp hf
  have hmember : member ∈ members := List.mem_of_getElem? (List.mem_zipIdx_iff_getElem?.mp hmem)
  have hall : (Formula.all (var parent ::
      (members.eraseIdx place).map fun other => not (var other))).vars ⊆ features := by
    rw [vars_all, List.flatMap_cons, List.flatMap_map]
    refine List.append_subset.mpr ⟨List.cons_subset.mpr ⟨hp, List.nil_subset _⟩, ?_⟩
    intro x hx
    obtain ⟨other, hother, hx⟩ := List.mem_flatMap.mp hx
    rw [List.mem_singleton.mp hx]
    exact hm (List.mem_of_mem_eraseIdx hother)
  have hone : (var member).vars ⊆ features := List.cons_subset.mpr ⟨hm hmember, List.nil_subset _⟩
  show (both _ _).vars ⊆ features
  rw [vars_both]
  exact List.append_subset.mpr
    ⟨List.append_subset.mpr ⟨hone, hall⟩, List.append_subset.mpr ⟨hall, hone⟩⟩

/-! ### Relationships -/

/-- The formulas are true exactly in the selections in which the relationship holds, they speak of
features only, and the relationship has a rule. Only an alternative group has several formulas, one
for each member. -/
structure Means (features : List String) (r : Relationship) (fs : List (Formula String)) :
    Prop where
  satisfies_iff : ∀ v, Satisfies v fs ↔ r.Holds v
  vars_subset : ∀ f ∈ fs, f.vars ⊆ features
  rule : ∃ rule, r.rule = .ok rule
  length_le : fs.length ≤ 1 ∨ r.kind = .alternative ∧ fs.length = r.right.length

theorem satisfies_singleton {f : Formula String} : Satisfies v [f] ↔ f.eval v = true :=
  List.forall_mem_singleton

theorem holds_mandatory_iff {a b : String} {rest : List Value} (hkind : r.kind = .mandatory)
    (hleft : r.left = .text a) (hright : r.right = .text b :: rest) : r.Holds v ↔ v a = v b := by
  unfold Holds
  rw [hkind, hleft, hright]
  simp [selects]

/-- An optional feature needs its parent as a requiring feature needs the required one. -/
theorem holds_implication_iff {a b : String} {rest : List Value}
    (hkind : r.kind = .optional ∨ r.kind = .requires) (hleft : r.left = .text a)
    (hright : r.right = .text b :: rest) : r.Holds v ↔ (v a = true → v b = true) := by
  unfold Holds
  rcases hkind with hkind | hkind
  · rw [hkind, hleft, hright]
    simp [selects]
  · rw [hkind, hleft, hright]
    simp [selects]

theorem holds_excludes_iff {a b : String} {rest : List Value} (hkind : r.kind = .excludes)
    (hleft : r.left = .text a) (hright : r.right = .text b :: rest) :
    r.Holds v ↔ ¬(v a = true ∧ v b = true) := by
  unfold Holds
  rw [hkind, hleft, hright]
  simp [selects]

theorem holds_or_iff {parent : String} (hkind : r.kind = .or) (hleft : r.left = .text parent)
    (hright : r.right = members.map .text) : r.Holds v ↔ v parent = members.any v := by
  unfold Holds
  rw [hkind, hleft, hright, List.any_map]
  rfl

theorem holds_alternative_iff {parent : String} (hkind : r.kind = .alternative)
    (hleft : r.left = .text parent) (hright : r.right = members.map .text) :
    r.Holds v ↔ members.countP v = if v parent then 1 else 0 := by
  unfold Holds
  rw [hkind, hleft, hright, List.countP_map]
  rfl

theorem rule_of_isGroup (hkind : r.kind.isGroup = true) (hright : r.right = members.map .text) :
    ∃ rule, r.rule = .ok rule := by
  have hnames : r.right.mapM textOf = .ok members := by
    rw [hright, mapM_eq_ok_iff, List.forall₂_map_left_iff, List.forall₂_same]
    exact fun _ _ => rfl
  unfold rule
  rw [if_pos hkind, hnames]
  exact ⟨_, rfl⟩

theorem rule_of_cons {first : Value} {rest : List Value} (hkind : r.kind.isGroup = false)
    (hright : r.right = first :: rest) : ∃ rule, r.rule = .ok rule := by
  unfold rule
  rw [hkind, hright]
  exact ⟨_, rfl⟩

theorem first_eq_ok_iff {f : String} : first rights = .ok f ↔ ∃ rest, rights = f :: rest := by
  cases rights with
  | nil =>
    constructor
    · intro h
      cases h
    · rintro ⟨rest, h⟩
      cases h
  | cons g rest =>
    constructor
    · intro h
      cases h
      exact ⟨rest, rfl⟩
    · rintro ⟨_, h⟩
      cases h
      rfl

theorem pair_subset {a b : String} (ha : a ∈ features) (hb : b ∈ features) : [a, b] ⊆ features :=
  List.cons_subset.mpr ⟨ha, List.cons_subset.mpr ⟨hb, List.nil_subset _⟩⟩

theorem vars_or_subset {parent : String} {members : List String} (hp : parent ∈ features)
    (hm : members ⊆ features) :
    (both (var parent) (Formula.any (members.map var))).vars ⊆ features := by
  have hany : (Formula.any (members.map var)).vars ⊆ features := by
    rw [vars_any, List.flatMap_map]
    intro x hx
    obtain ⟨f, hf, hx⟩ := List.mem_flatMap.mp hx
    rw [List.mem_singleton.mp hx]
    exact hm hf
  have hone : (var parent).vars ⊆ features := List.cons_subset.mpr ⟨hp, List.nil_subset _⟩
  rw [vars_both]
  exact List.append_subset.mpr
    ⟨List.append_subset.mpr ⟨hone, hany⟩, List.append_subset.mpr ⟨hany, hone⟩⟩

theorem means_pair {b : String} {rest : List Value} {f : Formula String}
    (hkind : r.kind.isGroup = false) (hright : r.right = .text b :: rest)
    (hvars : f.vars ⊆ features) (h : ∀ v, f.eval v = true ↔ r.Holds v) :
    Means features r [f] where
  satisfies_iff v := satisfies_singleton.trans (h v)
  vars_subset := List.forall_mem_singleton.mpr hvars
  rule := rule_of_cons hkind hright
  length_le := .inl (Nat.le_refl 1)

theorem structural_means {fs : List (Formula String)} (h : structural features r = .ok fs) :
    Means features r fs := by
  unfold structural at h
  obtain ⟨left, hleft, h⟩ := bind_eq_ok_iff.mp h
  obtain ⟨rights, hrights, h⟩ := bind_eq_ok_iff.mp h
  obtain ⟨hleft, hl⟩ := feature_eq_ok_iff.mp hleft
  obtain ⟨hright, hr⟩ := mapM_feature_eq_ok_iff.mp hrights
  cases hkind : r.kind with
  | mandatory =>
    rw [hkind] at h
    obtain ⟨b, hfirst, h⟩ := bind_eq_ok_iff.mp h
    obtain ⟨rest, rfl⟩ := first_eq_ok_iff.mp hfirst
    rw [← pure_eq_ok_iff.mp h]
    refine means_pair (hkind ▸ rfl) hright (pair_subset hl (hr List.mem_cons_self)) ?_
    intro v
    rw [holds_mandatory_iff hkind hleft hright, eval, beq_iff_eq]
    rfl
  | optional =>
    rw [hkind] at h
    obtain ⟨b, hfirst, h⟩ := bind_eq_ok_iff.mp h
    obtain ⟨rest, rfl⟩ := first_eq_ok_iff.mp hfirst
    rw [← pure_eq_ok_iff.mp h]
    refine means_pair (hkind ▸ rfl) hright (pair_subset hl (hr List.mem_cons_self)) ?_
    intro v
    rw [holds_implication_iff (.inl hkind) hleft hright, eval_implies]
    rfl
  | or =>
    rw [hkind] at h
    cases hempty : rights.isEmpty with
    | true =>
      rw [hempty] at h
      obtain ⟨_, -, h⟩ := bind_eq_ok_iff.mp h
      cases h
    | false =>
      rw [hempty] at h
      rw [← pure_eq_ok_iff.mp h]
      refine ⟨?_, List.forall_mem_singleton.mpr (vars_or_subset hl hr),
        rule_of_isGroup (hkind ▸ rfl) hright, .inl (Nat.le_refl 1)⟩
      intro v
      rw [satisfies_singleton, eval_both, holds_or_iff hkind hleft hright, eval_any, List.any_map]
      rfl
  | alternative =>
    rw [hkind] at h
    cases hempty : rights.isEmpty with
    | true =>
      rw [hempty] at h
      obtain ⟨_, -, h⟩ := bind_eq_ok_iff.mp h
      cases h
    | false =>
      rw [hempty] at h
      rw [List.isEmpty_eq_false_iff] at hempty
      rw [← pure_eq_ok_iff.mp h]
      have hlength : (alternative left rights).length = r.right.length := by
        rw [hright, alternative, List.length_map, List.length_zipIdx, List.length_map]
      refine ⟨?_, fun f hf => vars_alternative_subset hl hr hf,
        rule_of_isGroup (hkind ▸ rfl) hright, .inr ⟨hkind, hlength⟩⟩
      intro v
      rw [satisfies_alternative_iff hempty, holds_alternative_iff hkind hleft hright]
  | requires | excludes =>
    rw [hkind] at h
    cases hempty : rights.isEmpty
    all_goals
      rw [hempty] at h
      obtain ⟨_, -, h⟩ := bind_eq_ok_iff.mp h
      cases h

/-- A relationship with formulas of the tree does not go across it, and it has at least one. -/
theorem structural_eq_ok {fs : List (Formula String)} (h : structural features r = .ok fs) :
    r.kind.isCrossTree = false ∧ fs ≠ [] := by
  unfold structural at h
  obtain ⟨left, -, h⟩ := bind_eq_ok_iff.mp h
  obtain ⟨rights, -, h⟩ := bind_eq_ok_iff.mp h
  cases hkind : r.kind with
  | mandatory | optional =>
    rw [hkind] at h
    obtain ⟨b, -, h⟩ := bind_eq_ok_iff.mp h
    rw [← pure_eq_ok_iff.mp h]
    exact ⟨rfl, List.cons_ne_nil _ _⟩
  | or | alternative =>
    rw [hkind] at h
    cases rights with
    | nil =>
      obtain ⟨_, -, h⟩ := bind_eq_ok_iff.mp h
      cases h
    | cons member others =>
      rw [← pure_eq_ok_iff.mp h]
      exact ⟨rfl, List.cons_ne_nil _ _⟩
  | requires | excludes =>
    rw [hkind] at h
    cases rights
    all_goals
      obtain ⟨_, -, h⟩ := bind_eq_ok_iff.mp h
      cases h

/-! ### Cross-tree constraints -/

theorem firstRight_eq_ok_iff {first : Value} :
    firstRight r = .ok first ↔ ∃ rest, r.right = first :: rest := by
  unfold firstRight
  cases hr : r.right with
  | nil =>
    constructor
    · intro h
      cases h
    · rintro ⟨rest, h⟩
      cases h
  | cons second rest =>
    constructor
    · intro h
      cases h
      exact ⟨rest, rfl⟩
    · rintro ⟨_, h⟩
      cases h
      rfl

theorem crossTree_eq_ok {f : Formula String} (h : crossTree features r = .ok f) :
    ∃ a b rest, a ∈ features ∧ b ∈ features ∧ r.left = .text a ∧ r.right = .text b :: rest ∧
      (r.kind = .requires ∧ f = implies (var a) (var b) ∨
        r.kind = .excludes ∧ f = or (not (var a)) (not (var b))) := by
  unfold crossTree at h
  obtain ⟨a, hfeature, h⟩ := bind_eq_ok_iff.mp h
  obtain ⟨first, hfirst, h⟩ := bind_eq_ok_iff.mp h
  obtain ⟨b, hsecond, hf⟩ := bind_eq_ok_iff.mp h
  obtain ⟨hleft, ha⟩ := feature_eq_ok_iff.mp hfeature
  obtain ⟨rfl, hb⟩ := feature_eq_ok_iff.mp hsecond
  obtain ⟨rest, hright⟩ := firstRight_eq_ok_iff.mp hfirst
  refine ⟨a, b, rest, ha, hb, hleft, hright, ?_⟩
  cases hkind : r.kind with
  | requires =>
    rw [hkind] at hf
    exact .inl ⟨rfl, (pure_eq_ok_iff.mp hf).symm⟩
  | excludes =>
    rw [hkind] at hf
    exact .inr ⟨rfl, (pure_eq_ok_iff.mp hf).symm⟩
  | mandatory | optional | or | alternative =>
    rw [hkind] at hf
    obtain ⟨_, -, hf⟩ := bind_eq_ok_iff.mp hf
    cases hf

theorem eval_excludes (f g : Formula String) :
    (or (not f) (not g)).eval v = true ↔ ¬(f.eval v = true ∧ g.eval v = true) := by
  simp only [eval]
  cases f.eval v <;> cases g.eval v <;> decide

theorem crossTree_means {f : Formula String} (h : crossTree features r = .ok f) :
    Means features r [f] := by
  obtain ⟨a, b, rest, ha, hb, hleft, hright, ⟨hkind, rfl⟩ | ⟨hkind, rfl⟩⟩ := crossTree_eq_ok h
  · refine means_pair (hkind ▸ rfl) hright (pair_subset ha hb) ?_
    intro v
    rw [holds_implication_iff (.inr hkind) hleft hright, eval_implies]
    rfl
  · refine means_pair (hkind ▸ rfl) hright (pair_subset ha hb) ?_
    intro v
    rw [holds_excludes_iff hkind hleft hright, eval_excludes]
    rfl

/-- The opposite of a cross-tree constraint is true exactly where the constraint does not hold. -/
theorem eval_negation_iff {a b : String} {rest : List Value} (hkind : r.kind.isCrossTree = true)
    (hleft : r.left = .text a) (hright : r.right = .text b :: rest) :
    (negation r.kind a b).eval v = true ↔ ¬r.Holds v := by
  cases hk : r.kind with
  | requires =>
    rw [holds_implication_iff (.inr hk) hleft hright]
    simp [negation, eval]
  | excludes =>
    rw [holds_excludes_iff hk hleft hright]
    simp [negation, eval]
  | mandatory | optional | or | alternative =>
    rw [hk] at hkind
    cases hkind

theorem vars_negation_subset {kind : Kind} {a b : String} (ha : a ∈ features) (hb : b ∈ features) :
    (negation kind a b).vars ⊆ features := by
  have hsub : [a] ++ [b] ⊆ features := pair_subset ha hb
  cases kind <;> exact hsub

end Encoding
end ProductLine
