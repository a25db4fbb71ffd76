import ProductLine.Constraint.Malformed
import ProductLine.Proofs.Constraint.Store
import ProductLine.Proofs.FeatureModel.Order

/-! # Which models are refused

A step of the translation is `Judged` by a condition if it succeeds exactly under that condition and
otherwise fails in a structural way; judged steps one after the other are judged by all their conditions
together. A step is `Settled` if besides it is known when it stumbles over a missing right side. The first
relationship that is not accepted settles what becomes of a model (`ofModel_settled`), whatever its
relationships are and whichever side they stand on. -/

namespace ProductLine

open Outcome

/-! ### Steps that are refused -/

/-- The step succeeds exactly under the condition, and otherwise fails in a structural way. -/
def Judged {α : Type} (outcome : Except Failure α) (p : Prop) : Prop :=
  match outcome with
  | .ok _ => p
  | .error e => ¬p ∧ e.IsStructural

namespace Judged

variable {α β : Type} {outcome : Except Failure α} {p q : Prop}

theorem congr (h : Judged outcome p) (hpq : p ↔ q) : Judged outcome q := by
  rw [← hpq]
  exact h

theorem ok_iff (h : Judged outcome p) : (∃ a, outcome = .ok a) ↔ p := by
  cases outcome with
  | ok a => exact iff_of_true ⟨a, rfl⟩ h
  | error e =>
    refine iff_of_false ?_ h.1
    rintro ⟨a, ha⟩
    cases ha

theorem isStructural (h : Judged outcome p) {e : Failure} (he : outcome = .error e) :
    e.IsStructural := by
  rw [he] at h
  exact h.2

theorem of_ok {a : α} (ha : outcome = .ok a) (hp : p) : Judged outcome p := by
  rw [ha]
  exact hp

theorem of_error {e : Failure} (he : outcome = .error e) (hp : ¬p) (hs : e.IsStructural) :
    Judged outcome p := by
  rw [he]
  exact ⟨hp, hs⟩

theorem bind {next : α → Except Failure β} (h : Judged outcome p)
    (hnext : ∀ a, outcome = .ok a → Judged (next a) q) : Judged (outcome >>= next) (p ∧ q) := by
  cases outcome with
  | error e => exact ⟨fun hpq => h.1 hpq.1, h.2⟩
  | ok a => exact (hnext a rfl).congr (and_iff_right h).symm

theorem map (h : Judged outcome p) (g : α → β) : Judged (outcome >>= fun a => pure (g a)) p :=
  (h.bind (q := True) fun _ _ => .of_ok rfl trivial).congr (and_iff_left trivial)

theorem mapM {f : α → Except Failure β} {p : α → Prop} {l : List α}
    (h : ∀ a ∈ l, Judged (f a) (p a)) : Judged (l.mapM f) (∀ a ∈ l, p a) := by
  induction l with
  | nil => exact List.forall_mem_nil _
  | cons a l ih =>
    rw [List.forall_mem_cons] at h
    rw [List.mapM_cons]
    exact (h.1.bind fun b _ => (ih h.2).map (b :: ·)).congr List.forall_mem_cons.symm

end Judged

/-! ### Steps that may stumble -/

/-- The step succeeds exactly under the one condition, comes across a missing right side exactly under
the other, and otherwise fails in a structural way. -/
structure Settled {α : Type} (outcome : Except Failure α) (p q : Prop) : Prop where
  ok_iff : (∃ a, outcome = .ok a) ↔ p
  stumbles_iff : outcome = .error .noRightSide ↔ q
  error : ∀ e, outcome = .error e → e = .noRightSide ∨ e.IsStructural

namespace Settled

variable {α β : Type} {outcome : Except Failure α} {p p' q q' : Prop}

theorem congr (h : Settled outcome p q) (hp : p ↔ p') (hq : q ↔ q') : Settled outcome p' q' :=
  ⟨h.ok_iff.trans hp, h.stumbles_iff.trans hq, h.error⟩

theorem of_judged (h : Judged outcome p) (hq : ¬q) : Settled outcome p q where
  ok_iff := h.ok_iff
  stumbles_iff := iff_of_false (fun he => h.isStructural he) hq
  error _ he := .inr (h.isStructural he)

theorem of_stumble (h : outcome = .error .noRightSide) (hp : ¬p) (hq : q) : Settled outcome p q where
  ok_iff := by
    refine iff_of_false ?_ hp
    rintro ⟨a, ha⟩
    cases h.symm.trans ha
  stumbles_iff := iff_of_true h hq
  error e he := .inl (Except.error.inj (he.symm.trans h))

theorem judged (h : Settled outcome p q) (hq : ¬q) : Judged outcome p := by
  cases houtcome : outcome with
  | ok a => exact h.ok_iff.mp ⟨a, houtcome⟩
  | error e =>
    refine ⟨fun hp => ?_, (h.error e houtcome).resolve_left ?_⟩
    · obtain ⟨a, ha⟩ := h.ok_iff.mpr hp
      cases houtcome.symm.trans ha
    · rintro rfl
      exact hq (h.stumbles_iff.mp houtcome)

theorem structural_iff (h : Settled outcome p q) :
    (∃ e, outcome = .error e ∧ e.IsStructural) ↔ ¬p ∧ ¬q := by
  constructor
  · rintro ⟨e, he, hs⟩
    refine ⟨fun hp => ?_, fun hq => ?_⟩
    · obtain ⟨a, ha⟩ := h.ok_iff.mpr hp
      cases he.symm.trans ha
    · cases he.symm.trans (h.stumbles_iff.mpr hq)
      exact hs
  · rintro ⟨hp, hq⟩
    have hjudged := h.judged hq
    cases outcome with
    | ok a => exact absurd hjudged hp
    | error e => exact ⟨e, rfl, hjudged.2⟩

theorem map (h : Settled outcome p q) (g : α → β) :
    Settled (outcome >>= fun a => pure (g a)) p q := by
  by_cases hq : q
  · refine .of_stumble ?_ (fun hp => ?_) hq
    · rw [h.stumbles_iff.mpr hq]
      rfl
    · obtain ⟨a, ha⟩ := h.ok_iff.mpr hp
      cases ha.symm.trans (h.stumbles_iff.mpr hq)
  · exact .of_judged ((h.judged hq).map g) hq

theorem mapM {f : α → Except Failure β} {p q : α → Prop} {l : List α}
    (h : ∀ a ∈ l, Settled (f a) (p a) (q a)) : Settled (l.mapM f) (∀ a ∈ l, p a)
      (∃ a, (∃ before after, l = before ++ a :: after ∧ (∀ b ∈ before, p b) ∧ ¬p a) ∧ q a) where
  ok_iff := exists_mapM_iff.trans (forall₂_congr fun a ha => (h a ha).ok_iff)
  stumbles_iff := by
    rw [mapM_eq_error_iff]
    constructor
    · rintro ⟨before, a, after, rfl, hbefore, ha⟩
      have hall := List.forall_mem_append.mp h
      have hlast := hall.2 a List.mem_cons_self
      refine ⟨a, ⟨before, after, rfl, fun b hb => (hall.1 b hb).ok_iff.mp (hbefore b hb), fun hp => ?_⟩,
        hlast.stumbles_iff.mp ha⟩
      obtain ⟨x, hx⟩ := hlast.ok_iff.mpr hp
      cases ha.symm.trans hx
    · rintro ⟨a, ⟨before, after, rfl, hbefore, -⟩, hq⟩
      have hall := List.forall_mem_append.mp h
      exact ⟨before, a, after, rfl, fun b hb => (hall.1 b hb).ok_iff.mpr (hbefore b hb),
        (hall.2 a List.mem_cons_self).stumbles_iff.mpr hq⟩
  error e he := by
    obtain ⟨before, a, after, rfl, -, ha⟩ := mapM_eq_error_iff.mp he
    exact (h a (List.mem_append_right _ List.mem_cons_self)).error e ha

end Settled

/-! ### Relationships -/

namespace Encoding

open Relationship

variable {features : List String} {r : Relationship} {left : String} {names : List String}

theorem forall_text_iff : (∀ v ∈ names.map Value.text, ∃ name ∈ features, v = .text name) ↔
    ∀ name ∈ names, name ∈ features := by
  rw [List.forall_mem_map]
  refine forall₂_congr fun name _ => ⟨?_, fun h => ⟨name, h, rfl⟩⟩
  rintro ⟨f, hf, heq⟩
  cases heq
  exact hf

/-- A relationship between texts has a rule, unless the only feature on its right is missing. -/
theorem rule_total (h : r.Textual) (hright : r.kind.isGroup = false → r.right ≠ []) :
    ∃ rule, r.rule = .ok rule := by
  obtain ⟨names, hnames⟩ := h.right
  cases hkind : r.kind.isGroup with
  | true => exact rule_of_isGroup hkind hnames
  | false =>
    obtain ⟨first, rest, hcons⟩ := List.exists_cons_of_ne_nil (hright hkind)
    exact rule_of_cons hkind hcons

theorem rule_eq_error (hkind : r.kind.isGroup = false) (hright : r.right = []) :
    r.rule = .error .noRightSide := by
  unfold rule
  rw [hkind, hright]
  rfl

theorem feature_undeclared {name : String} (h : name ∉ features) :
    feature features r (.text name) =
      r.rule >>= fun rule => .error (.undeclared (.text name) rule) := by
  have hnone : features.find? (fun f => decide (Value.Key.text f = .text name)) = none := by
    refine List.find?_eq_none.mpr fun f hf heq => h ?_
    rw [decide_eq_true_eq, Value.Key.text.injEq] at heq
    exact heq ▸ hf
  unfold feature
  simp only [Value.key?_text, hnone]
  rfl

theorem feature_judged (hrule : ∃ rule, r.rule = .ok rule) (name : String) :
    Judged (feature features r (.text name)) (name ∈ features) := by
  by_cases hname : name ∈ features
  · exact .of_ok (feature_eq_ok_iff.mpr ⟨rfl, hname⟩) hname
  · obtain ⟨rule, hrule⟩ := hrule
    refine .of_error (e := .undeclared (.text name) rule) ?_ hname trivial
    rw [feature_undeclared hname, hrule]
    rfl

theorem features_judged (hrule : ∃ rule, r.rule = .ok rule) (names : List String) :
    Judged ((names.map Value.text).mapM (feature features r)) (∀ name ∈ names, name ∈ features) := by
  have hall := Judged.mapM (f := feature features r) (l := names.map Value.text)
    (p := fun v => ∃ name ∈ features, v = .text name) fun v hv => by
      obtain ⟨name, -, rfl⟩ := List.mem_map.mp hv
      refine (feature_judged hrule name).congr ⟨fun h => ⟨name, h, rfl⟩, ?_⟩
      rintro ⟨f, hf, heq⟩
      cases heq
      exact hf
  exact hall.congr forall_text_iff

theorem accepted_iff {acrossTree : Bool} (hleft : r.left = .text left)
    (hright : r.right = names.map .text) : r.Accepted acrossTree features ↔
      left ∈ features ∧ (∀ name ∈ (if acrossTree then names.take 1 else names), name ∈ features) ∧
        names ≠ [] ∧ r.kind.isCrossTree = acrossTree := by
  have hlooked : r.lookedUp acrossTree = (if acrossTree then names.take 1 else names).map .text := by
    unfold lookedUp
    rw [hright]
    cases acrossTree with
    | true => exact List.map_take.symm
    | false => rfl
  have hgiven : r.right ≠ [] ↔ names ≠ [] := by
    rw [hright, ne_eq, List.map_eq_nil_iff]
  constructor
  · intro h
    obtain ⟨f, hf, heq⟩ := h.left
    cases hleft.symm.trans heq
    exact ⟨hf, forall_text_iff.mp (hlooked ▸ h.right), hgiven.mp h.given, h.side⟩
  · rintro ⟨hl, hr, hne, hside⟩
    exact ⟨hside, ⟨left, hl, hleft⟩, hlooked ▸ forall_text_iff.mpr hr, hgiven.mpr hne⟩

theorem ne_nil_of_not_bare {acrossTree : Bool} (h : ¬r.Bare acrossTree features)
    (hkind : r.kind.isGroup = false) : r.right ≠ [] := by
  intro hnil
  refine h ⟨hnil, fun hgroup => ?_⟩
  cases hkind.symm.trans hgroup

theorem feature_bare (hrule : r.rule = .error .noRightSide) (name : String) :
    feature features r (.text name) = .ok name ∨ feature features r (.text name) = .error .noRightSide := by
  by_cases hname : name ∈ features
  · exact .inl (feature_eq_ok_iff.mpr ⟨rfl, hname⟩)
  · right
    rw [feature_undeclared hname, hrule]
    rfl

theorem structural_bare (htext : r.Textual) (h : r.Bare false features) :
    structural features r = .error .noRightSide := by
  obtain ⟨left, hleft⟩ := htext.left
  have hgroup : r.kind.isGroup = false := by
    cases hk : r.kind.isGroup with
    | true => exact absurd (h.reached hk).1 Bool.false_ne_true
    | false => rfl
  have hrule := rule_eq_error hgroup h.empty
  unfold structural
  rw [hleft, h.empty]
  rcases feature_bare hrule left with hfeature | hfeature
  · rw [hfeature]
    cases hk : r.kind with
    | mandatory | optional => rfl
    | requires | excludes =>
      rw [hrule]
      rfl
    | or | alternative =>
      rw [hk] at hgroup
      cases hgroup
  · rw [hfeature]
    rfl

/-- A relationship of the tree that is not bare is turned into formulas exactly if it is accepted. -/
theorem structural_judged (htext : r.Textual) (h : ¬r.Bare false features) :
    Judged (structural features r) (r.Accepted false features) := by
  obtain ⟨left, hleft⟩ := htext.left
  obtain ⟨names, hright⟩ := htext.right
  have hne := ne_nil_of_not_bare h
  have hrule := rule_total htext hne
  have hrights : r.right.mapM (feature features r) = (names.map Value.text).mapM (feature features r) :=
    congrArg _ hright
  refine Judged.congr ?_ (accepted_iff hleft hright).symm
  unfold structural
  rw [hleft, hrights]
  refine (feature_judged hrule left).bind fun a _ => (features_judged hrule names).bind ?_
  intro rights hok
  -- what was found on the right are the names themselves
  have hsame : names = rights := List.map_injective_iff.mpr (fun _ _ h => Value.text.inj h)
    (mapM_feature_eq_ok_iff.mp hok).1
  subst hsame
  obtain ⟨rule, hrule⟩ := hrule
  cases hk : r.kind with
  | mandatory | optional =>
    cases names with
    | nil => exact absurd hright (hne (hk ▸ rfl))
    | cons c names => exact ⟨List.cons_ne_nil _ _, rfl⟩
  | or | alternative =>
    cases names with
    | nil =>
      refine .of_error (e := .emptyGroup rule) ?_ (fun h => h.1 rfl) trivial
      rw [hrule]
      rfl
    | cons c names => exact ⟨List.cons_ne_nil _ _, rfl⟩
  | requires | excludes =>
    cases names with
    | nil => exact absurd hright (hne (hk ▸ rfl))
    | cons c names =>
      refine .of_error (e := .misplacedConstraint rule) ?_ (fun h => Bool.false_ne_true h.2.symm) trivial
      rw [hrule]
      rfl

theorem structural_settled (htext : r.Textual) :
    Settled (structural features r) (r.Accepted false features) (r.Bare false features) := by
  by_cases h : r.Bare false features
  · exact .of_stumble (structural_bare htext h) (fun hacc => hacc.given h.empty) h
  · exact .of_judged (structural_judged htext h) h

theorem crossTree_bare (htext : r.Textual) (h : r.Bare true features) :
    crossTree features r = .error .noRightSide := by
  obtain ⟨left, hleft⟩ := htext.left
  have hfeature : feature features r (.text left) = .ok left ∨
      feature features r (.text left) = .error .noRightSide := by
    cases hk : r.kind.isGroup with
    | true =>
      obtain ⟨-, name, hname, heq⟩ := h.reached hk
      cases hleft.symm.trans heq
      exact .inl (feature_eq_ok_iff.mpr ⟨rfl, hname⟩)
    | false => exact feature_bare (rule_eq_error hk h.empty) left
  unfold crossTree firstRight
  rw [hleft, h.empty]
  rcases hfeature with hfeature | hfeature
  · rw [hfeature]
    rfl
  · rw [hfeature]
    rfl

/-- A cross-tree constraint that is not bare is turned into a formula exactly if it is accepted. -/
theorem crossTree_judged (htext : r.Textual) (h : ¬r.Bare true features) :
    Judged (crossTree features r) (r.Accepted true features) := by
  obtain ⟨left, hleft⟩ := htext.left
  obtain ⟨names, hright⟩ := htext.right
  have hne := ne_nil_of_not_bare h
  have hrule := rule_total htext hne
  refine Judged.congr ?_ (accepted_iff hleft hright).symm
  unfold crossTree
  rw [hleft]
  refine (feature_judged hrule left).bind fun a hleft' => ?_
  cases names with
  | nil =>
    -- the left side was found, so that the right side is looked into
    have hname := (feature_eq_ok_iff.mp hleft').2
    cases (feature_eq_ok_iff.mp hleft').1
    exact absurd ⟨hright, fun _ => ⟨rfl, left, hname, hleft⟩⟩ h
  | cons first rest =>
    have hfirst : firstRight r = .ok (.text first) := firstRight_eq_ok_iff.mpr ⟨_, hright⟩
    rw [hfirst]
    refine ((feature_judged hrule first).bind (q := r.kind.isCrossTree = true) fun b _ => ?_).congr ?_
    · obtain ⟨rule, hrule⟩ := hrule
      cases hk : r.kind with
      | requires | excludes => exact rfl
      | mandatory | optional | or | alternative =>
        refine .of_error (e := .misplacedRelationship rule) ?_ Bool.false_ne_true trivial
        rw [hrule]
        rfl
    · exact and_congr List.forall_mem_singleton.symm
        (and_iff_right (List.cons_ne_nil first rest)).symm

theorem crossTree_settled (htext : r.Textual) :
    Settled (crossTree features r) (r.Accepted true features) (r.Bare true features) := by
  by_cases h : r.Bare true features
  · exact .of_stumble (crossTree_bare htext h) (fun hacc => hacc.given h.empty) h
  · exact .of_judged (crossTree_judged htext h) h

/-- The formulas of a relationship on a side of the model. -/
def placed (features : List String) (x : Bool × Relationship) :
    Except Failure (List (Formula String)) :=
  if x.1 then do return [← crossTree features x.2] else structural features x.2

theorem placed_settled {x : Bool × Relationship} (htext : x.2.Textual) :
    Settled (placed features x) (x.2.Accepted x.1 features) (x.2.Bare x.1 features) := by
  obtain ⟨acrossTree, r⟩ := x
  cases acrossTree with
  | true => exact (crossTree_settled htext).map fun f => [f]
  | false => exact structural_settled htext

end Encoding

/-! ### Models -/

namespace Relationship

variable {acrossTree : Bool} {features features' : List String} {r : Relationship}

theorem Accepted.mono (h : r.Accepted acrossTree features) (hsub : features ⊆ features') :
    r.Accepted acrossTree features' where
  side := h.side
  left := h.left.imp fun _ => And.imp_left fun hf => hsub hf
  right v hv := (h.right v hv).imp fun _ => And.imp_left fun hf => hsub hf
  given := h.given

theorem Bare.mono (h : r.Bare acrossTree features) (hsub : features ⊆ features') :
    r.Bare acrossTree features' where
  empty := h.empty
  reached hk := (h.reached hk).imp_right fun hl => hl.imp fun _ => And.imp_left fun hf => hsub hf

theorem lookedUp_subset : r.lookedUp acrossTree ⊆ r.right := by
  unfold lookedUp
  split
  · exact List.take_subset 1 r.right
  · exact List.Subset.refl _

theorem Kind.isGroup_eq_false {k : Kind} (h : k.isCrossTree = true) : k.isGroup = false := by
  cases k with
  | requires | excludes | mandatory | optional => rfl
  | or | alternative => cases h

theorem accepted_of_not_malformed (h : ¬r.Malformed acrossTree features) :
    r.Accepted acrossTree features := by
  unfold Malformed at h
  rw [not_or, not_or, not_not, not_not] at h
  obtain ⟨hside, hform, harity⟩ := h
  refine ⟨hside, hform.left, fun v hv => hform.right v (lookedUp_subset hv), ?_⟩
  cases hk : r.kind.isGroup with
  | true => exact hform.group hk
  | false => exact List.ne_nil_of_length_eq_add_one (not_not.mp fun hlength => harity ⟨hk, hlength⟩)

/-- An accepted relationship is malformed only by having more than one feature on the right without being
a group. -/
theorem Accepted.surplus (h : r.Accepted acrossTree features) (hmal : r.Malformed acrossTree features) :
    r.kind.isGroup = false ∧ 1 < r.right.length := by
  have hpos : 0 < r.right.length := List.length_pos_iff.mpr h.given
  rcases hmal with hside | hform | ⟨hk, hlength⟩
  · exact absurd h.side hside
  · -- the features are those looked up, so that not all of the right side is
    have hall : r.lookedUp acrossTree ≠ r.right := fun hall =>
      hform ⟨h.left, hall ▸ h.right, fun _ => h.given⟩
    unfold lookedUp at hall
    split at hall
    · next hacross =>
      exact ⟨Kind.isGroup_eq_false (h.side.trans hacross),
        Nat.not_le.mp fun hle => hall (List.take_of_length_le hle)⟩
    · exact absurd rfl hall
  · exact ⟨hk, by omega⟩

theorem malformed_iff : r.Malformed acrossTree features ↔
    ¬r.Accepted acrossTree features ∨ r.kind.isGroup = false ∧ 1 < r.right.length := by
  constructor
  · intro hmal
    by_cases h : r.Accepted acrossTree features
    · exact .inr (h.surplus hmal)
    · exact .inl h
  · rintro (h | ⟨hk, hlength⟩)
    · exact not_not.mp fun hnot => h (accepted_of_not_malformed hnot)
    · exact .inr (.inr ⟨hk, Nat.ne_of_gt hlength⟩)

end Relationship

namespace FeatureModel

variable {m : FeatureModel}

theorem map_snd_placed : m.placed.map Prod.snd = m.relationships := by
  simp [placed, relationships, Function.comp_def]

/-- A model is malformed exactly if not all of its relationships are accepted or one of them has more
features on the right than it should. -/
theorem malformed_iff : m.Malformed ↔
    ¬m.Accepted ∨ ∃ r ∈ m.relationships, r.kind.isGroup = false ∧ 1 < r.right.length := by
  unfold Malformed Accepted
  rw [← map_snd_placed]
  simp only [Relationship.malformed_iff, and_or_left, exists_or, List.mem_map, exists_exists_and_eq_and,
    not_forall, exists_prop]

theorem edgesOf_eq_error {r : Relationship} {e : Failure} (h : r.Textual) (he : edgesOf r = .error e) :
    r.kind = .optional ∧ r.right = [] ∧ e = .noRightSide := by
  have hkind : r.kind = .optional ∧ r.right = [] := by
    by_contra hnot
    obtain ⟨edges, hedges⟩ := edgesOf_total h fun hkind hnil => hnot ⟨hkind, hnil⟩
    cases he.symm.trans hedges
  unfold edgesOf at he
  rw [if_pos hkind.1, hkind.2] at he
  exact ⟨hkind.1, hkind.2, (Except.error.inj he).symm⟩

theorem tree_eq_error (h : m.Textual) (hroot : ∃ r ∈ m.structural, r.kind = .optional ∧ r.right = []) :
    m.tree = .error .noRightSide := by
  unfold tree
  cases hedges : m.structural.mapM edgesOf with
  | error e =>
    obtain ⟨before, r, after, hm, -, hr⟩ := mapM_eq_error_iff.mp hedges
    have hmem : r ∈ m.structural := hm ▸ List.mem_append_right _ List.mem_cons_self
    rw [(edgesOf_eq_error (h r (List.mem_append_left _ hmem)) hr).2.2]
    rfl
  | ok edges =>
    obtain ⟨r, hr, hkind, hnil⟩ := hroot
    obtain ⟨es, hes⟩ := exists_mapM_iff.mp ⟨edges, hedges⟩ r hr
    unfold edgesOf at hes
    rw [if_pos hkind, hnil] at hes
    cases hes

end FeatureModel

namespace Store

open Constraint FeatureModel

variable {m : FeatureModel} {o : FeatureOrder}

/-- The constraints of relationships are made up to the first one without formulas. -/
theorem addEach_outcome (role : Constraint.Role)
    (formulas : Relationship → Except Failure (List (Formula String))) (rs : List Relationship)
    (made : List Constraint) : (addEach role formulas rs made).2.elim (.ok ()) .error =
      rs.mapM formulas >>= fun _ => pure () := by
  induction rs generalizing made with
  | nil => rfl
  | cons r rs ih =>
    rw [List.mapM_cons]
    unfold addEach
    cases hr : formulas r with
    | error e => rfl
    | ok fs =>
      refine (ih _).trans ?_
      cases rs.mapM formulas <;> rfl

theorem encode_outcome (features : List String) : (encode features m).2.elim (.ok ()) .error =
    m.placed.mapM (Encoding.placed features) >>= fun _ => pure () := by
  have htree := addEach_outcome .relationship (Encoding.structural features) m.structural []
  have hacross := addEach_outcome .crossTree (fun r => do return [← Encoding.crossTree features r])
    m.crossTree
  have hplaced : m.placed.mapM (Encoding.placed features) = do
      let inTree ← m.structural.mapM (Encoding.structural features)
      let across ← m.crossTree.mapM fun r => do return [← Encoding.crossTree features r]
      return inTree ++ across := by
    unfold FeatureModel.placed
    rw [List.mapM_append, List.mapM_map, List.mapM_map]
    rfl
  rw [hplaced]
  unfold encode
  generalize addEach .relationship (Encoding.structural features) m.structural [] = inTree at htree ⊢
  obtain ⟨made, stopped⟩ := inTree
  cases hstructural : m.structural.mapM (Encoding.structural features) with
  | error e =>
    rw [hstructural] at htree
    cases stopped with
    | none => cases htree
    | some e' => exact htree
  | ok fs =>
    rw [hstructural] at htree
    cases stopped with
    | some e' => cases htree
    | none =>
      refine (hacross made).trans ?_
      cases m.crossTree.mapM fun r => do return [← Encoding.crossTree features r] <;> rfl

theorem encode_settled (htext : m.Textual) {features : List String}
    (hfeatures : ∀ f, f ∈ features ↔ f ∈ m.names) :
    Settled ((encode features m).2.elim (.ok ()) .error) m.Accepted
      (∃ x, m.Refuses x ∧ x.2.Bare x.1 m.names) := by
  have hsub : features ⊆ m.names := fun f => (hfeatures f).mp
  have hsup : m.names ⊆ features := fun f => (hfeatures f).mpr
  rw [encode_outcome]
  refine (Settled.mapM fun x hx => (Encoding.placed_settled ?_).congr ?_ ?_).map fun _ => ()
  · unfold FeatureModel.placed at hx
    rcases List.mem_append.mp hx with hx | hx
    · obtain ⟨r, hr, rfl⟩ := List.mem_map.mp hx
      exact htext r (List.mem_append_left _ hr)
    · obtain ⟨r, hr, rfl⟩ := List.mem_map.mp hx
      exact htext r (List.mem_append_right _ hr)
  · exact ⟨fun h => h.mono hsub, fun h => h.mono hsup⟩
  · exact ⟨fun h => h.mono hsub, fun h => h.mono hsup⟩

/-- The features of a model of texts can be listed if its optional relationships have parents. -/
theorem survey_total (htext : m.Textual)
    (hright : ∀ r ∈ m.structural, r.kind = .optional → r.right ≠ []) (o : FeatureOrder) :
    ∃ vars unreachable, survey m o = .ok (vars, unreachable) := by
  obtain ⟨visited, hvisited⟩ := order_total htext hright o
  obtain ⟨unreachable, hunreachable⟩ := unreachable_total htext hright
  exact ⟨_, unreachable, bind_eq_ok_iff.mpr ⟨visited, hvisited,
    bind_eq_ok_iff.mpr ⟨unreachable, hunreachable, rfl⟩⟩⟩

theorem survey_eq_error (hfeatures : m.features ≠ []) (htree : m.tree = .error .noRightSide) :
    survey m o = .error .noRightSide := by
  obtain ⟨root, rest, hm⟩ := List.exists_cons_of_ne_nil hfeatures
  have hunreachable : m.unreachable = .error .noRightSide := by
    unfold unreachable
    rw [hm, htree]
    rfl
  unfold survey
  cases o with
  | declared =>
    rw [order_declared, hunreachable]
    rfl
  | depthFirst =>
    unfold order
    rw [hm, htree]
    rfl

theorem ofModel_settled (htext : m.Textual) (o : FeatureOrder) :
    Settled (ofModel m o) (m.features ≠ [] ∧ m.Accepted) (m.features ≠ [] ∧ m.Stumbles) := by
  unfold ofModel attempt
  cases hm : m.features with
  | nil =>
    exact .of_judged (.of_error (e := .noFeatures) rfl (fun h => h.1 rfl) trivial) fun h => h.1 rfl
  | cons root rest =>
    have hne : m.features ≠ [] := hm ▸ List.cons_ne_nil _ _
    by_cases hparent : ∃ r ∈ m.structural, r.kind = .optional ∧ r.right = []
    · have hsurvey : survey m o = .error .noRightSide := survey_eq_error hne (tree_eq_error htext hparent)
      simp only [hsurvey]
      refine .of_stumble rfl ?_ ⟨List.cons_ne_nil _ _, .inl hparent⟩
      rintro ⟨-, hall⟩
      obtain ⟨r, hr, -, hnil⟩ := hparent
      exact (hall (false, r) (List.mem_append_left _ (List.mem_map_of_mem hr))).given hnil
    · obtain ⟨vars, unreachable, hsurvey⟩ := survey_total htext
        (fun r hr hkind hnil => hparent ⟨r, hr, hkind, hnil⟩) o
      have hencode := encode_settled htext (mem_vars_of_survey hsurvey)
      refine Settled.congr ?_ (and_iff_right (List.cons_ne_nil root rest)).symm
        ((or_iff_right hparent).symm.trans (and_iff_right (List.cons_ne_nil root rest)).symm)
      simp only [hsurvey]
      split
      · next made e hmade =>
        rw [hmade] at hencode
        exact hencode.map fun _ => .empty
      · next made hmade =>
        rw [hmade] at hencode
        exact hencode.map fun _ => _

/-- **What becomes of a model whose relationships were put there without any check.** It has a store
exactly if all relationships are accepted; the making stumbles over a missing right side exactly where it
comes across one; in all other cases the model is refused for its structure. Malformed relationships that
are accepted are those with surplus features only. -/
theorem ofModel_refuses (htext : m.Textual) (o : FeatureOrder) :
    ((∃ s, ofModel m o = .ok s) ↔ m.features ≠ [] ∧ m.Accepted) ∧
      (ofModel m o = .error .noRightSide ↔ m.features ≠ [] ∧ m.Stumbles) ∧
      ((∃ e, ofModel m o = .error e ∧ e.IsStructural) ↔ m.features = [] ∨ ¬m.Accepted ∧ ¬m.Stumbles) ∧
      (∀ e, ofModel m o = .error e → e = .noRightSide ∨ e.IsStructural) ∧
      (m.Malformed ↔
        ¬m.Accepted ∨ ∃ r ∈ m.relationships, r.kind.isGroup = false ∧ 1 < r.right.length) := by
  have h := ofModel_settled htext o
  refine ⟨h.ok_iff, h.stumbles_iff, h.structural_iff.trans ?_, h.error, malformed_iff⟩
  rw [← not_or, ← and_or_left, not_and_or, not_not, not_or]

/-- A root with two features and nothing between them. -/
def scattered : FeatureModel := ⟨.null, [⟨"Root", []⟩, ⟨"A", []⟩, ⟨"B", []⟩], [], []⟩

/-- A constraint that requires a feature which is none stands before one that requires nothing. -/
def haunted : FeatureModel :=
  (scattered.appendUnchecked true .requires (.text "A") [.text "Ghost"]).appendUnchecked true .requires
    (.text "A") []

/-- The ghost is reported before anything is stumbled over. -/
theorem ofModel_refuses_haunted :
    haunted.Textual ∧ ∃ e, ofModel haunted .depthFirst = .error e ∧ e.IsStructural := by
  have htext : haunted.Textual := List.forall_mem_cons.mpr ⟨⟨⟨"A", rfl⟩, ["Ghost"], rfl⟩,
    List.forall_mem_singleton.mpr ⟨⟨"A", rfl⟩, [], rfl⟩⟩
  have hghost : ¬Relationship.Accepted true haunted.names
      ⟨some 0, .requires, .text "A", [.text "Ghost"]⟩ := by
    intro h
    obtain ⟨name, hname, heq⟩ := h.right _ List.mem_cons_self
    cases heq
    exact absurd hname (by decide)
  refine ⟨htext, (ofModel_refuses htext .depthFirst).2.2.1.mpr (.inr ⟨?_, ?_⟩)⟩
  · exact fun hall => hghost (hall _ List.mem_cons_self)
  · rintro (⟨r, hr, -⟩ | ⟨x, ⟨before, after, hplaced, hbefore, -⟩, hbare⟩)
    · exact absurd hr List.not_mem_nil
    · cases before with
      | nil =>
        cases hplaced
        cases hbare.empty
      | cons y before =>
        obtain ⟨rfl, -⟩ := List.cons.inj hplaced
        exact hghost (hbefore _ List.mem_cons_self)

/-- A relationship that is no group with two features on the right. -/
def surplus : FeatureModel :=
  scattered.appendUnchecked false .mandatory (.text "Root") [.text "A", .text "B"]

/-- A relationship with no feature on the right. -/
def rightless : FeatureModel := scattered.appendUnchecked false .mandatory (.text "Root") []

/-- Not every malformed model is refused for its structure: surplus features are ignored, and missing
ones are stumbled over. -/
theorem malformed_not_refused :
    (surplus.Textual ∧ surplus.Malformed ∧ ∃ s, ofModel surplus .declared = .ok s) ∧
      rightless.Textual ∧ rightless.Malformed ∧
        ofModel rightless .declared = .error .noRightSide := by
  refine ⟨⟨?_, ⟨_, List.mem_cons_self, .inr (.inr ⟨rfl, by decide⟩)⟩, _, rfl⟩,
    ?_, ⟨_, List.mem_cons_self, .inr (.inr ⟨rfl, by decide⟩)⟩, rfl⟩
  · exact List.forall_mem_singleton.mpr ⟨⟨"Root", rfl⟩, ["A", "B"], rfl⟩
  · exact List.forall_mem_singleton.mpr ⟨⟨"Root", rfl⟩, [], rfl⟩

end Store
end ProductLine
