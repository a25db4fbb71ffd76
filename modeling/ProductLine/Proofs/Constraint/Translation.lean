import ProductLine.Proofs.Constraint.Refusals
import ProductLine.Proofs.FeatureModel.Made

/-! # Which models have a store

Where relationships stand on their own side of the model and have one feature on the right unless they are
groups, exactly the well-formed ones are accepted and none is bare. So a store is made of exactly the
well-formed models, and it says what their relationships mean (`ofModel_exact`). -/

namespace ProductLine

open Outcome

namespace FeatureModel

variable {m : FeatureModel} {x : Bool × Relationship}

theorem Arranged.side (hm : m.Arranged) (hx : x ∈ m.placed) : x.2.kind.isCrossTree = x.1 := by
  unfold placed at hx
  rcases List.mem_append.mp hx with hx | hx
  · obtain ⟨r, hr, rfl⟩ := List.mem_map.mp hx
    exact hm.structural r hr
  · obtain ⟨r, hr, rfl⟩ := List.mem_map.mp hx
    exact hm.crossTree r hr

theorem mem_relationships_of_placed (hx : x ∈ m.placed) : x.2 ∈ m.relationships :=
  map_snd_placed ▸ List.mem_map_of_mem hx

theorem Arranged.malformed_iff (hm : m.Arranged) (hx : x ∈ m.placed) :
    x.2.Malformed x.1 m.names ↔ ¬x.2.WellFormed m.names := by
  refine ⟨?_, fun h => .inr (.inl h)⟩
  rintro (hside | hform | ⟨hkind, hlength⟩)
  · exact absurd (hm.side hx) hside
  · exact hform
  · exact absurd (hm.arity _ (mem_relationships_of_placed hx) hkind) hlength

/-- Where everything is arranged, the well-formed relationships are accepted and no others. -/
theorem Arranged.accepted_iff (hm : m.Arranged) :
    m.Accepted ↔ ∀ r ∈ m.relationships, r.WellFormed m.names := by
  rw [← map_snd_placed, List.forall_mem_map]
  refine forall₂_congr fun x hx => ?_
  rw [← not_iff_not, ← hm.malformed_iff hx, Relationship.malformed_iff, or_iff_left]
  rintro ⟨hkind, hlength⟩
  exact absurd (hm.arity _ (mem_relationships_of_placed hx) hkind) (Nat.ne_of_gt hlength)

theorem Arranged.not_bare (hm : m.Arranged) (hx : x ∈ m.placed) : ¬x.2.Bare x.1 m.names := by
  intro h
  cases hkind : x.2.kind.isGroup with
  | false =>
    have hlength := hm.arity _ (mem_relationships_of_placed hx) hkind
    rw [h.empty] at hlength
    cases hlength
  | true =>
    have hside := (hm.side hx).trans (h.reached hkind).1
    cases hkind.symm.trans (Relationship.Kind.isGroup_eq_false hside)

theorem Arranged.not_stumbles (hm : m.Arranged) : ¬m.Stumbles := by
  rintro (⟨r, hr, hkind, hnil⟩ | ⟨x, ⟨before, after, hplaced, -⟩, hbare⟩)
  · have hlength := hm.arity r (List.mem_append_left _ hr) (hkind ▸ rfl)
    rw [hnil] at hlength
    cases hlength
  · exact hm.not_bare (hplaced ▸ List.mem_append_right _ List.mem_cons_self) hbare

end FeatureModel

namespace Store

open Constraint

variable {m : FeatureModel}

/-- A store is made of a model exactly if it is well-formed. -/
theorem ofModel_judged (hm : m.Arranged) (htext : m.Textual) (o : FeatureOrder) :
    Judged (ofModel m o) m.WellFormed := by
  refine ((ofModel_settled htext o).judged fun h => hm.not_stumbles h.2).congr ?_
  rw [hm.accepted_iff]
  exact ⟨fun h => ⟨h.1, h.2⟩, fun h => ⟨h.features, h.relationships⟩⟩

theorem textual_of_attempt {o : FeatureOrder} {s : Store} (hm : m.Arranged)
    (h : (attempt m o).outcome = .ok s) : m.Textual := by
  obtain ⟨_, _, vars, _, _, -, -, hencode, -⟩ := attempt_eq_ok h
  intro r hr
  rcases List.mem_append.mp hr with htree | hacross
  · obtain ⟨-, _, _, -, hstructural, -⟩ := encode_encodes hencode
    obtain ⟨fs, hfs, -⟩ := hstructural.complete r htree
    obtain ⟨left, hleft, hfs⟩ := bind_eq_ok_iff.mp hfs
    obtain ⟨names, hnames, -⟩ := bind_eq_ok_iff.mp hfs
    exact ⟨⟨left, (Encoding.feature_eq_ok_iff.mp hleft).1⟩, names,
      (Encoding.mapM_feature_eq_ok_iff.mp hnames).1⟩
  · obtain ⟨-, a, b, rest, -, -, hleft, hright⟩ := crossTree_of_encode hencode hacross
    have hone := hm.arity r hr (Relationship.Kind.isGroup_eq_false (hm.crossTree r hacross))
    rw [hright, List.length_cons, Nat.succ_inj, List.length_eq_zero_iff] at hone
    subst hone
    exact ⟨⟨a, hleft⟩, [b], hright⟩

/-! ### What the constraints say -/

namespace Faithful

variable {s : Store} {v : Selection}

theorem satisfies_cf_iff (h : Faithful m s) :
    Formula.Satisfies v (formulas s.cf) ↔ ∀ r ∈ m.relationships, r.Holds v := by
  unfold Formula.Satisfies formulas
  rw [List.forall_mem_map]
  constructor
  · exact fun hall r hr => h.complete r hr v fun c hc _ => hall c hc
  · intro hall c hc
    obtain ⟨r, hr, -, hsound⟩ := h.sound c hc
    exact hsound v (hall r hr)

/-- The baseline says besides that the root is selected. -/
theorem satisfies_ac_iff (h : Faithful m s) :
    Formula.Satisfies v (formulas s.ac) ↔
      (∀ r ∈ m.relationships, r.Holds v) ∧ ∃ root ∈ m.features.head?, v root.name = true := by
  obtain ⟨root, c, hroot, hc, hformula, -⟩ := h.root
  have hac : formulas s.ac = formulas s.cf ++ [.var root.name] := by
    unfold Store.ac formulas
    rw [List.map_append, hc, Option.toList_some, List.map_singleton, hformula]
  rw [hac, Formula.satisfies_append, h.satisfies_cf_iff, Encoding.satisfies_singleton, hroot]
  refine and_congr_right fun _ => ⟨fun hv => ⟨root, rfl, hv⟩, ?_⟩
  rintro ⟨f, hf, hv⟩
  cases hf
  exact hv

end Faithful

/-- **A store is made of exactly the well-formed models, and it says what they mean.** A model of
texts that has no store is refused for its structure. -/
theorem ofModel_exact (hmade : m.Made) (htext : m.Textual) (o : FeatureOrder) :
    ((∃ s, ofModel m o = .ok s) ↔ m.WellFormed) ∧
      (∀ e, ofModel m o = .error e → e.IsStructural) ∧
      ∀ s, ofModel m o = .ok s → ∀ v : Selection,
        (Formula.Satisfies v (formulas s.cf) ↔ ∀ r ∈ m.relationships, r.Holds v) ∧
        (Formula.Satisfies v (formulas s.ac) ↔
          (∀ r ∈ m.relationships, r.Holds v) ∧ ∃ root ∈ m.features.head?, v root.name = true) := by
  have hjudged := ofModel_judged hmade.arranged htext o
  refine ⟨hjudged.ok_iff, fun e => hjudged.isStructural, ?_⟩
  intro s hs v
  obtain ⟨hfaithful, -⟩ := faithful_of_attempt hs
  exact ⟨hfaithful.satisfies_cf_iff, hfaithful.satisfies_ac_iff⟩

open FeatureModel in
/-- Adds a root and a feature, and a group that has this feature at two places. -/
def double : Edit Unit := do
  addFeatures (.list [.text "Root", .text "A"])
  discard (addRelationship .alternative (.text "Root") (.list [.text "A", .text "A"]))

/-- A model whose root needs a feature at exactly one of two places. -/
def doubled : FeatureModel := .edited double (.empty .null)

theorem made_doubled : doubled.Made := by
  have hmakes : FeatureModel.Makes double := by
    unfold double
    apply Ensures.bind (FeatureModel.makes_addFeatures _)
    intro _
    exact Ensures.discard (FeatureModel.makes_addRelationship _ _ _)
  exact hmakes.made (.empty _)

/-- The store of the model can be made, but its baseline cannot hold. -/
theorem ofModel_exact_doubled : ∃ s, ofModel doubled .depthFirst = .ok s ∧
    ∀ v : Selection, ¬Formula.Satisfies v (formulas s.ac) := by
  have htext : doubled.Textual := List.forall_mem_singleton.mpr ⟨⟨"Root", rfl⟩, ["A", "A"], rfl⟩
  have hA : ∃ name ∈ doubled.names, Value.text "A" = .text name := ⟨"A", by decide, rfl⟩
  have hwell : doubled.WellFormed := ⟨List.cons_ne_nil _ _, List.forall_mem_singleton.mpr
    ⟨⟨"Root", by decide, rfl⟩, List.forall_mem_cons.mpr ⟨hA, List.forall_mem_singleton.mpr hA⟩,
      fun _ => List.cons_ne_nil _ _⟩⟩
  obtain ⟨hstore, -, hmeans⟩ := ofModel_exact made_doubled htext .depthFirst
  obtain ⟨s, hs⟩ := hstore.mpr hwell
  refine ⟨s, hs, fun v hv => ?_⟩
  obtain ⟨hholds, root, hroot, hselected⟩ := (hmeans s hs v).2.mp hv
  cases hroot
  have hgroup : ["A", "A"].countP v = if v "Root" then 1 else 0 :=
    (Encoding.holds_alternative_iff rfl rfl rfl).mp (hholds _ (List.mem_singleton_self _))
  rw [if_pos hselected] at hgroup
  cases hA : v "A" <;> simp [hA] at hgroup

end Store
end ProductLine
