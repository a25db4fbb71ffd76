import ProductLine.FeatureModel.Codec
import ProductLine.Proofs.Contract
import ProductLine.Proofs.FeatureModel.Alike

/-! # Models made by adding

Models come about by adding features, relationships and constraints, one after the other or out of a
model file. Some additions fail, and what was added before a failure stays. Whatever is made in this
way has features with distinct names (`Made.names_nodup`) that are not blank (`Made.not_blank`) and
relationships that stand where they belong (`Made.arranged`). Even where relationships are added without
being checked, they can be told apart (`Grown.identified`). -/

namespace ProductLine
namespace FeatureModel

open Outcome

/-- The model that an edit leaves, whether it succeeds or fails. -/
def edited {α : Type} (edit : Edit α) (m : FeatureModel) : FeatureModel :=
  match edit m with
  | .ok _ m => m
  | .error _ m => m

/-- What is made of an empty model by adding. -/
inductive Made : FeatureModel → Prop where
  | empty (title : Value) : Made (.empty title)
  | addFeature {m : FeatureModel} (h : Made m) (name : Value) : Made (edited (addFeature name) m)
  | addRelationship {m : FeatureModel} (h : Made m) (kind : Relationship.Kind) (left right : Value) :
    Made (edited (addRelationship kind left right) m)
  | addConstraint {m : FeatureModel} (h : Made m) (kind : Relationship.Kind) (left right : Value) :
    Made (edited (addConstraint kind left right) m)

variable {m n : FeatureModel} {α : Type}

/-- An edit that makes a model of one that was made. -/
abbrev Makes (edit : Edit α) : Prop := Ensures Made edit (fun _ => Made) fun _ => Made

theorem makes_of_edited {edit : Edit α} (h : ∀ m, Made m → Made (edited edit m)) : Makes edit := by
  intro m hm
  have hn := h m hm
  unfold edited at hn
  cases hr : edit m with
  | ok a n =>
    rw [hr] at hn
    exact hn
  | error e n =>
    rw [hr] at hn
    exact hn

theorem Makes.made {edit : Edit α} (h : Makes edit) (hm : Made m) : Made (edited edit m) := by
  have hn := h m hm
  unfold edited
  cases hr : edit m with
  | ok a n =>
    rw [hr] at hn
    exact hn
  | error e n =>
    rw [hr] at hn
    exact hn

theorem makes_addFeature (name : Value) : Makes (addFeature name) :=
  makes_of_edited fun _ h => h.addFeature name

theorem makes_addRelationship (kind : Relationship.Kind) (left right : Value) :
    Makes (addRelationship kind left right) :=
  makes_of_edited fun _ h => h.addRelationship kind left right

theorem makes_addConstraint (kind : Relationship.Kind) (left right : Value) :
    Makes (addConstraint kind left right) :=
  makes_of_edited fun _ h => h.addConstraint kind left right

theorem makes_ofExcept (r : Except Failure α) : Makes (MonadExcept.ofExcept r : Edit α) := by
  intro m hm
  cases r with
  | ok a => exact hm
  | error e => exact hm

theorem makes_addFeatures (names : Value) : Makes (addFeatures names) := by
  unfold addFeatures
  split
  · exact Ensures.forM fun name _ => makes_addFeature name
  · apply Ensures.throw
    intro _
    exact id

theorem makes_addEntries {add : Relationship.Kind → Value → Value → Edit Relationship}
    (h : ∀ kind left right, Makes (add kind left right)) (entries : Value) :
    Makes (addEntries add entries) := by
  unfold addEntries
  split
  · refine Ensures.forM ?_
    intro entry _
    unfold addEntry
    split
    · apply Ensures.bind (makes_ofExcept _)
      intro kind
      apply Ensures.bind (makes_ofExcept _)
      intro left
      apply Ensures.bind (makes_ofExcept _)
      intro right
      exact Ensures.discard (h kind left right)
    · apply Ensures.throw
      intro _
      exact id
  · apply Ensures.throw
    intro _
    exact id

theorem made_of_ofValue {data : Value} (h : ofValue data = .ok m) : m.Made := by
  unfold ofValue at h
  split at h
  · next members =>
    have hmakes : Makes (addMembers members) := by
      unfold addMembers
      apply Ensures.bind (makes_addFeatures _)
      intro _
      apply Ensures.bind (makes_addEntries makes_addRelationship _)
      intro _
      exact makes_addEntries makes_addConstraint _
    have hmade := hmakes _ (.empty ((Value.member? "name" members).getD .null))
    split at h
    · next n hrun =>
      rw [hrun] at hmade
      exact Except.ok.inj h ▸ hmade
    · cases h
  · cases h

/-! ### What an edit can do -/

theorem withFeature_eq_ok {name : Value} (h : m.withFeature name = .ok n) :
    ∃ s, n = { m with features := m.features ++ [⟨s, []⟩] } ∧ s ∉ m.names ∧ ¬Text.Blank s := by
  unfold withFeature at h
  split at h
  · cases h
  · split at h
    · split at h
      · cases h
      · split at h
        · cases h
        · next s _ hblank hnew =>
          rw [feature?_isSome_iff] at hnew
          cases h
          exact ⟨s, rfl, hnew, hblank⟩
    · cases h

theorem newRelationship_eq_ok {kind : Relationship.Kind} {left right : Value} {r : Relationship}
    (h : m.newRelationship kind left right = .ok r) :
    r.key = some m.relationships.length ∧ r.kind = kind ∧
      (kind.isGroup = false → r.right.length = 1) := by
  unfold newRelationship at h
  obtain ⟨side, -, h⟩ := bind_eq_ok_iff.mp h
  split at h
  · next hside =>
    cases h
    refine ⟨rfl, rfl, ?_⟩
    intro hkind
    rw [hkind, Bool.false_or, decide_eq_true_eq] at hside
    exact hside
  · cases h

/-- A feature is added at the end, with a new name that is not blank, or nothing happens. -/
theorem edited_addFeature (name : Value) : edited (addFeature name) m = m ∨ ∃ s,
    edited (addFeature name) m = { m with features := m.features ++ [⟨s, []⟩] } ∧ s ∉ m.names ∧
      ¬Text.Blank s := by
  unfold edited FeatureModel.addFeature
  cases hadd : m.withFeature name with
  | error e => exact .inl rfl
  | ok n => exact .inr (withFeature_eq_ok hadd)

/-- A relationship is added at the end of the tree, where it belongs, or nothing happens. -/
theorem edited_addRelationship (kind : Relationship.Kind) (left right : Value) :
    edited (addRelationship kind left right) m = m ∨ ∃ r : Relationship,
      edited (addRelationship kind left right) m = { m with structural := m.structural ++ [r] } ∧
      r.key = some m.relationships.length ∧ r.kind.isCrossTree = false ∧
      (r.kind.isGroup = false → r.right.length = 1) := by
  unfold edited FeatureModel.addRelationship
  cases hkind : kind.isCrossTree with
  | true => exact .inl rfl
  | false =>
    cases hnew : m.newRelationship kind left right with
    | error e => exact .inl rfl
    | ok r =>
      obtain ⟨hkey, rfl, harity⟩ := newRelationship_eq_ok hnew
      exact .inr ⟨r, rfl, hkey, hkind, harity⟩

/-- A constraint is added at the end of those across the tree, or nothing happens. -/
theorem edited_addConstraint (kind : Relationship.Kind) (left right : Value) :
    edited (addConstraint kind left right) m = m ∨ ∃ r : Relationship,
      edited (addConstraint kind left right) m = { m with crossTree := m.crossTree ++ [r] } ∧
      r.key = some m.relationships.length ∧ r.kind.isCrossTree = true ∧
      (r.kind.isGroup = false → r.right.length = 1) := by
  unfold edited FeatureModel.addConstraint
  cases hkind : kind.isCrossTree with
  | false => exact .inl rfl
  | true =>
    cases hnew : m.newRelationship kind left right with
    | error e => exact .inl rfl
    | ok r =>
      obtain ⟨hkey, rfl, harity⟩ := newRelationship_eq_ok hnew
      exact .inr ⟨r, rfl, hkey, hkind, harity⟩

/-! ### Features -/

/-- What adding a feature with a new name that is not blank and no tags keeps holds of the features of
every model that was made. -/
theorem Made.features_ind {p : List Feature → Prop} (h : m.Made) (hnil : p [])
    (hadd : ∀ fs s, p fs → s ∉ fs.map (·.name) → ¬Text.Blank s → p (fs ++ [⟨s, []⟩])) :
    p m.features := by
  induction h with
  | empty title => exact hnil
  | addFeature _ name ih =>
    rcases edited_addFeature name with heq | ⟨s, heq, hnew, hblank⟩
    · rwa [heq]
    · rw [heq]
      exact hadd _ s ih hnew hblank
  | addRelationship _ kind left right ih =>
    rcases edited_addRelationship kind left right with heq | ⟨r, heq, -⟩ <;> rwa [heq]
  | addConstraint _ kind left right ih =>
    rcases edited_addConstraint kind left right with heq | ⟨r, heq, -⟩ <;> rwa [heq]

theorem Made.names_nodup (h : m.Made) : m.names.Nodup := by
  apply h.features_ind (p := fun fs => (fs.map (·.name)).Nodup) List.nodup_nil
  intro fs s hfs hnew _
  rw [List.map_append, List.map_singleton, ← List.concat_eq_append]
  exact List.Nodup.concat hnew hfs

theorem Made.not_blank (h : m.Made) : ∀ name ∈ m.names, ¬Text.Blank name := by
  apply h.features_ind (p := fun fs => ∀ name ∈ fs.map (·.name), ¬Text.Blank name)
    (List.forall_mem_nil _)
  intro fs s hfs _ hblank
  rw [List.map_append]
  exact List.forall_mem_append.mpr ⟨hfs, List.forall_mem_singleton.mpr hblank⟩

theorem Made.hasTag_eq_false (h : m.Made) (name : String) (t : Feature.Anomaly) :
    m.hasTag name t = false := by
  have huntagged : ∀ f ∈ m.features, f.tags = [] := by
    apply h.features_ind (p := fun fs => ∀ f ∈ fs, f.tags = []) (List.forall_mem_nil _)
    intro fs s hfs _ _
    exact List.forall_mem_append.mpr ⟨hfs, List.forall_mem_singleton.mpr rfl⟩
  rw [Bool.eq_false_iff]
  intro htag
  obtain ⟨f, hf, ht⟩ := hasTag_iff.mp htag
  rw [huntagged f (of_feature?_eq_some hf).1] at ht
  exact absurd ht List.not_mem_nil

/-! ### Relationships -/

/-- The relationships are told apart by their keys, also if they say the same. -/
structure Identified (m : FeatureModel) : Prop where
  keyed : ∀ r ∈ m.relationships, ∃ i, r.key = some i ∧ i < m.relationships.length
  keys_nodup : (m.relationships.map (·.key)).Nodup

/-- Relationships stand on the side of the model where they belong, those that are no groups have
one feature on the right, and no two have the same key. -/
structure Arranged (m : FeatureModel) : Prop where
  structural : ∀ r ∈ m.structural, r.kind.isCrossTree = false
  crossTree : ∀ r ∈ m.crossTree, r.kind.isCrossTree = true
  arity : ∀ r ∈ m.relationships, r.kind.isGroup = false → r.right.length = 1
  keyed : ∀ r ∈ m.relationships, ∃ i, r.key = some i ∧ i < m.relationships.length
  keys_nodup : (m.relationships.map (·.key)).Nodup

/-- A relationship with the next key can be told from all others. -/
theorem Identified.joined {r : Relationship} (h : m.Identified)
    (hperm : n.relationships.Perm (r :: m.relationships))
    (hkey : r.key = some m.relationships.length) : n.Identified := by
  have hlength : n.relationships.length = m.relationships.length + 1 := hperm.length_eq
  refine ⟨fun r' hr' => ?_, ?_⟩
  · rcases List.mem_cons.mp (hperm.subset hr') with rfl | hr'
    · exact ⟨_, hkey, hlength ▸ Nat.lt_succ_self _⟩
    · obtain ⟨i, hi, hlt⟩ := h.keyed r' hr'
      exact ⟨i, hi, hlength ▸ Nat.lt_succ_of_lt hlt⟩
  · rw [(hperm.map _).nodup_iff, List.map_cons, List.nodup_cons]
    refine ⟨?_, h.keys_nodup⟩
    -- all keys given out before are smaller
    intro hin
    obtain ⟨r', hr', heq⟩ := List.mem_map.mp hin
    obtain ⟨i, hi, hlt⟩ := h.keyed r' hr'
    rw [hi, hkey, Option.some.injEq] at heq
    exact absurd (heq ▸ hlt) (Nat.lt_irrefl _)

theorem Identified.of_relationships (h : m.Identified)
    (heq : n.relationships = m.relationships) : n.Identified :=
  ⟨heq ▸ h.keyed, heq ▸ h.keys_nodup⟩

theorem relationships_perm_structural (m : FeatureModel) (r : Relationship) :
    ({ m with structural := m.structural ++ [r] } : FeatureModel).relationships.Perm
      (r :: m.relationships) := by
  show ((m.structural ++ [r]) ++ m.crossTree).Perm _
  rw [List.append_assoc]
  exact List.perm_middle

theorem relationships_perm_crossTree (m : FeatureModel) (r : Relationship) :
    ({ m with crossTree := m.crossTree ++ [r] } : FeatureModel).relationships.Perm
      (r :: m.relationships) := by
  show (m.structural ++ (m.crossTree ++ [r])).Perm _
  rw [← List.append_assoc]
  exact List.perm_append_singleton r m.relationships

/-- A relationship can be told from all others even if it is added without being checked. -/
theorem Identified.appendUnchecked (h : m.Identified) (acrossTree : Bool) (kind : Relationship.Kind)
    (left : Value) (right : List Value) :
    (m.appendUnchecked acrossTree kind left right).Identified := by
  cases acrossTree with
  | true => exact h.joined (relationships_perm_crossTree m _) rfl
  | false => exact h.joined (relationships_perm_structural m _) rfl

theorem Identified.addFeature (h : m.Identified) (name : Value) :
    (edited (addFeature name) m).Identified := by
  rcases edited_addFeature name with heq | ⟨s, heq, -⟩
  · rwa [heq]
  · exact h.of_relationships (by rw [heq]; rfl)

theorem Identified.addRelationship (h : m.Identified) (kind : Relationship.Kind)
    (left right : Value) : (edited (addRelationship kind left right) m).Identified := by
  rcases edited_addRelationship kind left right with heq | ⟨r, heq, hkey, -⟩
  · rwa [heq]
  · rw [heq]
    exact h.joined (relationships_perm_structural m r) hkey

theorem Identified.addConstraint (h : m.Identified) (kind : Relationship.Kind)
    (left right : Value) : (edited (addConstraint kind left right) m).Identified := by
  rcases edited_addConstraint kind left right with heq | ⟨r, heq, hkey, -⟩
  · rwa [heq]
  · rw [heq]
    exact h.joined (relationships_perm_crossTree m r) hkey

/-- What comes of an empty model if relationships may also be added without being checked, and features
may be tagged. -/
inductive Grown : FeatureModel → Prop where
  | empty (title : Value) : Grown (.empty title)
  | addFeature {m : FeatureModel} (h : Grown m) (name : Value) : Grown (edited (addFeature name) m)
  | addRelationship {m : FeatureModel} (h : Grown m) (kind : Relationship.Kind) (left right : Value) :
    Grown (edited (addRelationship kind left right) m)
  | addConstraint {m : FeatureModel} (h : Grown m) (kind : Relationship.Kind) (left right : Value) :
    Grown (edited (addConstraint kind left right) m)
  | appendUnchecked {m : FeatureModel} (h : Grown m) (acrossTree : Bool) (kind : Relationship.Kind)
    (left : Value) (right : List Value) : Grown (m.appendUnchecked acrossTree kind left right)
  | tagged {m n : FeatureModel} (h : Grown m) (halike : m.Alike n) : Grown n

/-- However a model has grown, its relationships can be told apart. -/
theorem Grown.identified (h : m.Grown) : m.Identified := by
  induction h with
  | empty title => exact ⟨List.forall_mem_nil _, List.nodup_nil⟩
  | addFeature _ name ih => exact ih.addFeature name
  | addRelationship _ kind left right ih => exact ih.addRelationship kind left right
  | addConstraint _ kind left right ih => exact ih.addConstraint kind left right
  | appendUnchecked _ acrossTree kind left right ih =>
    exact ih.appendUnchecked acrossTree kind left right
  | tagged _ halike ih =>
    refine ih.of_relationships ?_
    rw [relationships, relationships, halike.structural, halike.crossTree]

theorem Made.grown (h : m.Made) : m.Grown := by
  induction h with
  | empty title => exact .empty title
  | addFeature _ name ih => exact ih.addFeature name
  | addRelationship _ kind left right ih => exact ih.addRelationship kind left right
  | addConstraint _ kind left right ih => exact ih.addConstraint kind left right

theorem Identified.same_self {r : Relationship} (h : m.Identified) (hr : r ∈ m.relationships) :
    r.same r = true := by
  obtain ⟨i, hi, -⟩ := h.keyed r hr
  unfold Relationship.same
  rw [hi]
  exact beq_self_eq_true i

theorem same_eq_false_of_key_ne {r r' : Relationship} (h : r.key ≠ r'.key) :
    r.same r' = false := by
  unfold Relationship.same
  split
  · next i j hi hj =>
    rw [beq_eq_false_iff_ne]
    rintro rfl
    exact h (hi.trans hj.symm)
  · rfl

theorem Arranged.identified (h : m.Arranged) : m.Identified := ⟨h.keyed, h.keys_nodup⟩

theorem Arranged.joined {r : Relationship} (h : m.Arranged)
    (hperm : n.relationships.Perm (r :: m.relationships))
    (hstructural : ∀ r ∈ n.structural, r.kind.isCrossTree = false)
    (hcrossTree : ∀ r ∈ n.crossTree, r.kind.isCrossTree = true)
    (hkey : r.key = some m.relationships.length)
    (harity : r.kind.isGroup = false → r.right.length = 1) : n.Arranged := by
  obtain ⟨hkeyed, hnodup⟩ := h.identified.joined hperm hkey
  refine ⟨hstructural, hcrossTree, fun r' hr' => ?_, hkeyed, hnodup⟩
  rcases List.mem_cons.mp (hperm.subset hr') with rfl | hr'
  · exact harity
  · exact h.arity r' hr'

theorem Arranged.addFeature (h : m.Arranged) (name : Value) :
    (edited (addFeature name) m).Arranged := by
  rcases edited_addFeature name with heq | ⟨s, heq, -⟩
  · rwa [heq]
  · rw [heq]
    exact { h with }

theorem Arranged.addRelationship (h : m.Arranged) (kind : Relationship.Kind) (left right : Value) :
    (edited (addRelationship kind left right) m).Arranged := by
  rcases edited_addRelationship kind left right with heq | ⟨r, heq, hkey, hkind, harity⟩
  · rwa [heq]
  · rw [heq]
    refine h.joined (relationships_perm_structural m r) ?_ h.crossTree hkey harity
    exact List.forall_mem_append.mpr ⟨h.structural, List.forall_mem_singleton.mpr hkind⟩

theorem Arranged.addConstraint (h : m.Arranged) (kind : Relationship.Kind) (left right : Value) :
    (edited (addConstraint kind left right) m).Arranged := by
  rcases edited_addConstraint kind left right with heq | ⟨r, heq, hkey, hkind, harity⟩
  · rwa [heq]
  · rw [heq]
    refine h.joined (relationships_perm_crossTree m r) h.structural ?_ hkey harity
    exact List.forall_mem_append.mpr ⟨h.crossTree, List.forall_mem_singleton.mpr hkind⟩

theorem Made.arranged (h : m.Made) : m.Arranged := by
  induction h with
  | empty title =>
    exact ⟨List.forall_mem_nil _, List.forall_mem_nil _, List.forall_mem_nil _,
      List.forall_mem_nil _, List.nodup_nil⟩
  | addFeature _ name ih => exact ih.addFeature name
  | addRelationship _ kind left right ih => exact ih.addRelationship kind left right
  | addConstraint _ kind left right ih => exact ih.addConstraint kind left right

/-! ### Relationships that repeat each other -/

/-- Adds a group and a constraint, each of them twice. -/
def echo : Edit Unit := do
  addFeatures (.list [.text "Root", .text "A", .text "B"])
  discard (addRelationship .alternative (.text "Root") (.list [.text "A", .text "B"]))
  discard (addRelationship .alternative (.text "Root") (.list [.text "A", .text "B"]))
  discard (addConstraint .excludes (.text "A") (.text "B"))
  discard (addConstraint .excludes (.text "A") (.text "B"))

/-- A model whose relationships repeat each other. -/
def echoed : FeatureModel := .edited echo (.empty (.text "echoed"))

theorem made_echoed : echoed.Made := by
  have hmakes : Makes echo := by
    unfold echo
    refine Ensures.bind (makes_addFeatures _) fun _ => ?_
    refine Ensures.bind (Ensures.discard (makes_addRelationship _ _ _)) fun _ => ?_
    refine Ensures.bind (Ensures.discard (makes_addRelationship _ _ _)) fun _ => ?_
    refine Ensures.bind (Ensures.discard (makes_addConstraint _ _ _)) fun _ => ?_
    exact Ensures.discard (makes_addConstraint _ _ _)
  exact hmakes.made (.empty _)

end FeatureModel
end ProductLine
