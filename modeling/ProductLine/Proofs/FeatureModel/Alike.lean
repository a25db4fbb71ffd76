import Mathlib.Data.List.Nodup
import ProductLine.FeatureModel.Tree
import ProductLine.Proofs.Outcome

/-! # Models that differ in tags only

An analysis tags the features of its model and changes nothing else. Whatever it reads of the model
but the tags is the same for `Alike` models. -/

namespace ProductLine
namespace FeatureModel

open Outcome

/-- The models have the same title, feature names and relationships. -/
structure Alike (m n : FeatureModel) : Prop where
  title : m.title = n.title
  names : m.names = n.names
  structural : m.structural = n.structural
  crossTree : m.crossTree = n.crossTree

variable {m n k : FeatureModel}

namespace Alike

theorem refl (m : FeatureModel) : Alike m m := ⟨rfl, rfl, rfl, rfl⟩

theorem trans (h : Alike m n) (h' : Alike n k) : Alike m k :=
  ⟨h.title.trans h'.title, h.names.trans h'.names, h.structural.trans h'.structural,
    h.crossTree.trans h'.crossTree⟩

theorem symm (h : Alike m n) : Alike n m :=
  ⟨h.title.symm, h.names.symm, h.structural.symm, h.crossTree.symm⟩

theorem tag (m : FeatureModel) (name : String) (a : Feature.Anomaly) : Alike m (m.tag name a) :=
  ⟨rfl, (names_tag m name a).symm, rfl, rfl⟩

theorem clearTags (m : FeatureModel) : Alike m m.clearTags :=
  ⟨rfl, (names_clearTags m).symm, rfl, rfl⟩

/-- Without their tags such models are the same. -/
theorem iff_clearTags_eq : Alike m n ↔ n.clearTags = m.clearTags := by
  have hcleared : ∀ k : FeatureModel, k.clearTags =
      ⟨k.title, k.names.map fun name => ⟨name, []⟩, k.structural, k.crossTree⟩ := fun k => by
    rw [FeatureModel.names, List.map_map]
    rfl
  constructor
  · intro h
    rw [hcleared, hcleared, h.title, h.names, h.structural, h.crossTree]
  · intro h
    exact (clearTags m).trans (h ▸ (clearTags n).symm)

theorem name (h : Alike m n) : m.name = n.name := by
  have hhead : ∀ k : FeatureModel, k.features.head?.elim "" (·.name) = k.names.head?.elim "" id :=
    fun k => by rw [FeatureModel.names, List.head?_map, Option.elim_map, Function.id_comp]
  unfold FeatureModel.name
  rw [hhead, hhead, h.title, h.names]

theorem tree (h : Alike m n) : m.tree = n.tree := by
  unfold FeatureModel.tree
  rw [h.structural, h.names]

theorem unreachable (h : Alike m n) : m.unreachable = n.unreachable := by
  have hnames : m.features.map (·.name) = n.features.map (·.name) := h.names
  unfold FeatureModel.unreachable
  cases hm : m.features with
  | nil =>
    rw [hm] at hnames
    rw [List.map_eq_nil_iff.mp hnames.symm]
  | cons f rest =>
    rw [hm, List.map_cons] at hnames
    obtain ⟨g, others, hn, hroot, -⟩ := List.map_eq_cons_iff.mp hnames.symm
    rw [hn]
    dsimp only
    rw [h.tree, h.names, hroot]

theorem isMandatory (h : Alike m n) : m.isMandatory = n.isMandatory := by
  unfold FeatureModel.isMandatory
  rw [h.structural]

theorem isOptional (h : Alike m n) : m.isOptional = n.isOptional := by
  unfold FeatureModel.isOptional
  rw [h.structural]

end Alike

/-! ### Features by their names -/

theorem of_feature?_eq_some {name : String} {f : Feature} (h : m.feature? name = some f) :
    f ∈ m.features ∧ f.name = name := by
  have hname := List.find?_some h
  rw [beq_iff_eq] at hname
  exact ⟨List.mem_of_find?_eq_some h, hname⟩

theorem map_name_find? (q : String → Bool) (fs : List Feature) :
    (fs.find? fun f => q f.name).map (·.name) = (fs.map (·.name)).find? q := by
  rw [List.find?_map]
  rfl

theorem map_name_feature? (m : FeatureModel) (name : String) :
    (m.feature? name).map (·.name) = m.names.find? (· == name) :=
  map_name_find? (· == name) m.features

theorem feature?_isSome_iff {name : String} : (m.feature? name).isSome ↔ name ∈ m.names := by
  unfold feature?
  rw [List.find?_isSome, names, List.mem_map]
  exact exists_congr fun f => and_congr_right fun _ => beq_iff_eq

/-! ### Tags -/

theorem mem_tags_tag {f : Feature} {t t' : Feature.Anomaly} :
    t' ∈ (f.tag t).tags ↔ t' ∈ f.tags ∨ t' = t := by
  unfold Feature.tag
  split
  · next hin => exact ⟨.inl, fun h => h.elim id fun heq => heq ▸ hin⟩
  · rw [List.mem_append, List.mem_singleton]

theorem name_tag (f : Feature) (t : Feature.Anomaly) : (f.tag t).name = f.name := by
  unfold Feature.tag
  split <;> rfl

theorem hasTag_iff {name : String} {t : Feature.Anomaly} :
    m.hasTag name t = true ↔ ∃ f, m.feature? name = some f ∧ t ∈ f.tags := by
  unfold hasTag
  cases m.feature? name <;> simp

theorem feature?_tag (m : FeatureModel) (name other : String) (t : Feature.Anomaly) :
    (m.tag name t).feature? other =
      (m.feature? other).map fun f => if f.name = name then f.tag t else f := by
  have hname : ((fun f : Feature => f.name == other) ∘ fun f => if f.name = name then f.tag t else f) =
      fun f => f.name == other := by
    funext f
    rw [Function.comp_apply]
    split
    · rw [name_tag]
    · rfl
  unfold feature? tag
  rw [List.find?_map, hname]

theorem hasTag_tag_iff {name other : String} {t t' : Feature.Anomaly} :
    (m.tag name t).hasTag other t' = true ↔
      m.hasTag other t' = true ∨ other = name ∧ t' = t ∧ other ∈ m.names := by
  rw [hasTag_iff, hasTag_iff, ← feature?_isSome_iff, feature?_tag]
  cases hf : m.feature? other with
  | none => simp
  | some f =>
    obtain ⟨-, rfl⟩ := of_feature?_eq_some hf
    by_cases hname : f.name = name
    · simp [hname, mem_tags_tag]
    · simp [hname]

theorem hasTag_clearTags (name : String) (t : Feature.Anomaly) :
    m.clearTags.hasTag name t = false := by
  rw [Bool.eq_false_iff]
  intro h
  obtain ⟨f, hf, ht⟩ := hasTag_iff.mp h
  obtain ⟨g, -, rfl⟩ := List.mem_map.mp (of_feature?_eq_some hf).1
  exact absurd ht List.not_mem_nil

/-! ### Features that require others -/

theorem mem_features_of_lookUp {value : Value} {f : Feature} (h : m.lookUp value = .ok (some f)) :
    f ∈ m.features := by
  unfold lookUp at h
  split at h
  · cases h
  · exact (of_feature?_eq_some (Except.ok.inj h)).1
  · cases h

theorem requiring_subset {name : String} {fs : List Feature} (h : m.requiring name = .ok fs) :
    fs ⊆ m.features := by
  obtain ⟨found, hfound, h⟩ := bind_eq_ok_iff.mp h
  rw [← pure_eq_ok_iff.mp h]
  intro f hf
  obtain ⟨o, ho, rfl⟩ := List.mem_filterMap.mp hf
  obtain ⟨r, -, hr⟩ := exists_of_mem_mapM hfound _ ho
  exact mem_features_of_lookUp hr

theorem requiring_total (h : ∀ r ∈ m.crossTree, ∃ s, r.left = .text s) (name : String) :
    ∃ fs, m.requiring name = .ok fs := by
  obtain ⟨found, hfound⟩ := mapM_total (f := fun r : Relationship => m.lookUp r.left)
    (l := m.crossTree.filter fun r => decide (r.kind = .requires) && r.hasRight name)
    fun r hr => by
      obtain ⟨s, hs⟩ := h r (List.mem_of_mem_filter hr)
      exact ⟨m.feature? s, by rw [hs]; rfl⟩
  exact ⟨_, bind_eq_ok_iff.mpr ⟨found, hfound, rfl⟩⟩

namespace Alike

theorem feature? (h : Alike m n) (name : String) :
    (m.feature? name).map (·.name) = (n.feature? name).map (·.name) := by
  rw [map_name_feature?, map_name_feature?, h.names]

theorem lookUp {value : Value} {o : Option Feature} (h : Alike m n) (ho : m.lookUp value = .ok o) :
    ∃ o', n.lookUp value = .ok o' ∧ o.map (·.name) = o'.map (·.name) := by
  unfold FeatureModel.lookUp at ho ⊢
  cases hkey : value.key? with
  | none =>
    rw [hkey] at ho
    cases ho
  | some key =>
    rw [hkey] at ho
    cases key with
    | text s =>
      cases ho
      exact ⟨_, rfl, h.feature? s⟩
    | null | int | float =>
      cases ho
      exact ⟨none, rfl, rfl⟩

theorem requiring {name : String} {fs : List Feature} (h : Alike m n)
    (hfs : m.requiring name = .ok fs) :
    ∃ fs', n.requiring name = .ok fs' ∧ fs.map (·.name) = fs'.map (·.name) := by
  unfold FeatureModel.requiring at hfs ⊢
  rw [← h.crossTree]
  obtain ⟨found, hfound, hfs⟩ := bind_eq_ok_iff.mp hfs
  obtain ⟨found', hfound', hnames⟩ := mapM_related hfound fun r o ho => h.lookUp ho
  refine ⟨_, bind_eq_ok_iff.mpr ⟨found', hfound', rfl⟩, ?_⟩
  have hmap : found.map (Option.map (·.name)) = found'.map (Option.map (·.name)) := by
    rw [← List.forall₂_eq_eq_eq, List.forall₂_map_left_iff, List.forall₂_map_right_iff]
    exact hnames
  have hkept : ∀ l : List (Option Feature), (l.filterMap id).map (·.name) =
      (l.map (Option.map (·.name))).filterMap id := fun l => by
    rw [List.map_filterMap, List.filterMap_map]
    rfl
  rw [← pure_eq_ok_iff.mp hfs, hkept, hkept, hmap]

theorem find?_isMandatory {fs fs' : List Feature} (h : Alike m n)
    (hnames : fs.map (·.name) = fs'.map (·.name)) :
    (fs.find? fun p => m.isMandatory p.name).map (·.name) =
      (fs'.find? fun p => n.isMandatory p.name).map (·.name) := by
  rw [map_name_find?, map_name_find?, hnames, h.isMandatory]

theorem order {o : FeatureOrder} {fs : List Feature} (h : Alike m n) (hfs : m.order o = .ok fs) :
    ∃ fs', n.order o = .ok fs' ∧ fs.map (·.name) = fs'.map (·.name) := by
  cases o with
  | declared =>
    cases hfs
    exact ⟨n.features, rfl, h.names⟩
  | depthFirst =>
    unfold FeatureModel.order at hfs ⊢
    have hnames : m.features.map (·.name) = n.features.map (·.name) := h.names
    cases hm : m.features with
    | nil =>
      rw [hm] at hfs hnames
      rw [List.map_eq_nil_iff.mp hnames.symm]
      cases hfs
      exact ⟨[], rfl, rfl⟩
    | cons f rest =>
      rw [hm, List.map_cons] at hnames
      obtain ⟨g, others, hn, hroot, -⟩ := List.map_eq_cons_iff.mp hnames.symm
      rw [hm] at hfs
      rw [hn]
      obtain ⟨t, ht, hfs⟩ := bind_eq_ok_iff.mp hfs
      refine ⟨_, bind_eq_ok_iff.mpr ⟨t, h.tree ▸ ht, rfl⟩, ?_⟩
      rw [← pure_eq_ok_iff.mp hfs, List.map_filterMap, List.map_filterMap, ← h.names, hroot]
      refine List.filterMap_congr ?_
      intro key _
      cases key with
      | text name => exact h.feature? name
      | null | int | float => rfl

end Alike

end FeatureModel
end ProductLine
