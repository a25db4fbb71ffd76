import ProductLine.Constraint.WellFormed
import ProductLine.Proofs.Digraph
import ProductLine.Proofs.FeatureModel.Alike

/-! # The visiting order

Whatever the relationships of a model are, an order of visit lists features of the model only, every
one of them (`mem_names_of_order`), and, if their names are distinct, each once (`order_nodup`). If
all names are texts, there is such an order (`order_total`). -/

namespace ProductLine

namespace FeatureModel

open Outcome

variable {m : FeatureModel} {o : FeatureOrder} {fs : List Feature}

/-- The feature that a node of the tree is. -/
def featureAt? (m : FeatureModel) : Value.Key → Option Feature
  | .text name => m.feature? name
  | _ => none

theorem of_featureAt?_eq_some {key : Value.Key} {f : Feature} (h : m.featureAt? key = some f) :
    f ∈ m.features ∧ key = .text f.name := by
  cases key with
  | text name =>
    obtain ⟨hmem, rfl⟩ := of_feature?_eq_some h
    exact ⟨hmem, rfl⟩
  | null | int | float => cases h

theorem featureAt?_text {name : String} (h : name ∈ m.names) :
    ∃ f, m.featureAt? (.text name) = some f ∧ f.name = name := by
  obtain ⟨f, hf⟩ := Option.isSome_iff_exists.mp (feature?_isSome_iff.mpr h)
  exact ⟨f, hf, (of_feature?_eq_some hf).2⟩

/-- A depth-first order goes through nodes, among which are all features. -/
theorem order_depthFirst (h : m.order .depthFirst = .ok fs) :
    ∃ keys : List Value.Key, (m.names.Nodup → keys.Nodup) ∧
      (∀ name ∈ m.names, Value.Key.text name ∈ keys) ∧ fs = keys.filterMap m.featureAt? := by
  unfold order at h
  cases hm : m.features with
  | nil =>
    rw [hm] at h
    cases h
    refine ⟨[], fun _ => List.nodup_nil, ?_, rfl⟩
    intro name hname
    rw [names, hm] at hname
    exact absurd hname List.not_mem_nil
  | cons root rest =>
    rw [hm] at h
    obtain ⟨t, -, h⟩ := bind_eq_ok_iff.mp h
    refine ⟨_, fun hnames => ?_, fun name hname => ?_, (pure_eq_ok_iff.mp h).symm.trans
      (List.filterMap_congr fun key _ => by cases key <;> rfl)⟩
    · refine List.nodup_append.mpr ⟨Digraph.preorder_nodup _, ?_, ?_⟩
      · refine List.Nodup.filter _ (hnames.map ?_)
        intro a b hab
        cases hab
        rfl
      · intro a ha b hb hab
        exact of_decide_eq_true (List.mem_filter.mp hb).2 (hab ▸ ha)
    · rw [List.mem_append, List.mem_filter, decide_eq_true_eq]
      by_cases hv : Value.Key.text name ∈ t.graph.preorder (.text root.name)
      · exact .inl hv
      · exact .inr ⟨List.mem_map_of_mem hname, hv⟩

theorem order_subset (h : m.order o = .ok fs) : fs ⊆ m.features := by
  cases o with
  | declared =>
    cases h
    exact List.Subset.refl _
  | depthFirst =>
    obtain ⟨keys, -, -, rfl⟩ := order_depthFirst h
    intro f hf
    obtain ⟨key, -, hkey⟩ := List.mem_filterMap.mp hf
    exact (of_featureAt?_eq_some hkey).1

theorem mem_names_of_order (h : m.order o = .ok fs) (name : String) :
    name ∈ fs.map (·.name) ↔ name ∈ m.names := by
  refine ⟨fun hname => List.map_subset _ (order_subset h) hname, ?_⟩
  intro hname
  cases o with
  | declared =>
    cases h
    exact hname
  | depthFirst =>
    obtain ⟨keys, -, hall, rfl⟩ := order_depthFirst h
    obtain ⟨f, hf, rfl⟩ := featureAt?_text hname
    exact List.mem_map_of_mem (List.mem_filterMap.mpr ⟨_, hall _ hname, hf⟩)

theorem order_nodup (hnames : m.names.Nodup) (h : m.order o = .ok fs) :
    (fs.map (·.name)).Nodup := by
  cases o with
  | declared =>
    cases h
    exact hnames
  | depthFirst =>
    obtain ⟨keys, hkeys, -, rfl⟩ := order_depthFirst h
    rw [List.map_filterMap]
    refine (hkeys hnames).filterMap ?_
    intro a b name ha hb
    obtain ⟨f, hf, rfl⟩ := Option.map_eq_some_iff.mp ha
    obtain ⟨g, hg, hname⟩ := Option.map_eq_some_iff.mp hb
    rw [(of_featureAt?_eq_some hf).2, (of_featureAt?_eq_some hg).2, hname]

/-- What an order of visit leaves out is the root only. -/
theorem nonRoot_eq_ok (h : m.nonRoot o = .ok fs) :
    ∃ root rest ordered, m.features = root :: rest ∧ m.order o = .ok ordered ∧
      fs = ordered.filter fun f => decide (f.name ≠ root.name) := by
  unfold nonRoot root at h
  cases hm : m.features with
  | nil =>
    rw [hm] at h
    cases h
  | cons f rest =>
    rw [hm] at h
    obtain ⟨root, hroot, h⟩ := bind_eq_ok_iff.mp h
    obtain ⟨ordered, hordered, h⟩ := bind_eq_ok_iff.mp h
    cases hroot
    exact ⟨f, rest, ordered, rfl, hordered, (pure_eq_ok_iff.mp h).symm⟩

theorem map_name_filter (root : String) (fs : List Feature) :
    (fs.filter fun f => decide (f.name ≠ root)).map (·.name) =
      (fs.map (·.name)).filter fun name => decide (name ≠ root) := by
  rw [List.filter_map]
  rfl

theorem Alike.nonRoot {n : FeatureModel} (halike : Alike m n) (h : m.nonRoot o = .ok fs) :
    ∃ fs', n.nonRoot o = .ok fs' ∧ fs'.map (·.name) = fs.map (·.name) := by
  obtain ⟨root, rest, ordered, hm, hordered, rfl⟩ := nonRoot_eq_ok h
  obtain ⟨ordered', hordered', hnames⟩ := halike.order hordered
  have hroots : m.features.map (·.name) = n.features.map (·.name) := halike.names
  rw [hm, List.map_cons] at hroots
  obtain ⟨root', rest', hn, hroot, -⟩ := List.map_eq_cons_iff.mp hroots.symm
  refine ⟨ordered'.filter fun f => decide (f.name ≠ root'.name), ?_, ?_⟩
  · unfold FeatureModel.nonRoot FeatureModel.root
    rw [hn]
    exact bind_eq_ok_iff.mpr ⟨root', rfl, bind_eq_ok_iff.mpr ⟨ordered', hordered', rfl⟩⟩
  · rw [map_name_filter, map_name_filter, hnames, hroot]

theorem nonRoot_subset (h : m.nonRoot o = .ok fs) : fs ⊆ m.features := by
  obtain ⟨root, rest, ordered, -, hordered, rfl⟩ := nonRoot_eq_ok h
  exact List.Subset.trans (List.filter_subset_self _) (order_subset hordered)

theorem root_not_mem_nonRoot (h : m.nonRoot o = .ok fs) {root : Feature} (hroot : m.root = .ok root) :
    root.name ∉ fs.map (·.name) := by
  obtain ⟨root', rest, ordered, hm, -, rfl⟩ := nonRoot_eq_ok h
  have heq : root' = root := by
    rw [FeatureModel.root, hm] at hroot
    exact Except.ok.inj hroot
  rw [map_name_filter, heq, List.mem_filter]
  exact fun hmem => of_decide_eq_true hmem.2 rfl

theorem mem_names_of_nonRoot (h : m.nonRoot o = .ok fs) {f : Feature} (hf : f ∈ fs) :
    f.name ∈ m.names := List.mem_map_of_mem (nonRoot_subset h hf)

theorem mem_nonRoot_names {o' : FeatureOrder} {fs' : List Feature} (h : m.nonRoot o = .ok fs)
    (h' : m.nonRoot o' = .ok fs') (name : String) :
    name ∈ fs.map (·.name) ↔ name ∈ fs'.map (·.name) := by
  obtain ⟨root, rest, ordered, hm, hordered, rfl⟩ := nonRoot_eq_ok h
  obtain ⟨root', rest', ordered', hm', hordered', rfl⟩ := nonRoot_eq_ok h'
  cases hm.symm.trans hm'
  rw [map_name_filter, map_name_filter, List.mem_filter, List.mem_filter,
    mem_names_of_order hordered, mem_names_of_order hordered']

/-- The features but the root have the names of the features declared after the root. -/
theorem nonRoot_perm (hnames : m.names.Nodup) (h : m.nonRoot o = .ok fs) :
    (fs.map (·.name)).Perm m.names.tail := by
  obtain ⟨root, rest, ordered, hm, hordered, rfl⟩ := nonRoot_eq_ok h
  have hall : (ordered.map (·.name)).Perm m.names :=
    (List.perm_ext_iff_of_nodup (order_nodup hnames hordered) hnames).mpr
      (mem_names_of_order hordered)
  have hcons : m.names = root.name :: rest.map (·.name) := by
    rw [names, hm, List.map_cons]
  have hroot : root.name ∉ rest.map (·.name) := (List.nodup_cons.mp (hcons ▸ hnames)).1
  have hrest : (rest.map (·.name)).filter (fun name => decide (name ≠ root.name)) =
      rest.map (·.name) := List.filter_eq_self.mpr fun name hname =>
    decide_eq_true fun heq => hroot (heq ▸ hname)
  rw [map_name_filter, hcons, List.tail_cons, ← hrest]
  refine (hall.filter _).trans (List.Perm.of_eq ?_)
  rw [hcons, List.filter_cons_of_neg]
  simp

theorem nonRoot_nodup (hnames : m.names.Nodup) (h : m.nonRoot o = .ok fs) :
    (fs.map (·.name)).Nodup :=
  (nonRoot_perm hnames h).nodup_iff.mpr (hnames.sublist (List.tail_sublist _))

/-! ### Models of texts -/

theorem edgesOf_total {r : Relationship} (h : r.Textual) (hright : r.kind = .optional → r.right ≠ []) :
    ∃ edges, edgesOf r = .ok edges := by
  obtain ⟨left, hleft⟩ := h.left
  obtain ⟨names, hnames⟩ := h.right
  unfold edgesOf
  split
  · next hkind =>
    cases names with
    | nil => exact absurd hnames (hright hkind)
    | cons name names =>
      rw [hnames, hleft]
      exact ⟨_, rfl⟩
  · refine mapM_total ?_
    intro child hchild
    obtain ⟨name, -, rfl⟩ := List.mem_map.mp (hnames ▸ hchild)
    rw [hleft]
    exact ⟨_, rfl⟩

section textual

variable (h : m.Textual) (hright : ∀ r ∈ m.structural, r.kind = .optional → r.right ≠ [])
include h hright

theorem tree_total : ∃ t, m.tree = .ok t := by
  obtain ⟨edges, hedges⟩ := mapM_total (f := edgesOf) fun r hr =>
    edgesOf_total (h r (List.mem_append_left _ hr)) (hright r hr)
  exact ⟨_, bind_eq_ok_iff.mpr ⟨edges, hedges, rfl⟩⟩

theorem order_total (o : FeatureOrder) : ∃ fs, m.order o = .ok fs := by
  cases o with
  | declared => exact ⟨_, order_declared m⟩
  | depthFirst =>
    unfold order
    cases m.features with
    | nil => exact ⟨_, rfl⟩
    | cons root rest =>
      obtain ⟨t, ht⟩ := tree_total h hright
      exact ⟨_, bind_eq_ok_iff.mpr ⟨t, ht, rfl⟩⟩

theorem unreachable_total : ∃ names, m.unreachable = .ok names := by
  unfold unreachable
  cases m.features with
  | nil => exact ⟨_, rfl⟩
  | cons root rest =>
    obtain ⟨t, ht⟩ := tree_total h hright
    exact ⟨_, bind_eq_ok_iff.mpr ⟨t, ht, rfl⟩⟩

end textual

end FeatureModel
end ProductLine
