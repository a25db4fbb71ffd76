import ProductLine.Proofs.FeatureModel.Order
import ProductLine.Proofs.FeatureModel.Parents

/-! # The depth-first order

The ends of the edges of a feature tree are nodes of it (`tree_ends`), so that the features outside the
tree are those that no path of edges leads to from the root (`mem_unreachable`). The depth-first order
takes the features of the recursive preorder from the root, and after them exactly those outside
(`depthFirst_exact`): no feature is lost and none comes twice. -/

namespace ProductLine

/-! ### Nodes -/

namespace FeatureTree

variable {t : FeatureTree} {e : TreeEdge} {key : Value.Key}

theorem mem_nodes_insertNode {n : TreeNode} :
    key ∈ (t.insertNode n).graph.nodes ↔ key ∈ t.graph.nodes ∨ key = n.name := by
  unfold insertNode graph
  split
  · next hin =>
    refine ⟨.inl, ?_⟩
    rintro (hkey | rfl)
    · exact hkey
    · obtain ⟨d, hd, hname⟩ := List.any_eq_true.mp hin
      exact List.mem_map.mpr ⟨d, hd, of_decide_eq_true hname⟩
  · rw [List.map_append, List.mem_append, List.map_singleton, List.mem_singleton]

theorem mem_nodes_insertEdge : key ∈ (t.insertEdge e).graph.nodes ↔
    key ∈ t.graph.nodes ∨ key = e.parent.name ∨ key = e.child.name := by
  have hnodes : (t.insertEdge e).graph.nodes =
      ((t.insertNode e.parent).insertNode e.child).graph.nodes := by
    unfold insertEdge
    dsimp only
    split <;> rfl
  rw [hnodes, mem_nodes_insertNode, mem_nodes_insertNode, or_assoc]

theorem nodes_subset_foldl (es : List TreeEdge) :
    t.graph.nodes ⊆ (es.foldl insertEdge t).graph.nodes := by
  induction es generalizing t with
  | nil => exact List.Subset.refl _
  | cons e es ih =>
    exact List.Subset.trans (fun key hkey => mem_nodes_insertEdge.mpr (.inl hkey)) ih

theorem ends_foldl {es : List TreeEdge} (h : ∀ x ∈ t.graph.edges, x.2 ∈ t.graph.nodes) :
    ∀ x ∈ (es.foldl insertEdge t).graph.edges, x.2 ∈ (es.foldl insertEdge t).graph.nodes := by
  induction es generalizing t with
  | nil => exact h
  | cons e es ih =>
    refine ih fun x hx => mem_nodes_insertEdge.mpr ?_
    rcases mem_edges_insertEdge hx with hx | rfl
    · exact .inl (h x hx)
    · exact .inr (.inr rfl)

end FeatureTree

namespace FeatureModel

open Outcome

variable {m : FeatureModel} {t : FeatureTree} {root : Feature} {fs : List Feature} {name : String}
  {outside : List String}

/-! ### The features outside -/

theorem tree_ends (h : m.tree = .ok t) : ∀ x ∈ t.graph.edges, x.2 ∈ t.graph.nodes := by
  obtain ⟨edges, -, h⟩ := bind_eq_ok_iff.mp h
  cases pure_eq_ok_iff.mp h
  exact FeatureTree.ends_foldl (List.forall_mem_nil _)

theorem tree_nodes (h : m.tree = .ok t) (hname : name ∈ m.names) : .text name ∈ t.graph.nodes := by
  obtain ⟨edges, -, h⟩ := bind_eq_ok_iff.mp h
  cases pure_eq_ok_iff.mp h
  refine FeatureTree.nodes_subset_foldl _ (List.mem_map.mpr ⟨⟨.text name, .text name⟩, ?_, rfl⟩)
  exact List.mem_map_of_mem hname

theorem unreachable_eq_ok (hroot : root ∈ m.features.head?) (h : m.unreachable = .ok outside) :
    ∃ t, m.tree = .ok t ∧
      outside = m.names.filter fun name => .text name ∉ t.graph.reach (.text root.name) := by
  unfold unreachable at h
  cases hm : m.features with
  | nil =>
    rw [hm] at hroot
    cases hroot
  | cons f rest =>
    rw [hm] at h hroot
    cases hroot
    obtain ⟨t, ht, h⟩ := bind_eq_ok_iff.mp h
    exact ⟨t, ht, (pure_eq_ok_iff.mp h).symm⟩

theorem order_eq_ok (hroot : root ∈ m.features.head?) (h : m.order .depthFirst = .ok fs) :
    ∃ t, m.tree = .ok t ∧ fs = (t.graph.preorder (.text root.name) ++
      (m.names.map Value.Key.text).filter
        (· ∉ t.graph.preorder (.text root.name))).filterMap m.featureAt? := by
  unfold order at h
  cases hm : m.features with
  | nil =>
    rw [hm] at hroot
    cases hroot
  | cons f rest =>
    rw [hm] at h hroot
    cases hroot
    obtain ⟨t, ht, h⟩ := bind_eq_ok_iff.mp h
    exact ⟨t, ht, (pure_eq_ok_iff.mp h).symm.trans
      (List.filterMap_congr fun key _ => by cases key <;> rfl)⟩

theorem root_mem_names (hroot : root ∈ m.features.head?) : root.name ∈ m.names :=
  List.mem_map_of_mem (List.mem_of_mem_head? hroot)

theorem mem_unreachable (hroot : root ∈ m.features.head?) (ht : m.tree = .ok t)
    (h : m.unreachable = .ok outside) : name ∈ outside ↔
      name ∈ m.names ∧ ¬t.graph.Leads (.text root.name) (.text name) := by
  obtain ⟨t', ht', rfl⟩ := unreachable_eq_ok hroot h
  obtain rfl := Except.ok.inj (ht.symm.trans ht')
  rw [List.mem_filter, decide_eq_true_eq,
    Digraph.mem_reach (tree_ends ht) (tree_nodes ht (root_mem_names hroot))]

/-! ### The order -/

theorem map_filterMap_featureAt? (keys : List Value.Key) :
    (keys.filterMap m.featureAt?).map (fun f => Value.Key.text f.name) =
      keys.filter (· ∈ m.names.map Value.Key.text) := by
  rw [List.map_filterMap, ← List.filterMap_eq_filter]
  refine List.filterMap_congr fun key _ => ?_
  cases hat : m.featureAt? key with
  | some f =>
    obtain ⟨hf, rfl⟩ := of_featureAt?_eq_some hat
    have hin : Value.Key.text f.name ∈ m.names.map Value.Key.text :=
      List.mem_map_of_mem (List.mem_map_of_mem hf)
    exact (if_pos (decide_eq_true hin)).symm
  | none =>
    have hout : key ∉ m.names.map Value.Key.text := by
      intro hin
      obtain ⟨name, hname, rfl⟩ := List.mem_map.mp hin
      obtain ⟨f, hf, -⟩ := featureAt?_text hname
      cases hat.symm.trans hf
    exact (if_neg (by rw [decide_eq_true_eq]; exact hout)).symm

/-- The features come from the preorder, and after them those that no path leads to. -/
theorem order_names (hroot : root ∈ m.features.head?) (ht : m.tree = .ok t)
    (hfs : m.order .depthFirst = .ok fs) (h : m.unreachable = .ok outside) :
    fs.map (fun f => Value.Key.text f.name) =
      (t.graph.preorder (.text root.name)).filter (· ∈ m.names.map Value.Key.text) ++
        outside.map Value.Key.text := by
  obtain ⟨t', ht', rfl⟩ := order_eq_ok hroot hfs
  obtain rfl := Except.ok.inj (ht.symm.trans ht')
  obtain ⟨t', ht', rfl⟩ := unreachable_eq_ok hroot h
  obtain rfl := Except.ok.inj (ht.symm.trans ht')
  rw [map_filterMap_featureAt?, List.filter_append, List.filter_filter, List.filter_map]
  refine congrArg₂ (· ++ ·) rfl (congrArg (List.map Value.Key.text) ?_)
  -- Both searches reach what the root leads to, so what one of them leaves out the other does too.
  refine List.filter_congr fun name hname => ?_
  have hreach := Digraph.mem_reach (tree_ends ht) (tree_nodes ht (root_mem_names hroot))
    (v := .text name)
  have hin : Value.Key.text name ∈ m.names.map Value.Key.text := List.mem_map_of_mem hname
  rw [Function.comp_apply, decide_eq_true hin, Bool.true_and, decide_eq_decide, hreach,
    Digraph.mem_preorder]

/-- The features in an order of visit are those of the model, each once. -/
theorem order_perm {o : FeatureOrder} (hnames : m.names.Nodup) (h : m.order o = .ok fs) :
    fs.Perm m.features := by
  have hdistinct : fs.Nodup := .of_map _ (order_nodup hnames h)
  refine (List.subperm_of_subset hdistinct (order_subset h)).perm_of_length_le ?_
  have hperm : (fs.map (·.name)).Perm m.names :=
    (List.perm_ext_iff_of_nodup (order_nodup hnames h) hnames).mpr (mem_names_of_order h)
  have hlength : (fs.map (·.name)).length = m.names.length := hperm.length_eq
  rw [names, List.length_map, List.length_map] at hlength
  exact Nat.le_of_eq hlength.symm

/-- **The depth-first order lists every feature of the model exactly once**: first the features in the
recursive preorder from the root over the feature tree, which passes through names that are no
features, then those that no path of edges leads to, in declaration order. -/
theorem depthFirst_exact (hmade : m.Made) (htext : m.Textual) :
    ∃ fs outside, m.order .depthFirst = .ok fs ∧ m.unreachable = .ok outside ∧
      fs.Perm m.features ∧ (fs.map (·.name)).Nodup ∧ outside.Sublist m.names ∧
      ∀ root ∈ m.features.head?, ∃ t visited, m.tree = .ok t ∧
        (∀ walk, t.graph.Walk [] [.text root.name] walk ↔ walk = visited) ∧
        fs.map (fun f => Value.Key.text f.name) =
          visited.filter (· ∈ m.names.map Value.Key.text) ++ outside.map Value.Key.text ∧
        ∀ name, name ∈ outside ↔
          name ∈ m.names ∧ ¬t.graph.Leads (.text root.name) (.text name) := by
  have hright : ∀ r ∈ m.structural, r.kind = .optional → r.right ≠ [] := by
    intro r hr hkind hnil
    have hlength := hmade.arranged.arity r (List.mem_append_left _ hr) (by rw [hkind]; rfl)
    rw [hnil] at hlength
    cases hlength
  obtain ⟨fs, hfs⟩ := order_total htext hright .depthFirst
  obtain ⟨outside, houtside⟩ := unreachable_total htext hright
  refine ⟨fs, outside, hfs, houtside, order_perm hmade.names_nodup hfs,
    order_nodup hmade.names_nodup hfs, ?_, ?_⟩
  · cases hm : m.features with
    | nil =>
      rw [unreachable, hm] at houtside
      cases houtside
      exact List.nil_sublist _
    | cons root rest =>
      have hroot : root ∈ m.features.head? := hm ▸ rfl
      obtain ⟨t, -, rfl⟩ := unreachable_eq_ok hroot houtside
      exact List.filter_sublist
  · intro root hroot
    obtain ⟨t, ht⟩ := tree_total htext hright
    exact ⟨t, _, ht, fun _ => Digraph.walk_preorder_iff, order_names hroot ht hfs houtside,
      fun _ => mem_unreachable hroot ht houtside⟩

/-- Adds features with a cycle, a self-loop, a shared child, two features outside the tree, one of
which leads into it, and a name on the way to `C` that is no feature. -/
def wander : Edit Unit := do
  addFeatures (.list [.text "Root", .text "D", .text "C", .text "B", .text "A", .text "E"])
  discard (addRelationship .or (.text "Root") (.list [.text "A", .text "Ghost", .text "A"]))
  discard (addRelationship .mandatory (.text "Ghost") (.text "C"))
  discard (addRelationship .optional (.text "B") (.text "A"))
  discard (addRelationship .alternative (.text "B") (.list [.text "B", .text "C", .text "Root"]))
  discard (addRelationship .optional (.text "A") (.text "D"))

/-- A model whose relationships form no tree. -/
def wandering : FeatureModel := .edited wander (.empty (.text "wandering"))

theorem made_wandering : wandering.Made := by
  have hmakes : Makes wander := by
    unfold wander
    refine Ensures.bind (makes_addFeatures _) fun _ => ?_
    refine Ensures.bind (Ensures.discard (makes_addRelationship _ _ _)) fun _ => ?_
    refine Ensures.bind (Ensures.discard (makes_addRelationship _ _ _)) fun _ => ?_
    refine Ensures.bind (Ensures.discard (makes_addRelationship _ _ _)) fun _ => ?_
    refine Ensures.bind (Ensures.discard (makes_addRelationship _ _ _)) fun _ => ?_
    exact Ensures.discard (makes_addRelationship _ _ _)
  exact hmakes.made (.empty _)

theorem textual_wandering : wandering.Textual := by
  have hall : wandering.relationships.map (fun r => (r.left, r.right)) =
      [(.text "Root", ["A", "Ghost", "A"].map .text), (.text "Ghost", ["C"].map .text),
        (.text "B", ["A"].map .text), (.text "B", ["B", "C", "Root"].map .text),
        (.text "A", ["D"].map .text)] := rfl
  intro r hr
  have hsides : (r.left, r.right) ∈ wandering.relationships.map (fun r => (r.left, r.right)) :=
    List.mem_map_of_mem hr
  rw [hall] at hsides
  simp only [List.mem_cons, List.not_mem_nil, or_false, Prod.mk.injEq] at hsides
  rcases hsides with ⟨hl, hr⟩ | ⟨hl, hr⟩ | ⟨hl, hr⟩ | ⟨hl, hr⟩ | ⟨hl, hr⟩ <;>
    exact ⟨⟨_, hl⟩, ⟨_, hr⟩⟩

/-- `C` is visited from `B` before the name that it hangs on, `D` and `E` come last. -/
theorem depthFirst_exact_wandering : ∃ fs t, wandering.order .depthFirst = .ok fs ∧
    fs.Perm wandering.features ∧ fs.map (·.name) = ["Root", "A", "B", "C", "D", "E"] ∧
    wandering.unreachable = .ok ["D", "E"] ∧ wandering.tree = .ok t ∧
    t.graph.Walk [] [.text "Root"] (["Root", "A", "B", "C", "Ghost"].map .text) ∧
    ¬t.graph.Leads (.text "Root") (.text "D") := by
  obtain ⟨fs, outside, hfs, houtside, hperm, -, -, hroot⟩ :=
    depthFirst_exact made_wandering textual_wandering
  obtain ⟨t, visited, ht, hwalk, hnames, hmem⟩ := hroot ⟨"Root", []⟩ rfl
  have hpreorder : t.graph.preorder (.text "Root") = visited :=
    (hwalk _).mp (Digraph.walk_preorder _)
  have hfs' : (wandering.order .depthFirst).toOption.map (fun fs => fs.map (·.name)) =
      some ["Root", "A", "B", "C", "D", "E"] := by decide
  have houtside' : wandering.unreachable.toOption = some ["D", "E"] := by decide
  have hvisited : wandering.tree.toOption.map (fun t => t.graph.preorder (.text "Root")) =
      some (["Root", "A", "B", "C", "Ghost"].map .text) := by decide
  rw [hfs] at hfs'
  rw [houtside] at houtside'
  rw [ht] at hvisited
  obtain rfl : outside = ["D", "E"] := Option.some.inj houtside'
  refine ⟨fs, t, hfs, hperm, Option.some.inj hfs', houtside, ht, ?_, ((hmem "D").mp (by decide)).2⟩
  rw [hwalk, ← hpreorder]
  exact (Option.some.inj hvisited).symm

end FeatureModel
end ProductLine
