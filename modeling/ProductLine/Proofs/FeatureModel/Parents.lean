import ProductLine.FeatureModel.Product
import ProductLine.Proofs.FeatureModel.Made

/-! # What is selected together

An edge of the feature tree comes from a relationship between a parent and a child
(`exists_of_hasParent`), and no product has the child without the parent (`selected_of_hasParent`). A
parent may go without its children, unless they are mandatory. So a feature `Brings` its parents, the
parents of these, their mandatory children and what is required on the way, and nothing else has to be
selected with it. -/

namespace ProductLine

/-! ### Edges -/

namespace FeatureTree

variable {t : FeatureTree} {e : TreeEdge} {x : Value.Key × Value.Key}

@[simp] theorem edges_insertNode (n : TreeNode) : (t.insertNode n).edges = t.edges := by
  unfold insertNode
  split <;> rfl

/-- An edge takes its ends with it and leaves those of the others. -/
theorem mem_edges_insertEdge (h : x ∈ (t.insertEdge e).graph.edges) :
    x ∈ t.graph.edges ∨ x = e.ends := by
  obtain ⟨d, hd, rfl⟩ := List.mem_map.mp h
  unfold insertEdge at hd
  dsimp only at hd
  rw [edges_insertNode, edges_insertNode] at hd
  split at hd
  · obtain ⟨d', hd', rfl⟩ := List.mem_map.mp hd
    refine .inl (List.mem_map.mpr ⟨d', hd', ?_⟩)
    split <;> rfl
  · rcases List.mem_append.mp hd with hd | hd
    · exact .inl (List.mem_map_of_mem hd)
    · exact .inr (congrArg TreeEdge.ends (List.mem_singleton.mp hd))

theorem mem_edges_foldl {es : List TreeEdge} (h : x ∈ (es.foldl insertEdge t).graph.edges) :
    x ∈ t.graph.edges ∨ ∃ e ∈ es, e.ends = x := by
  induction es generalizing t with
  | nil => exact .inl h
  | cons e es ih =>
    rcases ih h with h | ⟨d, hd, hends⟩
    · rcases mem_edges_insertEdge h with h | h
      · exact .inl h
      · exact .inr ⟨e, List.mem_cons_self, h.symm⟩
    · exact .inr ⟨d, List.mem_cons_of_mem e hd, hends⟩

end FeatureTree

namespace FeatureModel

open Outcome Relationship

variable {m : FeatureModel} {r : Relationship} {s : Selection} {name child parent : String}

/-- The feature tree has an edge from the parent to the child. -/
def HasParent (m : FeatureModel) (child parent : String) : Prop :=
  ∃ t, m.tree = .ok t ∧ (.text parent, .text child) ∈ t.graph.edges

/-- The features that a chain leads to from a feature. Every step goes to a parent in the tree, to the
child of a mandatory relationship, or to a feature that is required. -/
inductive Brings (m : FeatureModel) (name : String) : String → Prop where
  | self : Brings m name name
  | up {child parent : String} (h : Brings m name child) (hparent : m.HasParent child parent) :
    Brings m name parent
  | along {left right : String} {r : Relationship} (h : Brings m name left)
    (hr : r ∈ m.relationships) (hkind : r.kind = .mandatory ∨ r.kind = .requires)
    (hleft : r.left = .text left) (hright : r.right.head? = some (.text right)) :
    Brings m name right

theorem treeNode_eq_ok {v : Value} {n : TreeNode} (h : treeNode v = .ok n) :
    v.key? = some n.name := by
  unfold treeNode at h
  split at h
  · cases h
  · cases h
  · next hkey =>
    cases h
    exact hkey

theorem treeEdge_ends {left right : Value} {e : TreeEdge} (h : treeEdge r left right = .ok e)
    (hends : e.ends = (.text parent, .text child)) : left = .text parent ∧ right = .text child := by
  obtain ⟨n, hn, h⟩ := bind_eq_ok_iff.mp h
  obtain ⟨n', hn', h⟩ := bind_eq_ok_iff.mp h
  cases pure_eq_ok_iff.mp h
  obtain ⟨hname, hname'⟩ := Prod.mk.inj hends
  constructor
  · exact (Value.key?_eq_text_iff _ _).mp (hname ▸ treeNode_eq_ok hn)
  · exact (Value.key?_eq_text_iff _ _).mp (hname' ▸ treeNode_eq_ok hn')

theorem sides_of_edgesOf {es : List TreeEdge} (h : edgesOf r = .ok es) {e : TreeEdge} (he : e ∈ es)
    (hends : e.ends = (.text parent, .text child)) :
    r.kind = .optional ∧ r.left = .text child ∧ r.right.head? = some (.text parent) ∨
      r.kind ≠ .optional ∧ r.left = .text parent ∧ .text child ∈ r.right := by
  unfold edgesOf at h
  split at h
  · next hkind =>
    split at h
    · cases h
    · next right _ hright =>
      obtain ⟨d, hd, h⟩ := bind_eq_ok_iff.mp h
      cases pure_eq_ok_iff.mp h
      cases List.mem_singleton.mp he
      obtain ⟨rfl, hleft⟩ := treeEdge_ends hd hends
      exact .inl ⟨hkind, hleft, by rw [hright]; rfl⟩
  · next hkind =>
    obtain ⟨v, hv, hedge⟩ := exists_of_mem_mapM h e he
    obtain ⟨hleft, rfl⟩ := treeEdge_ends hedge hends
    exact .inr ⟨hkind, hleft, hv⟩

theorem exists_of_hasParent (h : m.HasParent child parent) : ∃ r ∈ m.structural,
    r.kind = .optional ∧ r.left = .text child ∧ r.right.head? = some (.text parent) ∨
      r.kind ≠ .optional ∧ r.left = .text parent ∧ .text child ∈ r.right := by
  obtain ⟨t, ht, hedge⟩ := h
  obtain ⟨edges, hedges, ht⟩ := bind_eq_ok_iff.mp ht
  cases pure_eq_ok_iff.mp ht
  rcases FeatureTree.mem_edges_foldl hedge with hnone | ⟨e, he, hends⟩
  · exact absurd hnone List.not_mem_nil
  · obtain ⟨es, hes, he⟩ := List.mem_flatten.mp he
    obtain ⟨r, hr, hedges⟩ := exists_of_mem_mapM hedges es hes
    exact ⟨r, hr, sides_of_edgesOf hedges he hends⟩

/-! ### Products -/

/-- A relationship of the tree does not hold where a child is selected without its parent. -/
theorem selected_of_holds (hkind : r.kind.isCrossTree = false)
    (harity : r.kind.isGroup = false → r.right.length = 1) (h : r.Holds s)
    (hsides : r.kind = .optional ∧ r.left = .text child ∧ r.right.head? = some (.text parent) ∨
      r.kind ≠ .optional ∧ r.left = .text parent ∧ .text child ∈ r.right)
    (hs : s child = true) : s parent = true := by
  unfold Holds at h
  rcases hsides with ⟨hoptional, hleft, hright⟩ | ⟨hoptional, hleft, hright⟩
  · rw [hoptional, hleft] at h
    exact h _ hright hs
  · cases hk : r.kind with
    | mandatory =>
      rw [hk, hleft] at h
      rw [hk] at harity
      obtain ⟨c, hc⟩ := List.length_eq_one_iff.mp (harity rfl)
      rw [hc, List.mem_singleton] at hright
      have hhead : r.right.head? = some (.text child) := by
        rw [hc, hright]
        rfl
      exact (h _ hhead).trans hs
    | optional => exact absurd hk hoptional
    | or =>
      rw [hk, hleft] at h
      exact h.trans (List.any_eq_true.mpr ⟨_, hright, hs⟩)
    | alternative =>
      rw [hk, hleft] at h
      by_contra hnot
      have hzero : r.right.countP (selects s) = 0 := h.trans (if_neg hnot)
      exact List.countP_eq_zero.mp hzero _ hright hs
    | requires | excludes =>
      rw [hk] at hkind
      cases hkind

/-- A product that has a feature has its parents. -/
theorem selected_of_hasParent (hm : m.Arranged) (hs : m.IsProduct s) (h : m.HasParent child parent)
    (hchild : s child = true) : s parent = true := by
  obtain ⟨r, hr, hsides⟩ := exists_of_hasParent h
  have hmem : r ∈ m.relationships := List.mem_append_left _ hr
  exact selected_of_holds (hm.structural r hr) (hm.arity r hmem) (hs.2.2 r hmem) hsides hchild

theorem Brings.selected {other : String} (h : m.Brings name other) (hm : m.Arranged)
    (hs : m.IsProduct s) (hname : s name = true) : s other = true := by
  induction h with
  | self => exact hname
  | up _ hparent ih => exact selected_of_hasParent hm hs hparent ih
  | along _ hr hkind hleft hright ih =>
    have hholds := hs.2.2 _ hr
    unfold Holds at hholds
    rcases hkind with hkind | hkind
    · rw [hkind, hleft] at hholds
      exact (hholds _ hright).symm.trans ih
    · rw [hkind, hleft] at hholds
      exact hholds _ hright ih

end FeatureModel
end ProductLine
