import ProductLine.Digraph
import ProductLine.FeatureModel.Basic

/-! # The feature tree

The structural relationships of a model span a graph from parents to children, its `FeatureTree`. It
may have cycles, shared children and nodes that are no features. `FeatureModel.order` lists the
features in declaration order or depth-first from the root, and `FeatureModel.unreachable` those
that the root does not lead to. -/

namespace ProductLine

/-- A node of the feature tree: a name, and the value that gave it first. -/
structure TreeNode where
  name : Value.Key
  value : Value

/-- An edge of the feature tree and the relationship it comes from. -/
structure TreeEdge where
  parent : TreeNode
  child : TreeNode
  relationship : Relationship

namespace TreeEdge

def ends (e : TreeEdge) : Value.Key × Value.Key := (e.parent.name, e.child.name)

/-- Whether two edges have the same ends. -/
def parallel (d e : TreeEdge) : Bool := d.parent.name = e.parent.name && d.child.name = e.child.name

end TreeEdge

/-- The graph of the structural relationships. Nodes stand in the order of their first appearance;
an edge keeps its place when it comes again, and takes the relationship it came from last. -/
structure FeatureTree where
  nodes : List TreeNode
  edges : List TreeEdge

namespace FeatureTree

/-- The tree with one more node, unless it is there already. -/
def insertNode (t : FeatureTree) (n : TreeNode) : FeatureTree :=
  if t.nodes.any (·.name = n.name) then t else { t with nodes := t.nodes ++ [n] }

/-- The tree with one more edge and its ends. -/
def insertEdge (t : FeatureTree) (e : TreeEdge) : FeatureTree :=
  let t := (t.insertNode e.parent).insertNode e.child
  if t.edges.any (·.parallel e) then
    { t with edges := t.edges.map fun d =>
        if d.parallel e then { d with relationship := e.relationship } else d }
  else { t with edges := t.edges ++ [e] }

/-- The edges grouped by their parents in node order, each with the parent as it appeared first. -/
def groupedEdges (t : FeatureTree) : List TreeEdge :=
  t.nodes.flatMap fun n =>
    (t.edges.filter (·.parent.name = n.name)).map fun e => { e with parent := n }

def graph (t : FeatureTree) : Digraph Value.Key := ⟨t.nodes.map (·.name), t.edges.map TreeEdge.ends⟩

end FeatureTree

namespace FeatureModel

/-- The node that a value gives, if it is a name and not null. -/
def treeNode (v : Value) : Except Failure TreeNode :=
  match v.key? with
  | none => .error (.notAName v)
  | some .null => .error .nullNode
  | some name => .ok ⟨name, v⟩

def treeEdge (r : Relationship) (parent child : Value) : Except Failure TreeEdge := do
  return ⟨← treeNode parent, ← treeNode child, r⟩

/-- The edges of a relationship. An optional relationship has the child on the left, all others have
the children on the right. -/
def edgesOf (r : Relationship) : Except Failure (List TreeEdge) :=
  if r.kind = .optional then
    match r.right with
    | [] => .error .noRightSide
    | parent :: _ => do return [← treeEdge r parent r.left]
  else r.right.mapM fun child => treeEdge r r.left child

variable (m : FeatureModel)

def tree : Except Failure FeatureTree := do
  let edges ← m.structural.mapM edgesOf
  let nodes := m.names.map fun name => ⟨.text name, .text name⟩
  return edges.flatten.foldl FeatureTree.insertEdge ⟨nodes, []⟩

/-- The features that the root does not lead to, in declaration order. -/
def unreachable : Except Failure (List String) :=
  match m.features with
  | [] => .ok []
  | root :: _ => do
    let reached := (← m.tree).graph.reach (.text root.name)
    return m.names.filter fun name => .text name ∉ reached

/-- The features in the order in which an analysis visits them. Depth-first, those that the root
does not lead to come last, in declaration order. -/
def order (o : FeatureOrder) : Except Failure (List Feature) :=
  match o, m.features with
  | .declared, features => .ok features
  | .depthFirst, [] => .ok []
  | .depthFirst, root :: _ => do
    let visited := (← m.tree).graph.preorder (.text root.name)
    let rest := (m.names.map Value.Key.text).filter (· ∉ visited)
    return (visited ++ rest).filterMap fun
      | .text name => m.feature? name
      | _ => none

/-- The features but the root, in visiting order. -/
def nonRoot (o : FeatureOrder) : Except Failure (List Feature) := do
  let root ← m.root
  return (← m.order o).filter (·.name ≠ root.name)

@[simp] theorem order_declared : m.order .declared = .ok m.features := rfl

end FeatureModel
end ProductLine
