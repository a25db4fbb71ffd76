/-! # Directed graphs

A `Digraph` lists its edges, source first. Two searches run over it. `preorder` goes depth-first, a
node before its children and the children in edge order, with a list of the nodes still to be
visited; `Walk` says what such an order is. `reach` spreads from a node level by level until nothing
is left to add; `Leads` says that there is a path. -/

namespace ProductLine

/-- A directed graph with its nodes and its edges in order. The ends of the edges are among the
nodes. -/
structure Digraph (α : Type) where
  nodes : List α
  edges : List (α × α)

namespace Digraph

variable {α : Type} [DecidableEq α] (g : Digraph α)

/-- The targets of the edges from a node, in edge order. -/
def children (v : α) : List α := (g.edges.filter (·.1 = v)).map (·.2)

/-- The nodes seen after a search, given those seen before and those to be visited: the first of
these comes with its children in front of the others. Every edge puts one node on the list, which
bounds the fuel. -/
def explore : Nat → List α → List α → List α
  | 0, seen, _ => seen
  | _, seen, [] => seen
  | fuel + 1, seen, v :: work =>
    if v ∈ seen then explore fuel seen work else explore fuel (seen ++ [v]) (g.children v ++ work)

/-- The nodes that a root leads to, in depth-first preorder. -/
def preorder (root : α) : List α := g.explore (g.edges.length + 2) [] [root]

/-- `Walk seen vs t`: visiting the nodes `vs` one after the other, each together with all that it
leads to before the next one, turns the nodes seen from `seen` into `t`. -/
inductive Walk : List α → List α → List α → Prop
  | nil (seen : List α) : Walk seen [] seen
  | skip {seen vs t : List α} {v : α} (h : v ∈ seen) (rest : Walk seen vs t) : Walk seen (v :: vs) t
  | visit {seen vs mid t : List α} {v : α} (h : v ∉ seen)
      (inside : Walk (seen ++ [v]) (g.children v) mid) (rest : Walk mid vs t) :
      Walk seen (v :: vs) t

/-- A list with one more node, unless that has been reached or is in the list. -/
def addNew (reached level : List α) (v : α) : List α :=
  if v ∈ reached ∨ v ∈ level then level else level ++ [v]

/-- The next level: the targets of the edges from a level that have not been reached yet. -/
def nextLevel (reached level : List α) : List α :=
  (level.flatMap g.children).foldl (addNew reached) []

/-- The nodes reached so far, the last level among them, and those that it leads to in at most so
many steps. -/
def reachFrom : Nat → List α → List α → List α
  | 0, reached, _ => reached
  | _, reached, [] => reached
  | n + 1, reached, level =>
    let next := g.nextLevel reached level
    reachFrom n (reached ++ next) next

/-- The nodes that a root leads to. A path without repetition has no more steps than the graph has
nodes. -/
def reach (root : α) : List α := g.reachFrom g.nodes.length [root] [root]

/-- A path of edges leads from the first node to the second. -/
inductive Leads : α → α → Prop
  | refl (v : α) : Leads v v
  | step {u v w : α} (h : Leads u v) (e : (v, w) ∈ g.edges) : Leads u w

theorem mem_children {v w : α} : w ∈ g.children v ↔ (v, w) ∈ g.edges := by
  simp only [children, List.mem_map, List.mem_filter, decide_eq_true_eq]
  constructor
  · rintro ⟨⟨a, b⟩, ⟨h, rfl⟩, rfl⟩; exact h
  · exact fun h => ⟨(v, w), ⟨h, rfl⟩, rfl⟩

end Digraph
end ProductLine
