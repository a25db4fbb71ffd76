import Mathlib.Data.List.Nodup
import Mathlib.Data.List.Perm.Subperm
import ProductLine.Digraph

/-! # The two searches

The depth-first search keeps a list of the nodes to be visited; what it returns is the one list that
the recursive `Walk` from the root makes (`walk_preorder_iff`). Depth-first or level by level, a search
finds the nodes that there is a path to and no others (`mem_preorder`, `mem_reach`). -/

namespace ProductLine
namespace Digraph

variable {α : Type} [DecidableEq α] {g : Digraph α} {root v w : α} {seen work us vs mid t t' : List α}

/-! ### Walks -/

namespace Walk

/-- Nodes are visited in two parts, the second after all that the first leads to. -/
theorem append_iff : g.Walk seen (us ++ vs) t ↔ ∃ mid, g.Walk seen us mid ∧ g.Walk mid vs t := by
  constructor
  · intro h
    induction us generalizing seen with
    | nil => exact ⟨seen, .nil seen, h⟩
    | cons v us ih =>
      cases h with
      | skip hv rest =>
        obtain ⟨mid, hus, hvs⟩ := ih rest
        exact ⟨mid, .skip hv hus, hvs⟩
      | visit hv inside rest =>
        obtain ⟨mid, hus, hvs⟩ := ih rest
        exact ⟨mid, .visit hv inside hus, hvs⟩
  · rintro ⟨mid, hus, hvs⟩
    induction hus with
    | nil => exact hvs
    | skip hv _ ih => exact .skip hv (ih hvs)
    | visit hv inside _ _ ih => exact .visit hv inside (ih hvs)

theorem unique (h : g.Walk seen vs t) (h' : g.Walk seen vs t') : t = t' := by
  induction h generalizing t' with
  | nil =>
    cases h'
    rfl
  | skip hv _ ih =>
    cases h' with
    | skip _ rest => exact ih rest
    | visit hv' _ _ => exact absurd hv hv'
  | visit hv _ _ ihinside ih =>
    cases h' with
    | skip hv' _ => exact absurd hv' hv
    | visit _ inside rest =>
      obtain rfl := ihinside inside
      exact ih rest

theorem subset (h : g.Walk seen vs t) : seen ⊆ t := by
  induction h with
  | nil => exact List.Subset.refl _
  | skip _ _ ih => exact ih
  | visit _ _ _ ihinside ih =>
    exact List.Subset.trans (List.subset_append_left _ _) (List.Subset.trans ihinside ih)

theorem visits (h : g.Walk seen vs t) : vs ⊆ t := by
  induction h with
  | nil => exact List.nil_subset _
  | skip hv rest ih => exact List.cons_subset.mpr ⟨rest.subset hv, ih⟩
  | visit _ inside rest _ ih =>
    refine List.cons_subset.mpr ⟨rest.subset (inside.subset ?_), ih⟩
    exact List.mem_append_right _ (List.mem_singleton_self _)

theorem sound (h : g.Walk seen vs t) (hseen : ∀ w ∈ seen, g.Leads root w)
    (hvs : ∀ v ∈ vs, g.Leads root v) : ∀ w ∈ t, g.Leads root w := by
  induction h with
  | nil => exact hseen
  | skip _ _ ih => exact ih hseen fun v hv => hvs v (List.mem_cons_of_mem _ hv)
  | @visit seen vs mid t v _ _ _ ihinside ih =>
    have hv : g.Leads root v := hvs v List.mem_cons_self
    refine ih (ihinside ?_ fun w hw => hv.step (g.mem_children.mp hw)) fun w hw =>
      hvs w (List.mem_cons_of_mem _ hw)
    exact List.forall_mem_append.mpr ⟨hseen, List.forall_mem_singleton.mpr hv⟩

/-- The children of what is seen on the way are seen as well. -/
theorem children_subset (h : g.Walk seen vs t) : ∀ v ∈ t, v ∈ seen ∨ g.children v ⊆ t := by
  induction h with
  | nil => exact fun v hv => .inl hv
  | skip _ _ ih => exact ih
  | @visit seen vs mid t v _ inside rest ihinside ih =>
    intro w hw
    rcases ih w hw with hmid | hsub
    · rcases ihinside w hmid with hseen | hsub
      · rcases List.mem_append.mp hseen with hseen | hself
        · exact .inl hseen
        · obtain rfl := List.mem_singleton.mp hself
          exact .inr (List.Subset.trans inside.visits rest.subset)
      · exact .inr (List.Subset.trans hsub rest.subset)
    · exact .inr hsub

end Walk

/-- A path does not leave what is closed under edges. -/
theorem Leads.mem {s : List α} (h : g.Leads v w) (hclosed : ∀ u ∈ s, g.children u ⊆ s)
    (hv : v ∈ s) : w ∈ s := by
  induction h with
  | refl => exact hv
  | step _ e ih => exact hclosed _ ih (g.mem_children.mpr e)

/-! ### Depth-first -/

/-- How many edges start at a node not seen yet. -/
def pending (g : Digraph α) (seen : List α) : Nat := g.edges.countP (·.1 ∉ seen)

/-- A visit turns the edges that start at the node into work. -/
theorem length_children_add_pending (hv : v ∉ seen) :
    (g.children v).length + g.pending (seen ++ [v]) = g.pending seen := by
  have hsplit : ∀ edges : List (α × α), (edges.filter (·.1 = v)).length +
      edges.countP (fun e => !decide (e.1 ∈ seen) && !decide (e.1 = v)) =
        edges.countP fun e => !decide (e.1 ∈ seen) := by
    intro edges
    induction edges with
    | nil => rfl
    | cons e edges ih =>
      rw [List.countP_cons, List.countP_cons, List.filter_cons]
      by_cases hev : e.1 = v
      · simp [hev, hv]
        omega
      · by_cases hseen : e.1 ∈ seen
        · simp [hev, hseen, ih]
        · simp [hev, hseen]
          omega
  rw [children, List.length_map]
  simpa [pending] using hsplit g.edges

/-- With fuel for the work and for the edges that can still turn into work, a search is a walk. -/
theorem walk_explore {fuel : Nat} (h : g.pending seen + work.length ≤ fuel) :
    g.Walk seen work (g.explore fuel seen work) := by
  induction fuel generalizing seen work with
  | zero =>
    obtain rfl : work = [] := List.eq_nil_of_length_eq_zero (by omega)
    exact .nil seen
  | succ fuel ih =>
    cases work with
    | nil => exact .nil seen
    | cons v work =>
      rw [List.length_cons] at h
      unfold explore
      split
      · next hv => exact .skip hv (ih (by omega))
      · next hv =>
        have hless := length_children_add_pending (g := g) hv
        have hwalk : g.Walk (seen ++ [v]) (g.children v ++ work)
            (g.explore fuel (seen ++ [v]) (g.children v ++ work)) := ih (by
          rw [List.length_append]
          omega)
        obtain ⟨mid, inside, rest⟩ := Walk.append_iff.mp hwalk
        exact .visit hv inside rest

theorem walk_preorder (root : α) : g.Walk [] [root] (g.preorder root) := by
  have hpending : g.pending [] ≤ g.edges.length := List.countP_le_length
  exact walk_explore (by rw [List.length_singleton]; omega)

/-- The preorder is the one that the recursive walk makes. -/
theorem walk_preorder_iff : g.Walk [] [root] t ↔ t = g.preorder root := by
  constructor
  · exact fun h => h.unique (walk_preorder root)
  · rintro rfl
    exact walk_preorder root

theorem mem_preorder : v ∈ g.preorder root ↔ g.Leads root v := by
  have hwalk : g.Walk [] [root] (g.preorder root) := walk_preorder root
  constructor
  · exact hwalk.sound (List.forall_mem_nil _) (List.forall_mem_singleton.mpr (.refl root)) v
  · intro h
    refine h.mem (fun u hu => ?_) (hwalk.visits (List.mem_singleton_self root))
    exact (hwalk.children_subset u hu).resolve_left List.not_mem_nil

theorem explore_nodup {fuel : Nat} {seen work : List α} (h : seen.Nodup) :
    (g.explore fuel seen work).Nodup := by
  induction fuel generalizing seen work with
  | zero => exact h
  | succ fuel ih =>
    cases work with
    | nil => exact h
    | cons v work =>
      unfold explore
      split
      · exact ih h
      · next hv =>
        apply ih
        rw [← List.concat_eq_append]
        exact List.Nodup.concat hv h

theorem preorder_nodup (root : α) : (g.preorder root).Nodup := explore_nodup List.nodup_nil

/-! ### Level by level -/

variable {reached level : List α}

theorem mem_addNew : w ∈ addNew reached level v ↔ w ∈ level ∨ w = v ∧ w ∉ reached := by
  unfold addNew
  split
  · next hold =>
    refine ⟨.inl, ?_⟩
    rintro (hw | ⟨rfl, hw⟩)
    · exact hw
    · exact hold.resolve_left hw
  · next hnew =>
    rw [List.mem_append, List.mem_singleton]
    refine or_congr_right ⟨?_, And.left⟩
    rintro rfl
    exact ⟨rfl, fun hw => hnew (.inl hw)⟩

theorem nodup_addNew (h : level.Nodup) : (addNew reached level v).Nodup := by
  unfold addNew
  split
  · exact h
  · next hnew =>
    rw [← List.concat_eq_append]
    exact List.Nodup.concat (fun hv => hnew (.inr hv)) h

theorem mem_foldl_addNew : w ∈ vs.foldl (addNew reached) level ↔ w ∈ level ∨ w ∈ vs ∧ w ∉ reached := by
  induction vs generalizing level with
  | nil => simp
  | cons v vs ih =>
    rw [List.foldl_cons, ih, mem_addNew, List.mem_cons]
    tauto

theorem nodup_foldl_addNew (h : level.Nodup) : (vs.foldl (addNew reached) level).Nodup := by
  induction vs generalizing level with
  | nil => exact h
  | cons v vs ih => exact ih (nodup_addNew h)

theorem mem_nextLevel :
    w ∈ g.nextLevel reached level ↔ (∃ v ∈ level, (v, w) ∈ g.edges) ∧ w ∉ reached := by
  rw [nextLevel, mem_foldl_addNew, List.mem_flatMap]
  simp only [List.not_mem_nil, false_or, mem_children]

theorem nodup_append_nextLevel (h : reached.Nodup) : (reached ++ g.nextLevel reached level).Nodup :=
  List.nodup_append.mpr ⟨h, nodup_foldl_addNew List.nodup_nil, fun _ ha _ hb hab =>
    (mem_nextLevel.mp hb).2 (hab ▸ ha)⟩

theorem subset_reachFrom {n : Nat} : reached ⊆ g.reachFrom n reached level := by
  induction n generalizing reached level with
  | zero => exact List.Subset.refl _
  | succ n ih =>
    cases level with
    | nil => exact List.Subset.refl _
    | cons v level => exact List.Subset.trans (List.subset_append_left _ _) ih

theorem reachFrom_sound {n : Nat} (hreached : ∀ w ∈ reached, g.Leads root w)
    (hlevel : level ⊆ reached) : ∀ w ∈ g.reachFrom n reached level, g.Leads root w := by
  induction n generalizing reached level with
  | zero => exact hreached
  | succ n ih =>
    cases level with
    | nil => exact hreached
    | cons v level =>
      refine ih (List.forall_mem_append.mpr ⟨hreached, fun w hw => ?_⟩)
        (List.subset_append_right _ _)
      obtain ⟨⟨u, hu, hedge⟩, -⟩ := mem_nextLevel.mp hw
      exact (hreached u (hlevel hu)).step hedge

/-- What has been reached, the children of all but the last level among it, is closed under edges in the
end, if there are as many steps as nodes that have not been reached. -/
theorem children_subset_reachFrom {n : Nat} (hends : ∀ e ∈ g.edges, e.2 ∈ g.nodes)
    (hnodup : reached.Nodup) (hnodes : reached ⊆ g.nodes) (hn : g.nodes.length ≤ reached.length + n)
    (hclosed : ∀ u ∈ reached, u ∈ level ∨ g.children u ⊆ reached) :
    ∀ u ∈ g.reachFrom n reached level, g.children u ⊆ g.reachFrom n reached level := by
  induction n generalizing reached level with
  | zero =>
    -- all nodes have been reached, and every edge ends at a node
    intro u _ w hw
    have hall : reached.Perm g.nodes :=
      (List.subperm_of_subset hnodup hnodes).perm_of_length_le hn
    exact hall.symm.subset (hends _ (g.mem_children.mp hw))
  | succ n ih =>
    cases level with
    | nil => exact fun u hu => (hclosed u hu).resolve_left List.not_mem_nil
    | cons v level =>
      have hnew : ∀ u ∈ reached ++ g.nextLevel reached (v :: level),
          u ∈ g.nextLevel reached (v :: level) ∨
            g.children u ⊆ reached ++ g.nextLevel reached (v :: level) := by
        refine List.forall_mem_append.mpr ⟨fun u hu => .inr fun w hw => ?_, fun u hu => .inl hu⟩
        rw [List.mem_append]
        by_cases hw' : w ∈ reached
        · exact .inl hw'
        · rcases hclosed u hu with hu | hu
          · exact .inr (mem_nextLevel.mpr ⟨⟨u, hu, g.mem_children.mp hw⟩, hw'⟩)
          · exact .inl (hu hw)
      unfold reachFrom
      dsimp only
      cases hnext : g.nextLevel reached (v :: level) with
      | nil =>
        rw [hnext, List.append_nil] at hnew
        rw [List.append_nil]
        have hstop : g.reachFrom n reached [] = reached := by cases n <;> rfl
        rw [hstop]
        exact fun u hu => (hnew u hu).resolve_left List.not_mem_nil
      | cons w next =>
        have hdistinct : (reached ++ g.nextLevel reached (v :: level)).Nodup :=
          nodup_append_nextLevel hnodup
        have hsub : g.nextLevel reached (v :: level) ⊆ g.nodes := fun w hw => by
          obtain ⟨⟨u, -, hedge⟩, -⟩ := mem_nextLevel.mp hw
          exact hends _ hedge
        rw [hnext] at hnew hdistinct hsub
        refine ih hdistinct (List.append_subset.mpr ⟨hnodes, hsub⟩) ?_ hnew
        rw [List.length_append, List.length_cons]
        omega

/-- Level by level, the nodes are reached that the root leads to. -/
theorem mem_reach (hends : ∀ e ∈ g.edges, e.2 ∈ g.nodes) (hroot : root ∈ g.nodes) :
    v ∈ g.reach root ↔ g.Leads root v := by
  constructor
  · exact reachFrom_sound (List.forall_mem_singleton.mpr (.refl root)) (List.Subset.refl _) v
  · intro h
    refine h.mem (children_subset_reachFrom hends (List.nodup_singleton root) ?_ ?_ ?_)
      (subset_reachFrom (List.mem_singleton_self root))
    · exact fun u hu => List.mem_singleton.mp hu ▸ hroot
    · exact Nat.le_add_left _ _
    · exact fun u hu => .inl hu

end Digraph
end ProductLine
