import ProductLine.Proofs.Constraint.Store
import ProductLine.Proofs.FeatureModel.Made

/-! # What is attached to relationships

Each relationship has a list of the constraints that were made of it. The lists belong to the model, so
that all stores made of the model share them: making a store clears the lists and then attaches the
constraints one by one. A workbench holds no such lists, only all that was attached. The lists can be
read off that (`Links.foldl_attach_clear`), and one after the other they are the constraints of the
store, also if relationships say the same (`Store.cf_eq_flatMap`). -/

namespace ProductLine

open Constraint

/-- The constraints attached to relationships, a list for each. -/
def Links := Relationship → List Constraint

namespace Links

variable {links : Links} {rs : List Relationship} {r : Relationship}

/-- Nothing is attached to some relationships any more. -/
def clear (links : Links) (rs : List Relationship) : Links := fun r =>
  if rs.any r.same then [] else links r

/-- A constraint is attached to the relationship it was made of. -/
def attach (links : Links) (c : Constraint) : Links := fun r =>
  if c.source.any r.same then links r ++ [c] else links r

theorem clear_eq_nil (hr : r ∈ rs) (hself : r.same r = true) : links.clear rs r = [] :=
  if_pos (List.any_eq_true.mpr ⟨r, hr, hself⟩)

theorem foldl_attach (cs : List Constraint) :
    cs.foldl attach links r = links r ++ cs.filter fun c => c.source.any r.same := by
  induction cs generalizing links with
  | nil => exact (List.append_nil _).symm
  | cons c cs ih =>
    rw [List.foldl_cons, ih, List.filter_cons, attach]
    split
    · rw [List.append_assoc, List.singleton_append]
    · rfl

theorem foldl_attach_clear (hr : r ∈ rs) (hself : r.same r = true) (cs : List Constraint) :
    cs.foldl attach (links.clear rs) r = cs.filter fun c => c.source.any r.same := by
  rw [foldl_attach, clear_eq_nil hr hself, List.nil_append]

/-! ### Constraints that stand together -/

/-- All constraints were made of the relationship. -/
def Owns (r : Relationship) (cs : List Constraint) : Prop := ∀ c ∈ cs, c.source = some r

theorem source_of_mem_flatten {groups : List (List Constraint)} (h : List.Forall₂ Owns rs groups) :
    ∀ c ∈ groups.flatten, ∃ r ∈ rs, c.source = some r := by
  induction h with
  | nil => exact List.forall_mem_nil _
  | @cons r group rs groups howns _ ih =>
    refine List.forall_mem_append.mpr ⟨fun c hc => ⟨r, List.mem_cons_self, howns c hc⟩, ?_⟩
    intro c hc
    obtain ⟨r', hr', hsource⟩ := ih c hc
    exact ⟨r', List.mem_cons_of_mem _ hr', hsource⟩

/-- If relationships can be told apart, each of them finds its own constraints. -/
theorem map_filter_flatten {groups : List (List Constraint)} (h : List.Forall₂ Owns rs groups)
    (hself : ∀ r ∈ rs, r.same r = true) (hkeys : (rs.map (·.key)).Nodup) :
    (rs.map fun r => groups.flatten.filter fun c => c.source.any r.same) = groups := by
  induction h with
  | nil => rfl
  | @cons r group rs groups howns hgroups ih =>
    rw [List.forall_mem_cons] at hself
    rw [List.map_cons, List.nodup_cons] at hkeys
    have hapart : ∀ r' ∈ rs, r.key ≠ r'.key := fun r' hr' heq =>
      hkeys.1 (heq ▸ List.mem_map_of_mem hr')
    have hown : group.filter (fun c => c.source.any r.same) = group := by
      refine List.filter_eq_self.mpr fun c hc => ?_
      rw [howns c hc]
      exact hself.1
    have hothers : groups.flatten.filter (fun c => c.source.any r.same) = [] := by
      refine List.filter_eq_nil_iff.mpr fun c hc => ?_
      obtain ⟨r', hr', hsource⟩ := source_of_mem_flatten hgroups c hc
      rw [hsource, Option.any_some, FeatureModel.same_eq_false_of_key_ne (hapart r' hr')]
      exact Bool.false_ne_true
    have hrest : ∀ r' ∈ rs, group.filter (fun c => c.source.any r'.same) = [] := by
      refine fun r' hr' => List.filter_eq_nil_iff.mpr fun c hc => ?_
      rw [howns c hc, Option.any_some, FeatureModel.same_eq_false_of_key_ne (hapart r' hr').symm]
      exact Bool.false_ne_true
    rw [List.map_cons, List.flatten_cons, List.filter_append, hown, hothers, List.append_nil]
    refine congrArg (group :: ·) ((List.map_congr_left fun r' hr' => ?_).trans (ih hself.2 hkeys.2))
    rw [List.filter_append, hrest r' hr', List.nil_append]

end Links

namespace Store

open Links

variable {m : FeatureModel} {o : FeatureOrder} {s : Store}

/-- **Whose constraints they are.** The constraints of a store are those of the relationships of its
model, one relationship after the other. -/
theorem cf_eq_flatMap (hm : m.Identified) (hs : ofModel m o = .ok s) :
    s.cf = m.relationships.flatMap s.constraintsOf := by
  obtain ⟨root, _, _, _, _, -, -, hencode, rfl⟩ := attempt_eq_ok hs
  obtain ⟨-, inTree, across, rfl, htree, hacross⟩ := encode_renders hencode
  have howns : List.Forall₂ Owns m.relationships (inTree ++ across) :=
    List.rel_append (htree.imp fun _ _ h => h.source) (hacross.imp fun _ _ h => h.source)
  have hgroups := map_filter_flatten howns (fun r hr => hm.same_self hr) hm.keys_nodup
  rw [List.flatten_append] at hgroups
  rw [List.flatMap_def]
  exact (List.flatten_append.symm.trans (congrArg List.flatten hgroups.symm))

/-- Making a store attaches its constraints to the relationships and nothing else. -/
theorem attached_of_ofModel (hs : ofModel m o = .ok s) : (attempt m o).attached = some s.cf := by
  unfold ofModel attempt at hs
  unfold attempt
  split
  · next hm =>
    rw [hm] at hs
    cases hs
  · next root rest hm =>
    rw [hm] at hs
    dsimp only at hs
    split
    · next e hsurvey =>
      rw [hsurvey] at hs
      cases hs
    · next vars unreachable hsurvey =>
      rw [hsurvey] at hs
      dsimp only at hs
      split
      · next made e hencode =>
        rw [hencode] at hs
        cases hs
      · next made hencode =>
        rw [hencode] at hs
        cases hs
        rfl

/-- The constraints of a store have the numbers from zero on, and the root has the last one. -/
theorem numbered_of_ofModel (hs : ofModel m o = .ok s) :
    (∃ root, s.ac = s.cf ++ [root] ∧ s.root = some root ∧ root.role = .root) ∧ Numbered s.ac ∧
      s.nextId = s.ac.length := by
  obtain ⟨root, _, _, _, made, -, -, hencode, rfl⟩ := attempt_eq_ok hs
  refine ⟨⟨selectedRoot made root, rfl, rfl, rfl⟩, ?_, ?_⟩
  · exact numbered_selectedRoot (encode_encodes hencode).1 root
  · show made.length + 1 = (made ++ [selectedRoot made root]).length
    rw [List.length_append, List.length_singleton]

end Store
end ProductLine
