import ProductLine.Proofs.Workbench.Probes
import ProductLine.Proofs.Workbench.Programs

/-! # What a retraction leaves out

A retraction takes the constraints of a relationship back before it makes their opposite. Where there
is no opposite, nothing brings them back. That is so for the relationships of the tree of the model,
which have constraints and no opposite. A relationship made outside the model has no constraints to
lose, and a cross-tree constraint of the model always has an opposite. So after an attempt to retract a
relationship the baseline is posted, except for a relationship of the tree (`retracted_restores_iff`). -/

namespace ProductLine

open Constraint Outcome

variable {m : FeatureModel} {o : FeatureOrder} {s : Store} {r : Relationship} {b c : Workbench}

/-! ### Relationships of a store -/

namespace Store

/-- A relationship of the tree has constraints in the store, but no opposite. -/
theorem structural_of_ofModel (hs : ofModel m o = .ok s) (hr : r ∈ m.structural) :
    r.isCrossTree = false ∧ ∃ c ∈ s.cf, c.source = some r := by
  obtain ⟨_, _, _, _, _, -, -, hencode, rfl⟩ := attempt_eq_ok hs
  obtain ⟨-, inTree, across, rfl, htree, -⟩ := encode_encodes hencode
  obtain ⟨fs, hfs, hall⟩ := htree.complete r hr
  obtain ⟨hkind, hne⟩ := Encoding.structural_eq_ok hfs
  obtain ⟨f, hf⟩ := List.exists_mem_of_ne_nil fs hne
  obtain ⟨c, hc, -, hsource⟩ := hall f hf
  exact ⟨hkind, c, List.mem_append_left _ hc, hsource⟩

theorem mem_constraintsOf {d : Constraint} : d ∈ s.constraintsOf r ↔
    d ∈ s.cf ∧ ∃ r', d.source = some r' ∧ r.same r' = true := by
  rw [constraintsOf, List.mem_filter, Option.any_eq_true]

/-- A relationship that has constraints in the store is one of the model, if it is no copy of one. -/
theorem own_of_mem_constraintsOf (hs : ofModel m o = .ok s)
    (hown : ∀ r' ∈ m.relationships, r.same r' = true → r' = r) {d : Constraint}
    (hd : d ∈ s.constraintsOf r) : r ∈ m.relationships ∧ r.same r = true := by
  obtain ⟨hd, r', hsource, hsame⟩ := mem_constraintsOf.mp hd
  obtain ⟨r'', hr', hsource', -⟩ := (faithful_of_attempt hs).1.sound d hd
  obtain rfl : r' = r'' := Option.some.inj (hsource.symm.trans hsource')
  obtain rfl := hown r' hr' hsame
  exact ⟨hr', hsame⟩

end Store

/-! ### Attempts to retract -/

namespace Program

open Workbench

variable {α β : Type} {p : Program α} {body : List Constraint → Program β}

theorem negationOf_of_mem_crossTree (hs : Store.ofModel m o = .ok s) (hr : r ∈ m.crossTree)
    (hb : s.Intact b.store) : ∃ negation d, Work.negationOf r b = .ok negation d := by
  have hfaithful := (Store.faithful_of_attempt hs).1
  obtain ⟨hkind, x, y, _, hx, hy, hleft, hright⟩ := hfaithful.crossTree r hr
  rw [← hfaithful.mem_vars, ← hb.vars] at hx hy
  exact ⟨_, _, Work.negationOf_eq hkind hleft hright hx hy⟩

/-- What is posted after an attempt to retract: the baseline, without the constraints of a relationship
that has no opposite. -/
theorem posted_retracted (hs : Store.ofModel m o = .ok s) (hb : b.store = s)
    (hown : ∀ r' ∈ m.relationships, r.same r' = true → r' = r)
    (hpart : Part (block (.retracted r) body) c p b) :
    ((block (.retracted r) body).leaves c).store.posted =
      subtract s.ac (if r.isCrossTree then [] else s.constraintsOf r) := by
  obtain ⟨hnd, hholds⟩ := holds_of_ofModel hs hb
  have hc := (hpart.holds hnd hholds).intact
  have hgroup : c.store.constraintsOf r = s.constraintsOf r := by
    unfold Store.constraintsOf
    rw [hc.cf]
  -- the constraints are taken back before the opposite is made
  let opened : Workbench := { c with store := c.store.reset.unpost (c.store.constraintsOf r) }
  have hopened : s.Intact opened.store := (hc.change .reset).change (.unpost _)
  cases hmade : Work.negationOf r opened with
  | ok negation d =>
    have henter : (Scope.retracted r).Enters c negation { d with store := d.store.post negation } :=
      ⟨_, (bind_eq_of_ok rfl).trans ((bind_eq_of_ok rfl).trans (bind_eq_of_ok hmade))⟩
    have hcross := ((Work.negationOf_ensures r).of_eq_ok rfl hmade).1
    rw [hpart.posted_leaves hnd hholds henter, if_pos hcross, subtract_nil]
    exact hc.ac
  | error e d =>
    have hd : d = opened := by
      have hkept := Work.negationOf_ensures r opened rfl
      rwa [hmade] at hkept
    have hrun : (block (.retracted r) body).run c = .error e opened :=
      hd ▸ (bind_eq_of_ok rfl).trans ((bind_eq_of_ok rfl).trans (bind_eq_of_error hmade))
    have hposted : opened.store.posted = subtract s.ac (s.constraintsOf r) := by
      apply Store.posted_of_posting
      show c.store.reset.posting.unpost (c.store.constraintsOf r) = _
      rw [hc.posting_reset hnd, hgroup, Posting.unpost_of]
    rw [leaves_eq, hrun]
    refine hposted.trans ?_
    split
    · next hcross =>
      have hnone : s.constraintsOf r = [] := by
        refine List.eq_nil_iff_forall_not_mem.mpr fun x hx => ?_
        rcases List.mem_append.mp (Store.own_of_mem_constraintsOf hs hown hx).1 with hr | hr
        · exact absurd ((Store.structural_of_ofModel hs hr).1.symm.trans hcross) Bool.false_ne_true
        · obtain ⟨negation, d', hmade'⟩ := negationOf_of_mem_crossTree hs hr hopened
          cases hmade.symm.trans hmade'
      rw [hnone]
    · rfl

/-- **When a retraction leaves constraints out.** After an attempt to retract a relationship of the
model or one made outside of it, whether the attempt succeeded and however the work in it went, exactly
those constraints of the baseline are missing that belong to a relationship without an opposite. So all
of them are posted exactly if the relationship is none of the tree of the model. -/
theorem retracted_restores_iff (hs : Store.ofModel m o = .ok s) (hb : b.store = s)
    (hown : ∀ r' ∈ m.relationships, r.same r' = true → r' = r)
    (hpart : Part (block (.retracted r) body) c p b) :
    ((block (.retracted r) body).leaves c).store.posted =
        subtract s.ac (if r.isCrossTree then [] else s.constraintsOf r) ∧
      (s.ac ⊆ ((block (.retracted r) body).leaves c).store.posted ↔
        ∀ r' ∈ m.structural, r.same r' = false) := by
  have hposted := posted_retracted hs hb hown hpart
  refine ⟨hposted, ?_⟩
  rw [hposted]
  constructor
  · intro hall r' hr'
    rw [Bool.eq_false_iff]
    intro hsame
    obtain ⟨hcross, d, hd, hsource⟩ := Store.structural_of_ofModel hs hr'
    have hin : d ∈ s.constraintsOf r := Store.mem_constraintsOf.mpr ⟨hd, r', hsource, hsame⟩
    have heq : r' = r := hown r' (List.mem_append_left _ hr') hsame
    rw [← heq, hcross, if_neg Bool.false_ne_true, heq] at hall
    exact (mem_subtract.mp (hall (List.mem_append_left _ hd))).2 (id_mem_ids hin)
  · intro hnone
    have hnil : (if r.isCrossTree then [] else s.constraintsOf r) = [] := by
      split
      · rfl
      · next hcross =>
        refine List.eq_nil_iff_forall_not_mem.mpr fun d hd => ?_
        obtain ⟨hr, hself⟩ := Store.own_of_mem_constraintsOf hs hown hd
        rcases List.mem_append.mp hr with hr | hr
        · exact absurd ((hnone r hr).symm.trans hself) Bool.false_ne_true
        · exact hcross ((Store.faithful_of_attempt hs).1.crossTree r hr).1
    rw [hnil, subtract_nil]
    exact List.Subset.refl _

/-- The first relationship of the tree of the model that leaves something to choose. -/
def loose : Relationship := ⟨some 0, .optional, .text "A", [.text "Root"]⟩

/-- An attempt to retract it, with nothing to be done then. -/
def loosened : Program Unit := block (.retracted loose) fun _ => done ()

theorem loose_own : ∀ r ∈ offered.relationships, loose.same r = true → r = loose := by
  have hrelationships : offered.relationships = [loose,
      ⟨some 1, .optional, .text "B", [.text "Root"]⟩,
      ⟨some 2, .requires, .text "A", [.text "B"]⟩] := rfl
  rw [hrelationships, List.forall_mem_cons, List.forall_mem_cons, List.forall_mem_singleton]
  exact ⟨fun _ => rfl, fun h => absurd h (by decide), fun h => absurd h (by decide)⟩

/-- An attempt to retract does not in every case leave the baseline posted. -/
theorem not_retracted_restores : ¬∀ (m : FeatureModel) (o : FeatureOrder) (b : Workbench)
    (p : Program Unit), Store.ofModel m o = .ok b.store → ∀ (r : Relationship)
      (body : List Constraint → Program Unit) (c : Workbench), r ∈ m.relationships →
        Part (block (.retracted r) body) c p b →
          b.store.ac ⊆ ((block (.retracted r) body).leaves c).store.posted := by
  intro h
  have hall : bench.store.ac ⊆ (loosened.leaves bench).store.posted :=
    h offered .declared bench loosened rfl loose _ bench List.mem_cons_self .whole
  exact absurd (List.map_subset (·.id) hall) (by decide)

/-- The attempt fails, and the constraint of the relationship is not posted any more. -/
theorem retracted_restores_iff_loosened :
    (∃ e, loosened.run bench = .error e (loosened.leaves bench)) ∧
      ids bench.store.ac = [0, 1, 2, 3] ∧
      ids (loosened.leaves bench).store.posted = [1, 2, 3] ∧
      ¬bench.store.ac ⊆ (loosened.leaves bench).store.posted := by
  have hs : Store.ofModel offered .declared = .ok bench.store := rfl
  obtain ⟨hposted, hiff⟩ := retracted_restores_iff (p := loosened) hs rfl loose_own .whole
  refine ⟨⟨.notNegatable "optional(A, Root)", rfl⟩, by decide, ?_, fun hall => ?_⟩
  · refine (congrArg ids hposted).trans ?_
    decide
  · exact absurd (hiff.mp hall loose List.mem_cons_self) (by decide)

end Program
end ProductLine
