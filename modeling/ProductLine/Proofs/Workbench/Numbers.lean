import ProductLine.Proofs.Constraint.Attached
import ProductLine.Proofs.Workbench.Programs

/-! # The numbers of constraints

A store numbers its constraints as it makes them. What a program makes on it has the next numbers, one
after the other, and no number is given out for anything else (`Program.run_issues`): a maker that fails
has made nothing yet, and what was made before a failure keeps its number. So all constraints that a
store ever makes are told apart by their numbers, those of its model included
(`Work.build_accounts`). -/

namespace ProductLine

open Constraint

/-- Between two stores the constraints were made, with the next numbers, and nothing else. -/
structure Store.Issues (s : Store) (made : List Constraint) (t : Store) : Prop where
  nextId : t.nextId = s.nextId + made.length
  ids : Constraint.ids made = (List.range' s.nextId made.length).map Nat.cast

namespace Store.Issues

variable {s t u : Store} {made made' : List Constraint}

theorem nothing (h : t.nextId = s.nextId) : s.Issues [] t := ⟨h, rfl⟩

theorem make (f : Formula String) (role : Constraint.Role) (source : Option Relationship) :
    s.Issues [(s.make f role source).1] (s.make f role source).2 := ⟨rfl, rfl⟩

theorem append (h : s.Issues made t) (h' : t.Issues made' u) : s.Issues (made ++ made') u := by
  refine ⟨?_, ?_⟩
  · rw [h'.nextId, h.nextId, List.length_append, Nat.add_assoc]
  · rw [ids_append, h.ids, h'.ids, h.nextId, ← List.map_append, List.length_append,
      List.range'_append_1]

theorem next (h : s.Issues made t) (heq : u.nextId = t.nextId) : s.Issues made u :=
  ⟨heq.trans h.nextId, h.ids⟩

theorem numbered {known : List Constraint} (h : s.Issues made t) (hknown : Numbered known)
    (hnext : s.nextId = known.length) :
    Numbered (known ++ made) ∧ t.nextId = (known ++ made).length := by
  have hlength : t.nextId = (known ++ made).length := by
    rw [h.nextId, hnext, List.length_append]
  refine ⟨?_, hlength⟩
  unfold Numbered at hknown ⊢
  rw [ids_append, hknown, h.ids, hnext, List.length_append, List.range_add, List.map_append,
    List.range'_eq_map_range]

end Store.Issues

variable {α : Type} {b : Workbench}

/-! ### Scopes -/

namespace Scope

/-- Opening a scope makes what is handed out of it if it is an opposite, and ending it makes nothing. -/
theorem opening_issues (k : Scope) : Ensures (· = b) k.opening
    (fun x c => b.store.Issues (k.made x.1) c.store ∧ ∀ t, (x.2 t).nextId = t.nextId)
    fun _ c => b.store.Issues [] c.store := by
  cases k with
  | probe perturbation =>
    rintro b rfl
    exact ⟨.nothing rfl, fun _ => rfl⟩
  | swapped cs =>
    rintro b rfl
    exact ⟨.nothing rfl, fun _ => rfl⟩
  | retracted r =>
    rintro b rfl
    let opened : Workbench := { b with store := b.store.reset.unpost (b.store.constraintsOf r) }
    have hopening : opening (.retracted r) b = (do
        let negation ← Work.negationOf r
        Work.onStore fun s => s.post negation
        return (negation, fun s : Store =>
          ((s.unpost negation).post (b.store.constraintsOf r)).reset)) opened := rfl
    have hmade := Work.negationOf_ensures (b := opened) r opened rfl
    rw [hopening]
    cases hr : Work.negationOf r opened with
    | ok negation c =>
      rw [hr] at hmade
      obtain ⟨-, f, rfl, rfl⟩ := hmade
      rw [bind_eq_of_ok hr]
      exact ⟨Store.Issues.next (.make f .negation (some r)) rfl, fun _ => rfl⟩
    | error e c =>
      rw [hr] at hmade
      rw [bind_eq_of_error hr, hmade]
      exact .nothing rfl

/-- In a scope, what is made is the opposite, if there is one, and what the work makes. -/
theorem around_issues (k : Scope) {work : List Constraint → Work α}
    {made : List Constraint → Workbench → List Constraint}
    (h : ∀ handed (c : Workbench), c.store.Issues (made handed c) (endState (work handed c)).store) :
    b.store.Issues (match k.opening b with
        | .ok (handed, _) c => k.made handed ++ made handed c
        | .error _ _ => [])
      (endState (k.around work b)).store := by
  have hopened := k.opening_issues b rfl
  rw [around_eq]
  cases hr : k.opening b with
  | ok x c =>
    rw [hr] at hopened
    rw [bind_eq_of_ok hr, Work.closing_eq, endState_endIn]
    refine (hopened.1.append (h x.1 c)).next ?_
    split
    · exact hopened.2 _
    · rfl
  | error e c =>
    rw [hr] at hopened
    rw [bind_eq_of_error hr]
    exact hopened

end Scope

/-! ### Programs -/

namespace Work

theorem consult_issues (cs : List Constraint) (b : Workbench) :
    b.store.Issues [] (endState (consult cs b)).store := by
  by_cases hcs : cs = []
  · rw [hcs]
    exact .nothing rfl
  · rw [consult_eq hcs]
    exact .nothing rfl

theorem isConsistent_issues (cs : List Constraint) :
    b.store.Issues [] (endState (isConsistent cs b)).store := by
  have hpassed := passToken_preserves (P := fun c => c.store = b.store) (fun _ _ => id) b rfl
  have hrun : isConsistent cs = passToken >>= fun _ => (Scope.swapped cs).around consult := rfl
  rw [hrun]
  cases hr : passToken b with
  | ok _ c =>
    rw [hr] at hpassed
    rw [bind_eq_of_ok hr, ← hpassed]
    exact (Scope.swapped cs).around_issues consult_issues
  | error e c =>
    rw [hr] at hpassed
    rw [bind_eq_of_error hr]
    exact .nothing (congrArg Store.nextId hpassed)

end Work

namespace Program

open Workbench

/-- A program gives numbers to what it makes, and to nothing else. -/
theorem run_issues (p : Program α) (b : Workbench) :
    b.store.Issues (p.makes b) (p.leaves b).store := by
  rw [leaves_eq]
  induction p generalizing b with
  | done a => exact .nothing rfl
  | raise e => exact .nothing rfl
  | look => exact .nothing rfl
  | change c => cases c <;> exact .nothing rfl
  | make f role source => exact .make f role source
  | check cs => exact Work.isConsistent_issues cs
  | block k body ih =>
    rw [makes]
    exact k.around_issues ih
  | andThen first next ihfirst ihnext =>
    have hfirst := ihfirst b
    have hrun : (andThen first next).run b = (first.run >>= fun a => (next a).run) b := rfl
    rw [makes, hrun]
    cases hr : first.run b with
    | ok a c =>
      rw [hr] at hfirst
      rw [bind_eq_of_ok hr]
      exact hfirst.append (ihnext a c)
    | error e c =>
      rw [hr] at hfirst
      rw [bind_eq_of_error hr, List.append_nil]
      exact hfirst
  | attempt p ih =>
    have hcaught : endState ((attempt p).run b) = endState (p.run b) := by
      show endState (caught p.run b) = _
      unfold caught
      cases p.run b <;> rfl
    rw [hcaught]
    exact ih b

/-! ### Makers as programs -/

theorem run_ofExcept (x : Except Failure α) : (ofExcept x).run = orFail x := by
  cases x <;> rfl

theorem run_finding (name : Value) (b : Workbench) :
    (finding b.model.name name).run b = Work.variableOf name b := by
  have hlook : (finding b.model.name name).run b = ((ofExcept (b.store.find? name)).run >>=
      fun found => (ofOption (.noVariable name b.model.name) found).run) b := rfl
  rw [hlook, run_ofExcept]
  unfold Work.variableOf
  rw [get_bind_eq]
  refine bind_congr_at rfl fun found c _ => ?_
  cases found <;> rfl

theorem run_assigning (name : Value) (value : Bool) (b : Workbench) :
    (assigning b.model.name name value).run b = Work.assign name value b :=
  bind_congr_at (run_finding name b) fun _ _ _ => rfl

theorem run_negating (r : Relationship) (b : Workbench) :
    (negating b.model.name r).run b = Work.negationOf r b := by
  -- looking for a variable leaves the title as it is
  have hfound : ∀ {name v c}, Work.variableOf name b = .ok v c → c = b := fun {name} _ _ hr =>
    (Work.variableOf_keeps (P := (· = b)) name).of_eq_ok rfl hr
  have hmade : (do
      let left ← (finding b.model.name r.left).run
      let first ← (ofExcept (Encoding.firstRight r)).run
      let right ← (finding b.model.name first).run
      return [← Work.make (Encoding.negation r.kind left right) .negation (some r)] : Work _) b =
      (do
        let left ← Work.variableOf r.left
        let right ← Work.variableOf (← orFail (Encoding.firstRight r))
        return [← Work.make (Encoding.negation r.kind left right) .negation (some r)]) b := by
    refine bind_congr_at (run_finding _ b) fun left c hleft => ?_
    rw [hfound hleft, run_ofExcept]
    cases Encoding.firstRight r with
    | error e => rfl
    | ok first =>
      show ((finding b.model.name first).run >>= _) b = (Work.variableOf first >>= _) b
      exact bind_congr_at (run_finding first b) fun _ _ _ => rfl
  unfold negating Work.negationOf
  cases hcross : r.isCrossTree with
  | true => exact hmade
  | false =>
    cases r.rule with
    | error e => rfl
    | ok rule => rfl

end Program

/-! ### The books of a store -/

namespace Work

open Program

variable {o : FeatureOrder} {c : Workbench}

theorem of_build_eq_ok (h : build o b = .ok () c) : c.model = b.model ∧
    Store.ofModel c.model o = .ok c.store ∧ c.attached = c.store.cf := by
  rw [build_eq] at h
  split at h
  · next s hs =>
    cases h
    have hmodel : (attempted b o).model = b.model := by
      unfold attempted
      dsimp only
      split <;> rfl
    have hattached : (attempted b o).attached = s.cf := by
      unfold attempted
      dsimp only
      split <;> exact congrArg (Option.getD · b.attached) (Store.attached_of_ofModel hs)
    exact ⟨hmodel, hmodel ▸ hs, hattached⟩
  · cases h

/-- **The books of a store.** After a store was made of a model that has grown in any way, whatever was
attached to its relationships before, also by another store, they have the constraints of this store
attached, which are its constraints one relationship after the other. Its constraints have the numbers
from zero on in their order, and the root has the last one. Whatever program runs then, with assignments
and opposites made in it, inside and outside of retractions, and with failures anywhere, the numbers given
out are those of the constraints made, one after the other, so that constraints with the same number are
the same. -/
theorem build_accounts (hm : b.model.Grown) (hbuild : build o b = .ok () c) :
    c.model = b.model ∧
    (∃ links : Links, (∀ r, attachedTo r c = .ok (links r) c) ∧
      (∀ (before : Links), ∀ r ∈ c.model.relationships,
        c.attached.foldl Links.attach (before.clear c.model.relationships) r = links r) ∧
      c.store.cf = c.model.relationships.flatMap links ∧
      ∀ r ∈ c.model.relationships, c.store.constraintsOf r = links r) ∧
    (∃ root, c.store.ac = c.store.cf ++ [root] ∧ root.role = .root) ∧
    ids c.store.ac = (List.range (c.store.cf.length + 1)).map Nat.cast ∧
    (∀ (d : Workbench) (name : Value) (value : Bool),
      (assigning d.model.name name value).run d = assign name value d) ∧
    (∀ (d : Workbench) (r : Relationship), (negating d.model.name r).run d = negationOf r d) ∧
    ∀ (α : Type) (p : Program α), (p.leaves c).store.ac = c.store.ac ∧
      ids (c.store.ac ++ p.makes c) = (List.range (p.leaves c).store.nextId).map Nat.cast ∧
      ∀ x ∈ c.store.ac ++ p.makes c, ∀ y ∈ c.store.ac ++ p.makes c, x.id = y.id ↔ x = y := by
  obtain ⟨hmodel, hs, hattached⟩ := of_build_eq_ok hbuild
  have hidentified : c.model.Identified := hmodel ▸ hm.identified
  obtain ⟨⟨root, hac, -, hrole⟩, hnumbered, hnext⟩ := Store.numbered_of_ofModel hs
  refine ⟨hmodel, ⟨fun r => c.attached.filter fun x => x.source.any r.same, fun _ => rfl, ?_, ?_, ?_⟩,
    ⟨root, hac, hrole⟩, ?_, fun d name value => run_assigning name value d,
    fun d r => run_negating r d, ?_⟩
  · intro before r hr
    exact Links.foldl_attach_clear hr (hidentified.same_self hr) c.attached
  · rw [hattached]
    exact Store.cf_eq_flatMap hidentified hs
  · intro r _
    rw [hattached]
    rfl
  · have hlength : c.store.ac.length = c.store.cf.length + 1 := by
      rw [hac, List.length_append, List.length_singleton]
    rw [← hlength]
    exact hnumbered
  · intro α p
    obtain ⟨hnd, hholds⟩ := holds_of_ofModel (b := c) hs rfl
    obtain ⟨hall, hlast⟩ := (p.run_issues c).numbered hnumbered hnext
    refine ⟨?_, ?_, fun x hx y hy => ⟨fun heq => ?_, congrArg _⟩⟩
    · rw [leaves_eq]
      exact ((run_holds hnd p).endState hholds).intact.ac
    · rw [hlast]
      exact hall
    · exact eq_of_id_eq hall.nodup hx hy heq

open FeatureModel (echoed made_echoed)

/-- A workbench on which a store of a model with repeated relationships was made before, in another
order. -/
def used : Workbench := endState (build .depthFirst (.new echoed .standard .calm))

/-- The workbench on which a store of that model is made again. -/
def renewed : Workbench := endState (build .declared used)

/-- In a retraction an assignment is made, and the work fails. -/
def forsaken : Program Unit :=
  block (.retracted ⟨some 3, .excludes, .text "A", [.text "B"]⟩) fun _ =>
    andThen (assigning (.text "echoed") (.text "A") true) fun _ => raise .cancelled

/-- An assignment that cannot be made, the retraction, and one more constraint. -/
def muddle : Program Unit :=
  andThen (attempt (assigning (.text "echoed") (.text "Z") true)) fun _ =>
    andThen (attempt forsaken) fun _ =>
      andThen (Program.make (.var "B") .assignment none) fun _ => done ()

/-- Of the relationships that say the same, each has its own constraints, and nothing comes between the
numbers. -/
theorem build_accounts_echoed : build .declared used = .ok () renewed ∧
    ids renewed.store.cf = [0, 1, 2, 3, 4, 5] ∧
    (echoed.relationships.map fun r => ids (renewed.store.constraintsOf r)) =
      [[0, 1], [2, 3], [4], [5]] ∧
    ids (renewed.store.ac ++ muddle.makes renewed) = [0, 1, 2, 3, 4, 5, 6, 7, 8, 9] := by
  have hbuild : build .declared used = .ok () renewed := rfl
  have haccounts := build_accounts (b := used) made_echoed.grown hbuild
  refine ⟨hbuild, by decide, by decide, ?_⟩
  obtain ⟨-, -, -, -, -, -, hprograms⟩ := haccounts
  exact (hprograms Unit muddle).2.1.trans (by decide)

end Work
end ProductLine
