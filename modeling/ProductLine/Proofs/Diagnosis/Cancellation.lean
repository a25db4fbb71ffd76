import ProductLine.Proofs.Diagnosis.Sound
import ProductLine.Proofs.Budget
import ProductLine.Workbench.Token

/-! # Diagnoses that are called off

In a `Watched` setting every check that is made counts, for some constraint of the background is in
every list that is checked. A search for diagnoses that is called off there has done what the free
one does up to that check. -/

namespace ProductLine
namespace Diagnosis

open Constraint

/-- What is checked of lists with a constraint of this number, noted and read off the clock on a budget
follows what is done freely. -/
structure Setting.Watched {σ : Type} (e : Setting σ) (k : Budget σ) (keeps : σ → Prop) (i : Int) :
    Prop where
  isConsistent : ∀ cs, i ∈ ids cs → k.Shadows keeps (e.isConsistent cs) fun _ => keeps
  note : ∀ n, n.outcome? = none → k.Shadows keeps (e.note n) fun _ => keeps
  readClock : k.Shadows keeps e.readClock fun _ => keeps

/-- None of the candidates that are left has the number. -/
def Search.Without (i : Int) (s : Search) : Prop := ∀ b ∈ s.next, i ∉ ids b.candidates

theorem Limits.Refuses.ne_cancelled {limits : Limits} {failure : Failure}
    (h : limits.Refuses failure) : failure ≠ .cancelled := by
  obtain ⟨-, bound, rfl⟩ := h
  exact fun k => Failure.noConfusion k

theorem consider_without {limits : Limits} {i : Int} {s s' : Search} {b : Branch}
    (hs : s.Without i) (hb : i ∉ ids b.candidates) (h : consider limits s b = .ok s') :
    s'.Without i := by
  unfold consider at h
  split at h
  · cases h
    exact hs
  · obtain ⟨stop, -, h⟩ := Outcome.bind_eq_ok_iff.mp h
    cases stop with
    | some limit =>
      cases h
      exact hs
    | none =>
      cases h
      exact List.forall_mem_append.mpr ⟨hs, List.forall_mem_singleton.mpr hb⟩

variable {σ : Type} {e : Setting σ} {k : Budget σ} {keeps : σ → Prop} {i : Int}
variable {candidates background constraints : List Constraint} {limits : Limits}

section watched

variable (he : e.Watched k keeps i)
include he

theorem settled_shadows {removed : List Constraint} (hi : i ∈ ids constraints) :
    k.Shadows keeps (settled e removed constraints) fun _ => keeps := by
  unfold settled
  split
  · exact .pure fun _ => id
  · exact he.isConsistent _ hi

/-- What is put aside lacks the number as the candidates do, so that the rest keeps having it. -/
theorem within_shadows (t : Bisection Constraint) {removed : List Constraint}
    (hi : i ∈ ids constraints) (ht : i ∉ ids t.toList) :
    k.Shadows keeps (within e t removed constraints) fun aside s => i ∉ ids aside ∧ keeps s := by
  induction t generalizing removed constraints with
  | one c =>
    unfold within
    apply Budget.Shadows.bind (settled_shadows he hi)
    intro done
    apply Budget.Shadows.pure
    intro s hs
    refine ⟨?_, hs⟩
    split
    · exact List.not_mem_nil
    · exact ht
  | halves left right ihleft ihright =>
    rw [Bisection.toList, ids_append, List.mem_append, not_or] at ht
    unfold within
    apply Budget.Shadows.bind (settled_shadows he hi)
    intro done
    split
    · exact .pure fun _ hs => ⟨List.not_mem_nil, hs⟩
    · apply Budget.Shadows.bind (ihright (mem_ids_subtract.mpr ⟨hi, ht.1⟩) ht.2)
      intro inRight
      apply Budget.Shadows.assuming
      intro hright
      apply Budget.Shadows.bind (ihleft (mem_ids_subtract.mpr ⟨hi, hright⟩) ht.1)
      intro inLeft
      apply Budget.Shadows.assuming
      intro hleft
      apply Budget.Shadows.pure
      intro s hs
      refine ⟨?_, hs⟩
      rw [mem_ids_union]
      exact not_or_intro hright hleft

theorem first_shadows (hi : i ∈ ids background) (hc : i ∉ ids candidates) :
    k.Shadows keeps (first e candidates background) fun _ => keeps := by
  unfold first
  apply Budget.Shadows.bind (he.note _ rfl)
  intro _
  cases candidates with
  | nil => exact .pure fun _ => id
  | cons c rest =>
    have heverything : i ∈ ids (union background (c :: rest)) := mem_ids_union.mpr (.inl hi)
    apply Budget.Shadows.bind (he.isConsistent _ heverything)
    intro consistent
    split
    · exact .pure fun _ => id
    · unfold ofConflict
      apply Budget.Shadows.bind (he.isConsistent _ hi)
      intro possible
      split
      · have hcut : i ∉ ids (Bisection.ofList c rest).toList := by
          rw [Bisection.toList_ofList]
          exact hc
        apply Budget.Shadows.bind (within_shadows he _ heverything hcut)
        intro diagnosis
        apply Budget.Shadows.assuming
        intro _
        apply Budget.Shadows.bind (he.note _ rfl)
        intro _
        exact .pure fun _ => id
      · apply Budget.Shadows.bind (he.note _ rfl)
        intro _
        exact .pure fun _ => id

theorem overtime_shadows (start : Int) :
    k.Shadows keeps (overtime e limits start) fun _ => keeps := by
  unfold overtime
  split
  · apply Budget.Shadows.bind he.readClock
    intro now
    refine .orFail (fun _ _ _ => id) ?_
    intro h
    exact (Limits.overtime?_refuses h).ne_cancelled rfl
  · exact .pure fun _ => id

theorem expandAt_shadows (hi : i ∈ ids background) (start : Int) {b : Branch}
    (hb : i ∉ ids b.candidates) {s : Search} (hs : s.Without i) (c : Constraint) :
    k.Shadows keeps (expandAt e limits start background b s c)
      fun s' t => s'.Without i ∧ keeps t := by
  have hleft : i ∉ ids (subtract b.candidates [c]) := fun h => hb (mem_ids_subtract.mp h).1
  unfold expandAt
  apply Budget.Shadows.bind (overtime_shadows he start)
  intro passed
  cases passed with
  | some limit => exact .pure fun _ ht => ⟨hs, ht⟩
  | none =>
    apply Budget.Shadows.bind (first_shadows he (mem_ids_union.mpr (.inl hi)) hleft)
    intro found
    refine .orFail (fun s' h t ht => ⟨consider_without hs hleft h, ht⟩) ?_
    intro h
    exact (consider_refuses h).ne_cancelled rfl

omit he in
theorem foldlM_unlessStopped_shadows {α : Type} {I : Search → Prop}
    {step : Search → α → EStateM Failure σ Search} {l : List α} {s : Search} (hs : I s)
    (hstep : ∀ a ∈ l, ∀ s, I s → k.Shadows keeps (step s a) fun s' t => I s' ∧ keeps t) :
    k.Shadows keeps (l.foldlM (unlessStopped step) s) fun s' t => I s' ∧ keeps t := by
  refine (Budget.Shadows.foldlM (I := fun s' t => I s' ∧ keeps t) ?_).strengthen
    fun t ht => ⟨hs, ht⟩
  intro s' a ha
  apply Budget.Shadows.assuming
  intro hs'
  unfold unlessStopped
  split
  · exact .pure fun _ ht => ⟨hs', ht⟩
  · exact hstep a ha s' hs'

theorem levels_shadows (hi : i ∈ ids background) (start : Int) (fuel : Nat) {s : Search}
    (hs : s.Without i) :
    k.Shadows keeps (levels e limits start background fuel s) fun _ => keeps := by
  induction fuel generalizing s with
  | zero => exact .pure fun _ => id
  | succ fuel ih =>
    have hlevel : k.Shadows keeps
        (s.next.foldlM (unlessStopped (expand e limits start background)) { s with next := [] })
        fun s' t => s'.Without i ∧ keeps t := by
      apply foldlM_unlessStopped_shadows (List.forall_mem_nil _)
      intro b hb s' hs'
      unfold expand
      exact foldlM_unlessStopped_shadows hs' fun c _ _ hnow =>
        expandAt_shadows he hi start (hs b hb) hnow c
    unfold levels
    apply Budget.Shadows.bind hlevel
    intro s'
    apply Budget.Shadows.assuming
    intro hs'
    split
    · exact .pure fun _ => id
    · exact ih hs'

theorem search_shadows (hi : i ∈ ids background) (hc : i ∉ ids candidates)
    (found : List Constraint) :
    k.Shadows keeps (search e limits found candidates background) fun _ => keeps := by
  have hstart : (Search.start found candidates).Without i := List.forall_mem_singleton.mpr hc
  unfold search
  apply Budget.Shadows.bind he.readClock
  intro start
  apply Budget.Shadows.bind (levels_shadows he hi start _ hstart)
  intro s
  split
  · apply Budget.Shadows.bind he.readClock
    intro now
    split
    · apply Budget.Shadows.bind (he.note _ rfl)
      intro _
      exact .pure fun _ => id
    · have hoverrun : k.Shadows keeps (throw .clockOverrun : EStateM Failure σ PUnit)
          fun _ => keeps := .throw fun h => nomatch h
      apply Budget.Shadows.bind hoverrun
      intro _
      exact .pure fun _ => id
  · exact .pure fun _ => id

theorem enumerate_shadows (hi : i ∈ ids background) (hc : i ∉ ids candidates)
    (found : List Constraint) :
    k.Shadows keeps (enumerate e limits found candidates background) fun _ => keeps := by
  unfold enumerate
  split
  · exact .pure fun _ => id
  · apply Budget.Shadows.bind (search_shadows he hi hc found)
    intro s
    exact .pure fun _ => id

end watched
end Diagnosis
end ProductLine
