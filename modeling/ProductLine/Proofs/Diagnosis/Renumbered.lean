import ProductLine.Diagnosis.Enumeration
import ProductLine.Proofs.Agreement
import ProductLine.Proofs.Constraint.Renumbering

/-! # Diagnoses under other numbers

Two searches for diagnoses agree that differ in nothing but the numbers of the constraints, in a setting
that is `Blind` to them: both find the same diagnoses under their own numbers, in the same order, and
stop at the same limit (`enumerate_agree`). If time is bounded, the two clocks have to go alike. -/

namespace ProductLine

namespace Bisection

variable {α β : Type}

/-- The bisection with every item changed. -/
def map (f : α → β) : Bisection α → Bisection β
  | one a => one (f a)
  | halves first second => halves (first.map f) (second.map f)

theorem toList_map (f : α → β) (t : Bisection α) : (t.map f).toList = t.toList.map f := by
  induction t with
  | one a => rfl
  | halves first second ihfirst ihsecond =>
    rw [map, toList, toList, ihfirst, ihsecond, List.map_append]

theorem map_cut (f : α → β) (fuel : Nat) (a : α) (rest : List α) :
    (cut fuel a rest).map f = cut fuel (f a) (rest.map f) := by
  induction fuel generalizing a rest with
  | zero => rfl
  | succ fuel ih =>
    cases rest with
    | nil => rfl
    | cons b rest =>
      have hitems : f a :: f b :: rest.map f = (a :: b :: rest).map f := rfl
      rw [List.map_cons, cut, cut, hitems, List.length_map, ← List.map_take, ← List.map_drop]
      cases (a :: b :: rest).take ((a :: b :: rest).length / 2) with
      | nil => rfl
      | cons c cs =>
        cases (a :: b :: rest).drop ((a :: b :: rest).length / 2) with
        | nil => rfl
        | cons d ds =>
          show halves ((cut fuel c cs).map f) ((cut fuel d ds).map f) = _
          rw [ih, ih]
          rfl

theorem map_ofList (f : α → β) (a : α) (rest : List α) :
    (ofList a rest).map f = ofList (f a) (rest.map f) := by
  unfold ofList
  rw [map_cut, List.length_map]

end Bisection

namespace Diagnosis

open Constraint

/-- The branch with its constraints under other numbers. -/
def Branch.renumber (ρ : Int → Int) (b : Branch) : Branch :=
  ⟨b.diagnosis.map (Constraint.renumber ρ), b.candidates.map (Constraint.renumber ρ),
    b.excluded.map (Constraint.renumber ρ), b.depth⟩

/-- The search with all constraints under other numbers. -/
def Search.renumber (ρ : Int → Int) (s : Search) : Search :=
  ⟨s.accepted.map (Branch.renumber ρ), s.next.map (Branch.renumber ρ), s.stopped⟩

variable {ρ : Int → Int} {limits : Limits}

theorem Search.diagnoses_renumber (s : Search) :
    (s.renumber ρ).diagnoses = s.diagnoses.map (List.map (Constraint.renumber ρ)) := by
  unfold diagnoses renumber
  rw [List.map_map, List.map_map]
  rfl

theorem Search.accept_renumber (s : Search) (b : Branch) :
    (s.renumber ρ).accept (b.renumber ρ) = (s.accept b).renumber ρ := by
  unfold accept renumber
  rw [List.map_append, List.map_append]
  rfl

theorem isNew_renumber (hρ : Function.Injective ρ) (diagnosis : List Constraint)
    (accepted : List (List Constraint)) :
    isNew (diagnosis.map (renumber ρ)) (accepted.map (List.map (renumber ρ))) =
      isNew diagnosis accepted := by
  unfold isNew
  rw [List.any_map]
  congr 2
  funext other
  rw [Function.comp_apply, List.all_map]
  exact congrArg other.all (funext fun c => isIn_renumber hρ c diagnosis)

theorem consider_renumber (hρ : Function.Injective ρ) {s s' : Search} {b : Branch}
    (h : consider limits s b = .ok s') :
    consider limits (s.renumber ρ) (b.renumber ρ) = .ok (s'.renumber ρ) := by
  have hempty : (b.renumber ρ).diagnosis.isEmpty = b.diagnosis.isEmpty := List.isEmpty_map
  have hnew : isNew (b.renumber ρ).diagnosis (s.renumber ρ).diagnoses =
      isNew b.diagnosis s.diagnoses := by
    rw [Search.diagnoses_renumber]
    exact isNew_renumber hρ _ _
  have hcount : (s.renumber ρ).accepted.length = s.accepted.length := List.length_map _
  have hdepth : (b.renumber ρ).depth = b.depth := rfl
  unfold consider at h ⊢
  rw [hempty, hnew, hcount, hdepth]
  split at h
  · next hold =>
    cases h
    rw [if_pos hold]
    rfl
  · next hold =>
    rw [if_neg hold]
    cases hstop : limits.stop? s.accepted.length b.depth with
    | error e =>
      rw [hstop] at h
      cases h
    | ok stop =>
      rw [hstop] at h
      cases stop with
      | some limit =>
        cases h
        rfl
      | none =>
        cases h
        exact congrArg Except.ok (Search.accept_renumber s b)

/-- Nothing that is told of constraints, done two times in related states, hangs on their numbers. -/
structure Setting.Heedless {σ : Type} (e : Setting σ) (ρ : Int → Int) (R : σ → σ → Prop) : Prop where
  isConsistent : ∀ cs, Agree R (e.isConsistent cs) (e.isConsistent (cs.map (renumber ρ)))
    fun answer answer' s s' => answer' = answer ∧ R s s'
  note : ∀ n n', Agree R (e.note n) (e.note n') fun _ _ => R

/-- A setting in which the clocks go alike as well, if time is bounded. -/
structure Setting.Blind {σ : Type} (e : Setting σ) (ρ : Int → Int) (timed : Bool) (lag : Int)
    (R : σ → σ → Prop) : Prop extends e.Heedless ρ R where
  readClock : Agree R e.readClock e.readClock
    fun now now' s s' => (timed = true → now' = now + lag) ∧ R s s'

section heedless

variable {σ : Type} {e : Setting σ} {R : σ → σ → Prop}
variable (hρ : Function.Injective ρ) (he : e.Heedless ρ R)
include he

theorem settled_agree (removed constraints : List Constraint) :
    Agree R (settled e removed constraints)
      (settled e (removed.map (renumber ρ)) (constraints.map (renumber ρ)))
      fun done done' s s' => done' = done ∧ R s s' := by
  unfold settled
  rw [List.isEmpty_map]
  split
  · exact .pure fun _ _ hs => ⟨rfl, hs⟩
  · exact he.isConsistent constraints

include hρ

theorem within_agree (t : Bisection Constraint) (removed constraints : List Constraint) :
    Agree R (within e t removed constraints)
      (within e (t.map (renumber ρ)) (removed.map (renumber ρ)) (constraints.map (renumber ρ)))
      fun aside aside' s s' => aside' = aside.map (renumber ρ) ∧ R s s' := by
  induction t generalizing removed constraints with
  | one c =>
    unfold within
    refine .bind (settled_agree he removed constraints) fun done done' => .assuming ?_
    rintro rfl
    refine .pure fun s s' hs => ⟨?_, hs⟩
    cases done' <;> rfl
  | halves left right ihleft ihright =>
    unfold within
    refine .bind (settled_agree he removed constraints) fun done done' => .assuming ?_
    rintro rfl
    split
    · exact .pure fun _ _ hs => ⟨rfl, hs⟩
    · rw [Bisection.toList_map, subtract_renumber hρ]
      refine .bind (ihright _ _) fun inRight inRight' => .assuming ?_
      rintro rfl
      rw [subtract_renumber hρ]
      refine .bind (ihleft _ _) fun inLeft inLeft' => .assuming ?_
      rintro rfl
      exact .pure fun _ _ hs => ⟨union_renumber hρ _ _, hs⟩

theorem first_agree (candidates background : List Constraint) :
    Agree R (first e candidates background)
      (first e (candidates.map (renumber ρ)) (background.map (renumber ρ)))
      fun found found' s s' => found' = found.map (renumber ρ) ∧ R s s' := by
  unfold first
  refine .bind (he.note _ _) fun _ _ => ?_
  cases candidates with
  | nil => exact .pure fun _ _ hs => ⟨rfl, hs⟩
  | cons c rest =>
    have hall : (c :: rest).map (renumber ρ) = renumber ρ c :: rest.map (renumber ρ) := rfl
    dsimp only
    rw [hall, ← hall, union_renumber hρ]
    refine .bind (he.isConsistent _) fun consistent consistent' => .assuming ?_
    rintro rfl
    split
    · exact .pure fun _ _ hs => ⟨rfl, hs⟩
    · unfold ofConflict
      refine .bind (he.isConsistent _) fun possible possible' => .assuming ?_
      rintro rfl
      split
      · rw [← Bisection.map_ofList]
        refine .bind (within_agree hρ he _ [] _) fun found found' => .assuming ?_
        rintro rfl
        refine .bind (he.note _ _) fun _ _ => ?_
        exact .pure fun _ _ hs => ⟨rfl, hs⟩
      · refine .bind (he.note _ _) fun _ _ => ?_
        exact .pure fun _ _ hs => ⟨rfl, hs⟩

end heedless

section blind

variable {σ : Type} {e : Setting σ} {lag start start' : Int} {R : σ → σ → Prop}
variable (hρ : Function.Injective ρ) (he : e.Blind ρ limits.timed lag R)
include hρ he

omit hρ in
theorem overtime_agree (hstart : limits.timed = true → start' = start + lag) :
    Agree R (overtime e limits start) (overtime e limits start')
      fun passed passed' s s' => passed' = passed ∧ R s s' := by
  unfold overtime
  split
  · next htimed =>
    refine .bind he.readClock fun now now' => .assuming fun hnow => ?_
    have helapsed : now' - start' = now - start := by
      rw [hnow htimed, hstart htimed]
      omega
    rw [helapsed]
    refine .orFail fun passed passed' h h' s s' hs => ⟨?_, hs⟩
    rw [h] at h'
    exact (Except.ok.inj h').symm
  · exact .pure fun _ _ hs => ⟨rfl, hs⟩

theorem expandAt_agree (hstart : limits.timed = true → start' = start + lag)
    (background : List Constraint) (b : Branch) (s : Search) (c : Constraint) :
    Agree R (expandAt e limits start background b s c)
      (expandAt e limits start' (background.map (renumber ρ)) (b.renumber ρ) (s.renumber ρ)
        (renumber ρ c))
      fun t t' u u' => t' = t.renumber ρ ∧ R u u' := by
  have hcandidates : subtract (b.renumber ρ).candidates [renumber ρ c] =
      (subtract b.candidates [c]).map (renumber ρ) := subtract_renumber hρ b.candidates [c]
  have hexcluded : (b.renumber ρ).excluded ++ [renumber ρ c] =
      (b.excluded ++ [c]).map (renumber ρ) := by
    rw [List.map_append]
    rfl
  unfold expandAt
  refine .bind (overtime_agree he hstart) fun passed passed' => .assuming ?_
  rintro rfl
  cases passed' with
  | some limit => exact .pure fun _ _ hs => ⟨rfl, hs⟩
  | none =>
    dsimp only
    rw [hcandidates, hexcluded, union_renumber hρ]
    refine .bind (first_agree hρ he.toHeedless _ _) fun found found' => .assuming ?_
    rintro rfl
    refine .orFail fun t t' h h' u u' hs => ⟨?_, hs⟩
    exact Except.ok.inj (h'.symm.trans (consider_renumber hρ h))

omit he hρ in
/-- A run over a list goes on or stops in both cases. -/
theorem foldlM_unlessStopped_agree {α : Type} {step step' : Search → α → EStateM Failure σ Search}
    {g : α → α} (hstep : ∀ s a, Agree R (step s a) (step' (s.renumber ρ) (g a))
      fun t t' u u' => t' = t.renumber ρ ∧ R u u') (l : List α) (s : Search) :
    Agree R (l.foldlM (unlessStopped step) s)
      ((l.map g).foldlM (unlessStopped step') (s.renumber ρ))
      fun t t' u u' => t' = t.renumber ρ ∧ R u u' := by
  have hl : List.Forall₂ (fun a a' => a' = g a) l (l.map g) :=
    List.forall₂_map_right_iff.mpr (List.forall₂_same.mpr fun _ _ => rfl)
  refine (Agree.foldlM (I := fun (t t' : Search) u u' => t' = t.renumber ρ ∧ R u u') hl
    ?_).strengthen fun _ _ hs => ⟨rfl, hs⟩
  rintro t t' a _ rfl
  apply Agree.assuming
  rintro rfl
  have hstopped : (t.renumber ρ).stopped = t.stopped := rfl
  unfold unlessStopped
  rw [hstopped]
  split
  · exact .pure fun _ _ hs => ⟨rfl, hs⟩
  · exact hstep t a

theorem levels_agree (hstart : limits.timed = true → start' = start + lag)
    (background : List Constraint) (fuel : Nat) (s : Search) :
    Agree R (levels e limits start background fuel s)
      (levels e limits start' (background.map (renumber ρ)) fuel (s.renumber ρ))
      fun t t' u u' => t' = t.renumber ρ ∧ R u u' := by
  induction fuel generalizing s with
  | zero => exact .pure fun _ _ hs => ⟨rfl, hs⟩
  | succ fuel ih =>
    have hbranch : ∀ t b, Agree R (expand e limits start background t b)
        (expand e limits start' (background.map (renumber ρ)) (t.renumber ρ) (b.renumber ρ))
        fun t t' u u' => t' = t.renumber ρ ∧ R u u' := fun t b =>
      foldlM_unlessStopped_agree (fun t c => expandAt_agree hρ he hstart background b t c)
        b.diagnosis t
    unfold levels
    refine .bind (foldlM_unlessStopped_agree hbranch s.next { s with next := [] })
      fun t t' => .assuming ?_
    rintro rfl
    have hnext : (t.renumber ρ).next.isEmpty = t.next.isEmpty := List.isEmpty_map
    have hstopped : (t.renumber ρ).stopped = t.stopped := rfl
    rw [hnext, hstopped]
    split
    · exact .pure fun _ _ hs => ⟨rfl, hs⟩
    · exact ih t

theorem search_agree (found candidates background : List Constraint) :
    Agree R (search e limits found candidates background)
      (search e limits (found.map (renumber ρ)) (candidates.map (renumber ρ))
        (background.map (renumber ρ)))
      fun t t' u u' => t' = t.renumber ρ ∧ R u u' := by
  unfold search
  refine .bind he.readClock fun start start' => .assuming fun hstart => ?_
  rw [List.length_map]
  refine .bind (levels_agree hρ he hstart background _ (.start found candidates))
    fun t t' => .assuming ?_
  rintro rfl
  have hstopped : (t.renumber ρ).stopped = t.stopped := rfl
  rw [hstopped]
  split
  · refine .bind he.readClock fun now now' => .assuming fun _ => ?_
    split
    · split
      · refine .bind (he.note _ _) fun _ _ => ?_
        exact .pure fun _ _ hs => ⟨rfl, hs⟩
      · exact Agree.throw' (e := Failure.clockOverrun)
    · exact Agree.throw (e := Failure.clockOverrun)
  · exact .pure fun _ _ hs => ⟨rfl, hs⟩

/-- Both enumerations have the same diagnoses and stop at the same limit. -/
theorem enumerate_agree (found candidates background : List Constraint) :
    Agree R (enumerate e limits found candidates background)
      (enumerate e limits (found.map (renumber ρ)) (candidates.map (renumber ρ))
        (background.map (renumber ρ)))
      fun all all' s s' => (all'.diagnoses = all.diagnoses.map (List.map (renumber ρ)) ∧
        all'.stopped = all.stopped) ∧ R s s' := by
  unfold enumerate
  rw [List.isEmpty_map]
  split
  · exact .pure fun _ _ hs => ⟨⟨rfl, rfl⟩, hs⟩
  · refine .bind (search_agree hρ he found candidates background) fun t t' => .assuming ?_
    rintro rfl
    exact .pure fun _ _ hs => ⟨⟨Search.diagnoses_renumber t, rfl⟩, hs⟩

end blind
end Diagnosis
end ProductLine
