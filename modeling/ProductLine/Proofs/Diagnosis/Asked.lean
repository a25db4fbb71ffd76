import ProductLine.Proofs.Diagnosis.First
import ProductLine.Proofs.Budget

/-! # What is asked for a diagnosis

A search by halves comes to an end whatever is answered, even if no two of the answers go together.
Written as a recursion over lists of candidates, it has no rule for an empty list (`Searches`); it needs
none, for both halves of a list of two or more have something in them (`within_searches`). A list of `n`
candidates is cut `n - 1` times, and each cut leads to two questions at most, so that with the two asked
before there are `2 * n` (`first_asks`). What is found keeps the candidates' order, from the last to the
first (`within_reversed`). All three hang on no answer (`first_answered`). -/

namespace ProductLine

/-! ### Cuts -/

namespace Bisection

variable {α : Type}

/-- How often the list was cut. -/
def cuts : Bisection α → Nat
  | one _ => 0
  | halves first second => first.cuts + second.cuts + 1

theorem length_toList (t : Bisection α) : t.toList.length = t.cuts + 1 := by
  induction t with
  | one a => rfl
  | halves first second ihfirst ihsecond =>
    rw [toList, List.length_append, ihfirst, ihsecond, cuts]
    omega

/-- Every cut was made in the middle, where the first half is the shorter one if there is one. -/
inductive Even : Bisection α → Prop where
  | one (a : α) : Even (one a)
  | halves {first second : Bisection α}
    (hmiddle : (first.toList ++ second.toList).splitAt ((first.toList ++ second.toList).length / 2) =
      (first.toList, second.toList))
    (hfirst : Even first) (hsecond : Even second) : Even (halves first second)

theorem even_cut (fuel : Nat) (a : α) (rest : List α) (h : rest.length < fuel) :
    (cut fuel a rest).Even := by
  induction fuel generalizing a rest with
  | zero => omega
  | succ fuel ih =>
    cases rest with
    | nil => exact .one a
    | cons b rest =>
      obtain ⟨c, cs, d, ds, hc, hd, hcut, hcs, hds⟩ := cut_cons fuel a b rest h
      have hfirst := toList_cut fuel c cs hcs
      have hsecond := toList_cut fuel d ds hds
      have happend : (c :: cs) ++ (d :: ds) = a :: b :: rest := by
        rw [← hc, ← hd, List.take_append_drop]
      rw [hcut]
      refine .halves ?_ (ih c cs hcs) (ih d ds hds)
      rw [hfirst, hsecond, happend, List.splitAt_eq, hc, hd]

theorem even_ofList (a : α) (rest : List α) : (ofList a rest).Even :=
  even_cut _ a rest (Nat.lt_succ_self _)

end Bisection

/-! ### Questions -/

/-- However the work ends, this much was asked at most. -/
def Asks {σ α : Type} (asked : σ → Nat) (most : Nat) (work : EStateM Failure σ α) : Prop :=
  ∀ s, asked (endState (work s)) ≤ asked s + most

namespace Asks

variable {σ α β : Type} {asked : σ → Nat} {most more : Nat} {work : EStateM Failure σ α}

theorem mono (h : Asks asked most work) (hle : most ≤ more) : Asks asked more work :=
  fun s => Nat.le_trans (h s) (Nat.add_le_add_left hle _)

theorem pure (a : α) : Asks asked most (Pure.pure a) := fun _ => Nat.le_add_right _ _

theorem of_keeps (h : ∀ n, Keeps (asked · ≤ n) work) : Asks asked 0 work :=
  fun s => (h (asked s)).endState (Nat.le_refl _)

theorem bind {next : α → EStateM Failure σ β} (h : Asks asked most work)
    (h' : ∀ a, Asks asked more (next a)) : Asks asked (most + more) (work >>= next) := by
  intro s
  have hwork := h s
  cases hr : work s with
  | ok a t =>
    rw [hr] at hwork
    rw [bind_eq_of_ok hr]
    have hnext := h' a t
    change asked t ≤ _ at hwork
    omega
  | error e t =>
    rw [hr] at hwork
    rw [bind_eq_of_error hr]
    change asked t ≤ _ at hwork
    change asked t ≤ _
    omega

end Asks

namespace Diagnosis

open Constraint

variable {σ : Type} {e : Setting σ} {asked : σ → Nat}
  {candidates background removed constraints found : List Constraint}

/-- A check asks one question at most, and a note none. -/
structure Setting.Counts (e : Setting σ) (asked : σ → Nat) : Prop where
  isConsistent : ∀ cs, Asks asked 1 (e.isConsistent cs)
  note : ∀ n, Asks asked 0 (e.note n)

section counts

variable (he : e.Counts asked)
include he

theorem settled_asks (removed constraints : List Constraint) :
    Asks asked (if removed.isEmpty then 0 else 1) (settled e removed constraints) := by
  unfold settled
  split
  · exact .pure false
  · exact he.isConsistent constraints

/-- Each cut leads to two questions at most, one for each half. -/
theorem within_asks (t : Bisection Constraint) (removed constraints : List Constraint) :
    Asks asked ((if removed.isEmpty then 0 else 1) + 2 * t.cuts) (within e t removed constraints) := by
  have hone : ∀ cs : List Constraint, (if cs.isEmpty then 0 else 1) ≤ 1 := fun cs => by split <;> omega
  induction t generalizing removed constraints with
  | one c =>
    unfold within
    exact (settled_asks he removed constraints).bind fun done => .pure _
  | halves left right ihleft ihright =>
    have hright := (ihright left.toList (subtract constraints left.toList)).mono
      (Nat.add_le_add_right (hone _) _)
    have hleft : ∀ inRight, Asks asked (1 + 2 * left.cuts)
        (within e left inRight (subtract constraints inRight)) := fun inRight =>
      (ihleft inRight _).mono (Nat.add_le_add_right (hone _) _)
    have hdone : ∀ found : List Constraint, Asks asked 0 (Pure.pure found) := fun _ => .pure _
    have hboth : Asks asked (2 * (left.cuts + right.cuts + 1)) (do
        let inRight ← within e right left.toList (subtract constraints left.toList)
        let inLeft ← within e left inRight (subtract constraints inRight)
        return union inRight inLeft) :=
      (hright.bind fun inRight => (hleft inRight).bind fun inLeft =>
        hdone (union inRight inLeft)).mono (by omega)
    unfold within
    refine (settled_asks he removed constraints).bind fun done => ?_
    split
    · exact .pure []
    · exact hboth

/-- **A diagnosis costs two questions for each candidate at most**, however the search for it ends. -/
theorem first_asks (candidates background : List Constraint) :
    Asks asked (2 * candidates.length) (first e candidates background) := by
  unfold first
  suffices hrest : Asks asked (0 + 2 * candidates.length) _ from hrest.mono (Nat.le_of_eq (Nat.zero_add _))
  refine (he.note _).bind fun _ => ?_
  cases candidates with
  | nil => exact .pure []
  | cons c rest =>
    have hwithin := within_asks he (Bisection.ofList c rest) [] (union background (c :: rest))
    have hlength := (Bisection.ofList c rest).length_toList
    rw [Bisection.toList_ofList] at hlength
    have hnoted : ∀ n (found : List Constraint),
        Asks asked (0 + 0) (e.note n >>= fun _ => Pure.pure found) := fun n found =>
      (he.note n).bind fun _ => .pure found
    have hconflict : Asks asked (1 + 2 * (Bisection.ofList c rest).cuts)
        (ofConflict e c rest background (union background (c :: rest))) := by
      unfold ofConflict
      refine (he.isConsistent background).bind fun possible => ?_
      split
      · refine (hwithin.bind fun found => hnoted _ found).mono ?_
        rw [List.isEmpty_nil, if_pos rfl]
        omega
      · exact (hnoted _ []).mono (Nat.zero_le _)
    have hle : 1 + (1 + 2 * (Bisection.ofList c rest).cuts) ≤ 2 * (c :: rest).length := by omega
    refine .mono ?_ hle
    refine (he.isConsistent _).bind fun consistent => ?_
    split
    · exact .pure []
    · exact hconflict

end counts

/-! ### What is found -/

theorem union_reversed {left right inRight inLeft : List Constraint}
    (hnodup : (ids (left ++ right)).Nodup) (hright : inRight.Sublist right.reverse)
    (hleft : inLeft.Sublist left.reverse) :
    (union inRight inLeft).Sublist (left ++ right).reverse := by
  rw [union_eq_of_halves hnodup hright hleft, List.reverse_append]
  exact hright.append hleft

/-- What is found are candidates from the last to the first, whatever is answered. -/
theorem within_reversed (t : Bisection Constraint) (hnodup : (ids t.toList).Nodup)
    (removed constraints : List Constraint) :
    Ensures (fun _ => True) (within e t removed constraints)
      (fun found _ => found.Sublist t.toList.reverse) fun _ _ => True := by
  have hsettled : ∀ removed constraints, Ensures (fun _ => True) (settled e removed constraints)
      (fun _ _ => True) fun _ _ => True := fun _ _ => .nothing
  induction t generalizing removed constraints with
  | one c =>
    unfold within
    refine .bind (hsettled _ _) fun done => .pure fun _ _ => ?_
    split
    · exact List.nil_sublist _
    · exact List.Sublist.refl [c]
  | halves left right ihleft ihright =>
    have hhalves : (ids left.toList).Nodup ∧ (ids right.toList).Nodup := by
      have happend := hnodup
      rw [Bisection.toList, ids_append, List.nodup_append] at happend
      exact ⟨happend.1, happend.2.1⟩
    unfold within
    refine .bind (hsettled _ _) fun done => ?_
    split
    · exact .pure fun _ _ => List.nil_sublist _
    · refine .bindState (ihright hhalves.2 _ _) fun inRight _ hright => ?_
      refine .bindState ((ihleft hhalves.1 _ _).strengthen fun _ _ => trivial) fun inLeft _ hleft => ?_
      exact .pure fun _ _ => union_reversed hnodup hright hleft

theorem first_reversed (hnodup : (ids candidates).Nodup) (background : List Constraint) :
    Ensures (fun _ => True) (first e candidates background)
      (fun found _ => found.Sublist candidates.reverse) fun _ _ => True := by
  have hnone : ∀ candidates : List Constraint, Ensures (fun _ : σ => True) (pure [])
      (fun found _ => found.Sublist candidates.reverse) fun (_ : Failure) _ => True := fun _ =>
    .pure fun _ _ => List.nil_sublist _
  unfold first
  refine .nothing_bind fun _ => ?_
  cases candidates with
  | nil => exact hnone []
  | cons c rest =>
    have hcut := Bisection.toList_ofList c rest
    refine .nothing_bind fun consistent => ?_
    split
    · exact hnone _
    · unfold ofConflict
      refine .nothing_bind fun possible => ?_
      split
      · refine .bindState (within_reversed (Bisection.ofList c rest) (hcut ▸ hnodup) _ _)
          fun found _ hfound => ?_
        refine .nothing_bind fun _ => .pure fun _ _ => ?_
        exact hcut ▸ hfound
      · exact .nothing_bind fun _ => hnone _

/-! ### The search as a recursion over lists -/

/-- The search as a recursion over the list of candidates: those that are settled are left alone, a single
one is found, and any other number is cut in the middle and both halves are searched. It is kept which
lists were searched. A search that goes on for ever is none, such as one of no candidates that are not
settled, for these would be cut into the same again. -/
inductive Searches (e : Setting σ) : (removed candidates constraints : List Constraint) → σ →
    (searched : List (List Constraint)) → (found : List Constraint) → σ → Prop where
  | settled {removed candidates constraints : List Constraint} {s t : σ}
    (hsettled : settled e removed constraints s = .ok true t) :
    Searches e removed candidates constraints s [candidates] [] t
  | single {removed constraints : List Constraint} {c : Constraint} {s t : σ}
    (hsettled : Diagnosis.settled e removed constraints s = .ok false t) :
    Searches e removed [c] constraints s [[c]] [c] t
  | halves {removed candidates constraints left right inRight inLeft : List Constraint}
    {searched searched' : List (List Constraint)} {s t u v : σ}
    (hsettled : Diagnosis.settled e removed constraints s = .ok false t)
    (hmany : candidates.length ≠ 1)
    (hcut : candidates.splitAt (candidates.length / 2) = (left, right))
    (hright : Searches e left right (subtract constraints left) t searched inRight u)
    (hleft : Searches e inRight left (subtract constraints inRight) u searched' inLeft v) :
    Searches e removed candidates constraints s (candidates :: (searched ++ searched'))
      (union inRight inLeft) v

section answered

variable (hanswered : ∀ cs s, ∃ a t, e.isConsistent cs s = .ok a t)
include hanswered

theorem settled_answered (removed constraints : List Constraint) (s : σ) :
    ∃ a t, settled e removed constraints s = .ok a t := by
  unfold settled
  split
  · exact ⟨false, s, rfl⟩
  · exact hanswered constraints s

/-- As long as every question is answered, the search comes to an end, and never to an empty list of
candidates. -/
theorem within_searches (t : Bisection Constraint) (ht : t.Even)
    (removed constraints : List Constraint) (s : σ) :
    ∃ searched found u, within e t removed constraints s = .ok found u ∧
      Searches e removed t.toList constraints s searched found u ∧ ∀ l ∈ searched, l ≠ [] := by
  induction ht generalizing removed constraints s with
  | one c =>
    obtain ⟨done, u, hsettled⟩ := settled_answered hanswered removed constraints s
    have hrun : within e (.one c) removed constraints s = .ok (if done then [] else [c]) u :=
      bind_eq_of_ok hsettled
    refine ⟨[[c]], _, u, hrun, ?_, List.forall_mem_singleton.mpr (List.cons_ne_nil _ _)⟩
    cases done with
    | true => exact .settled hsettled
    | false => exact .single hsettled
  | @halves left right hmiddle _ _ ihleft ihright =>
    have hne : left.toList ++ right.toList ≠ [] :=
      List.append_ne_nil_of_left_ne_nil left.toList_ne_nil _
    obtain ⟨done, u, hsettled⟩ := settled_answered hanswered removed constraints s
    cases done with
    | true =>
      have hrun : within e (.halves left right) removed constraints s = .ok [] u :=
        bind_eq_of_ok hsettled
      exact ⟨_, [], u, hrun, .settled hsettled, List.forall_mem_singleton.mpr hne⟩
    | false =>
      obtain ⟨searched, inRight, v, hright, hsearch, hsearched⟩ :=
        ihright left.toList (subtract constraints left.toList) u
      obtain ⟨searched', inLeft, w, hleft, hsearch', hsearched'⟩ :=
        ihleft inRight (subtract constraints inRight) v
      have hrun : within e (.halves left right) removed constraints s =
          .ok (union inRight inLeft) w :=
        (bind_eq_of_ok hsettled).trans ((bind_eq_of_ok hright).trans (bind_eq_of_ok hleft))
      have hmany : (left.toList ++ right.toList).length ≠ 1 := by
        rw [List.length_append, left.length_toList, right.length_toList]
        omega
      exact ⟨_, _, w, hrun, .halves hsettled hmany hmiddle hsearch hsearch',
        List.forall_mem_cons.mpr ⟨hne, List.forall_mem_append.mpr ⟨hsearched, hsearched'⟩⟩⟩

end answered

/-! ### The first diagnosis -/

/-- A setting that answers its questions, one after the other, just as it likes. How many there were is its
state. -/
def Setting.answering (answers : Nat → List Constraint → Bool) : Setting Nat :=
  ⟨fun cs asked => .ok (answers asked cs) (asked + 1), fun _ => pure (), pure 0⟩

theorem Setting.answering_counts (answers : Nat → List Constraint → Bool) :
    (Setting.answering answers).Counts id where
  isConsistent _ _ := Nat.le_refl _
  note _ _ := Nat.le_refl _

/-- If the first two answers leave something to explain, the first diagnosis is what the recursion over
lists comes to; if not, it is empty. -/
theorem first_searches (answers : Nat → List Constraint → Bool) (background : List Constraint)
    (hne : candidates ≠ []) :
    ∃ found asked, first (.answering answers) candidates background 0 = .ok found asked ∧
      (answers 0 (union background candidates) = true ∨ answers 1 background = false → found = []) ∧
      (answers 0 (union background candidates) = false → answers 1 background = true →
        ∃ searched, Searches (.answering answers) [] candidates (union background candidates) 2
          searched found asked ∧ ∀ l ∈ searched, l ≠ []) := by
  obtain ⟨c, rest, rfl⟩ := List.exists_cons_of_ne_nil hne
  have hopen : first (.answering answers) (c :: rest) background 0 =
      (if answers 0 (union background (c :: rest)) then pure [] else
        ofConflict (.answering answers) c rest background (union background (c :: rest))) 1 := rfl
  have hconflict : ofConflict (.answering answers) c rest background (union background (c :: rest)) 1 =
      (if answers 1 background then do
        let found ← within (.answering answers) (Bisection.ofList c rest) []
          (union background (c :: rest))
        (Setting.answering answers).note (.diagnosed found.length (rest.length + 1))
        return found
      else do
        (Setting.answering answers).note .hopeless
        return []) 2 := rfl
  rw [hopen]
  cases h0 : answers 0 (union background (c :: rest)) with
  | true => exact ⟨[], 1, rfl, fun _ => rfl, fun h => nomatch h⟩
  | false =>
    rw [if_neg Bool.false_ne_true, hconflict]
    cases h1 : answers 1 background with
    | false => exact ⟨[], 2, rfl, fun _ => rfl, fun _ h => nomatch h⟩
    | true =>
      have hanswered : ∀ cs asked, ∃ a asked',
          (Setting.answering answers).isConsistent cs asked = .ok a asked' := fun _ _ => ⟨_, _, rfl⟩
      obtain ⟨searched, found, asked, hwithin, hsearch, hsearched⟩ := within_searches hanswered
        (Bisection.ofList c rest) (Bisection.even_ofList c rest) [] (union background (c :: rest)) 2
      rw [Bisection.toList_ofList] at hsearch
      refine ⟨found, asked, bind_eq_of_ok hwithin, ?_, fun _ _ => ⟨searched, hsearch, hsearched⟩⟩
      rintro (h | h) <;> cases h

/-- **The first diagnosis is found whatever is answered.** No more is asked than two questions for each
candidate. What is found are candidates, in the reverse of their order and none twice. If the first two
answers leave something to explain, the recursion over lists comes to an end with it and has not come to an
empty list on its way; if not, nothing is found. -/
theorem first_answered (answers : Nat → List Constraint → Bool) (background : List Constraint)
    (hne : candidates ≠ []) (hnodup : (ids candidates).Nodup) :
    ∃ found asked, first (.answering answers) candidates background 0 = .ok found asked ∧
      asked ≤ 2 * candidates.length ∧
      found.Sublist candidates.reverse ∧ found ⊆ candidates ∧ (ids found).Nodup ∧
      (answers 0 (union background candidates) = true ∨ answers 1 background = false → found = []) ∧
      (answers 0 (union background candidates) = false → answers 1 background = true →
        ∃ searched, Searches (.answering answers) [] candidates (union background candidates) 2
          searched found asked ∧ ∀ l ∈ searched, l ≠ []) := by
  obtain ⟨found, asked, hrun, hnothing, hsearches⟩ := first_searches answers background hne
  have hasks := first_asks (Setting.answering_counts answers) candidates background 0
  rw [hrun] at hasks
  have hreversed := (first_reversed hnodup background).of_eq_ok trivial hrun
  have hnodup' : (ids candidates.reverse).Nodup := by
    rw [ids_reverse]
    exact List.nodup_reverse.mpr hnodup
  exact ⟨found, asked, hrun, Nat.le_trans hasks (Nat.le_of_eq (Nat.zero_add _)), hreversed,
    fun c hc => List.mem_reverse.mp (hreversed.subset hc), hnodup'.sublist (hreversed.map _),
    hnothing, hsearches⟩

/-- Answers that are no and yes in turn say of the same constraints first that they cannot hold together and
then that they can. Two questions about each half follow. -/
theorem first_answered_alternating : crossed ≠ [] ∧ (ids crossed).Nodup ∧
    ∃ found, first (.answering fun asked _ => asked % 2 == 1) crossed crossed 0 = .ok found 6 ∧
      ids found = [3, 1] ∧ found.Sublist crossed.reverse ∧
      ∃ searched, Searches (.answering fun asked _ => asked % 2 == 1) [] crossed
        (union crossed crossed) 2 searched found 6 ∧ ∀ l ∈ searched, l ≠ [] := by
  have hne : crossed ≠ [] := List.cons_ne_nil _ _
  have hnodup : (ids crossed).Nodup := by decide
  obtain ⟨found, asked, hrun, -, hreversed, -, -, -, hsearches⟩ :=
    first_answered (fun asked _ => asked % 2 == 1) crossed hne hnodup
  have hids : (match first (.answering fun asked _ => asked % 2 == 1) crossed crossed 0 with
      | .ok found asked => ids found == [3, 1] && asked == 6
      | .error _ _ => false) = true := by decide
  rw [hrun, Bool.and_eq_true, beq_iff_eq, beq_iff_eq] at hids
  obtain ⟨hfound, rfl⟩ := hids
  exact ⟨hne, hnodup, found, hrun, hfound, hreversed, hsearches rfl rfl⟩

end Diagnosis
end ProductLine
