import ProductLine.Proofs.Diagnosis.Incomparable

/-! # What a search asks for

A search looks for diagnoses over and over, each time of other candidates over another background, and
notes every time what it looks for. What those are hangs on no answer. If what is looked for first is of
some kind, and the kind is kept when a candidate is moved to the background, then all that is looked for
is of that kind, however deep the search goes (`enumerate_stays`).

One such kind are the questions that are well posed (`Poses`): the candidates and the background divide
what is to be explained, the candidates stand in a given order, and what is fixed is in the background. -/

namespace ProductLine
namespace Diagnosis

open Constraint Outcome

variable {σ : Type} {e : Setting σ} {keeps : σ → Prop} {fail : Failure → σ → Prop}
  {asks : List Constraint → List Constraint → Prop} {candidates background found : List Constraint}
  {limits : Limits} {start : Int}

/-- The notes of a search that looks for diagnoses of some kind only. -/
def OfSearch (asks : List Constraint → List Constraint → Prop) : Journal.Note → Prop
  | .sought candidates background => asks candidates background
  | .hopeless | .diagnosed .. | .enumerated .. => True
  | _ => False

/-- Whatever is done in the setting by a search for diagnoses of some kind, a property of the states is
kept. Nothing is asked of the answers. -/
structure Setting.Stays (e : Setting σ) (asks : List Constraint → List Constraint → Prop)
    (keeps : σ → Prop) (fail : Failure → σ → Prop) : Prop where
  isConsistent : ∀ cs, Ensures keeps (e.isConsistent cs) (fun _ => keeps) fail
  note : ∀ n, OfSearch asks n → Ensures keeps (e.note n) (fun _ => keeps) fail
  readClock : Ensures keeps e.readClock (fun _ => keeps) fail

section stays

variable (he : e.Stays asks keeps fail)
include he

/-! ### The first diagnosis -/

theorem settled_stays (removed constraints : List Constraint) :
    Ensures keeps (settled e removed constraints) (fun _ => keeps) fail := by
  unfold settled
  split
  · exact .pure fun _ => id
  · exact he.isConsistent constraints

theorem within_stays (t : Bisection Constraint) (removed constraints : List Constraint) :
    Ensures keeps (within e t removed constraints) (fun found s => found ⊆ t.toList ∧ keeps s)
      fail := by
  induction t generalizing removed constraints with
  | one c =>
    unfold within
    refine .bind (settled_stays he removed constraints) fun done => .pure fun s hs => ⟨?_, hs⟩
    split
    · exact List.nil_subset _
    · exact List.Subset.refl _
  | halves left right ihleft ihright =>
    unfold within
    refine .bind (settled_stays he removed constraints) fun done => ?_
    split
    · exact .pure fun s hs => ⟨List.nil_subset _, hs⟩
    · refine .bind (ihright _ _) fun inRight => .assuming fun hright => ?_
      refine .bind (ihleft _ _) fun inLeft => .assuming fun hleft => .pure fun s hs => ⟨?_, hs⟩
      exact union_subset (List.subset_append_of_subset_right _ hright)
        (List.subset_append_of_subset_left _ hleft)

theorem first_stays (hasks : asks candidates background) :
    Ensures keeps (first e candidates background) (fun found s => found ⊆ candidates ∧ keeps s)
      fail := by
  have hnone : ∀ n, OfSearch asks n → Ensures keeps (e.note n >>= fun _ => pure [])
      (fun found s => found ⊆ candidates ∧ keeps s) fail := fun n hn =>
    .bind (he.note n hn) fun _ => .pure fun s hs => ⟨List.nil_subset _, hs⟩
  unfold first
  cases candidates with
  | nil => exact hnone _ hasks
  | cons c rest =>
    refine .bind (he.note _ hasks) fun _ => .bind (he.isConsistent _) fun consistent => ?_
    split
    · exact .pure fun s hs => ⟨List.nil_subset _, hs⟩
    · refine .bind (he.isConsistent _) fun possible => ?_
      split
      · refine .bind (within_stays he _ _ _) fun found => .assuming fun hfound => ?_
        rw [Bisection.toList_ofList] at hfound
        exact .bind (he.note _ trivial) fun _ => .pure fun s hs => ⟨hfound, hs⟩
      · exact hnone _ trivial

/-! ### All diagnoses -/

/-- Wherever the branch is expanded, what is looked for is of the kind. -/
def Branch.Asks (asks : List Constraint → List Constraint → Prop) (background : List Constraint)
    (b : Branch) : Prop :=
  ∀ c ∈ b.diagnosis, asks (subtract b.candidates [c]) (union background (b.excluded ++ [c]))

omit he in
theorem mem_next_of_consider {s s' : Search} {b : Branch} (h : consider limits s b = .ok s') :
    ∀ d ∈ s'.next, d ∈ s.next ∨ d = b := by
  unfold consider at h
  split at h
  · cases h
    exact fun _ => .inl
  · obtain ⟨stop, -, h⟩ := bind_eq_ok_iff.mp h
    cases stop with
    | some limit =>
      cases h
      exact fun _ => .inl
    | none =>
      cases h
      intro d hd
      exact (List.mem_append.mp hd).imp_right List.mem_singleton.mp

variable (hrefused : ∀ failure s, limits.Refuses failure → keeps s → fail failure s)
  (hmove : ∀ left excluded, asks left (union background excluded) → ∀ c ∈ left,
    asks (subtract left [c]) (union background (excluded ++ [c])))
include hrefused hmove

theorem expandAt_stays {b : Branch} (hb : b.Asks asks background) {c : Constraint}
    (hc : c ∈ b.diagnosis) {s : Search} (hs : ∀ d ∈ s.next, d.Asks asks background) :
    Ensures keeps (expandAt e limits start background b s c)
      (fun s' t => (∀ d ∈ s'.next, d.Asks asks background) ∧ keeps t) fail := by
  unfold expandAt
  refine .bind (overtime_ensures hrefused he.readClock start) fun passed => ?_
  cases passed with
  | some limit => exact .pure fun t ht => ⟨hs, ht⟩
  | none =>
    refine .bind (first_stays he (hb c hc)) fun found => .assuming fun hfound => ?_
    refine .orFail (fun s' h t ht => ⟨fun d hd => ?_, ht⟩) fun failure h t ht =>
      hrefused failure t (consider_refuses h) ht
    rcases mem_next_of_consider h d hd with hbefore | rfl
    · exact hs d hbefore
    · exact fun c' hc' => hmove _ _ (hb c hc) c' (hfound hc')

variable (hoverrun : e.Overruns keeps → ∀ s, keeps s → fail .clockOverrun s)
include hoverrun

/-- Only the setting, a bound that is no number and a clock that overruns can make a search fail. -/
theorem search_stays (hfound : Branch.Asks asks background ⟨found, candidates, [], 0⟩) :
    Ensures keeps (search e limits found candidates background) (fun _ => keeps) fail := by
  have hread := Setting.reading he.readClock
  unfold search
  refine .bind hread fun start => .assuming fun hstart => ?_
  -- The invariant of the levels: every branch that waits to be expanded asks questions of the kind only.
  have hlevels : Ensures keeps (levels e limits start background (candidates.length + 2)
      (Search.start found candidates))
      (fun s t => (∀ b ∈ s.next, b.Asks asks background) ∧ keeps t) fail := by
    refine levels_keeps (fun _ hs => hs) (fun _ _ => List.forall_mem_nil _) ?_ _
      (List.forall_mem_singleton.mpr hfound)
    intro b hb c hc s hs
    exact expandAt_stays he hrefused hmove hb hc hs
  refine .bind hlevels fun s => .assuming fun _ => ?_
  split
  · refine .bind hread fun now => .assuming fun hnow => ?_
    split
    · exact .bind (he.note _ trivial) fun _ => .pure fun _ => id
    · next hround =>
      exact .bind (.throw (hoverrun ⟨start, now, hstart, hnow, hround⟩)) fun _ => .pure fun _ => id
  · exact .pure fun _ => id

theorem enumerate_stays (hasks : asks candidates (union background [])) (hfound : found ⊆ candidates) :
    Ensures keeps (enumerate e limits found candidates background) (fun _ => keeps) fail := by
  unfold enumerate
  split
  · exact .pure fun _ => id
  · exact .bind (search_stays he hrefused hmove hoverrun fun c hc => hmove _ _ hasks c (hfound hc))
      fun _ => .pure fun _ => id

end stays

/-! ### Questions that are well posed -/

/-- How a diagnosis is to be asked for. The candidates stand in the order in which all of them are, none
has the number of another one or of a part of the background, and together with the background they are
exactly what is to be explained. What is fixed is in the background. -/
structure Poses (order whole fixed candidates background : List Constraint) : Prop where
  ordered : candidates.Sublist order
  distinct : (ids candidates).Nodup
  apart : ∀ b ∈ background, b.id ∉ ids candidates
  divides : (candidates ++ background).Perm whole
  fixed : fixed ⊆ background

variable {order whole fixed : List Constraint} {c : Constraint}

/-- Taken out and put in front, a candidate leaves nothing else changed. -/
theorem perm_cons_subtract (h : (ids candidates).Nodup) (hc : c ∈ candidates) :
    candidates.Perm (c :: subtract candidates [c]) := by
  obtain ⟨before, after, rfl⟩ := List.append_of_mem hc
  rw [ids_append, ids_cons, List.nodup_middle, List.nodup_cons, ← ids_append] at h
  have hself : c.isIn [c] = true := (isIn_iff c [c]).mpr List.mem_cons_self
  have hhead : subtract (c :: after) [c] = subtract after [c] :=
    List.filter_cons_of_neg (by rw [hself]; exact Bool.false_ne_true)
  have hothers : subtract (before ++ after) [c] = before ++ after := subtract_eq_self fun d hd hi => by
    have hid : d.id = c.id := List.mem_singleton.mp hi
    exact h.1 (hid ▸ id_mem_ids hd)
  rw [append_subtract, hhead, ← append_subtract, hothers]
  exact List.perm_middle

namespace Poses

/-- A question stays well posed when a candidate is moved to the background. -/
theorem move (h : Poses order whole fixed candidates background) (hb : (ids background).Nodup)
    (hc : c ∈ candidates) :
    Poses order whole fixed (subtract candidates [c]) (union background [c]) := by
  have hmoved : union background [c] = background ++ [c] :=
    union_of_nodup (ids_append_singleton_nodup hb fun hi => by
      obtain ⟨b, hmem, hid⟩ := mem_ids.mp hi
      exact h.apart b hmem (hid ▸ id_mem_ids hc))
  refine ⟨subtract_sublist.trans h.ordered, ids_subtract_nodup h.distinct,
    union_apart_subtract h.apart, ?_, ?_⟩
  · rw [hmoved, ← List.append_assoc]
    refine List.Perm.trans ?_ h.divides
    refine (List.perm_append_singleton c _).trans ?_
    exact (perm_cons_subtract h.distinct hc).symm.append_right background
  · rw [hmoved]
    exact List.subset_append_of_subset_left _ h.fixed

theorem moved (left excluded : List Constraint)
    (h : Poses order whole fixed left (union background excluded)) (c : Constraint) (hc : c ∈ left) :
    Poses order whole fixed (subtract left [c]) (union background (excluded ++ [c])) :=
  union_union ▸ h.move ids_union_nodup hc

end Poses

end Diagnosis
end ProductLine
