import ProductLine.Proofs.Diagnosis.Posed
import ProductLine.Workbench.Token

/-! # The search without limits

Whatever the checks answer, rightly or not, a search without limits goes level by level, so that the
accepted branches stand in the order of their depths (`Search.Ranked`), and it ends because nothing is
left to expand: a diagnosis comes from the candidates of its branch, of which each level takes one away
(`levels_ranked`). -/

namespace ProductLine
namespace Diagnosis

open Constraint

variable {σ : Type} {e : Setting σ} {keeps : σ → Prop} {fail : Failure → σ → Prop}
  {candidates background : List Constraint} {limits : Limits} {start : Int}

/-- Whatever is done in the setting, a property of the states is kept; the notes that tell of checks are
left to the checks. Nothing is asked of the answers. -/
structure Setting.Stable (e : Setting σ) (keeps : σ → Prop) (fail : Failure → σ → Prop) : Prop where
  isConsistent : ∀ cs, Ensures keeps (e.isConsistent cs) (fun _ => keeps) fail
  note : ∀ n, n.outcome? = none → Ensures keeps (e.note n) (fun _ => keeps) fail
  readClock : Ensures keeps e.readClock (fun _ => keeps) fail

theorem stable_true (e : Setting σ) : e.Stable (fun _ => True) fun _ _ => True where
  isConsistent _ := .nothing
  note _ _ := .nothing
  readClock := .nothing

section stable

variable (he : e.Stable keeps fail)
include he

/-- None of the notes of a search tells of a check, whatever the search asks for. -/
theorem Setting.Stable.stays : e.Stays (fun _ _ => True) keeps fail where
  isConsistent := he.isConsistent
  note n hn := he.note n (by cases n <;> first | rfl | exact hn.elim)
  readClock := he.readClock

theorem first_stable (candidates background : List Constraint) :
    Ensures keeps (first e candidates background) (fun found s => found ⊆ candidates ∧ keeps s)
      fail := first_stays he.stays trivial

/-! ### What was accepted stays accepted -/

omit he in
theorem consider_grows {s s' : Search} {b : Branch} (h : consider limits s b = .ok s') :
    s.accepted <+: s'.accepted := by
  unfold consider at h
  split at h
  · cases h
    exact List.prefix_rfl
  · obtain ⟨stop, -, h⟩ := Outcome.bind_eq_ok_iff.mp h
    cases stop with
    | some limit =>
      cases h
      exact List.prefix_rfl
    | none =>
      cases h
      exact List.prefix_append _ _

variable (hrefused : ∀ failure s, limits.Refuses failure → keeps s → fail failure s)
include hrefused

theorem expandAt_grows {accepted : List Branch} {s : Search} (hs : accepted <+: s.accepted)
    (b : Branch) (c : Constraint) :
    Ensures keeps (expandAt e limits start background b s c)
      (fun s' t => accepted <+: s'.accepted ∧ keeps t) fail := by
  unfold expandAt
  refine .bind (overtime_ensures hrefused he.readClock start) fun passed => ?_
  cases passed with
  | some limit => exact .pure fun t ht => ⟨hs, ht⟩
  | none =>
    refine .bind (first_stable he _ _) fun found => .assuming fun _ => ?_
    refine .orFail (fun s' h t ht => ⟨hs.trans (consider_grows h), ht⟩) fun failure h t ht => ?_
    exact hrefused failure t (consider_refuses h) ht

theorem expand_grows {accepted : List Branch} {s : Search} (hs : accepted <+: s.accepted)
    (b : Branch) :
    Ensures keeps (expand e limits start background s b)
      (fun s' t => accepted <+: s'.accepted ∧ keeps t) fail :=
  foldlM_unlessStopped_keeps (I := fun s => accepted <+: s.accepted) hs
    fun c _ _ hs => expandAt_grows he hrefused hs b c

theorem levels_grows {accepted : List Branch} (fuel : Nat) {s : Search}
    (hs : accepted <+: s.accepted) :
    Ensures keeps (levels e limits start background fuel s)
      (fun s' t => accepted <+: s'.accepted ∧ keeps t) fail :=
  levels_keeps (I := fun s => accepted <+: s.accepted) (fun _ _ _ _ => trivial) (fun _ => id)
    (fun b _ c _ _ hs => expandAt_grows he hrefused hs b c) fuel hs

end stable

/-! ### Levels -/

/-- The branch has something to expand, taken from its candidates, of which every level below the first
took one. -/
structure Branch.Shrunk (total : Nat) (b : Branch) : Prop where
  ne_nil : b.diagnosis ≠ []
  subset : 0 < b.depth → b.diagnosis ⊆ b.candidates
  length_le : b.candidates.length + (b.depth - 1) ≤ total

/-- The accepted branches stand in the order of their depths, and those to be expanded next are the ones
of a level. -/
structure Search.Ranked (total level : Nat) (s : Search) : Prop where
  going : s.stopped = none
  sorted : s.accepted.Pairwise (·.depth ≤ ·.depth)
  depth_le : ∀ b ∈ s.accepted, b.depth ≤ level
  next : ∀ b ∈ s.next, b.depth = level ∧ b.Shrunk total

namespace Search.Ranked

variable {total level : Nat} {s : Search} {b : Branch}

theorem initial (h : candidates.length ≤ total) {found : List Constraint} (hfound : found ≠ []) :
    (Search.start found candidates).Ranked total 0 := by
  refine ⟨rfl, List.pairwise_singleton _ _, ?_, ?_⟩
  · exact List.forall_mem_singleton.mpr (Nat.le_refl _)
  · exact List.forall_mem_singleton.mpr ⟨rfl, hfound, fun h => absurd h (Nat.lt_irrefl _), h⟩

theorem clear (h : s.Ranked total level) :
    Search.Ranked total (level + 1) { s with next := [] } :=
  ⟨h.going, h.sorted, fun b hb => Nat.le_succ_of_le (h.depth_le b hb), List.forall_mem_nil _⟩

theorem accept (h : s.Ranked total level) (hdepth : b.depth = level) (hb : b.Shrunk total) :
    (s.accept b).Ranked total level := by
  refine ⟨h.going, ?_, ?_, ?_⟩
  · refine List.pairwise_append.mpr ⟨h.sorted, List.pairwise_singleton _ _, ?_⟩
    intro a ha d hd
    rw [List.mem_singleton.mp hd, hdepth]
    exact h.depth_le a ha
  · refine List.forall_mem_append.mpr ⟨h.depth_le, List.forall_mem_singleton.mpr ?_⟩
    exact hdepth.le
  · exact List.forall_mem_append.mpr ⟨h.next, List.forall_mem_singleton.mpr ⟨hdepth, hb⟩⟩

/-- There are no more levels than candidates, and one more. -/
theorem next_eq_nil (h : s.Ranked total level) (hlevel : total < level) : s.next = [] := by
  refine List.eq_nil_iff_forall_not_mem.mpr fun b hb => ?_
  obtain ⟨hdepth, hshrunk⟩ := h.next b hb
  have hlength := hshrunk.length_le
  have hpos : 0 < b.depth := by omega
  obtain ⟨c, hc⟩ := List.exists_mem_of_ne_nil _ hshrunk.ne_nil
  have hone : 0 < b.candidates.length := List.length_pos_of_mem (hshrunk.subset hpos hc)
  omega

end Search.Ranked

variable {total level : Nat}

theorem shrunk_child {b : Branch} (hb : b.Shrunk total) {c : Constraint} (hc : c ∈ b.diagnosis)
    {found : List Constraint} (hne : found ≠ []) (hfound : found ⊆ subtract b.candidates [c]) :
    Branch.Shrunk total
      ⟨found, subtract b.candidates [c], b.excluded ++ [c], b.depth + 1⟩ := by
  refine ⟨hne, fun _ => hfound, ?_⟩
  have hle := hb.length_le
  show (subtract b.candidates [c]).length + b.depth ≤ total
  rcases Nat.eq_zero_or_pos b.depth with hzero | hpos
  · have hsub : (subtract b.candidates [c]).length ≤ b.candidates.length :=
      subtract_sublist.length_le
    omega
  · have hless : (subtract b.candidates [c]).length < b.candidates.length := by
      refine lt_of_le_of_ne subtract_sublist.length_le fun h => ?_
      have hsame : subtract b.candidates [c] = b.candidates := subtract_sublist.eq_of_length h
      have hin := hb.subset hpos hc
      rw [← hsame] at hin
      exact (mem_subtract.mp hin).2 List.mem_cons_self
    omega

variable (he : e.Stable keeps fail)
include he

theorem expandAt_ranked {s : Search} (hs : s.Ranked total (level + 1)) {b : Branch}
    (hdepth : b.depth = level) (hb : b.Shrunk total) {c : Constraint} (hc : c ∈ b.diagnosis) :
    Ensures keeps (expandAt e Limits.none start background b s c)
      (fun s' t => s'.Ranked total (level + 1) ∧ keeps t) fail := by
  have htime : overtime e Limits.none start = pure none := rfl
  unfold expandAt
  rw [htime, pure_bind]
  refine .bind (first_stable he _ _) fun found => .assuming fun hfound => ?_
  rw [consider_none]
  refine .pure fun t ht => ⟨?_, ht⟩
  split
  · exact hs
  · next hnew =>
    have hne : found ≠ [] := fun hnil => hnew (by rw [hnil]; rfl)
    exact hs.accept (congrArg (· + 1) hdepth) (shrunk_child hb hc hne hfound)

theorem levels_ranked (fuel level : Nat) (hfuel : total < level + fuel) {s : Search}
    (hs : s.Ranked total level) :
    Ensures keeps (levels e Limits.none start background fuel s)
      (fun s' t => (s'.next = [] ∧ s'.stopped = none ∧
        s'.accepted.Pairwise (·.depth ≤ ·.depth)) ∧ keeps t) fail := by
  induction fuel generalizing level s with
  | zero => exact .pure fun t ht => ⟨⟨hs.next_eq_nil hfuel, hs.going, hs.sorted⟩, ht⟩
  | succ fuel ih =>
    have hlevel : Ensures keeps
        (s.next.foldlM (unlessStopped (expand e Limits.none start background)) { s with next := [] })
        (fun s' t => s'.Ranked total (level + 1) ∧ keeps t) fail := by
      refine foldlM_unlessStopped_keeps hs.clear fun b hb t ht => ?_
      obtain ⟨hdepth, hshrunk⟩ := hs.next b hb
      exact foldlM_unlessStopped_keeps ht fun c hc u hu => expandAt_ranked he hu hdepth hshrunk hc
    unfold levels
    refine .bind hlevel fun s' => .assuming fun hs' => ?_
    split
    · next hend =>
      rw [hs'.going, Option.isSome_none, Bool.false_or, List.isEmpty_iff] at hend
      exact .pure fun t ht => ⟨⟨hend, hs'.going, hs'.sorted⟩, ht⟩
    · exact ih (level + 1) (by omega) hs'

end Diagnosis
end ProductLine
