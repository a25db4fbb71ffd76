import ProductLine.Proofs.Diagnosis.First

/-! # The diagnosis that the order of the candidates prefers

The search cuts the candidates into halves, decides whole halves with one check and leaves checks
out. What it returns is nevertheless what the scan of single candidates puts aside, in the order of
the scan (`first_greedy`). The scan gives up a candidate only where it must, so what it puts aside
is preferred to every other diagnosis: of all the candidates on which the two differ, the one that
was scanned first is given up by the other diagnosis (`Prefers`). -/

namespace ProductLine
namespace Diagnosis

open Constraint

variable {σ : Type} {e : Setting σ} {keeps : σ → Prop}
variable {candidates background cs possible part other : List Constraint} {c : Constraint}

/-- At the last candidate on which the two parts differ, it is the second part that has it. -/
def Prefers (candidates part other : List Constraint) : Prop :=
  ∃ earlier c later, candidates = earlier ++ c :: later ∧ c ∉ part ∧ c ∈ other ∧
    ∀ d ∈ later, d ∈ part ↔ d ∈ other

/-! ### Choices along a scan -/

/-- Where two choices along a scan first differ, if they do, the second one gives up what the first
one keeps. -/
def Keeping (part other : List Constraint) : List Constraint → Prop
  | [] => True
  | c :: cs => (c ∉ part ∧ c ∈ other) ∨ (c ∈ part ↔ c ∈ other) ∧ Keeping part other cs

theorem keeping_cons_self (hc : c ∉ cs) (h : Keeping part other cs) :
    Keeping (c :: part) other cs := by
  induction cs with
  | nil => trivial
  | cons d cs ih =>
    have hd : d ∈ c :: part ↔ d ∈ part :=
      List.mem_cons.trans (or_iff_right fun hdc => hc (hdc ▸ List.mem_cons_self))
    unfold Keeping
    rw [hd]
    exact h.imp id fun h => ⟨h.1, ih (fun k => hc (List.mem_cons_of_mem d k)) h.2⟩

/-- Either the choices are the same or they split the scan where they first differ. -/
theorem Keeping.split (h : Keeping part other cs) : (∀ c ∈ cs, c ∈ part ↔ c ∈ other) ∨
    ∃ before c after, cs = before ++ c :: after ∧ c ∉ part ∧ c ∈ other ∧
      ∀ d ∈ before, d ∈ part ↔ d ∈ other := by
  induction cs with
  | nil => exact .inl (List.forall_mem_nil _)
  | cons c cs ih =>
    rcases h with ⟨hc, hc'⟩ | ⟨hc, h⟩
    · exact .inr ⟨[], c, cs, rfl, hc, hc', List.forall_mem_nil _⟩
    · rcases ih h with hcs | ⟨before, d, after, rfl, hd, hd', hbefore⟩
      · exact .inl (List.forall_mem_cons.mpr ⟨hc, hcs⟩)
      · exact .inr ⟨c :: before, d, after, rfl, hd, hd', List.forall_mem_cons.mpr ⟨hc, hbefore⟩⟩

/-- A scan keeps what it can: if what another choice keeps can hold together with the background,
the scan is not the first to give something up. -/
theorem keeping_scan (hnd : cs.Nodup) (hp : Consistent possible) (hb : background ⊆ possible)
    (hcs : ∀ c ∈ cs, c ∉ other → c ∈ possible) : Keeping (scan background cs).2 other cs := by
  induction cs generalizing background with
  | nil => trivial
  | cons c cs ih =>
    obtain ⟨hc, hnd⟩ := List.nodup_cons.mp hnd
    have hrest : ∀ d ∈ cs, d ∉ other → d ∈ possible := fun d hd => hcs d (List.mem_cons_of_mem c hd)
    have hextend : c ∉ other → background ++ [c] ⊆ possible := fun ho =>
      List.append_subset.mpr ⟨hb, List.cons_subset.mpr
        ⟨hcs c List.mem_cons_self ho, List.nil_subset _⟩⟩
    by_cases h : Consistent (background ++ [c])
    · rw [scan_cons_of_consistent h]
      have hkept : c ∉ (scan (background ++ [c]) cs).2 := fun k => hc (aside_sublist.subset k)
      by_cases ho : c ∈ other
      · exact .inl ⟨hkept, ho⟩
      · exact .inr ⟨iff_of_false hkept ho, ih hnd (hextend ho) hrest⟩
    · rw [scan_cons_of_not_consistent h]
      have ho : c ∈ other := by
        by_contra ho
        exact h (hp.mono (hextend ho))
      exact .inr ⟨iff_of_true List.mem_cons_self ho, keeping_cons_self hc (ih hnd hb hrest)⟩

/-- The greedy diagnosis is preferred to every diagnosis that has not the same constraints. -/
theorem prefers_greedy (hc : (ids candidates).Nodup)
    (hd : ∀ b ∈ background, b.id ∉ ids candidates)
    (ho : IsDiagnosis candidates background other) :
    (∀ c, c ∈ greedy candidates (union background []) ↔ c ∈ other) ∨
      Prefers candidates (greedy candidates (union background [])) other := by
  have hcons : Consistent (union background [] ++ subtract candidates other) := by
    rw [← union_eq_append (ids_subtract_nodup hc) (apart_of_subset hd subtract_subset)]
    exact ho.2
  have hkeeping : Keeping (greedy candidates (union background [])) other candidates.reverse := by
    refine keeping_scan (List.nodup_reverse.mpr (List.Nodup.of_map _ hc)) hcons
      (List.subset_append_left _ _) fun c hmem hno => List.mem_append_right _ ?_
    exact (mem_subtract_of_subset hc ho.1).mpr ⟨List.mem_reverse.mp hmem, hno⟩
  rcases hkeeping.split with h | ⟨before, c, after, heq, hpart, hother, hbefore⟩
  · refine .inl fun c => ⟨fun k => ?_, fun k => ?_⟩
    · exact (h c (List.mem_reverse.mpr (greedy_subset k))).mp k
    · exact (h c (List.mem_reverse.mpr (ho.1 k))).mpr k
  · refine .inr ⟨after.reverse, c, before.reverse, ?_, hpart, hother, fun d hmem =>
      hbefore d (List.mem_reverse.mp hmem)⟩
    rw [← List.reverse_reverse candidates, heq, List.reverse_append, List.reverse_cons,
      List.append_assoc, List.singleton_append]

/-! ### What the search returns -/

/-- **The search is the greedy scan.** With exact answers, and a background that can hold, divide
and conquer returns what a scan of the candidates from the last to the first puts aside: a
constraint is kept if it can hold together with the background and all that has been kept, and it is
appended to the diagnosis otherwise. So the diagnosis is listed in the reverse order of the
candidates, it is a minimal one, and every other diagnosis gives up an earlier scanned candidate. -/
theorem first_greedy (he : e.Exact keeps (background ++ candidates))
    (hc : (ids candidates).Nodup) (hd : ∀ b ∈ background, b.id ∉ ids candidates)
    (hb : Consistent (union background [])) {s : σ} (hs : keeps s) :
    ∃ found t, first e candidates background s = .ok found t ∧
      found = greedy candidates (union background []) ∧
      found.Sublist candidates.reverse ∧ IsMinimal candidates background found ∧
      ∀ other, IsDiagnosis candidates background other →
        (∀ c, c ∈ found ↔ c ∈ other) ∨ Prefers candidates found other := by
  obtain ⟨found, t, hrun, rfl, -⟩ := (first_exact he hc hd (List.Subset.refl _)).returns hs
  refine ⟨_, t, hrun, preferred_of_consistent hb, preferred_sublist,
    isMinimal_preferred hc hd hb, fun other ho => ?_⟩
  rw [preferred_of_consistent hb]
  exact prefers_greedy hc hd ho

/-- The second of the crossed constraints can be kept if the third is given up, but the third is
scanned first. -/
theorem first_greedy_crossed : ¬Consistent (union [] crossed) ∧ Consistent (union [] []) ∧
    ∃ found t, first Setting.truthful crossed [] () = .ok found t ∧ ids found = [3, 1] := by
  have hnone : Consistent (union [] []) := by
    rw [consistent_iff]
    decide
  refine ⟨by rw [consistent_iff]; decide, hnone, ?_⟩
  obtain ⟨found, t, hrun, rfl, -⟩ := first_greedy (Setting.truthful_exact ([] ++ crossed))
    (by decide) (List.forall_mem_nil _) hnone trivial
  exact ⟨_, t, hrun, by decide⟩

end Diagnosis
end ProductLine
