import ProductLine.Proofs.Diagnosis.Incomparable

/-! # Certain culprits are never lost

The enumeration may miss minimal diagnoses, but not all of those that do without a certain constraint.
If the first diagnosis has the constraint, the search looks for one that keeps it
(`preferredAt_ne_nil`), and whether it accepts what it finds there or has accepted the same before, a
diagnosis without the constraint is accepted (`exists_kept_without`). So what all enumerated diagnoses
have in common is what all minimal diagnoses have in common (`enumerate_certain`). -/

namespace ProductLine
namespace Diagnosis

open Constraint

variable {σ : Type} {e : Setting σ} {keeps : σ → Prop}
variable {candidates background path : List Constraint} {i : Int}

section exact

variable (hc : (ids candidates).Nodup) (hd : ∀ b ∈ background, b.id ∉ ids candidates)
include hc hd

/-- Something is preferred on a path if there is a conflict and a diagnosis off the path. -/
theorem preferredAt_ne_nil (hall : ¬Consistent (union background candidates))
    (hp : IsPath candidates path) {diagnosis : List Constraint}
    (hoff : diagnosis ⊆ subtract candidates path)
    (hdiag : IsDiagnosis candidates background diagnosis) :
    preferredAt candidates background path ≠ [] := by
  unfold preferredAt
  rw [ne_eq, preferred_eq_nil_iff (ids_subtract_nodup hc) (union_apart_subtract hd)]
  rintro (hcons | hnot)
  · have hnone : IsDiagnosis (subtract candidates path) (union background path) [] :=
      ⟨List.nil_subset _, by rw [subtract_nil]; exact hcons⟩
    have hwhole := ((isDiagnosis_off_path_iff hc hd hp (List.nil_subset _)).mp hnone).2
    rw [subtract_nil] at hwhole
    exact hall hwhole
  · have hrest := ((isDiagnosis_off_path_iff hc hd hp hoff).mpr hdiag).2
    rw [union_eq_append (ids_subtract_nodup (ids_subtract_nodup hc))
      (apart_of_subset (union_apart_subtract hd) subtract_subset)] at hrest
    exact hnot (hrest.mono (List.subset_append_left _ _))

/-- If some minimal diagnosis does without a constraint, then one that is preferred on a kept path does:
on the empty path, or on the path of that constraint alone, or on a kept one that prefers the same. -/
theorem exists_kept_without (hall : ¬Consistent (union background candidates))
    (hne : preferredAt candidates background [] ≠ []) {diagnosis : List Constraint}
    (hdiag : IsDiagnosis candidates background diagnosis) (hi : i ∉ ids diagnosis) :
    ∃ path, Kept candidates background path ∧ i ∉ ids (preferredAt candidates background path) := by
  by_contra hnone
  have hkept : ∀ path, Kept candidates background path →
      i ∈ ids (preferredAt candidates background path) := fun path hk =>
    by_contra fun hi => hnone ⟨path, hk, hi⟩
  have hroot : Kept candidates background [] := kept_nil_iff.mpr hne
  obtain ⟨c, hmem, rfl⟩ := mem_ids.mp (hkept [] hroot)
  have hmoved : c.id ∉ ids (preferredAt candidates background ([] ++ [c])) := by
    intro h
    obtain ⟨d, hdmem, hid⟩ := mem_ids.mp h
    exact id_not_mem_path hdmem (hid ▸ List.mem_cons_self)
  have hoff : diagnosis ⊆ subtract candidates ([] ++ [c]) := by
    intro d hdmem
    refine mem_subtract.mpr ⟨hdiag.1 hdmem, fun hid => hi ?_⟩
    have hsame : d.id = c.id := List.mem_singleton.mp hid
    exact hsame ▸ id_mem_ids hdmem
  -- nothing that is kept prefers what is preferred on the path of the constraint, so that path is kept
  refine hmoved (hkept _ (kept_append_iff.mpr ⟨?_, ⟨hroot, hmem⟩, ?_⟩))
  · exact preferredAt_ne_nil hc hd hall (IsPath.nil.append hmem) hoff hdiag
  · intro other _ hother hsame
    exact hmoved (hsame ▸ hkept other hother)

omit hd in
/-- A minimal diagnosis that has all constraints of another one is that one. -/
theorem IsMinimal.ids_iff {diagnosis other : List Constraint}
    (h : IsMinimal candidates background diagnosis) (ho : IsMinimal candidates background other)
    (hsub : ids diagnosis ⊆ ids other) : i ∈ ids other ↔ i ∈ ids diagnosis := by
  have hpart : diagnosis ⊆ other := fun d hdmem =>
    mem_of_id_mem hc ho.1.1 (h.1.1 hdmem) (hsub (id_mem_ids hdmem))
  exact ⟨fun hi => List.map_subset _ (ho.2 _ hpart h.1) hi, fun hi => hsub hi⟩

omit hd in
/-- Some minimal diagnoses, apart from each other, that have in common what all of them have are a
single one exactly if there is only one. -/
theorem exists_eq_singleton_iff {found : List (List Constraint)} (hne : found ≠ [])
    (hminimal : ∀ d ∈ found, IsMinimal candidates background d) (hapart : found.Pairwise Apart)
    (hcommon : ∀ i, (∀ d ∈ found, i ∈ ids d) → ∀ d, IsMinimal candidates background d → i ∈ ids d) :
    (∃ d, found = [d]) ↔ ∃ d, IsMinimal candidates background d ∧
      ∀ d', IsMinimal candidates background d' → ∀ i, i ∈ ids d' ↔ i ∈ ids d := by
  constructor
  · rintro ⟨d, rfl⟩
    have hd := List.forall_mem_singleton.mp hminimal
    refine ⟨d, hd, fun d' hd' i => hd.ids_iff hc hd' fun j hj => ?_⟩
    exact hcommon j (List.forall_mem_singleton.mpr hj) d' hd'
  · rintro ⟨d, -, hunique⟩
    match found with
    | [] => exact absurd rfl hne
    | [d₁] => exact ⟨d₁, rfl⟩
    | d₁ :: d₂ :: rest =>
      obtain ⟨hd₁, hrest⟩ := List.forall_mem_cons.mp hminimal
      have hd₂ := hrest d₂ List.mem_cons_self
      have hpart : ids d₁ ⊆ ids d₂ := fun i hi => (hunique d₂ hd₂ i).mpr ((hunique d₁ hd₁ i).mp hi)
      exact absurd hpart ((List.pairwise_cons.mp hapart).1 d₂ List.mem_cons_self).1

variable (he : e.Exact keeps (background ++ candidates))
include he

/-- **Certain culprits are never lost.** With exact answers and without limits, the enumeration of the
diagnoses of a conflict over a background that can hold returns, and what is common to the enumerated
diagnoses is what is common to all minimal ones, though some of these may be missing. In particular a
single diagnosis is enumerated exactly if there is only one minimal diagnosis. -/
theorem enumerate_certain
    (hclock : ∀ x y, e.Reads keeps x → e.Reads keeps y → (Binary64.roundInt? (y - x)).isSome)
    (hb : Consistent (union background [])) (hall : ¬Consistent (union background candidates))
    {s : σ} (hs : keeps s) :
    ∃ found t all u, first e candidates background s = .ok found t ∧
      enumerate e Limits.none found candidates background t = .ok all u ∧ all.stopped = none ∧
      (∀ i, (∀ d ∈ all.diagnoses, i ∈ ids d) ↔
        ∀ d, IsMinimal candidates background d → i ∈ ids d) ∧
      ((∃ d, all.diagnoses = [d]) ↔ ∃ d, IsMinimal candidates background d ∧
        ∀ d', IsMinimal candidates background d' → ∀ i, i ∈ ids d' ↔ i ∈ ids d) := by
  have hne : preferred candidates background ≠ [] := by
    rw [ne_eq, preferred_eq_nil_iff hc hd]
    exact fun h => h.elim hall fun k => k hb
  obtain ⟨found, t, hfirst, rfl, ht⟩ := (first_exact he hc hd (List.Subset.refl _)).returns hs
  obtain ⟨all, u, hrun, ⟨hstop, hmem⟩, -⟩ := (enumerate_exact hc hd he hclock hne).returns ht
  obtain ⟨hhead, hminimal, hapart⟩ :=
    (enumerate_spread hc hd he Limits.none).of_eq_ok ⟨List.forall_mem_nil _, ht⟩ hrun
  have hcommon : ∀ i, (∀ d ∈ all.diagnoses, i ∈ ids d) →
      ∀ d, IsMinimal candidates background d → i ∈ ids d := by
    intro i h d hdmin
    by_contra hi
    obtain ⟨path, hk, hpath⟩ := exists_kept_without hc hd hall (preferredAt_nil ▸ hne) hdmin.1 hi
    exact hpath (h _ ((hmem _).mpr ⟨path, hk, rfl⟩))
  have hfound : all.diagnoses ≠ [] := by
    intro hnil
    rw [hnil, List.isEmpty_eq_false_iff.mpr hne] at hhead
    cases hhead
  exact ⟨_, t, all, u, hfirst, hrun, hstop,
    fun i => ⟨hcommon i, fun h d hdmem => h d (hminimal d hdmem)⟩,
    exists_eq_singleton_iff hc hfound hminimal hapart hcommon⟩

end exact

/-- The crossed constraints and one that can never hold. -/
def spoiled : List Constraint :=
  ⟨5, .and (.var "w") (.not (.var "w")), .assignment, none⟩ :: crossed

/-- One of the minimal diagnoses of the spoiled constraints is missed, but not that all of them have the
constraint that can never hold. -/
theorem enumerate_certain_spoiled :
    (ids spoiled).Nodup ∧ Consistent (union [] []) ∧ ¬Consistent (union [] spoiled) ∧
      ∃ found t all u, first Setting.truthful spoiled [] () = .ok found t ∧
        enumerate Setting.truthful Limits.none found spoiled [] t = .ok all u ∧
        all.diagnoses.map ids = [[3, 1, 5], [4, 2, 5]] ∧
        (∀ d, IsMinimal spoiled [] d → 5 ∈ ids d) ∧
        ¬∃ d, IsMinimal spoiled [] d ∧
          ∀ d', IsMinimal spoiled [] d' → ∀ i, i ∈ ids d' ↔ i ∈ ids d := by
  have hnodup : (ids spoiled).Nodup := by decide
  have hnone : Consistent (union [] []) := by
    rw [consistent_iff]
    decide
  have hall : ¬Consistent (union [] spoiled) := by
    rw [consistent_iff]
    decide
  obtain ⟨found, t, all, u, hfirst, hrun, -, hcommon, hsingle⟩ := enumerate_certain hnodup
    (List.forall_mem_nil _) (Setting.truthful_exact ([] ++ spoiled)) Setting.truthful_clock hnone hall
    trivial
  have hids : (match first Setting.truthful spoiled [] () with
      | .ok found t =>
        match enumerate Setting.truthful Limits.none found spoiled [] t with
        | .ok all _ => all.diagnoses.map ids == [[3, 1, 5], [4, 2, 5]]
        | .error _ _ => false
      | .error _ _ => false) = true := by decide +kernel
  rw [hfirst] at hids
  dsimp only at hids
  rw [hrun] at hids
  have hfound := eq_of_beq hids
  refine ⟨hnodup, hnone, hall, found, t, all, u, hfirst, hrun, hfound, (hcommon 5).mp ?_, ?_⟩
  · intro d hd
    have hd : ids d ∈ [[3, 1, 5], [4, 2, 5]] := hfound ▸ List.mem_map_of_mem hd
    rcases List.mem_cons.mp hd with h | h
    · exact h ▸ by decide
    · exact List.mem_singleton.mp h ▸ by decide
  · rw [← hsingle]
    rintro ⟨d, hd⟩
    rw [hd] at hfound
    have hlength := congrArg List.length hfound
    rw [List.map_singleton, List.length_singleton] at hlength
    exact absurd hlength (by decide)

end Diagnosis
end ProductLine
