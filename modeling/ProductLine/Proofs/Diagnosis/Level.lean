import ProductLine.Proofs.Diagnosis.Path

/-! # Kept paths level by level

The kept paths of one length, in order, are those among the extensions of the kept paths that are one
shorter (`level`). The extensions themselves stand in order (`pairwise_extensions`), so that a path
among them is kept exactly if nothing that is kept and stands before it prefers the same diagnosis
(`kept_iff_of_extensions`). -/

namespace ProductLine
namespace Diagnosis

open Constraint
open scoped Classical

variable (candidates background : List Constraint)

/-- The paths extended by every constraint of the diagnosis preferred on them. -/
def extensions (paths : List (List Constraint)) : List (List Constraint) :=
  paths.flatMap fun path => (preferredAt candidates background path).map (path ++ [·])

/-- The kept ones of paths. -/
noncomputable def keptOf (paths : List (List Constraint)) : List (List Constraint) :=
  paths.filter fun path => decide (Kept candidates background path)

/-- The kept paths of a length, in order. -/
noncomputable def level : Nat → List (List Constraint)
  | 0 => keptOf candidates background [[]]
  | n + 1 => keptOf candidates background (extensions candidates background (level n))

/-- The kept paths up to a length, in order. -/
noncomputable def upTo (n : Nat) : List (List Constraint) :=
  (List.range (n + 1)).flatMap (level candidates background)

variable {candidates background} {path : List Constraint} {paths : List (List Constraint)}

theorem mem_keptOf : path ∈ keptOf candidates background paths ↔
    path ∈ paths ∧ Kept candidates background path := by
  unfold keptOf
  rw [List.mem_filter, decide_eq_true_eq]

theorem keptOf_append {others : List (List Constraint)} :
    keptOf candidates background (paths ++ others) =
      keptOf candidates background paths ++ keptOf candidates background others :=
  List.filter_append _ _

theorem keptOf_singleton : keptOf candidates background [path] =
    if Kept candidates background path then [path] else [] := by
  unfold keptOf
  rw [List.filter_singleton]
  by_cases h : Kept candidates background path
  · rw [if_pos h, decide_eq_true h]
    rfl
  · rw [if_neg h, decide_eq_false h]
    rfl

theorem mem_extensions : path ∈ extensions candidates background paths ↔
    ∃ base ∈ paths, ∃ c ∈ preferredAt candidates background base, base ++ [c] = path := by
  unfold extensions
  simp only [List.mem_flatMap, List.mem_map]

theorem mem_level {n : Nat} : path ∈ level candidates background n ↔
    Kept candidates background path ∧ path.length = n := by
  induction n generalizing path with
  | zero =>
    unfold level
    rw [mem_keptOf, List.mem_singleton, List.length_eq_zero_iff]
    exact and_comm
  | succ n ih =>
    unfold level
    rw [mem_keptOf, mem_extensions]
    constructor
    · rintro ⟨⟨base, hbase, c, -, rfl⟩, hk⟩
      refine ⟨hk, ?_⟩
      rw [List.length_append, List.length_singleton, (ih.mp hbase).2]
    · rintro ⟨hk, hlen⟩
      refine ⟨?_, hk⟩
      rcases List.eq_nil_or_concat path with rfl | ⟨base, c, rfl⟩
      · exact absurd hlen (Nat.succ_ne_zero n).symm
      · rw [List.concat_eq_append] at hk hlen ⊢
        obtain ⟨-, ⟨hbase, hc⟩, -⟩ := kept_append_iff.mp hk
        rw [List.length_append, List.length_singleton] at hlen
        exact ⟨base, ih.mpr ⟨hbase, by omega⟩, c, hc, rfl⟩

theorem mem_upTo {n : Nat} : path ∈ upTo candidates background n ↔
    Kept candidates background path ∧ path.length ≤ n := by
  unfold upTo
  rw [List.mem_flatMap]
  constructor
  · rintro ⟨k, hk, h⟩
    rw [List.mem_range] at hk
    obtain ⟨hkept, hlen⟩ := mem_level.mp h
    exact ⟨hkept, by omega⟩
  · rintro ⟨hkept, hlen⟩
    exact ⟨path.length, List.mem_range.mpr (by omega), mem_level.mpr ⟨hkept, rfl⟩⟩

theorem upTo_succ (n : Nat) : upTo candidates background (n + 1) =
    upTo candidates background n ++ level candidates background (n + 1) := by
  unfold upTo
  rw [List.range_succ, List.flatMap_append, List.flatMap_singleton]

/-! ### Order -/

theorem lex_append {α : Type} {r : α → α → Prop} {l m : List α} {a b : List α}
    (hl : l.length = m.length) (h : List.Lex r l m) : List.Lex r (l ++ a) (m ++ b) := by
  induction h with
  | nil => exact absurd hl (Nat.succ_ne_zero _).symm
  | rel hab => exact List.Lex.rel hab
  | cons _ ih => exact List.Lex.cons (ih (Nat.succ.inj hl))

/-- Extensions of paths of one length that stand in order stand in order. -/
theorem pairwise_extensions {n : Nat} (hc : (ids candidates).Nodup)
    (hlen : ∀ path ∈ paths, path.length = n) (h : paths.Pairwise (Before candidates)) :
    (extensions candidates background paths).Pairwise (Before candidates) := by
  unfold extensions
  rw [List.pairwise_flatMap]
  constructor
  · intro base _
    rw [List.pairwise_map]
    refine (pairwise_preferredAt hc).imp ?_
    intro c d hcd
    exact List.Shortlex.append_left ((List.shortlex_singleton_iff c d).mpr hcd) base
  · refine h.imp_of_mem ?_
    intro base other hb ho hbo x hx y hy
    obtain ⟨c, -, rfl⟩ := List.mem_map.mp hx
    obtain ⟨d, -, rfl⟩ := List.mem_map.mp hy
    have hl : base.length = other.length := (hlen base hb).trans (hlen other ho).symm
    refine List.Shortlex.of_lex (by simp only [List.length_append, List.length_singleton, hl]) ?_
    exact lex_append hl ((List.shortlex_iff_lex hl).mp hbo)

theorem pairwise_level (hc : (ids candidates).Nodup) (n : Nat) :
    (level candidates background n).Pairwise (Before candidates) := by
  induction n with
  | zero =>
    unfold level keptOf
    exact (List.pairwise_singleton _ _).filter _
  | succ n ih =>
    unfold level keptOf
    exact (pairwise_extensions hc (fun _ h => (mem_level.mp h).2) ih).filter _

/-- An extension of a level is kept if nothing kept that stands before it prefers the same. -/
theorem kept_iff_of_extensions {n : Nat} {earlier later : List (List Constraint)}
    (hc : (ids candidates).Nodup)
    (h : extensions candidates background (level candidates background n) =
      earlier ++ path :: later) :
    Kept candidates background path ↔ preferredAt candidates background path ≠ [] ∧
      ∀ other ∈ upTo candidates background n ++ keptOf candidates background earlier,
        preferredAt candidates background other ≠ preferredAt candidates background path := by
  have hmem : path ∈ extensions candidates background (level candidates background n) := by
    rw [h]
    exact List.mem_append_right _ List.mem_cons_self
  have hsorted : (extensions candidates background
      (level candidates background n)).Pairwise (Before candidates) :=
    pairwise_extensions hc (fun _ h => (mem_level.mp h).2) (pairwise_level hc n)
  rw [h, List.pairwise_append, List.pairwise_cons] at hsorted
  obtain ⟨-, ⟨hlater, -⟩, hearlier⟩ := hsorted
  obtain ⟨base, hbase, c, hcm, rfl⟩ := mem_extensions.mp hmem
  obtain ⟨hkept, hlen⟩ := mem_level.mp hbase
  rw [kept_append_iff]
  refine and_congr_right fun _ => ⟨?_, fun hk => ⟨⟨hkept, hcm⟩, ?_⟩⟩
  · intro hk other ho
    rcases List.mem_append.mp ho with ho | ho
    · obtain ⟨hok, hol⟩ := mem_upTo.mp ho
      refine hk.2 other (List.Shortlex.of_length_lt ?_) hok
      rw [List.length_append, List.length_singleton]
      omega
    · obtain ⟨hoe, hok⟩ := mem_keptOf.mp ho
      exact hk.2 other (hearlier other hoe _ List.mem_cons_self) hok
  · -- what stands before the path is no longer: it is of a level before, or extended earlier
    intro other hbefore hok
    refine hk other (List.mem_append.mpr ?_)
    have hl : other.length ≤ n + 1 := by
      rcases List.shortlex_def.mp hbefore with hl | ⟨hl, -⟩
      · rw [List.length_append, List.length_singleton] at hl
        omega
      · rw [List.length_append, List.length_singleton] at hl
        omega
    rcases Nat.lt_or_ge n other.length with hlt | hge
    · refine .inr (mem_keptOf.mpr ⟨?_, hok⟩)
      have hnext : other ∈ level candidates background (n + 1) :=
        mem_level.mpr ⟨hok, by omega⟩
      have hext := (mem_keptOf.mp hnext).1
      rw [h, List.mem_append, List.mem_cons] at hext
      rcases hext with hext | rfl | hext
      · exact hext
      · exact absurd hbefore (Std.Asymm.asymm _ _ hbefore)
      · exact absurd hbefore (Std.Asymm.asymm _ _ (hlater other hext))
    · exact .inl (mem_upTo.mpr ⟨hok, hge⟩)

end Diagnosis
end ProductLine
