import Mathlib.Data.List.Nodup
import ProductLine.Constraint.Basic

/-! # Sets of constraints

Lists of constraints stand for sets of numbers. As long as no number repeats, `Constraint.post` and
`Constraint.union` append and `Constraint.subtract` is the difference; a repeated number counts at
its first place only. -/

namespace ProductLine
namespace Constraint

variable {cs ds added removed : List Constraint} {c d : Constraint}

theorem mem_ids {i : Int} : i ∈ ids cs ↔ ∃ c ∈ cs, c.id = i := List.mem_map

theorem id_mem_ids (h : c ∈ cs) : c.id ∈ ids cs := List.mem_map_of_mem h

@[simp] theorem ids_append : ids (cs ++ ds) = ids cs ++ ids ds := List.map_append

@[simp] theorem ids_nil : ids [] = [] := rfl

@[simp] theorem ids_cons : ids (c :: cs) = c.id :: ids cs := rfl

theorem ids_reverse : ids cs.reverse = (ids cs).reverse := List.map_reverse

theorem eq_of_id_eq (h : (ids cs).Nodup) (hc : c ∈ cs) (hd : d ∈ cs) (e : c.id = d.id) : c = d :=
  List.inj_on_of_nodup_map h hc hd e

theorem mem_of_id_mem (h : (ids cs).Nodup) (hd : ds ⊆ cs) (hc : c ∈ cs) (hi : c.id ∈ ids ds) :
    c ∈ ds := by
  obtain ⟨d, hmem, e⟩ := mem_ids.mp hi
  rw [eq_of_id_eq h hc (hd hmem) e.symm]
  exact hmem

theorem id_mem_ids_iff (h : (ids cs).Nodup) (hd : ds ⊆ cs) (hc : c ∈ cs) : c.id ∈ ids ds ↔ c ∈ ds :=
  ⟨mem_of_id_mem h hd hc, id_mem_ids⟩

theorem apart_of_subset (h : ∀ b ∈ cs, b.id ∉ ids ds) (hsub : added ⊆ ds) :
    ∀ b ∈ cs, b.id ∉ ids added := fun b hb hi => h b hb (List.map_subset _ hsub hi)

theorem ids_append_singleton_nodup (h : (ids cs).Nodup) (hc : c.id ∉ ids cs) :
    (ids (cs ++ [c])).Nodup := by
  rw [ids_append, ids_cons, ids_nil, ← List.concat_eq_append]
  exact List.Nodup.concat hc h

/-! ### Difference -/

@[simp] theorem subtract_nil : subtract cs [] = cs := by
  unfold subtract
  exact List.filter_eq_self.mpr fun _ _ => rfl

theorem subtract_sublist : (subtract cs removed).Sublist cs := List.filter_sublist

theorem subtract_subset : subtract cs removed ⊆ cs := subtract_sublist.subset

theorem ids_subtract_nodup (h : (ids cs).Nodup) : (ids (subtract cs removed)).Nodup :=
  h.sublist (subtract_sublist.map _)

theorem append_subtract : subtract (cs ++ ds) removed = subtract cs removed ++ subtract ds removed :=
  List.filter_append _ _

theorem subtract_eq_self (h : ∀ c ∈ cs, c.id ∉ ids removed) : subtract cs removed = cs := by
  unfold subtract
  refine List.filter_eq_self.mpr ?_
  intro c hc
  rw [Bool.not_eq_true', Bool.eq_false_iff, ne_eq, isIn_iff]
  exact h c hc

theorem subtract_eq_nil (h : ids cs ⊆ ids removed) : subtract cs removed = [] := by
  refine List.eq_nil_iff_forall_not_mem.mpr ?_
  intro c hc
  obtain ⟨hc, hnot⟩ := mem_subtract.mp hc
  exact hnot (h (id_mem_ids hc))

theorem mem_ids_subtract {i : Int} :
    i ∈ ids (subtract cs removed) ↔ i ∈ ids cs ∧ i ∉ ids removed := by
  constructor
  · intro h
    obtain ⟨c, hc, rfl⟩ := mem_ids.mp h
    exact ⟨id_mem_ids (subtract_subset hc), (mem_subtract.mp hc).2⟩
  · rintro ⟨h, hnot⟩
    obtain ⟨c, hc, rfl⟩ := mem_ids.mp h
    exact id_mem_ids (mem_subtract.mpr ⟨hc, hnot⟩)

theorem subtract_append : subtract cs (removed ++ ds) = subtract (subtract cs removed) ds := by
  unfold subtract
  rw [List.filter_filter]
  refine List.filter_congr ?_
  intro c _
  simp only [isIn, List.any_append, Bool.not_or, Bool.and_comm]

theorem mem_subtract_of_subset (h : (ids cs).Nodup) (hr : removed ⊆ cs) :
    c ∈ subtract cs removed ↔ c ∈ cs ∧ c ∉ removed := by
  rw [mem_subtract]
  exact and_congr_right fun hc => not_congr (id_mem_ids_iff h hr hc)

/-! ### Posting and union -/

theorem post_append : post cs (added ++ ds) = post (post cs added) ds := List.foldl_append

theorem insert_of_not_isIn (h : c.isIn cs = false) : insert cs c = cs ++ [c] := by
  unfold insert
  rw [h]
  rfl

theorem mem_of_mem_insert (h : d ∈ insert cs c) : d ∈ cs ∨ d = c := by
  unfold insert at h
  split at h
  · exact .inl h
  · rw [List.mem_append, List.mem_singleton] at h
    exact h

theorem mem_of_mem_post (h : d ∈ post cs added) : d ∈ cs ∨ d ∈ added := by
  induction added generalizing cs with
  | nil => exact .inl h
  | cons c added ih =>
    rcases ih h with h | h
    · rcases mem_of_mem_insert h with h | h
      · exact .inl h
      · exact .inr (h ▸ List.mem_cons_self)
    · exact .inr (List.mem_cons_of_mem _ h)

theorem mem_ids_insert {i : Int} : i ∈ ids (insert cs c) ↔ i ∈ ids cs ∨ i = c.id := by
  unfold insert
  split
  · next h =>
    refine ⟨.inl, ?_⟩
    rintro (k | rfl)
    · exact k
    · exact (isIn_iff c cs).mp h
  · rw [ids_append, ids_cons, ids_nil, List.mem_append, List.mem_singleton]

theorem mem_ids_post {i : Int} : i ∈ ids (post cs added) ↔ i ∈ ids cs ∨ i ∈ ids added := by
  induction added generalizing cs with
  | nil => exact (or_iff_left List.not_mem_nil).symm
  | cons c added ih => rw [post_cons, ih, mem_ids_insert, ids_cons, List.mem_cons, or_assoc]

theorem post_ne_nil (h : added ≠ []) : post cs added ≠ [] := by
  obtain ⟨c, rest, rfl⟩ := List.exists_cons_of_ne_nil h
  have hc : c.id ∈ ids (post cs (c :: rest)) := mem_ids_post.mpr (.inr List.mem_cons_self)
  intro hnil
  rw [hnil] at hc
  exact List.not_mem_nil hc

theorem mem_ids_union {i : Int} : i ∈ ids (union cs ds) ↔ i ∈ ids cs ∨ i ∈ ids ds := by
  rw [union, mem_ids_post, ids_append, List.mem_append]
  exact or_iff_right List.not_mem_nil

theorem post_of_nodup (h : (ids (cs ++ added)).Nodup) : post cs added = cs ++ added := by
  induction added generalizing cs with
  | nil => rw [post_nil, List.append_nil]
  | cons c added ih =>
    have hc : c.isIn cs = false := by
      rw [Bool.eq_false_iff, ne_eq, isIn_iff]
      rw [ids_append, List.nodup_append] at h
      exact fun hi => h.2.2 _ hi c.id List.mem_cons_self rfl
    rw [post_cons, insert_of_not_isIn hc, ih]
    · rw [List.append_assoc, List.singleton_append]
    · rw [List.append_assoc, List.singleton_append]
      exact h

theorem post_nil_of_nodup (h : (ids cs).Nodup) : post [] cs = cs := post_of_nodup h

theorem union_eq_post : union cs ds = post (post [] cs) ds := post_append

theorem ids_post_nil_nodup : (ids (post [] cs)).Nodup :=
  ids_post_nodup (ids_nil ▸ List.nodup_nil) cs

theorem ids_union_nodup : (ids (union cs ds)).Nodup := ids_post_nil_nodup

theorem union_of_nodup (h : (ids (cs ++ ds)).Nodup) : union cs ds = cs ++ ds := post_of_nodup h

theorem mem_of_mem_union (h : c ∈ union cs ds) : c ∈ cs ∨ c ∈ ds := by
  rcases mem_of_mem_post h with h | h
  · exact absurd h List.not_mem_nil
  · exact List.mem_append.mp h

theorem union_subset (h : cs ⊆ added) (k : ds ⊆ added) : union cs ds ⊆ added := by
  intro c hc
  rcases mem_of_mem_union hc with hc | hc
  · exact h hc
  · exact k hc

/-- The union is that of the set of the first list with constraints of numbers that it lacks. -/
theorem union_eq_append (h : (ids ds).Nodup) (hd : ∀ c ∈ cs, c.id ∉ ids ds) :
    union cs ds = union cs [] ++ ds := by
  rw [union_eq_post, union, List.append_nil]
  apply post_of_nodup
  rw [ids_append, List.nodup_append]
  refine ⟨ids_post_nil_nodup, h, ?_⟩
  intro i hi j hj hij
  obtain ⟨c, hc, rfl⟩ := mem_ids.mp hi
  rcases mem_of_mem_post hc with hc | hc
  · exact absurd hc List.not_mem_nil
  · exact hd c hc (hij ▸ hj)

/-- What is moved to the background stands apart from what is left. -/
theorem union_apart_subtract (h : ∀ b ∈ ds, b.id ∉ ids cs) :
    ∀ b ∈ union ds removed, b.id ∉ ids (subtract cs removed) := by
  intro b hb hi
  obtain ⟨c, hc, e⟩ := mem_ids.mp hi
  obtain ⟨hcs, hremoved⟩ := mem_subtract.mp hc
  rcases mem_of_mem_union hb with hb | hb
  · exact h b hb (e ▸ id_mem_ids hcs)
  · exact hremoved (e ▸ id_mem_ids hb)

theorem union_union : union (union cs ds) added = union cs (ds ++ added) := by
  rw [union_eq_post, post_nil_of_nodup ids_union_nodup, union, ← post_append, union,
    List.append_assoc]

end Constraint
end ProductLine
