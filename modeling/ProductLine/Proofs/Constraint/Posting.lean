import ProductLine.Constraint.Store
import ProductLine.Proofs.ConstraintSet

/-! # The two copies of what is posted agree

A posting is `Sound` if the numbers that are taken are those of the listed constraints and none of them
repeats. Every operation keeps a posting sound, and on a sound one it does to the list what
`Constraint.post` and `Constraint.subtract` do, so that the numbers need not be looked at again. -/

namespace ProductLine
namespace Posting

open Constraint

variable {p : Posting} {c : Constraint} {cs ds added removed : List Constraint}

/-- The posting of constraints with the numbers that they have. -/
def of (cs : List Constraint) : Posting := ⟨cs, ids cs⟩

/-- No number is listed twice, and exactly the listed ones are taken. -/
structure Sound (p : Posting) : Prop where
  nodup : (ids p.listed).Nodup
  agree : p = of p.listed

@[simp] theorem listed_of : (of cs).listed = cs := rfl

theorem Sound.of_nodup (h : (ids cs).Nodup) : (of cs).Sound := ⟨h, rfl⟩

theorem sound_empty : empty.Sound := Sound.of_nodup List.nodup_nil

theorem Sound.mem_numbers (h : p.Sound) (i : Int) : i ∈ p.numbers ↔ i ∈ ids p.listed := by
  rw [h.agree]
  rfl

/-! ### Posting -/

theorem add_of : (of cs).add c = of (Constraint.insert cs c) := by
  by_cases h : c.id ∈ ids cs
  · rw [Constraint.insert, if_pos ((isIn_iff c cs).mpr h)]
    exact if_pos h
  · have hin : c.isIn cs = false := by rw [Bool.eq_false_iff, ne_eq, isIn_iff]; exact h
    have hadd : (of cs).add c = ⟨cs ++ [c], ids cs ++ [c.id]⟩ := if_neg h
    rw [insert_of_not_isIn hin, hadd, of, ids_append]
    rfl

theorem post_of : (of cs).post added = of (Constraint.post cs added) := by
  induction added generalizing cs with
  | nil => rfl
  | cons c added ih => rw [post_cons, add_of, ih, Constraint.post_cons]

theorem post_empty : empty.post cs = of (Constraint.post [] cs) := post_of

theorem post_empty_of_nodup (h : (ids cs).Nodup) : empty.post cs = of cs := by
  rw [post_empty, post_nil_of_nodup h]

theorem Sound.post_eq (h : p.Sound) : p.post cs = of (Constraint.post p.listed cs) := by
  rw [h.agree, post_of, listed_of]

theorem Sound.post_listed (h : p.Sound) : empty.post p.listed = p := by
  rw [post_empty_of_nodup h.nodup, ← h.agree]

theorem Sound.post (h : p.Sound) (cs : List Constraint) : (p.post cs).Sound := by
  rw [h.post_eq]
  exact Sound.of_nodup (ids_post_nodup h.nodup cs)

theorem mem_ids_post_empty {i : Int} : i ∈ ids (empty.post cs).listed ↔ i ∈ ids cs := by
  rw [post_empty, listed_of, mem_ids_post, ids_nil]
  exact or_iff_right List.not_mem_nil

/-- What is listed stays listed, whatever the numbers are. -/
theorem listed_subset_post : p.listed ⊆ (p.post cs).listed := by
  induction cs generalizing p with
  | nil => exact List.Subset.refl _
  | cons c cs ih =>
    have hadd : p.listed ⊆ (p.add c).listed := by
      unfold add
      split
      · exact List.Subset.refl _
      · exact List.subset_append_left _ _
    exact List.Subset.trans hadd ih

/-! ### Taking back -/

theorem unpost_of : (of cs).unpost removed = of (subtract cs removed) := by
  by_cases h : (ids removed).any (· ∈ ids cs) = true
  · have hnumbers : (ids cs).filter (· ∉ ids removed) = ids (subtract cs removed) := by
      unfold subtract ids
      rw [List.filter_map]
      congr 1
      refine List.filter_congr fun c _ => ?_
      rw [Function.comp_apply, ← ids, Bool.eq_iff_iff, decide_eq_true_iff, Bool.not_eq_true',
        Bool.eq_false_iff, ne_eq, isIn_iff]
    have hunpost : (of cs).unpost removed =
        ⟨subtract cs removed, (ids cs).filter (· ∉ ids removed)⟩ := if_pos h
    rw [hunpost, hnumbers, of]
  · have hself : subtract cs removed = cs := by
      refine subtract_eq_self fun c hc hi => h ?_
      exact List.any_eq_true.mpr ⟨c.id, hi, decide_eq_true (id_mem_ids hc)⟩
    rw [hself]
    exact if_neg h

/-- What is not taken back stays listed, whatever the numbers are. -/
theorem mem_ids_unpost {i : Int} (h : i ∈ ids p.listed) (hi : i ∉ ids removed) :
    i ∈ ids (p.unpost removed).listed := by
  unfold unpost
  split
  · exact mem_ids_subtract.mpr ⟨h, hi⟩
  · exact h

theorem Sound.unpost_eq (h : p.Sound) : p.unpost cs = of (subtract p.listed cs) := by
  rw [h.agree, unpost_of, listed_of]

theorem Sound.unpost (h : p.Sound) (cs : List Constraint) : (p.unpost cs).Sound := by
  rw [h.unpost_eq]
  exact Sound.of_nodup (ids_subtract_nodup h.nodup)

end Posting

namespace Store

open Constraint

variable {s : Store}

theorem posted_of_posting {cs : List Constraint} (h : s.posting = .of cs) : s.posted = cs := by
  rw [posted, h, Posting.listed_of]

/-- Posting anew what was posted brings back the store. -/
theorem clear_post_posted (h : s.posting.Sound) : s.clear.post s.posted = s := by
  show { s with posting := Posting.empty.post s.posting.listed } = s
  rw [h.post_listed]

theorem reset_eq (h : (ids s.ac).Nodup) : s.reset = { s with posting := .of s.ac } := by
  show { s with posting := Posting.empty.post s.ac } = _
  rw [Posting.post_empty_of_nodup h]

theorem reset_of_posting (h : (ids s.ac).Nodup) (hs : s.posting = .of s.ac) : s.reset = s := by
  rw [reset_eq h, ← hs]

end Store
end ProductLine
