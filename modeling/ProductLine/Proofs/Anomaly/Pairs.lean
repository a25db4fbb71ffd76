import Mathlib.Data.List.Nodup
import ProductLine.Anomaly.Probes

/-! # Partners, pair by pair

Features that clash are entered pair by pair, each with the other one as its partner, and only once.
In the end every feature that clashes with another one is entered, with the first such one as its
partner (`perm_partners`). The order of the pairs is what matters here: all pairs of a feature with
those before it come before its pairs with those after it. -/

namespace ProductLine
namespace Anomaly

open Analysis

/-! ### Entries under keys -/

section entries

variable {α β : Type} [DecidableEq α] {entries : List (α × β)} {x : α × β} {xs : List (α × β)} {k : α}

/-- The entries with one more under a new key. The entry that a key has stays. -/
def enter (entries : List (α × β)) (x : α × β) : List (α × β) :=
  if x.1 ∈ entries.map Prod.fst then entries else entries ++ [x]

theorem lookup_isSome_of_mem (h : k ∈ entries.map Prod.fst) : (entries.lookup k).isSome := by
  obtain ⟨x, hx, rfl⟩ := List.mem_map.mp h
  exact List.lookup_isSome_iff.mpr ⟨x, hx, beq_self_eq_true x.1⟩

theorem lookup_enter : (enter entries x).lookup k = (entries ++ [x]).lookup k := by
  unfold enter
  split
  · next hin =>
    rw [List.lookup_append, List.lookup_cons, List.lookup_nil]
    split
    · next hk => rw [Option.or_of_isSome (lookup_isSome_of_mem (eq_of_beq hk ▸ hin))]
    · rw [Option.or_none]
  · rfl

theorem lookup_foldl_enter : (xs.foldl enter entries).lookup k = (entries ++ xs).lookup k := by
  induction xs generalizing entries with
  | nil => rw [List.foldl_nil, List.append_nil]
  | cons x xs ih =>
    rw [List.foldl_cons, ih, List.lookup_append, lookup_enter, ← List.lookup_append,
      List.append_assoc, List.singleton_append]

theorem foldl_enter_of_mem (h : ∀ x ∈ xs, x.1 ∈ entries.map Prod.fst) :
    xs.foldl enter entries = entries := by
  induction xs with
  | nil => rfl
  | cons x xs ih =>
    rw [List.forall_mem_cons] at h
    rw [List.foldl_cons, enter, if_pos h.1, ih h.2]

theorem nodup_foldl_enter (h : (entries.map Prod.fst).Nodup) :
    ((xs.foldl enter entries).map Prod.fst).Nodup := by
  induction xs generalizing entries with
  | nil => exact h
  | cons x xs ih =>
    rw [List.foldl_cons]
    apply ih
    unfold enter
    split
    · exact h
    · next hnew =>
      rw [List.map_append, List.map_singleton, ← List.concat_eq_append]
      exact h.concat hnew

theorem mem_iff_lookup {v : β} (h : (entries.map Prod.fst).Nodup) :
    (k, v) ∈ entries ↔ entries.lookup k = some v := by
  constructor
  · intro hin
    obtain ⟨before, after, rfl⟩ := List.append_of_mem hin
    refine List.lookup_eq_some_iff.mpr ⟨before, after, rfl, fun x hx => ?_⟩
    rw [List.map_append, List.nodup_append] at h
    rw [bne_iff_ne]
    exact (h.2.2 _ (List.mem_map_of_mem hx) k List.mem_cons_self).symm
  · intro hfound
    obtain ⟨before, after, rfl, -⟩ := List.lookup_eq_some_iff.mp hfound
    exact List.mem_append_right _ List.mem_cons_self

end entries

/-! ### Pairs that clash -/

section pairs

variable {α : Type} {clash : α → α → Bool} {f x : α} {l : List α}

theorem mem_of_mem_pairs {y : α} (h : (x, y) ∈ pairs l) : x ∈ l ∧ y ∈ l := by
  induction l with
  | nil => exact absurd h List.not_mem_nil
  | cons z rest ih =>
    unfold pairs at h
    rw [List.mem_append, List.mem_map] at h
    rcases h with ⟨w, hw, heq⟩ | h
    · cases heq
      exact ⟨List.mem_cons_self, List.mem_cons_of_mem _ hw⟩
    · exact ⟨List.mem_cons_of_mem _ (ih h).1, List.mem_cons_of_mem _ (ih h).2⟩

/-- The entries for a pair: each of the two with the other one, if they clash. -/
def partners (clash : α → α → Bool) (pair : α × α) : List (α × Option α) :=
  if clash pair.1 pair.2 then [(pair.1, some pair.2), (pair.2, some pair.1)] else []

theorem mem_of_mem_partners {pair : α × α} {entry : α × Option α}
    (h : entry ∈ partners clash pair) : entry.1 = pair.1 ∨ entry.1 = pair.2 := by
  unfold partners at h
  split at h
  · rcases List.mem_pair.mp h with rfl | rfl
    · exact .inl rfl
    · exact .inr rfl
  · exact absurd h List.not_mem_nil

theorem partners_of_not {pair : α × α} (h : clash pair.1 pair.2 = false) :
    partners clash pair = [] := by
  unfold partners
  rw [h]
  rfl

theorem partners_of_clash {pair : α × α} (h : clash pair.1 pair.2 = true) :
    partners clash pair = [(pair.1, some pair.2)] ++ [(pair.2, some pair.1)] := by
  unfold partners
  rw [h]
  rfl

variable [DecidableEq α]

/-- Of the pairs of an item with those after it, the first one that clashes enters it. -/
theorem lookup_partners_self (h : x ∉ l) :
    (l.flatMap fun y => partners clash (x, y)).lookup x =
      (l.find? fun g => decide (g ≠ x) && clash x g).map some := by
  induction l with
  | nil => rfl
  | cons y l ih =>
    rw [List.mem_cons, not_or] at h
    rw [List.flatMap_cons, List.lookup_append, ih h.2, List.find?_cons,
      decide_eq_true (Ne.symm h.1), Bool.true_and]
    unfold partners
    cases clash x y with
    | false => rfl
    | true => simp

theorem lookup_partners_of_ne (h : f ≠ x) :
    (l.flatMap fun y => partners clash (x, y)).lookup f =
      if f ∈ l ∧ clash x f = true then some (some x) else none := by
  induction l with
  | nil => simp
  | cons y l ih =>
    rw [List.flatMap_cons, List.lookup_append, ih]
    unfold partners
    by_cases hy : f = y
    · subst hy
      cases hc : clash x f <;> simp [List.lookup_cons, beq_false_of_ne h]
    · cases hc : clash x y <;> simp [hy, List.lookup_cons, beq_false_of_ne h, beq_false_of_ne hy]

theorem lookup_partners_of_not_mem (h : f ∉ l) :
    ((pairs l).flatMap (partners clash)).lookup f = none := by
  rw [List.lookup_eq_none_iff]
  intro entry hentry
  obtain ⟨pair, hpair, hin⟩ := List.mem_flatMap.mp hentry
  have hmem := mem_of_mem_pairs hpair
  rw [bne_iff_ne]
  rintro rfl
  rcases mem_of_mem_partners hin with hleft | hright
  · exact h (hleft ▸ hmem.1)
  · exact h (hright ▸ hmem.2)

/-- **A feature that clashes with others is first entered with the first of them.** -/
theorem lookup_partners (hnd : l.Nodup) (hsymm : ∀ x y, clash x y = clash y x) (hf : f ∈ l) :
    ((pairs l).flatMap (partners clash)).lookup f =
      (l.find? fun g => decide (g ≠ f) && clash f g).map some := by
  induction l with
  | nil => exact absurd hf List.not_mem_nil
  | cons x l ih =>
    rw [List.nodup_cons] at hnd
    rw [pairs, List.flatMap_append, List.flatMap_map, List.lookup_append, List.find?_cons]
    by_cases hfx : f = x
    · subst hfx
      rw [lookup_partners_self hnd.1, lookup_partners_of_not_mem hnd.1, Option.or_none]
      simp
    · have hrest := (List.mem_cons.mp hf).resolve_left hfx
      rw [lookup_partners_of_ne hfx, ih hnd.2 hrest, hsymm f x, decide_eq_true (Ne.symm hfx),
        Bool.true_and]
      cases hc : clash x f <;> simp [hrest]

/-- **Every feature that clashes with others is entered once, with the first of them.** -/
theorem perm_partners (hnd : l.Nodup) (hsymm : ∀ x y, clash x y = clash y x) :
    (((pairs l).flatMap (partners clash)).foldl enter []).Perm (l.filterMap fun f =>
      (l.find? fun g => decide (g ≠ f) && clash f g).map fun g => (f, some g)) := by
  have hkeys : ((((pairs l).flatMap (partners clash)).foldl enter []).map Prod.fst).Nodup :=
    nodup_foldl_enter List.nodup_nil
  have honce : (l.filterMap fun f =>
      (l.find? fun g => decide (g ≠ f) && clash f g).map fun g => (f, some g)).Nodup := by
    apply hnd.filterMap
    intro f f' entry h h'
    obtain ⟨g, -, rfl⟩ := Option.map_eq_some_iff.mp h
    obtain ⟨g', -, heq⟩ := Option.map_eq_some_iff.mp h'
    exact (congrArg Prod.fst heq).symm
  rw [List.perm_ext_iff_of_nodup hkeys.of_map honce]
  rintro ⟨f, partner⟩
  rw [mem_iff_lookup hkeys, lookup_foldl_enter, List.nil_append, List.mem_filterMap]
  constructor
  · intro hfound
    have hf : f ∈ l := by
      by_contra hnot
      rw [lookup_partners_of_not_mem hnot] at hfound
      cases hfound
    rw [lookup_partners hnd hsymm hf, Option.map_eq_some_iff] at hfound
    obtain ⟨g, hg, rfl⟩ := hfound
    exact ⟨f, hf, Option.map_eq_some_iff.mpr ⟨g, hg, rfl⟩⟩
  · rintro ⟨f', hf, hentry⟩
    obtain ⟨g, hg, heq⟩ := Option.map_eq_some_iff.mp hentry
    cases heq
    rw [lookup_partners hnd hsymm hf, hg]
    rfl

/-- **In whatever order the features come, those that clash with others are entered.** -/
theorem perm_clashing {l' : List α} (hnd : l.Nodup) (hsymm : ∀ x y, clash x y = clash y x)
    (hperm : l'.Perm l) :
    ((((pairs l').flatMap (partners clash)).foldl enter []).map Prod.fst).Perm
      ((((pairs l).flatMap (partners clash)).foldl enter []).map Prod.fst) := by
  have hkeys : ∀ k : List α, (k.filterMap fun f =>
      (k.find? fun g => decide (g ≠ f) && clash f g).map fun g => (f, some g)).map Prod.fst =
        k.filter fun f => k.any fun g => decide (g ≠ f) && clash f g := by
    intro k
    rw [List.map_filterMap, ← List.filterMap_eq_filter]
    refine List.filterMap_congr fun f _ => ?_
    rw [Option.guard, ← List.isSome_find?]
    cases k.find? fun g => decide (g ≠ f) && clash f g <;> rfl
  have hclash : (fun f => l'.any fun g => decide (g ≠ f) && clash f g) =
      fun f => l.any fun g => decide (g ≠ f) && clash f g := funext fun f => hperm.any_eq
  have hbefore := (perm_partners (hperm.nodup_iff.mpr hnd) hsymm).map Prod.fst
  have hafter := (perm_partners hnd hsymm).map Prod.fst
  rw [hkeys] at hbefore hafter
  rw [hclash] at hbefore
  exact hbefore.trans ((hperm.filter _).trans hafter.symm)

/-- `C` goes with neither `A` nor `B`; its partner is `A`, as the pair of `A` comes first. -/
example : ((pairs ["A", "B", "C"]).flatMap (partners fun f g => f == "C" || g == "C")).foldl enter [] =
    [("A", some "C"), ("C", some "A"), ("B", some "C")] := by decide

end pairs

end Anomaly
end ProductLine
