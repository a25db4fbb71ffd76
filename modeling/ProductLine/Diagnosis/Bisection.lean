/-! # Bisections

A `Bisection` is a list with at least one item, cut into halves over and over; the first half is
never the longer one. `Bisection.ofList` cuts a list, and `Bisection.toList` puts it together again.
-/

namespace ProductLine

/-- A non-empty list cut into halves down to single items. -/
inductive Bisection (α : Type) where
  | one (a : α)
  | halves (first second : Bisection α)
deriving DecidableEq, Repr

namespace Bisection

variable {α : Type}

def toList : Bisection α → List α
  | one a => [a]
  | halves first second => first.toList ++ second.toList

/-- Cuts a list with a first item and more, with fuel for as many cuts as it has items. -/
def cut : Nat → α → List α → Bisection α
  | 0, a, _ => one a
  | _, a, [] => one a
  | fuel + 1, a, b :: rest =>
    let items := a :: b :: rest
    match items.take (items.length / 2), items.drop (items.length / 2) with
    | c :: cs, d :: ds => halves (cut fuel c cs) (cut fuel d ds)
    | _, _ => one a

def ofList (a : α) (rest : List α) : Bisection α := cut (rest.length + 1) a rest

/-- Two or more items are cut into two halves, and both have something in them. -/
theorem cut_cons (fuel : Nat) (a b : α) (rest : List α) (h : (b :: rest).length < fuel + 1) :
    ∃ c cs d ds, (a :: b :: rest).take ((a :: b :: rest).length / 2) = c :: cs ∧
      (a :: b :: rest).drop ((a :: b :: rest).length / 2) = d :: ds ∧
      cut (fuel + 1) a (b :: rest) = halves (cut fuel c cs) (cut fuel d ds) ∧
      cs.length < fuel ∧ ds.length < fuel := by
  have htake : (a :: b :: rest).take ((a :: b :: rest).length / 2) ≠ [] := by
    simp only [List.length_cons, ne_eq, List.take_eq_nil_iff, reduceCtorEq, or_false]; omega
  have hdrop : (a :: b :: rest).drop ((a :: b :: rest).length / 2) ≠ [] := by
    simp only [List.length_cons, ne_eq, List.drop_eq_nil_iff]; omega
  obtain ⟨c, cs, hc⟩ := List.exists_cons_of_ne_nil htake
  obtain ⟨d, ds, hd⟩ := List.exists_cons_of_ne_nil hdrop
  have hlen : cs.length < fuel ∧ ds.length < fuel := by
    have h1 := congrArg List.length hc
    have h2 := congrArg List.length hd
    simp only [List.length_take, List.length_drop, List.length_cons] at h1 h2 h
    omega
  refine ⟨c, cs, d, ds, hc, hd, ?_, hlen⟩
  rw [cut]
  simp only [hc, hd]

theorem toList_cut (fuel : Nat) (a : α) (rest : List α) (h : rest.length < fuel) :
    (cut fuel a rest).toList = a :: rest := by
  induction fuel generalizing a rest with
  | zero => omega
  | succ fuel ih =>
    cases rest with
    | nil => rfl
    | cons b rest =>
      obtain ⟨c, cs, d, ds, hc, hd, hcut, hcs, hds⟩ := cut_cons fuel a b rest h
      rw [hcut, toList, ih c cs hcs, ih d ds hds, ← hc, ← hd, List.take_append_drop]

@[simp] theorem toList_ofList (a : α) (rest : List α) : (ofList a rest).toList = a :: rest :=
  toList_cut _ a rest (Nat.lt_succ_self _)

theorem toList_ne_nil (t : Bisection α) : t.toList ≠ [] := by
  cases t with
  | one a => exact List.cons_ne_nil _ _
  | halves first second =>
    exact fun h => toList_ne_nil first (List.append_eq_nil_iff.mp h).1

end Bisection
end ProductLine
