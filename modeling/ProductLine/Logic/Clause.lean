import ProductLine.Logic.Literal

/-! # Clauses

A `Clause` over a condition on assignments is a list of literals, one of which holds whenever the
condition does; `Units` are literals that hold whenever it does. New clauses come from old ones:
`Clause.resolve` joins two clauses that have opposite literals, and `Clause.reduce` leaves out what
cannot hold. Each clause carries its proof, so that an empty clause shows that nothing meets the
condition (`Clause.not_of_literals_eq_nil`), in whatever way it was come by. -/

namespace ProductLine

/-- Literals one of which holds under every assignment that meets a condition. -/
structure Clause (P : (Nat → Bool) → Prop) where
  literals : List Nat
  some_holds : ∀ w, P w → ∃ l ∈ literals, Literal.holds w l = true

/-- Literals all of which hold under every assignment that meets a condition. -/
structure Units (P : (Nat → Bool) → Prop) where
  known : Array Bool
  holds : ∀ l, known.getD l false = true → ∀ w, P w → Literal.holds w l = true

variable {P : (Nat → Bool) → Prop}

namespace Units

/-- No literals, with room for as many as are there. -/
def none (P : (Nat → Bool) → Prop) (size : Nat) : Units P where
  known := Array.replicate size false
  holds l h := by
    rw [Array.getD_eq_getD_getElem?, Array.getElem?_replicate] at h
    split at h <;> exact absurd h Bool.false_ne_true

variable (units : Units P)

def has (l : Nat) : Bool := units.known.getD l false

def add (l : Nat) (h : ∀ w, P w → Literal.holds w l = true) : Units P where
  known := units.known.setIfInBounds l true
  holds k hk := by
    by_cases e : l = k
    · exact e ▸ h
    · refine units.holds k ?_
      simpa [Array.getD_eq_getD_getElem?, Array.getElem?_setIfInBounds, e] using hk

/-- The opposite of a literal among them does not hold. -/
theorem not_holds {l : Nat} (h : units.has (Literal.opposite l) = true) {w : Nat → Bool}
    (hw : P w) : Literal.holds w l = false := by
  simpa using units.holds _ h w hw

end Units

namespace Clause

/-- Nothing meets a condition that has an empty clause. -/
theorem not_of_literals_eq_nil {c : Clause P} (h : c.literals = []) (w : Nat → Bool) : ¬P w := by
  intro hw
  obtain ⟨l, hl, -⟩ := c.some_holds w hw
  simp [h] at hl

/-- If a clause has no other literal, that literal holds. -/
theorem holds_of_all_eq {c : Clause P} {l : Nat} (h : c.literals.all (· == l) = true)
    (w : Nat → Bool) (hw : P w) : Literal.holds w l = true := by
  obtain ⟨k, hk, hold⟩ := c.some_holds w hw
  exact beq_iff_eq.mp (List.all_eq_true.mp h k hk) ▸ hold

/-- The clause without the literals that cannot hold. -/
def reduce (units : Units P) (c : Clause P) : Clause P where
  literals := c.literals.filter fun l => !units.has (Literal.opposite l)
  some_holds w hw := by
    obtain ⟨l, hl, hold⟩ := c.some_holds w hw
    refine ⟨l, List.mem_filter.mpr ⟨hl, ?_⟩, hold⟩
    cases h : units.has (Literal.opposite l)
    · rfl
    · rw [units.not_holds h hw] at hold; exact absurd hold Bool.false_ne_true

/-- The clause with its literals by falling rank. -/
def sort (rank : Nat → Nat) (c : Clause P) : Clause P where
  literals := c.literals.mergeSort fun a b => rank b ≤ rank a
  some_holds w hw := by simpa using c.some_holds w hw

/-- Two lists of literals in one, by falling rank if they are; of a literal at the front of both,
one is taken. -/
def merge (rank : Nat → Nat) : List Nat → List Nat → List Nat
  | [], ys => ys
  | xs, [] => xs
  | x :: xs, y :: ys =>
    if x = y then x :: merge rank xs ys
    else if rank y < rank x then x :: merge rank xs (y :: ys)
    else y :: merge rank (x :: xs) ys
termination_by xs ys => xs.length + ys.length

theorem mem_merge {rank : Nat → Nat} {xs ys : List Nat} {l : Nat} :
    l ∈ merge rank xs ys ↔ l ∈ xs ∨ l ∈ ys := by
  fun_induction merge rank xs ys <;> grind

/-- A sorted list with each of its members once. -/
def distinct : List Nat → List Nat
  | a :: b :: rest => if a = b then distinct (b :: rest) else a :: distinct (b :: rest)
  | ls => ls

theorem mem_distinct {ls : List Nat} {l : Nat} : l ∈ distinct ls ↔ l ∈ ls := by
  fun_induction distinct ls <;> grind

/-- The clause without its first literal, but with the literals of a clause that has the opposite of
that literal. -/
def resolve (rank : Nat → Nat) (c d : Clause P) : Clause P :=
  match h : c.literals with
  | [] => c
  | l :: rest =>
    { literals := merge rank rest (d.literals.filter (· != Literal.opposite l))
      some_holds := fun w hw => by
        obtain ⟨k, hk, hold⟩ := c.some_holds w hw
        rw [h, List.mem_cons] at hk
        rcases hk with rfl | hk
        · obtain ⟨j, hj, hold'⟩ := d.some_holds w hw
          refine ⟨j, mem_merge.mpr (.inr (List.mem_filter.mpr ⟨hj, ?_⟩)), hold'⟩
          rw [bne_iff_ne]
          rintro rfl
          simp [hold] at hold'
        · exact ⟨k, mem_merge.mpr (.inl hk), hold⟩ }

/-- The clause without a literal, if all others of a clause with the opposite literal are in it
anyway. -/
def shorten (l : Nat) (d c : Clause P) : Clause P :=
  let rest := c.literals.filter (· != l)
  if within : d.literals.all (fun k => k == Literal.opposite l || rest.contains k) = true then
    { literals := rest
      some_holds := fun w hw => by
        obtain ⟨k, hk, hold⟩ := c.some_holds w hw
        by_cases e : k = l
        · obtain ⟨j, hj, hold'⟩ := d.some_holds w hw
          have := List.all_eq_true.mp within j hj
          rw [Bool.or_eq_true, beq_iff_eq, List.contains_iff_mem] at this
          rcases this with rfl | this
          · simp [← e, hold] at hold'
          · exact ⟨j, this, hold'⟩
        · exact ⟨k, List.mem_filter.mpr ⟨hk, bne_iff_ne.mpr e⟩, hold⟩ }
  else c

end Clause
end ProductLine
