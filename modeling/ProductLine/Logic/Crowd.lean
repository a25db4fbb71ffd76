import ProductLine.Logic.Clause

/-! # Crowds

A `Group` is a list of literals of which at most one can hold. When several clauses draw on fewer
groups than there are clauses, and no two of them share a literal in those groups, then not all of
them can be met out of the groups: some other literal of theirs holds. `Clause.crowded?` is the
clause that says so. -/

namespace ProductLine

variable {P : (Nat → Bool) → Prop}

/-- Not both literals hold. -/
def Exclusive (P : (Nat → Bool) → Prop) (a b : Nat) : Prop :=
  ∀ w, P w → ¬(Literal.holds w a = true ∧ Literal.holds w b = true)

/-- Whether a clause says that not both literals hold. -/
def Clause.excludes (c : Clause P) (a b : Nat) : Bool :=
  c.literals.all fun l => l == Literal.opposite a || l == Literal.opposite b

theorem Clause.exclusive_of_excludes {c : Clause P} {a b : Nat} (h : c.excludes a b = true) :
    Exclusive P a b := by
  intro w hw ⟨ha, hb⟩
  obtain ⟨l, hl, hold⟩ := c.some_holds w hw
  have := List.all_eq_true.mp h l hl
  rw [Bool.or_eq_true, beq_iff_eq, beq_iff_eq] at this
  rcases this with rfl | rfl
  · simp [ha] at hold
  · simp [hb] at hold

/-- Literals of which at most one holds. -/
structure Group (P : (Nat → Bool) → Prop) where
  literals : List Nat
  exclusive : literals.Pairwise (Exclusive P)

namespace Group

def empty : Group P := ⟨[], .nil⟩

/-- One more literal, if clauses say that none of the others holds beside it. -/
def insert? (exclusions : List (Clause P)) (l : Nat) (g : Group P) : Option (Group P) :=
  if h : ∀ k ∈ g.literals, exclusions.any (·.excludes l k) = true then
    some
      { literals := l :: g.literals
        exclusive := by
          refine .cons (fun k hk => ?_) g.exclusive
          obtain ⟨c, -, hc⟩ := List.any_eq_true.mp (h k hk)
          exact c.exclusive_of_excludes hc }
  else none

/-- The group of literals, for each of which there are clauses that exclude it beside others. -/
def ofList? (exclusions : Nat → List (Clause P)) : List Nat → Option (Group P)
  | [] => some empty
  | l :: rest => (ofList? exclusions rest).bind (insert? (exclusions l) l)

/-- Of literals that hold, each once, at most one is in a group. -/
theorem length_filter_le_one (g : Group P) {w : Nat → Bool} (hw : P w) {ls : List Nat}
    (hold : ∀ l ∈ ls, Literal.holds w l = true) (once : ls.Nodup) :
    (ls.filter g.literals.contains).length ≤ 1 := by
  have same : ∀ a ∈ g.literals, ∀ b ∈ g.literals, Literal.holds w a = true →
      Literal.holds w b = true → a = b := by
    obtain ⟨gs, hg⟩ := g
    induction hg with
    | nil => simp
    | cons hx _ ih =>
      intro a ha b hb wa wb
      rcases List.mem_cons.mp ha with rfl | ha' <;> rcases List.mem_cons.mp hb with rfl | hb'
      · rfl
      · exact absurd ⟨wa, wb⟩ (hx b hb' w hw)
      · exact absurd ⟨wb, wa⟩ (hx a ha' w hw)
      · exact ih a ha' b hb' wa wb
  match e : ls.filter g.literals.contains with
  | [] | [_] => simp
  | a :: b :: rest =>
    have nodup : (a :: b :: rest).Nodup := e ▸ once.filter _
    have ha : a ∈ ls.filter g.literals.contains := e ▸ List.mem_cons_self
    have hb : b ∈ ls.filter g.literals.contains :=
      e ▸ List.mem_cons_of_mem _ List.mem_cons_self
    rw [List.mem_filter, List.contains_iff_mem] at ha hb
    have := same a ha.2 b hb.2 (hold a ha.1) (hold b hb.1)
    simp [this] at nodup

/-- There are no more literals that hold, each counted once, than groups that they are in. -/
theorem length_le {w : Nat → Bool} (hw : P w) (gs : List (Group P)) {ls : List Nat}
    (hold : ∀ l ∈ ls, Literal.holds w l = true) (once : ls.Nodup)
    (within : ∀ l ∈ ls, gs.any (·.literals.contains l) = true) : ls.length ≤ gs.length := by
  induction gs generalizing ls with
  | nil =>
    match ls with
    | [] => simp
    | l :: _ => exact absurd (within l List.mem_cons_self) (by simp)
  | cons g gs ih =>
    have h1 := length_filter_le_one g hw hold once
    have h2 := @ih (ls.filter fun l => !g.literals.contains l)
      (fun l hl => hold l (List.mem_filter.mp hl).1) (once.filter _) (fun l hl => by
        obtain ⟨hl, out⟩ := List.mem_filter.mp hl
        have := within l hl
        rw [List.any_cons, Bool.or_eq_true] at this
        exact this.resolve_left (by simpa using out))
    have h3 := List.length_eq_countP_add_countP g.literals.contains (l := ls)
    simp only [List.countP_eq_length_filter, Bool.not_eq_true, Bool.decide_eq_false] at h3
    rw [List.length_cons]
    omega

end Group

namespace Clause

def grouped (gs : List (Group P)) (l : Nat) : Bool := gs.any (·.literals.contains l)

def inside (gs : List (Group P)) (cs : List (Clause P)) : List (List Nat) :=
  cs.map fun c => c.literals.filter (grouped gs)

def outside (gs : List (Group P)) (cs : List (Clause P)) : List Nat :=
  cs.flatMap fun c => c.literals.filter fun l => !grouped gs l

/-- Clauses that share no literals in the groups they draw on are no more than the groups, if no
literal outside of the groups holds. -/
theorem length_le_of_inside {w : Nat → Bool} (hw : P w) {gs : List (Group P)}
    {cs : List (Clause P)} (apart : (inside gs cs).flatten.Nodup)
    (out : ∀ l ∈ outside gs cs, Literal.holds w l = false) : cs.length ≤ gs.length := by
  have found : ∃ ls : List Nat, ls.length = cs.length ∧ ls.Sublist (inside gs cs).flatten ∧
      ∀ l ∈ ls, Literal.holds w l = true := by
    clear apart
    induction cs with
    | nil => exact ⟨[], by simp [inside]⟩
    | cons c cs ih =>
      obtain ⟨ls, len, sub, hold⟩ := ih fun l hl => out l (List.mem_append_right _ hl)
      obtain ⟨l, hl, hold'⟩ := c.some_holds w hw
      have hg : grouped gs l = true := by
        cases hg : grouped gs l
        · have := out l (List.mem_append_left _ (List.mem_filter.mpr ⟨hl, by simp [hg]⟩))
          rw [this] at hold'
          exact absurd hold' Bool.false_ne_true
        · rfl
      refine ⟨l :: ls, by simp [len], ?_, fun k hk => ?_⟩
      · have one : [l].Sublist (c.literals.filter (grouped gs)) :=
          List.singleton_sublist.mpr (List.mem_filter.mpr ⟨hl, hg⟩)
        exact one.append sub
      · rcases List.mem_cons.mp hk with rfl | hk
        · exact hold'
        · exact hold k hk
  obtain ⟨ls, len, sub, hold⟩ := found
  rw [← len]
  refine Group.length_le hw gs hold (sub.nodup apart) fun l hl => ?_
  obtain ⟨part, hpart, hl⟩ := List.mem_flatten.mp (sub.subset hl)
  obtain ⟨c, -, rfl⟩ := List.mem_map.mp hpart
  exact (List.mem_filter.mp hl).2

/-- One of the literals outside of groups holds, if there are more clauses than groups and no two
clauses share a literal in the groups. -/
def crowded? (gs : List (Group P)) (cs : List (Clause P)) : Option (Clause P) :=
  if h : gs.length < cs.length ∧ (inside gs cs).flatten.Nodup then
    some
      { literals := outside gs cs
        some_holds := fun w hw => by
          refine Classical.byContradiction fun none => ?_
          have := length_le_of_inside hw h.2 fun l hl => by
            cases e : Literal.holds w l
            · rfl
            · exact absurd ⟨l, hl, e⟩ none
          omega }
  else none

end Clause
end ProductLine
