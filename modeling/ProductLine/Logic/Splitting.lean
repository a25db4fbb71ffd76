import ProductLine.Logic.Formula

/-! # Satisfiability by splitting

`Formula.bySplitting` decides whether some assignment makes all formulas of a list true. It splits
conjunctions, drops what is true, and gives up at what is false. A formula that is a literal fixes
its variable; when there is none, the first variable is tried both ways. Fixing a variable replaces
it and folds the truth values away, so every step lessens the number of occurrences of variables,
and that number is the fuel. -/

namespace ProductLine
namespace Formula

variable {α : Type}

/-! ### Formulas with truth values folded away -/

def mkNot : Formula α → Formula α
  | const b => const !b
  | f => not f

def mkAnd : Formula α → Formula α → Formula α
  | const true, g => g
  | const false, _ => const false
  | f, const true => f
  | _, const false => const false
  | f, g => and f g

def mkOr : Formula α → Formula α → Formula α
  | const true, _ => const true
  | const false, g => g
  | _, const true => const true
  | f, const false => f
  | f, g => or f g

def mkImplies : Formula α → Formula α → Formula α
  | const true, g => g
  | const false, _ => const true
  | _, const true => const true
  | f, const false => mkNot f
  | f, g => implies f g

def mkIff : Formula α → Formula α → Formula α
  | const true, g => g
  | const false, g => mkNot g
  | f, const true => f
  | f, const false => mkNot f
  | f, g => iff f g

variable [DecidableEq α]

/-- The formula with a variable fixed. -/
def assign (a : α) (value : Bool) : Formula α → Formula α
  | const b => const b
  | var b => if a = b then const value else var b
  | not f => mkNot (f.assign a value)
  | and f g => mkAnd (f.assign a value) (g.assign a value)
  | or f g => mkOr (f.assign a value) (g.assign a value)
  | implies f g => mkImplies (f.assign a value) (g.assign a value)
  | iff f g => mkIff (f.assign a value) (g.assign a value)

/-! ### The search -/

omit [DecidableEq α] in
/-- The operands of a conjunction, those that are plainly true left out. -/
def conjuncts : Formula α → List (Formula α)
  | and f g => f.conjuncts ++ g.conjuncts
  | const true => []
  | f => [f]

omit [DecidableEq α] in
def isFalse : Formula α → Bool
  | const false => true
  | _ => false

omit [DecidableEq α] in
/-- The variable and value that a literal fixes. -/
def literal? : Formula α → Option (α × Bool)
  | var a => some (a, true)
  | not (var a) => some (a, false)
  | _ => none

/-- The search, with fuel for as many variables to be fixed. -/
def search : Nat → List (Formula α) → Bool
  | 0, fs => fs.all (·.eval fun _ => false)
  | fuel + 1, fs =>
    let fs := fs.flatMap conjuncts
    if fs.any isFalse then false
    else
      match fs.findSome? literal? with
      | some (a, value) => search fuel (fs.map (assign a value))
      | none =>
        match fs.flatMap vars with
        | [] => fs.all (·.eval fun _ => false)
        | a :: _ => search fuel (fs.map (assign a true)) || search fuel (fs.map (assign a false))

/-- Whether some assignment makes every formula true. -/
def bySplitting (fs : List (Formula α)) : Bool := search (fs.flatMap vars).length fs

/-! ### The search is exact -/

section values
omit [DecidableEq α]
variable (v : α → Bool)

@[simp] theorem eval_mkNot (f : Formula α) : (mkNot f).eval v = !f.eval v := by cases f <;> rfl

@[simp] theorem eval_mkAnd (f g : Formula α) : (mkAnd f g).eval v = (f.eval v && g.eval v) := by
  unfold mkAnd; split <;> simp [eval]

@[simp] theorem eval_mkOr (f g : Formula α) : (mkOr f g).eval v = (f.eval v || g.eval v) := by
  unfold mkOr; split <;> simp [eval]

@[simp] theorem eval_mkImplies (f g : Formula α) :
    (mkImplies f g).eval v = (!f.eval v || g.eval v) := by
  unfold mkImplies; split <;> simp [eval]

@[simp] theorem eval_mkIff (f g : Formula α) : (mkIff f g).eval v = (f.eval v == g.eval v) := by
  unfold mkIff; split <;> simp [eval]

theorem eval_congr {f : Formula α} {v w : α → Bool} (h : ∀ a ∈ f.vars, v a = w a) :
    f.eval v = f.eval w := by
  induction f with
  | const b => rfl
  | var a => exact h a List.mem_cons_self
  | not f ih => rw [eval, eval, ih h]
  | and f g ihf ihg | or f g ihf ihg | implies f g ihf ihg | iff f g ihf ihg =>
    rw [eval, eval, ihf fun a ha => h a (List.mem_append_left _ ha),
      ihg fun a ha => h a (List.mem_append_right _ ha)]

theorem satisfies_conjuncts (f : Formula α) : Satisfies v f.conjuncts ↔ f.eval v = true := by
  fun_induction conjuncts f with
  | case1 f g ihf ihg => rw [satisfies_append, ihf, ihg, eval, Bool.and_eq_true]
  | case2 => simp [Satisfies, eval]
  | case3 f => simp [Satisfies]

theorem satisfies_flatMap_conjuncts (fs : List (Formula α)) :
    Satisfies v (fs.flatMap conjuncts) ↔ Satisfies v fs := by
  induction fs with
  | nil => rfl
  | cons f fs ih =>
    rw [List.flatMap_cons, satisfies_append, satisfies_conjuncts, ih, satisfies_cons]

theorem eval_of_literal? {f : Formula α} {a : α} {value : Bool} (h : f.literal? = some (a, value)) :
    f.eval v = (v a == value) := by
  unfold literal? at h
  split at h <;> simp only [Option.some.injEq, Prod.mk.injEq, reduceCtorEq] at h
  · obtain ⟨rfl, rfl⟩ := h; simp [eval]
  · obtain ⟨rfl, rfl⟩ := h; simp [eval]

end values

def update (v : α → Bool) (a : α) (value : Bool) : α → Bool := fun b => if a = b then value else v b

theorem eval_assign (v : α → Bool) (a : α) (value : Bool) (f : Formula α) :
    (f.assign a value).eval v = f.eval (update v a value) := by
  induction f with
  | const b => rfl
  | var b => by_cases h : a = b <;> simp [assign, eval, update, h]
  | not f ih => simp [assign, eval, ih]
  | and f g ihf ihg | or f g ihf ihg | implies f g ihf ihg | iff f g ihf ihg =>
    simp [assign, eval, ihf, ihg]

theorem satisfies_map_assign (v : α → Bool) (a : α) (value : Bool) (fs : List (Formula α)) :
    Satisfies v (fs.map (assign a value)) ↔ Satisfies (update v a value) fs := by
  simp [Satisfies, eval_assign]

theorem update_self (v : α → Bool) (a : α) : update v a (v a) = v := by
  funext b; by_cases h : a = b <;> simp [update, h]

theorem satisfiable_iff_assign (a : α) (fs : List (Formula α)) :
    Satisfiable fs ↔
      Satisfiable (fs.map (assign a true)) ∨ Satisfiable (fs.map (assign a false)) := by
  simp only [Satisfiable, satisfies_map_assign]
  constructor
  · rintro ⟨v, h⟩
    have h' := (update_self v a).symm ▸ h
    cases hv : v a <;> rw [hv] at h'
    · exact .inr ⟨v, h'⟩
    · exact .inl ⟨v, h'⟩
  · rintro (⟨v, h⟩ | ⟨v, h⟩) <;> exact ⟨_, h⟩

/-- A literal among the formulas can be taken at its word. -/
theorem satisfiable_iff_literal {fs : List (Formula α)} {a : α} {value : Bool}
    (h : fs.findSome? literal? = some (a, value)) :
    Satisfiable fs ↔ Satisfiable (fs.map (assign a value)) := by
  obtain ⟨f, hf, hl⟩ := List.exists_of_findSome?_eq_some h
  simp only [Satisfiable, satisfies_map_assign]
  constructor
  · rintro ⟨v, hv⟩
    have hva : v a = value := by simpa [eval_of_literal? v hl] using hv f hf
    exact ⟨v, by rw [← hva, update_self]; exact hv⟩
  · rintro ⟨v, hv⟩; exact ⟨_, hv⟩

/-! ### The fuel suffices -/

section fuel
omit [DecidableEq α]

theorem length_vars_mkNot (f : Formula α) : (mkNot f).vars.length ≤ f.vars.length :=
  by cases f <;> simp [mkNot, vars]

theorem length_vars_mkAnd (f g : Formula α) :
    (mkAnd f g).vars.length ≤ f.vars.length + g.vars.length := by
  unfold mkAnd; split <;> simp [vars]

theorem length_vars_mkOr (f g : Formula α) :
    (mkOr f g).vars.length ≤ f.vars.length + g.vars.length := by
  unfold mkOr; split <;> simp [vars]

theorem length_vars_mkImplies (f g : Formula α) :
    (mkImplies f g).vars.length ≤ f.vars.length + g.vars.length := by
  unfold mkImplies; split
  · simp
  · simp [vars]
  · simp [vars]
  · exact Nat.le_add_right_of_le (length_vars_mkNot _)
  · simp [vars]

theorem length_vars_mkIff (f g : Formula α) :
    (mkIff f g).vars.length ≤ f.vars.length + g.vars.length := by
  unfold mkIff; split
  · simp
  · exact Nat.le_add_left_of_le (length_vars_mkNot _)
  · simp
  · exact Nat.le_add_right_of_le (length_vars_mkNot _)
  · simp [vars]

theorem length_vars_conjuncts (f : Formula α) :
    (f.conjuncts.flatMap vars).length ≤ f.vars.length := by
  fun_induction conjuncts f with
  | case1 f g ihf ihg => simp only [List.flatMap_append, List.length_append, vars]; omega
  | case2 => simp
  | case3 f => simp

theorem length_vars_flatMap_conjuncts (fs : List (Formula α)) :
    ((fs.flatMap conjuncts).flatMap vars).length ≤ (fs.flatMap vars).length := by
  induction fs with
  | nil => simp
  | cons f fs ih =>
    have := length_vars_conjuncts f
    simp only [List.flatMap_cons, List.flatMap_append, List.length_append]
    omega

/-- Without variables one assignment is as good as any other. -/
theorem satisfiable_iff_of_closed {fs : List (Formula α)} (h : fs.flatMap vars = [])
    (w : α → Bool) :
    Satisfiable fs ↔ fs.all (·.eval w) = true := by
  rw [List.all_eq_true]
  refine ⟨fun ⟨v, hv⟩ f hf => ?_, fun hw => ⟨w, hw⟩⟩
  have hf' : f.vars = [] := List.flatMap_eq_nil_iff.mp h f hf
  rw [eval_congr (w := v) (by simp [hf'])]
  exact hv f hf

end fuel

theorem length_vars_assign (a : α) (value : Bool) (f : Formula α) :
    (f.assign a value).vars.length ≤ (f.vars.filter (· ≠ a)).length := by
  induction f with
  | const b => simp [assign, vars]
  | var b =>
    by_cases h : a = b
    · simp [assign, vars, h]
    · simp [assign, vars, h, Ne.symm h]
  | not f ih => exact Nat.le_trans (length_vars_mkNot _) ih
  | and f g ihf ihg =>
    have := length_vars_mkAnd (f.assign a value) (g.assign a value)
    simp only [assign, vars, List.filter_append, List.length_append]; omega
  | or f g ihf ihg =>
    have := length_vars_mkOr (f.assign a value) (g.assign a value)
    simp only [assign, vars, List.filter_append, List.length_append]; omega
  | implies f g ihf ihg =>
    have := length_vars_mkImplies (f.assign a value) (g.assign a value)
    simp only [assign, vars, List.filter_append, List.length_append]; omega
  | iff f g ihf ihg =>
    have := length_vars_mkIff (f.assign a value) (g.assign a value)
    simp only [assign, vars, List.filter_append, List.length_append]; omega

theorem length_vars_map_assign (a : α) (value : Bool) (fs : List (Formula α)) :
    ((fs.map (assign a value)).flatMap vars).length ≤
      ((fs.flatMap vars).filter (· ≠ a)).length := by
  induction fs with
  | nil => simp
  | cons f fs ih =>
    have := length_vars_assign a value f
    simp only [List.map_cons, List.flatMap_cons, List.filter_append, List.length_append]
    omega

/-- Fixing a variable that occurs lessens the number of occurrences. -/
theorem length_vars_map_assign_lt {a : α} {fs : List (Formula α)} (h : a ∈ fs.flatMap vars)
    (value : Bool) :
    ((fs.map (assign a value)).flatMap vars).length < (fs.flatMap vars).length :=
  Nat.lt_of_le_of_lt (length_vars_map_assign a value fs)
    (List.length_filter_lt_length_iff_exists.mpr ⟨a, h, by simp⟩)

theorem search_iff (fuel : Nat) (fs : List (Formula α)) (h : (fs.flatMap vars).length ≤ fuel) :
    search fuel fs = true ↔ Satisfiable fs := by
  induction fuel generalizing fs with
  | zero => exact (satisfiable_iff_of_closed (List.length_eq_zero_iff.mp (Nat.le_zero.mp h)) _).symm
  | succ fuel ih =>
    have hs : Satisfiable fs ↔ Satisfiable (fs.flatMap conjuncts) :=
      exists_congr fun v => (satisfies_flatMap_conjuncts v fs).symm
    have hl := Nat.le_trans (length_vars_flatMap_conjuncts fs) h
    rw [hs, search]
    generalize fs.flatMap conjuncts = gs at hl ⊢
    split
    · next hf =>
      obtain ⟨f, hf, hc⟩ := List.any_eq_true.mp hf
      refine ⟨fun h => absurd h Bool.false_ne_true, fun ⟨v, hv⟩ => ?_⟩
      unfold isFalse at hc
      split at hc
      · exact absurd (hv _ hf) Bool.false_ne_true
      · exact absurd hc Bool.false_ne_true
    · split
      · next a value hl' =>
        have ha : a ∈ gs.flatMap vars := by
          obtain ⟨f, hf, hlit⟩ := List.exists_of_findSome?_eq_some hl'
          refine List.mem_flatMap.mpr ⟨f, hf, ?_⟩
          unfold literal? at hlit
          split at hlit <;> simp_all [vars]
        rw [satisfiable_iff_literal hl']
        exact ih _ (by have := length_vars_map_assign_lt ha value; omega)
      · split
        · next hv => exact (satisfiable_iff_of_closed hv _).symm
        · next a rest hv =>
          have ha : a ∈ gs.flatMap vars := hv ▸ List.mem_cons_self
          rw [satisfiable_iff_assign a, Bool.or_eq_true,
            ih _ (by have := length_vars_map_assign_lt ha true; omega),
            ih _ (by have := length_vars_map_assign_lt ha false; omega)]

theorem bySplitting_iff (fs : List (Formula α)) : bySplitting fs = true ↔ Satisfiable fs :=
  search_iff _ fs (Nat.le_refl _)

end Formula
end ProductLine
