import ProductLine.Logic.Clause
import ProductLine.Logic.Formula
import Std.Data.HashMap

/-! # Clauses of formulas

`Formula.asserted` breaks the statement that a formula is true, or that it is false, up into
alternatives: lists of such statements about smaller formulas, one of which is right. Where that
would multiply them, a part of the formula stands for itself, and further alternatives say what it
means. A `Numbering` gives the formulas numbers, by which alternatives become clauses. -/

namespace ProductLine
namespace Formula

variable {α : Type}

/-- Statements that formulas have values, one of which is right. -/
abbrev Alternatives (α : Type) := List (Formula α × Bool)

/-- One of the statements is right under an assignment. -/
def Alternatives.Hold (v : α → Bool) (c : Alternatives α) : Prop := ∃ l ∈ c, l.1.eval v = l.2

/-- What holds if a formula is true, what holds if it is false, and what holds anyway. -/
structure Sides (α : Type) where
  yes : List (Alternatives α)
  no : List (Alternatives α)
  anyway : List (Alternatives α)

namespace Sides

variable (s : Sides α)

/-- What holds if the formula has a value. -/
def side (value : Bool) : List (Alternatives α) := if value then s.yes else s.no

/-- What a formula means, of which these are the sides. -/
def definition (f : Formula α) : List (Alternatives α) :=
  s.yes.map ((f, false) :: ·) ++ s.no.map ((f, true) :: ·)

/-- A formula that stands for itself. -/
def named (f : Formula α) : Sides α :=
  ⟨[[(f, true)]], [[(f, false)]], s.definition f ++ s.anyway⟩

/-- A formula that stands for itself, unless each side is a single statement already. -/
def single (f : Formula α) : Sides α :=
  match s.yes, s.no with
  | [[_]], [[_]] => s
  | _, _ => s.named f

end Sides

def weight (cs : List (Alternatives α)) : Nat := cs.foldl (fun n c => n + c.length) 0

/-- Whether few statements come of joining each alternatives of one list with each of another. -/
def fewJoined (cs ds : List (Alternatives α)) : Bool :=
  match cs, ds with
  | [], _ | _, [] | [_], [_] => true
  | _, _ =>
    let (m, n) := (weight cs, weight ds)
    cs.length * n + ds.length * m ≤ 2 * (m + n) + 64

/-- Each alternatives of one list joined with each of another. -/
def product (cs ds : List (Alternatives α)) : List (Alternatives α) :=
  cs.flatMap fun c => ds.map (c ++ ·)

/-- What holds if one of two formulas has a value, and what holds anyway. -/
def disjoin (f g : Formula α) (s t : Sides α) (a b : Bool) :
    List (Alternatives α) × List (Alternatives α) :=
  let (cs, ds) := (s.side a, t.side b)
  if fewJoined cs ds then (product cs ds, [])
  else if ds.length ≤ cs.length then (product [[(f, a)]] ds, s.definition f)
  else (product cs [[(g, b)]], t.definition g)

def sides : Formula α → Sides α
  | const true => ⟨[], [[]], []⟩
  | const false => ⟨[[]], [], []⟩
  | var a => ⟨[[(var a, true)]], [[(var a, false)]], []⟩
  | not f =>
    let s := f.sides
    ⟨s.no, s.yes, s.anyway⟩
  | and f g =>
    let (s, t) := (f.sides, g.sides)
    let (no, more) := disjoin f g s t false false
    ⟨s.yes ++ t.yes, no, more ++ s.anyway ++ t.anyway⟩
  | or f g =>
    let (s, t) := (f.sides, g.sides)
    let (yes, more) := disjoin f g s t true true
    ⟨yes, s.no ++ t.no, more ++ s.anyway ++ t.anyway⟩
  | implies f g =>
    let (s, t) := (f.sides, g.sides)
    let (yes, more) := disjoin f g s t false true
    ⟨yes, s.yes ++ t.no, more ++ s.anyway ++ t.anyway⟩
  | iff f g =>
    let (s, t) := (f.sides.single f, g.sides.single g)
    ⟨product s.no t.yes ++ product s.yes t.no, product s.yes t.yes ++ product s.no t.no,
      s.anyway ++ t.anyway⟩

/-- What holds if a formula has a value, conjunctions taken apart first. -/
def asserted : Formula α → Bool → List (Alternatives α)
  | not f, b => asserted f !b
  | and f g, true => asserted f true ++ asserted g true
  | or f g, false => asserted f false ++ asserted g false
  | implies f g, false => asserted f true ++ asserted g false
  | f, b => f.sides.side b ++ f.sides.anyway

/-! ### What is asserted holds -/

section
variable {v : α → Bool}

def AllHold (v : α → Bool) (cs : List (Alternatives α)) : Prop := ∀ c ∈ cs, c.Hold v

theorem allHold_nil : AllHold v [] := List.forall_mem_nil _

theorem allHold_append {cs ds : List (Alternatives α)} (hc : AllHold v cs) (hd : AllHold v ds) :
    AllHold v (cs ++ ds) := List.forall_mem_append.mpr ⟨hc, hd⟩

theorem allHold_single {f : Formula α} {b : Bool} (h : f.eval v = b) : AllHold v [[(f, b)]] := by
  simpa [AllHold, Alternatives.Hold] using h

theorem allHold_product {cs ds : List (Alternatives α)} (h : AllHold v cs ∨ AllHold v ds) :
    AllHold v (product cs ds) := by
  intro e he
  simp only [product, List.mem_flatMap, List.mem_map] at he
  obtain ⟨c, hc, d, hd, rfl⟩ := he
  rcases h with h | h
  · obtain ⟨l, hl, hold⟩ := h c hc
    exact ⟨l, List.mem_append_left _ hl, hold⟩
  · obtain ⟨l, hl, hold⟩ := h d hd
    exact ⟨l, List.mem_append_right _ hl, hold⟩

/-- The sides say what is true of a formula. -/
structure Sides.Sound (s : Sides α) (f : Formula α) (v : α → Bool) : Prop where
  side : ∀ b, f.eval v = b → AllHold v (s.side b)
  anyway : AllHold v s.anyway

theorem Sides.Sound.definition {s : Sides α} {f : Formula α} (h : s.Sound f v) :
    AllHold v (s.definition f) := by
  refine allHold_append ?_ ?_
  · intro c hc
    obtain ⟨d, hd, rfl⟩ := List.mem_map.mp hc
    cases hf : f.eval v
    · exact ⟨_, List.mem_cons_self, hf⟩
    · obtain ⟨l, hl, hold⟩ := h.side true hf d hd
      exact ⟨l, List.mem_cons_of_mem _ hl, hold⟩
  · intro c hc
    obtain ⟨d, hd, rfl⟩ := List.mem_map.mp hc
    cases hf : f.eval v
    · obtain ⟨l, hl, hold⟩ := h.side false hf d hd
      exact ⟨l, List.mem_cons_of_mem _ hl, hold⟩
    · exact ⟨_, List.mem_cons_self, hf⟩

theorem Sides.Sound.single {s : Sides α} {f : Formula α} (h : s.Sound f v) :
    (s.single f).Sound f v := by
  unfold Sides.single
  split
  · exact h
  · refine ⟨fun b hb => ?_, allHold_append h.definition h.anyway⟩
    cases b <;> exact allHold_single hb

theorem disjoin_sound {f g : Formula α} {s t : Sides α} (hs : s.Sound f v) (ht : t.Sound g v)
    (a b : Bool) :
    (f.eval v = a ∨ g.eval v = b → AllHold v (disjoin f g s t a b).1) ∧
      AllHold v (disjoin f g s t a b).2 := by
  simp only [disjoin]
  split
  · exact ⟨fun h => allHold_product (h.imp (hs.side a) (ht.side b)), allHold_nil⟩
  · split
    · exact ⟨fun h => allHold_product (h.imp allHold_single (ht.side b)), hs.definition⟩
    · exact ⟨fun h => allHold_product (h.imp (hs.side a) allHold_single), ht.definition⟩

theorem sides_sound (f : Formula α) (v : α → Bool) : f.sides.Sound f v := by
  induction f with
  | const b => cases b <;> exact ⟨by simp [sides, Sides.side, AllHold, eval], allHold_nil⟩
  | var a =>
    exact ⟨fun b h => by cases b <;> exact allHold_single h, allHold_nil⟩
  | not f ih =>
    refine ⟨fun b h => ?_, ih.anyway⟩
    cases b
    · exact ih.side true (by simpa [eval] using h)
    · exact ih.side false (by simpa [eval] using h)
  | and f g ihf ihg =>
    obtain ⟨hno, hmore⟩ := disjoin_sound ihf ihg false false
    refine ⟨fun b h => ?_, allHold_append (allHold_append hmore ihf.anyway) ihg.anyway⟩
    cases b
    · exact hno (Bool.and_eq_false_iff.mp h)
    · rw [eval, Bool.and_eq_true] at h
      exact allHold_append (ihf.side true h.1) (ihg.side true h.2)
  | or f g ihf ihg =>
    obtain ⟨hyes, hmore⟩ := disjoin_sound ihf ihg true true
    refine ⟨fun b h => ?_, allHold_append (allHold_append hmore ihf.anyway) ihg.anyway⟩
    cases b
    · rw [eval, Bool.or_eq_false_iff] at h
      exact allHold_append (ihf.side false h.1) (ihg.side false h.2)
    · exact hyes (by simpa [eval] using h)
  | implies f g ihf ihg =>
    obtain ⟨hyes, hmore⟩ := disjoin_sound ihf ihg false true
    refine ⟨fun b h => ?_, allHold_append (allHold_append hmore ihf.anyway) ihg.anyway⟩
    cases b
    · rw [eval, Bool.or_eq_false_iff] at h
      exact allHold_append (ihf.side true (by simpa using h.1)) (ihg.side false h.2)
    · exact hyes (by simpa [eval] using h)
  | iff f g ihf ihg =>
    have hf := ihf.single
    have hg := ihg.single
    refine ⟨fun b h => ?_, allHold_append hf.anyway hg.anyway⟩
    rw [eval] at h
    cases b <;> cases ef : f.eval v <;> cases eg : g.eval v <;> simp [ef, eg] at h
    all_goals
      have := hf.side _ ef
      have := hg.side _ eg
      refine allHold_append (allHold_product ?_) (allHold_product ?_) <;> simp_all [Sides.side]

theorem asserted_sound (f : Formula α) (b : Bool) (v : α → Bool) (h : f.eval v = b) :
    AllHold v (f.asserted b) := by
  fun_induction asserted f b with
  | case1 f b ih => exact ih (by simpa [eval] using congrArg (!·) h)
  | case2 f g ihf ihg =>
    rw [eval, Bool.and_eq_true] at h
    exact allHold_append (ihf h.1) (ihg h.2)
  | case3 f g ihf ihg =>
    rw [eval, Bool.or_eq_false_iff] at h
    exact allHold_append (ihf h.1) (ihg h.2)
  | case4 f g ihf ihg =>
    rw [eval, Bool.or_eq_false_iff] at h
    exact allHold_append (ihf (by simpa using h.1)) (ihg h.2)
  | case5 f b => exact allHold_append ((sides_sound f v).side b h) (sides_sound f v).anyway

end

/-! ### Numbers -/

variable [DecidableEq α] [Hashable α]

/-- Formulas and their numbers. -/
structure Numbering (α : Type) [DecidableEq α] [Hashable α] where
  numbers : Std.HashMap (Formula α) Nat
  formulas : Array (Formula α)

namespace Numbering

def empty : Numbering α := ⟨∅, #[]⟩

variable (n : Numbering α)

def add (f : Formula α) : Numbering α :=
  if n.numbers.contains f then n
  else ⟨n.numbers.insert f n.formulas.size, n.formulas.push f⟩

/-- The formulas that alternatives speak of. -/
def ofAlternatives (cs : List (Alternatives α)) : Numbering α :=
  cs.foldl (fun n c => c.foldl (fun n l => n.add l.1) n) empty

def number (f : Formula α) : Nat := n.numbers.getD f 0

def formula (i : Nat) : Formula α := n.formulas.getD i (const false)

/-- The values that formulas have under an assignment, by their numbers. -/
def values (v : α → Bool) (i : Nat) : Bool := (n.formula i).eval v

/-- The values come from an assignment that makes every formula of a list true. -/
def Meets (fs : List (Formula α)) (w : Nat → Bool) : Prop := ∃ v, Satisfies v fs ∧ w = n.values v

/-- The clause for alternatives that hold whenever every formula of a list is true, if all formulas
they speak of have numbers. -/
def clause? (fs : List (Formula α)) (c : Alternatives α) (h : ∀ v, Satisfies v fs → c.Hold v) :
    Option (Clause (n.Meets fs)) :=
  if known : c.all (fun l => n.formula (n.number l.1) == l.1) = true then
    some
      { literals :=
          Clause.distinct ((c.map fun l => Literal.ofValue (n.number l.1) l.2).mergeSort)
        some_holds := fun w ⟨v, hv, hw⟩ => by
          obtain ⟨l, hl, hold⟩ := h v hv
          refine ⟨_, Clause.mem_distinct.mpr (List.mem_mergeSort.mpr (List.mem_map_of_mem hl)), ?_⟩
          have same : n.formula (n.number l.1) = l.1 := by
            simpa using List.all_eq_true.mp known l hl
          rw [Literal.holds_ofValue, hw, values, same, hold, beq_self_eq_true] }
  else none

/-- The clauses for all alternatives that hold whenever every formula of a list is true. -/
def clauses (fs : List (Formula α)) (cs : List (Alternatives α))
    (h : ∀ v, Satisfies v fs → AllHold v cs) : List (Clause (n.Meets fs)) :=
  cs.attach.filterMap fun ⟨c, hc⟩ => n.clause? fs c fun v hv => h v hv c hc

end Numbering

omit [DecidableEq α] [Hashable α] in
/-- What holds if every formula of a list is true. -/
def demands (fs : List (Formula α)) : List (Alternatives α) := fs.flatMap (asserted · true)

omit [DecidableEq α] [Hashable α] in
theorem demands_sound (fs : List (Formula α)) (v : α → Bool) (h : Satisfies v fs) :
    AllHold v (demands fs) := by
  intro c hc
  obtain ⟨f, hf, hc⟩ := List.mem_flatMap.mp hc
  exact asserted_sound f true v (h f hf) c hc

end Formula
end ProductLine
