import Mathlib.Data.List.Forall2
import ProductLine.Failure

/-! # Outcomes

Steps that may fail but change nothing. A chain of them succeeds exactly if each of them does. -/

namespace ProductLine
namespace Outcome

variable {ε α β : Type}

theorem bind_eq_ok_iff {x : Except ε α} {f : α → Except ε β} {b : β} :
    x >>= f = .ok b ↔ ∃ a, x = .ok a ∧ f a = .ok b := by
  cases x with
  | error e =>
    constructor
    · intro h
      cases h
    · rintro ⟨a, h, -⟩
      cases h
  | ok a =>
    constructor
    · exact fun h => ⟨a, rfl, h⟩
    · rintro ⟨a', h, hf⟩
      cases h
      exact hf

theorem pure_eq_ok_iff {a b : α} : (pure a : Except ε α) = .ok b ↔ a = b := by
  constructor
  · intro h
    cases h
    rfl
  · rintro rfl
    rfl

theorem bind_eq_error_iff {x : Except ε α} {f : α → Except ε β} {e : ε} :
    x >>= f = .error e ↔ x = .error e ∨ ∃ a, x = .ok a ∧ f a = .error e := by
  cases x with
  | error e' =>
    refine ⟨fun h => .inl (congrArg Except.error (Except.error.inj h)), ?_⟩
    rintro (h | ⟨a, h, -⟩)
    · exact congrArg Except.error (Except.error.inj h)
    · cases h
  | ok a =>
    constructor
    · exact fun h => .inr ⟨a, rfl, h⟩
    · rintro (h | ⟨a', h, hf⟩)
      · cases h
      · cases h
        exact hf

theorem pure_ne_error {a : α} {e : ε} : (pure a : Except ε α) ≠ .error e := fun h => nomatch h

theorem mapM_eq_ok_iff {f : α → Except ε β} {l : List α} {bs : List β} :
    l.mapM f = .ok bs ↔ List.Forall₂ (fun a b => f a = .ok b) l bs := by
  induction l generalizing bs with
  | nil =>
    rw [List.mapM_nil, pure_eq_ok_iff, List.forall₂_nil_left_iff]
    exact eq_comm
  | cons a l ih =>
    rw [List.mapM_cons, bind_eq_ok_iff, List.forall₂_cons_left_iff]
    refine exists_congr ?_
    intro b
    rw [bind_eq_ok_iff]
    constructor
    · rintro ⟨hb, bs', hbs, h⟩
      rw [pure_eq_ok_iff] at h
      exact ⟨bs', hb, ih.mp hbs, h.symm⟩
    · rintro ⟨bs', hb, hbs, rfl⟩
      exact ⟨hb, bs', ih.mpr hbs, rfl⟩

theorem mapM_related {γ : Type} {R : β → γ → Prop} {f : α → Except ε β} {g : α → Except ε γ}
    {l : List α} {bs : List β} (h : l.mapM f = .ok bs)
    (step : ∀ a b, f a = .ok b → ∃ c, g a = .ok c ∧ R b c) :
    ∃ cs, l.mapM g = .ok cs ∧ List.Forall₂ R bs cs := by
  rw [mapM_eq_ok_iff] at h
  induction h with
  | nil => exact ⟨[], rfl, .nil⟩
  | cons hb _ ih =>
    obtain ⟨c, hc, hR⟩ := step _ _ hb
    obtain ⟨cs, hcs, hRs⟩ := ih
    refine ⟨c :: cs, mapM_eq_ok_iff.mpr (.cons hc (mapM_eq_ok_iff.mp hcs)), .cons hR hRs⟩

theorem exists_of_mem_mapM {f : α → Except ε β} {l : List α} {bs : List β} (h : l.mapM f = .ok bs) :
    ∀ b ∈ bs, ∃ a ∈ l, f a = .ok b := by
  rw [mapM_eq_ok_iff] at h
  induction h with
  | nil => exact List.forall_mem_nil _
  | cons hb _ ih =>
    refine List.forall_mem_cons.mpr ⟨⟨_, List.mem_cons_self, hb⟩, ?_⟩
    intro b' hb'
    obtain ⟨a, ha, hfa⟩ := ih b' hb'
    exact ⟨a, List.mem_cons_of_mem _ ha, hfa⟩

theorem mem_mapM_iff {f : α → Except ε β} {l : List α} {bs : List β} (h : l.mapM f = .ok bs) {b : β} :
    b ∈ bs ↔ ∃ a ∈ l, f a = .ok b := by
  refine ⟨exists_of_mem_mapM h b, ?_⟩
  rw [mapM_eq_ok_iff] at h
  rintro ⟨a, ha, hb⟩
  induction h with
  | nil => cases ha
  | cons hb' _ ih =>
    rcases List.mem_cons.mp ha with rfl | ha
    · cases hb.symm.trans hb'
      exact List.mem_cons_self
    · exact List.mem_cons_of_mem _ (ih ha)

theorem mapM_total {f : α → Except ε β} {l : List α} (step : ∀ a ∈ l, ∃ b, f a = .ok b) :
    ∃ bs, l.mapM f = .ok bs := by
  induction l with
  | nil => exact ⟨[], rfl⟩
  | cons a l ih =>
    rw [List.forall_mem_cons] at step
    obtain ⟨b, hb⟩ := step.1
    obtain ⟨bs, hbs⟩ := ih step.2
    exact ⟨b :: bs, mapM_eq_ok_iff.mpr (.cons hb (mapM_eq_ok_iff.mp hbs))⟩

/-- Steps succeed one after the other exactly if each of them does. -/
theorem exists_mapM_iff {f : α → Except ε β} {l : List α} :
    (∃ bs, l.mapM f = .ok bs) ↔ ∀ a ∈ l, ∃ b, f a = .ok b := by
  refine ⟨?_, mapM_total⟩
  rintro ⟨bs, h⟩
  rw [mapM_eq_ok_iff] at h
  induction h with
  | nil => exact List.forall_mem_nil _
  | cons hb _ ih => exact List.forall_mem_cons.mpr ⟨⟨_, hb⟩, ih⟩

/-- Steps fail one after the other as the first one does that fails. -/
theorem mapM_eq_error_iff {f : α → Except ε β} {l : List α} {e : ε} :
    l.mapM f = .error e ↔ ∃ before a after, l = before ++ a :: after ∧
      (∀ b ∈ before, ∃ x, f b = .ok x) ∧ f a = .error e := by
  induction l with
  | nil =>
    refine iff_of_false (fun h => nomatch h) ?_
    rintro ⟨before, a, after, h, -⟩
    exact List.append_ne_nil_of_right_ne_nil before (List.cons_ne_nil a after) h.symm
  | cons a l ih =>
    have hstep : (a :: l).mapM f = .error e ↔
        f a = .error e ∨ ∃ x, f a = .ok x ∧ l.mapM f = .error e := by
      simp only [List.mapM_cons, bind_eq_error_iff, pure_ne_error, and_false, exists_false, or_false]
    rw [hstep, ih]
    constructor
    · rintro (ha | ⟨x, ha, before, b, after, rfl, hbefore, hb⟩)
      · exact ⟨[], a, l, rfl, List.forall_mem_nil _, ha⟩
      · exact ⟨a :: before, b, after, rfl, List.forall_mem_cons.mpr ⟨⟨x, ha⟩, hbefore⟩, hb⟩
    · rintro ⟨before, b, after, hl, hbefore, hb⟩
      cases before with
      | nil =>
        cases hl
        exact .inl hb
      | cons c before =>
        cases hl
        obtain ⟨⟨x, hx⟩, hbefore⟩ := List.forall_mem_cons.mp hbefore
        exact .inr ⟨x, hx, before, b, after, rfl, hbefore, hb⟩

theorem foldlM_ok {I : β → Prop} {f : β → α → Except ε β} {l : List α} {b b' : β}
    (h : l.foldlM f b = .ok b') (hb : I b)
    (step : ∀ b, ∀ a ∈ l, ∀ b', I b → f b a = .ok b' → I b') : I b' := by
  induction l generalizing b with
  | nil =>
    rw [List.foldlM_nil, pure_eq_ok_iff] at h
    exact h ▸ hb
  | cons a l ih =>
    rw [List.foldlM_cons, bind_eq_ok_iff] at h
    obtain ⟨c, hc, h⟩ := h
    exact ih h (step b a List.mem_cons_self c hb hc) fun b a' ha' =>
      step b a' (List.mem_cons_of_mem _ ha')

theorem foldlM_total {f : β → α → Except ε β} {l : List α}
    (step : ∀ b, ∀ a ∈ l, ∃ b', f b a = .ok b') (b : β) : ∃ b', l.foldlM f b = .ok b' := by
  induction l generalizing b with
  | nil => exact ⟨b, rfl⟩
  | cons a l ih =>
    obtain ⟨c, hc⟩ := step b a List.mem_cons_self
    obtain ⟨b', hb'⟩ := ih (fun b a' ha' => step b a' (List.mem_cons_of_mem _ ha')) c
    rw [List.foldlM_cons]
    exact ⟨b', bind_eq_ok_iff.mpr ⟨c, hc, hb'⟩⟩

/-! ### Failures that do not occur -/

theorem bind_ne_error {x : Except ε α} {f : α → Except ε β} {e : ε} (hx : x ≠ .error e)
    (hf : ∀ a, f a ≠ .error e) : x >>= f ≠ .error e := by
  rw [Ne, bind_eq_error_iff]
  rintro (h | ⟨a, -, h⟩)
  · exact hx h
  · exact hf a h

theorem mapM_ne_error {f : α → Except ε β} {l : List α} {e : ε} (hf : ∀ a, f a ≠ .error e) :
    l.mapM f ≠ .error e := by
  induction l with
  | nil => exact fun h => nomatch h
  | cons a l ih =>
    rw [List.mapM_cons]
    exact bind_ne_error (hf a) fun _ => bind_ne_error ih fun _ h => nomatch h

theorem foldlM_ne_error {f : β → α → Except ε β} {l : List α} {b : β} {e : ε}
    (hf : ∀ b a, f b a ≠ .error e) : l.foldlM f b ≠ .error e := by
  induction l generalizing b with
  | nil => exact fun h => nomatch h
  | cons a l ih =>
    rw [List.foldlM_cons]
    exact bind_ne_error (hf b a) fun _ => ih

end Outcome
end ProductLine
