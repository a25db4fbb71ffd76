import ProductLine.Proofs.Diagnosis.Sound

/-! # Limits only cut

What limits do to an enumeration that accepts certain branches without them. It either accepts all of
them, each of which was within the limits, or it was cut off (`Cut`): what it accepted is where the
branches begin, and the next one is beyond a limit, or too much time had elapsed at one of the looks at
the clock. From how enumerations end (`Ends`) follows what each of the limits does by itself
(`OnlyCut`), if the branches stand in the order of their depths. -/

namespace ProductLine
namespace Diagnosis

variable {all bs : List Branch} {b : Branch} {limits : Limits} {elapsed : Nat → Int}

/-- How often a limit in time is looked at: once for every constraint of every diagnosis. -/
def looks : List Branch → Nat
  | [] => 0
  | b :: bs => b.diagnosis.length + looks bs

theorem looks_append (bs cs : List Branch) : looks (bs ++ cs) = looks bs + looks cs := by
  induction bs with
  | nil => rw [List.nil_append, looks, Nat.zero_add]
  | cons b bs ih => rw [List.cons_append, looks, looks, ih, Nat.add_assoc]

theorem looks_mono {cs : List Branch} (h : bs <+: cs) : looks bs ≤ looks cs := by
  obtain ⟨ds, rfl⟩ := h
  rw [looks_append]
  exact Nat.le_add_right _ _

namespace Limits

/-! ### Limits that are numbers -/

theorem Numeric.not_refuses (h : limits.Numeric) {failure : Failure} : ¬limits.Refuses failure :=
  fun hr => hr.1 h

theorem overtime?_of_untimed (h : limits.timed = false) (elapsed : Int) :
    limits.overtime? elapsed = .ok .none := by
  have hnull : limits.seconds = .null := by
    unfold timed at h
    split at h
    · assumption
    · cases h
  unfold overtime?
  rw [hnull]
  rfl

theorem numeric_none : Limits.none.Numeric :=
  List.forall_mem_cons.mpr ⟨.inl rfl,
    List.forall_mem_cons.mpr ⟨.inl rfl, List.forall_mem_singleton.mpr (.inl rfl)⟩⟩

theorem numeric_diagnoses (most : Int) : Numeric ⟨.int most, .null, .null⟩ :=
  List.forall_mem_cons.mpr ⟨.inr rfl,
    List.forall_mem_cons.mpr ⟨.inl rfl, List.forall_mem_singleton.mpr (.inl rfl)⟩⟩

theorem numeric_depth (deepest : Int) : Numeric ⟨.null, .int deepest, .null⟩ :=
  List.forall_mem_cons.mpr ⟨.inl rfl,
    List.forall_mem_cons.mpr ⟨.inr rfl, List.forall_mem_singleton.mpr (.inl rfl)⟩⟩

theorem numeric_seconds {longest : Value} {n : Number} (h : number? longest = .ok (some n)) :
    Numeric ⟨.null, .null, longest⟩ := by
  refine List.forall_mem_cons.mpr ⟨.inl rfl,
    List.forall_mem_cons.mpr ⟨.inl rfl, List.forall_mem_singleton.mpr (.inr ?_)⟩⟩
  show longest.number?.isSome = true
  unfold number? at h
  split at h
  · cases h
  · next hsome => rw [hsome, Option.isSome_some]
  · cases h

theorem stop?_diagnoses (most count depth : Nat) : stop? ⟨.int most, .null, .null⟩ count depth =
    .ok (if most ≤ count then some (.diagnoses (.int most)) else .none) := by
  have hrun : stop? ⟨.int most, .null, .null⟩ count depth =
      .ok (if (Number.int most).leInt count then some (.diagnoses (.int most)) else .none) := by
    show (if (Number.int most).leInt count = true then _ else _) = _
    split <;> rfl
  rw [hrun, Number.leInt_int]
  simp only [decide_eq_true_eq, Int.ofNat_le]

theorem stop?_depth (deepest count depth : Nat) : stop? ⟨.null, .int deepest, .null⟩ count depth =
    .ok (if deepest < depth then some (.depth (.int deepest)) else .none) := by
  have hrun : stop? ⟨.null, .int deepest, .null⟩ count depth =
      .ok (if (Number.int deepest).ltInt depth then some (.depth (.int deepest)) else .none) := by
    show (if (Number.int deepest).ltInt depth = true then _ else _) = _
    split <;> rfl
  rw [hrun, Number.ltInt_int]
  simp only [decide_eq_true_eq, Int.ofNat_lt]

theorem overtime?_seconds {longest : Value} {n : Number} (h : number? longest = .ok (some n))
    (elapsed : Int) : overtime? ⟨.null, .null, longest⟩ elapsed =
      .ok (if n.ltInt elapsed then some (.seconds longest) else .none) := by
  unfold overtime?
  rw [h]
  show (if n.ltInt elapsed = true then _ else _) = _
  split <;> rfl

/-! ### Cuts -/

/-- Each branch but the first was within the limits when it was accepted. -/
def Admits (limits : Limits) (bs : List Branch) : Prop :=
  ∀ done b, done ++ [b] <+: bs → done ≠ [] → limits.stop? done.length b.depth = .ok .none

theorem Admits.append (h : limits.Admits bs) (hb : limits.stop? bs.length b.depth = .ok .none) :
    limits.Admits (bs ++ [b]) := by
  intro done c hprefix hne
  rcases List.prefix_concat_iff.mp hprefix with hlast | hearlier
  · obtain ⟨rfl, hcb⟩ := List.append_inj' hlast rfl
    rw [List.singleton_inj.mp hcb]
    exact hb
  · exact h done c hearlier hne

theorem admits_nil : limits.Admits [] :=
  fun _ _ hprefix _ => absurd (List.prefix_nil.mp hprefix) (List.concat_ne_nil _ _)

theorem admits_singleton (b : Branch) : limits.Admits [b] := by
  intro done c hprefix hne
  have hlength := hprefix.length_le
  rw [List.length_append, List.length_singleton, List.length_singleton] at hlength
  exact absurd (List.eq_nil_of_length_eq_zero (by omega)) hne

/-- Why an enumeration with limits ends before it has accepted all branches. -/
inductive Cause (limits : Limits) (elapsed : Nat → Int) (all accepted : List Branch)
    (limit : Limit) : Prop where
  | branch {b : Branch} (hnext : accepted ++ [b] <+: all)
    (hstop : limits.stop? accepted.length b.depth = .ok (some limit))
  | check {k : Nat} (hpos : 1 ≤ k) (hle : k ≤ looks all)
    (hover : limits.overtime? (elapsed k) = .ok (some limit))

/-- A search was cut off by a limit. -/
structure Cut (limits : Limits) (elapsed : Nat → Int) (all : List Branch) (s : Search) : Prop where
  part : s.accepted <+: all
  admitted : limits.Admits s.accepted
  cause : ∃ limit, s.stopped = some limit ∧ Cause limits elapsed all s.accepted limit

theorem Cut.stopped {s : Search} (h : Cut limits elapsed all s) : s.stopped.isSome := by
  obtain ⟨limit, hstopped, -⟩ := h.cause
  rw [hstopped, Option.isSome_some]

theorem Cut.mono {more : List Branch} {s : Search} (h : Cut limits elapsed all s)
    (hmore : all <+: more) : Cut limits elapsed more s := by
  obtain ⟨limit, hstopped, hcause⟩ := h.cause
  refine ⟨h.part.trans hmore, h.admitted, limit, hstopped, ?_⟩
  cases hcause with
  | branch hnext hstop => exact .branch (hnext.trans hmore) hstop
  | check hpos hle hover => exact .check hpos (Nat.le_trans hle (looks_mono hmore)) hover

/-- A search accepted all branches, and none of them nor any look at the clock was beyond a limit. -/
structure Whole (limits : Limits) (elapsed : Nat → Int) (all : List Branch) (s : Search) : Prop where
  accepted : s.accepted = all
  stopped : s.stopped = .none
  admitted : limits.Admits all
  passed : ∀ k, 1 ≤ k → k ≤ looks all → limits.overtime? (elapsed k) = .ok .none

/-- How a search with limits ends that accepts certain branches without them. -/
def Ends (limits : Limits) (elapsed : Nat → Int) (all : List Branch) (s : Search) : Prop :=
  limits.Whole elapsed all s ∨ limits.Cut elapsed all s

theorem not_cut_none {s : Search} : ¬Limits.none.Cut elapsed all s := by
  intro h
  obtain ⟨limit, -, hcause⟩ := h.cause
  cases hcause with
  | branch hnext hstop => cases hstop
  | check hpos hle hover => cases hover

end Limits

/-! ### Single limits -/

/-- The branches stand in the order of their depths, which begin with zero. -/
structure Tiered (all : List Branch) : Prop where
  sorted : all.Pairwise (·.depth ≤ ·.depth)
  top : ∀ b, [b] <+: all → b.depth = 0

theorem tiered_nil : Tiered [] :=
  ⟨.nil, fun _ hprefix => absurd (List.prefix_nil.mp hprefix) (List.cons_ne_nil _ _)⟩

theorem length_le_of_admits {most : Nat} (hmost : 1 ≤ most)
    (h : Limits.Admits ⟨.int most, .null, .null⟩ bs) : bs.length ≤ most := by
  rcases List.eq_nil_or_concat bs with rfl | ⟨done, b, rfl⟩
  · exact Nat.zero_le _
  · rw [List.concat_eq_append] at h ⊢
    rw [List.length_append, List.length_singleton]
    by_cases hnil : done = []
    · rw [hnil]
      exact hmost
    · have hlast := h done b List.prefix_rfl hnil
      rw [Limits.stop?_diagnoses] at hlast
      split at hlast
      · cases hlast
      · omega

theorem depth_le_of_admits {deepest : Nat} (hall : Tiered all) (hpart : bs <+: all)
    (h : Limits.Admits ⟨.null, .int deepest, .null⟩ bs) : ∀ b ∈ bs, b.depth ≤ deepest := by
  intro b hb
  obtain ⟨done, rest, rfl⟩ := List.append_of_mem hb
  have hextends : done ++ [b] <+: done ++ b :: rest :=
    ⟨rest, by rw [List.append_assoc, List.singleton_append]⟩
  by_cases hnil : done = []
  · rw [hnil, List.nil_append] at hextends
    rw [hnil, List.nil_append] at hpart
    rw [hall.top b (hextends.trans hpart)]
    exact Nat.zero_le _
  · have hlast := h done b hextends hnil
    rw [Limits.stop?_depth] at hlast
    split at hlast
    · cases hlast
    · omega

/-- What limits do to an enumeration. Without them it ends with all branches; time is looked at as often
as these have constraints, and then some time has elapsed. -/
structure OnlyCut (ends : Limits → Enumeration → Prop) (elapsed : Nat → Int) (all : List Branch) :
    Prop where
  whole : ends Limits.none ⟨all.map (·.diagnosis), none⟩
  part : ∀ limits : Limits, limits.Numeric → ∃ found, ends limits found ∧
    (found = ⟨all.map (·.diagnosis), none⟩ ∨
      found.stopped.isSome ∧ found.diagnoses <+: all.map (·.diagnosis))
  diagnoses : ∀ most : Nat, 1 ≤ most → ∃ found, ends ⟨.int most, .null, .null⟩ found ∧
    (found.stopped.isSome ↔ most < all.length) ∧
    (found.stopped.isSome → found.diagnoses = (all.take most).map (·.diagnosis))
  depth : ∀ deepest : Nat, ∃ found, ends ⟨.null, .int deepest, .null⟩ found ∧
    (found.stopped.isSome ↔ ∃ b ∈ all, deepest < b.depth) ∧
    (found.stopped.isSome →
      found.diagnoses = (all.filter fun b => b.depth ≤ deepest).map (·.diagnosis))
  seconds : ∀ (longest : Value) (n : Number), Limits.number? longest = .ok (some n) →
    ∃ found, ends ⟨.null, .null, longest⟩ found ∧
      (found.stopped.isSome ↔ ∃ k, 1 ≤ k ∧ k ≤ looks all ∧ n.ltInt (elapsed k))

section ends

variable {s : Search}

theorem Limits.Ends.part (h : limits.Ends elapsed all s) :
    (⟨s.diagnoses, s.stopped⟩ : Enumeration) = ⟨all.map (·.diagnosis), .none⟩ ∨
      s.stopped.isSome ∧ s.diagnoses <+: all.map (·.diagnosis) := by
  cases h with
  | inl hwhole =>
    left
    unfold Search.diagnoses
    rw [hwhole.accepted, hwhole.stopped]
  | inr hcut => exact .inr ⟨hcut.stopped, hcut.part.map _⟩

theorem Limits.Ends.diagnoses {most : Nat} (hmost : 1 ≤ most)
    (h : Limits.Ends ⟨.int most, .null, .null⟩ elapsed all s) :
    (s.stopped.isSome ↔ most < all.length) ∧
      (s.stopped.isSome → s.diagnoses = (all.take most).map (·.diagnosis)) := by
  cases h with
  | inl hwhole =>
    have hle := length_le_of_admits hmost hwhole.admitted
    rw [hwhole.stopped]
    exact ⟨⟨fun hsome => absurd hsome Bool.false_ne_true, fun hlt => by omega⟩,
      fun hsome => absurd hsome Bool.false_ne_true⟩
  | inr hcut =>
    have hle := length_le_of_admits hmost hcut.admitted
    obtain ⟨limit, -, hcause⟩ := hcut.cause
    cases hcause with
    | branch hnext hstop =>
      rw [Limits.stop?_diagnoses] at hstop
      have hge : most ≤ s.accepted.length := by
        by_contra hnot
        rw [if_neg hnot] at hstop
        cases hstop
      have hmore := hnext.length_le
      rw [List.length_append, List.length_singleton] at hmore
      have htake : s.accepted = all.take most := by
        rw [List.prefix_iff_eq_take.mp hcut.part, Nat.le_antisymm hle hge]
      exact ⟨⟨fun _ => by omega, fun _ => hcut.stopped⟩, fun _ => congrArg _ htake⟩
    | check hpos hk hover => cases hover

theorem Limits.Ends.depth {deepest : Nat} (hall : Tiered all)
    (h : Limits.Ends ⟨.null, .int deepest, .null⟩ elapsed all s) :
    (s.stopped.isSome ↔ ∃ b ∈ all, deepest < b.depth) ∧
      (s.stopped.isSome →
        s.diagnoses = (all.filter fun b => b.depth ≤ deepest).map (·.diagnosis)) := by
  cases h with
  | inl hwhole =>
    have hle := depth_le_of_admits hall List.prefix_rfl hwhole.admitted
    rw [hwhole.stopped]
    refine ⟨⟨fun hsome => absurd hsome Bool.false_ne_true, ?_⟩,
      fun hsome => absurd hsome Bool.false_ne_true⟩
    rintro ⟨b, hb, hlt⟩
    exact absurd (hle b hb) (Nat.not_le_of_lt hlt)
  | inr hcut =>
    have hle := depth_le_of_admits hall hcut.part hcut.admitted
    obtain ⟨limit, -, hcause⟩ := hcut.cause
    cases hcause with
    | @branch b hnext hstop =>
      rw [Limits.stop?_depth] at hstop
      have hlt : deepest < b.depth := by
        by_contra hnot
        rw [if_neg hnot] at hstop
        cases hstop
      obtain ⟨rest, hsplit⟩ := hnext
      rw [List.append_assoc, List.singleton_append] at hsplit
      -- what comes after the branch is as deep
      have hbeyond : ∀ c ∈ b :: rest, deepest < c.depth := by
        have hsorted := hall.sorted
        rw [← hsplit, List.pairwise_append, List.pairwise_cons] at hsorted
        exact List.forall_mem_cons.mpr
          ⟨hlt, fun c hc => Nat.lt_of_lt_of_le hlt (hsorted.2.1.1 c hc)⟩
      have hfilter : s.accepted = all.filter fun b => b.depth ≤ deepest := by
        rw [← hsplit, List.filter_append, List.filter_eq_self.mpr fun c hc =>
          decide_eq_true (hle c hc), List.filter_eq_nil_iff.mpr, List.append_nil]
        intro c hc
        rw [decide_eq_true_eq]
        exact Nat.not_le_of_lt (hbeyond c hc)
      refine ⟨⟨fun _ => ⟨b, ?_, hlt⟩, fun _ => hcut.stopped⟩, fun _ => congrArg _ hfilter⟩
      rw [← hsplit]
      exact List.mem_append_right _ List.mem_cons_self
    | check hpos hk hover => cases hover

theorem Limits.Ends.seconds {longest : Value} {n : Number}
    (hn : Limits.number? longest = .ok (some n))
    (h : Limits.Ends ⟨.null, .null, longest⟩ elapsed all s) :
    s.stopped.isSome ↔ ∃ k, 1 ≤ k ∧ k ≤ looks all ∧ n.ltInt (elapsed k) := by
  cases h with
  | inl hwhole =>
    rw [hwhole.stopped]
    refine ⟨fun hsome => absurd hsome Bool.false_ne_true, ?_⟩
    rintro ⟨k, hpos, hk, hlt⟩
    have hpassed := hwhole.passed k hpos hk
    rw [Limits.overtime?_seconds hn, if_pos hlt] at hpassed
    cases hpassed
  | inr hcut =>
    refine ⟨fun _ => ?_, fun _ => hcut.stopped⟩
    obtain ⟨limit, -, hcause⟩ := hcut.cause
    cases hcause with
    | branch hnext hstop => cases hstop
    | @check k hpos hk hover =>
      refine ⟨k, hpos, hk, ?_⟩
      by_contra hnot
      rw [Limits.overtime?_seconds hn, if_neg hnot] at hover
      cases hover

end ends

/-- It is enough to know how the searches with limits end. -/
theorem only_cut {ends : Limits → Enumeration → Prop} (hall : Tiered all)
    (h : ∀ limits : Limits, limits.Numeric →
      ∃ s : Search, ends limits ⟨s.diagnoses, s.stopped⟩ ∧ limits.Ends elapsed all s) :
    OnlyCut ends elapsed all where
  whole := by
    obtain ⟨s, hends, hwhole | hcut⟩ := h Limits.none Limits.numeric_none
    · unfold Search.diagnoses at hends
      rw [hwhole.accepted, hwhole.stopped] at hends
      exact hends
    · exact absurd hcut Limits.not_cut_none
  part limits hlimits := by
    obtain ⟨s, hends, hs⟩ := h limits hlimits
    exact ⟨_, hends, hs.part⟩
  diagnoses most hmost := by
    obtain ⟨s, hends, hs⟩ := h _ (Limits.numeric_diagnoses most)
    exact ⟨_, hends, hs.diagnoses hmost⟩
  depth deepest := by
    obtain ⟨s, hends, hs⟩ := h _ (Limits.numeric_depth deepest)
    exact ⟨_, hends, hs.depth hall⟩
  seconds longest n hn := by
    obtain ⟨s, hends, hs⟩ := h _ (Limits.numeric_seconds hn)
    exact ⟨_, hends, hs.seconds hn⟩

end Diagnosis
end ProductLine
