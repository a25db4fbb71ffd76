import Mathlib.Data.List.Forall2
import ProductLine.Proofs.Contract

/-! # Work that is done twice

The same work can be done in two states that differ in what it should not hang on. `Agree pre work
work' post` compares two pieces of work, started in states that `pre` relates: if both of them return,
their results and the states in which they end are related by `post`. If one of them fails, nothing is
said. There is one rule for every way of putting work together; the rules for lists ask for what a step
in both states keeps and give it for the whole runs. -/

namespace ProductLine

/-- Started in related states, both pieces of work end in related ones if they return. -/
def Agree {ε σ α α' : Type} (pre : σ → σ → Prop) (work : EStateM ε σ α) (work' : EStateM ε σ α')
    (post : α → α' → σ → σ → Prop) : Prop :=
  ∀ s s', pre s s' → ∀ a t a' t', work s = .ok a t → work' s' = .ok a' t' → post a a' t t'

namespace Agree

variable {ε σ α α' β β' : Type} {pre : σ → σ → Prop} {post : α → α' → σ → σ → Prop}
  {work : EStateM ε σ α} {work' : EStateM ε σ α'}

theorem strengthen {pre' : σ → σ → Prop} (h : Agree pre work work' post)
    (hpre : ∀ s s', pre' s s' → pre s s') : Agree pre' work work' post :=
  fun s s' hs => h s s' (hpre s s' hs)

theorem weaken {post' : α → α' → σ → σ → Prop} (h : Agree pre work work' post)
    (hpost : ∀ a a' s s', post a a' s s' → post' a a' s s') : Agree pre work work' post' :=
  fun s s' hs a t a' t' hr hr' => hpost a a' t t' (h s s' hs a t a' t' hr hr')

theorem assuming {p : Prop} (h : p → Agree pre work work' post) :
    Agree (fun s s' => p ∧ pre s s') work work' post := fun s s' hs => h hs.1 s s' hs.2

theorem inStates {s s' : σ} (h : Agree pre work work' post) (hs : pre s s') :
    Agree (fun t t' => t = s ∧ t' = s') work work' post := by
  rintro _ _ ⟨rfl, rfl⟩
  exact h _ _ hs

/-- It is enough to compare the work in any two particular states. -/
theorem ofStates (h : ∀ s s', pre s s' → Agree (fun t t' => t = s ∧ t' = s') work work' post) :
    Agree pre work work' post := fun s s' hs => h s s' hs s s' ⟨rfl, rfl⟩

theorem symm (h : Agree pre work work' post) :
    Agree (fun s' s => pre s s') work' work fun a' a s' s => post a a' s s' :=
  fun s' s hs a' t' a t hr' hr => h s s' hs a t a' t' hr hr'

theorem ofEnsures {p p' : σ → Prop} {q : α → σ → Prop} {q' : α' → σ → Prop} {f f' : ε → σ → Prop}
    (hfirst : Ensures p work q f) (hsecond : Ensures p' work' q' f') :
    Agree (fun s s' => p s ∧ p' s') work work' fun a a' s s' => q a s ∧ q' a' s' := by
  rintro s s' ⟨hp, hp'⟩ a t a' t' hr hr'
  exact ⟨hfirst.of_eq_ok hp hr, hsecond.of_eq_ok hp' hr'⟩

/-- What is said of a piece of work and itself is so of the piece. -/
theorem alone {post : α → α → σ → σ → Prop} {s : σ} (h : Agree pre work work post) (hs : pre s s) :
    Ensures (· = s) work (fun a t => post a a t t) fun _ _ => True := by
  rintro _ rfl
  cases hr : work _ with
  | ok a t => exact h _ _ hs a t a t hr hr
  | error e t => trivial

/-! ### Single steps -/

theorem pure {a : α} {a' : α'} (h : ∀ s s', pre s s' → post a a' s s') :
    Agree pre (Pure.pure a : EStateM ε σ α) (Pure.pure a' : EStateM ε σ α') post := by
  rintro s s' hs _ _ _ _ ⟨⟩ ⟨⟩
  exact h s s' hs

theorem throw {e : ε} : Agree pre (MonadExcept.throw e : EStateM ε σ α) work' post :=
  fun _ _ _ _ _ _ _ hr => nomatch hr

theorem throw' {e : ε} : Agree pre work (MonadExcept.throw e : EStateM ε σ α') post :=
  fun _ _ _ _ _ _ _ _ hr => nomatch hr

theorem modify {f f' : σ → σ} {post : PUnit → PUnit → σ → σ → Prop}
    (h : ∀ s s', pre s s' → post ⟨⟩ ⟨⟩ (f s) (f' s')) :
    Agree pre (modify f : EStateM ε σ PUnit) (modify f' : EStateM ε σ PUnit) post := by
  rintro s s' hs _ _ _ _ ⟨⟩ ⟨⟩
  exact h s s' hs

theorem orFail {post : α → α' → σ → σ → Prop} {r : Except Failure α} {r' : Except Failure α'}
    (h : ∀ a a', r = .ok a → r' = .ok a' → ∀ s s', pre s s' → post a a' s s') :
    Agree pre (ProductLine.orFail r) (ProductLine.orFail r') post := by
  cases r with
  | error e => exact throw
  | ok a =>
    cases r' with
    | error e => exact throw'
    | ok a' => exact pure (h a a' rfl rfl)

/-! ### Steps put together -/

theorem bind {mid : α → α' → σ → σ → Prop} {post : β → β' → σ → σ → Prop} {next : α → EStateM ε σ β}
    {next' : α' → EStateM ε σ β'} (h : Agree pre work work' mid)
    (hnext : ∀ a a', Agree (mid a a') (next a) (next' a') post) :
    Agree pre (work >>= next) (work' >>= next') post := by
  intro s s' hs b t b' t' hr hr'
  obtain ⟨a, u, hwork, hr⟩ := Ensures.exists_of_bind_eq_ok hr
  obtain ⟨a', u', hwork', hr'⟩ := Ensures.exists_of_bind_eq_ok hr'
  exact hnext a a' u u' (h s s' hs a u a' u' hwork hwork') b t b' t' hr hr'

theorem get_bind {post : β → β' → σ → σ → Prop} {next : σ → EStateM ε σ β}
    {next' : σ → EStateM ε σ β'}
    (h : ∀ s s', pre s s' → Agree (fun t t' => t = s ∧ t' = s') (next s) (next' s') post) :
    Agree pre (MonadState.get >>= next) (MonadState.get >>= next') post :=
  fun s s' hs => h s s' hs s s' ⟨rfl, rfl⟩

/-- The endings are run in related states. -/
theorem always {ending ending' : σ → σ} {post' : α → α' → σ → σ → Prop}
    (h : Agree pre work work' post)
    (hpost : ∀ a a' s s', post a a' s s' → post' a a' (ending s) (ending' s')) :
    Agree pre (ProductLine.always ending work) (ProductLine.always ending' work') post' := by
  intro s s' hs a t a' t' hr hr'
  obtain ⟨u, hwork, rfl⟩ := Ensures.exists_of_always_eq_ok hr
  obtain ⟨u', hwork', rfl⟩ := Ensures.exists_of_always_eq_ok hr'
  exact hpost a a' u u' (h s s' hs a u a' u' hwork hwork')

/-! ### Runs over lists -/

section lists

variable {P : α → α' → Prop} {l : List α} {l' : List α'}

/-- What every step in both states keeps, given what was done before it, holds after the runs of all
steps. -/
theorem foldlM_done {I : List α → β → β' → σ → σ → Prop} {f : β → α → EStateM ε σ β}
    {f' : β' → α' → EStateM ε σ β'} {b : β} {b' : β'} (hl : List.Forall₂ P l l')
    (step : ∀ (done : List α) a a' b b', P a a' →
      Agree (I done b b') (f b a) (f' b' a') (I (done ++ [a]))) :
    Agree (I [] b b') (l.foldlM f b) (l'.foldlM f' b') (I l) := by
  suffices h : ∀ done b b', Agree (I done b b') (l.foldlM f b) (l'.foldlM f' b') (I (done ++ l)) from
    h [] b b'
  induction hl with
  | nil =>
    intro done b b'
    rw [List.append_nil]
    exact pure fun _ _ => id
  | cons ha _ ih =>
    intro done b b'
    rw [List.foldlM_cons, List.foldlM_cons]
    refine bind (step done _ _ b b' ha) fun c c' => ?_
    refine (ih (done ++ [_]) c c').weaken fun d d' s s' h => ?_
    rwa [List.append_assoc, List.singleton_append] at h

theorem foldlM {I : β → β' → σ → σ → Prop} {f : β → α → EStateM ε σ β}
    {f' : β' → α' → EStateM ε σ β'} {b : β} {b' : β'} (hl : List.Forall₂ P l l')
    (step : ∀ b b' a a', P a a' → Agree (I b b') (f b a) (f' b' a') I) :
    Agree (I b b') (l.foldlM f b) (l'.foldlM f' b') I :=
  foldlM_done (I := fun _ => I) hl fun _ a a' b b' => step b b' a a'

theorem forM_done {I : List α → σ → σ → Prop} {f : α → EStateM ε σ PUnit}
    {f' : α' → EStateM ε σ PUnit} (hl : List.Forall₂ P l l')
    (step : ∀ (done : List α) a a', P a a' →
      Agree (I done) (f a) (f' a') fun _ _ => I (done ++ [a])) :
    Agree (I []) (l.forM f) (l'.forM f') fun _ _ => I l := by
  rw [Ensures.forM_eq_foldlM, Ensures.forM_eq_foldlM]
  exact foldlM_done (I := fun done _ _ => I done) hl fun done a a' _ _ => step done a a'

theorem forM {I : σ → σ → Prop} {f : α → EStateM ε σ PUnit} {f' : α' → EStateM ε σ PUnit}
    (hl : List.Forall₂ P l l') (step : ∀ a a', P a a' → Agree I (f a) (f' a') fun _ _ => I) :
    Agree I (l.forM f) (l'.forM f') fun _ _ => I :=
  forM_done (I := fun _ => I) hl fun _ => step

end lists
end Agree
end ProductLine
