import ProductLine.Proofs.Contract

/-! # Work that may be called off

The same work can be done freely or on a budget of checks, where it is called off at the first check
beyond them. A `Budget` says how the checks are counted and what the limited state of a free one is.
`Budget.Shadows` is the contract of work that is done in both ways: free, it goes onward and is never
called off; limited, it goes the same way as long as the checks suffice, and is called off otherwise,
on the way. There is one rule for every way of putting work together. -/

namespace ProductLine

/-- The number of checks that pass, how many a state has seen, the same state on the budget, and what it
is to come out of a state by going on. -/
structure Budget (σ : Type) where
  most : Option Nat
  checks : σ → Nat
  limited : σ → σ
  Onward : σ → σ → Prop
  refl : ∀ s, Onward s s
  trans : ∀ {s t u}, Onward s t → Onward t u → Onward s u
  checks_le : ∀ {s t}, Onward s t → checks s ≤ checks t

def endState {ε σ α : Type} : EStateM.Result ε σ α → σ
  | .ok _ s => s
  | .error _ s => s

/-- What is kept is true at the end, whether the work returns or fails. -/
theorem Keeps.endState {σ α : Type} {P : σ → Prop} {work : EStateM Failure σ α} (h : Keeps P work)
    {s : σ} (hs : P s) : P (endState (work s)) := by
  have hw := h s hs
  cases hr : work s with
  | ok a t =>
    rw [hr] at hw
    exact hw
  | error e t =>
    rw [hr] at hw
    exact hw

/-- The outcome of work with its state changed. -/
def endIn {ε σ α : Type} (f : σ → σ) : EStateM.Result ε σ α → EStateM.Result ε σ α
  | .ok a s => .ok a (f s)
  | .error e s => .error e (f s)

theorem endState_endIn {ε σ α : Type} (f : σ → σ) (r : EStateM.Result ε σ α) :
    endState (endIn f r) = f (endState r) := by
  cases r <;> rfl

namespace Budget

variable {σ α β : Type} (k : Budget σ)

/-- No check beyond those that pass was made. -/
def Open (s : σ) : Prop := ∀ n, k.most = some n → k.checks s ≤ n

/-- All checks that pass were made, and there are more on the way to the second state. -/
structure Refused (t s : σ) : Prop where
  most : k.most = some (k.checks t)
  more : k.checks t < k.checks s
  onward : k.Onward t s

/-- From a state, the limited work ends as the free work, or it is called off on the way. -/
def Follows (s : σ) (free limited : EStateM.Result Failure σ α) : Prop :=
  (k.Open (endState free) ∧ limited = endIn k.limited free) ∨
    ∃ t, limited = .error .cancelled t ∧ k.Onward s t ∧ k.Refused t (endState free)

/-- The free work goes onward, and is not called off if it fails. -/
def Goes (post : α → σ → Prop) (s : σ) : EStateM.Result Failure σ α → Prop
  | .ok a t => post a t ∧ k.Onward s t
  | .error e t => e ≠ .cancelled ∧ k.Onward s t

/-- Free work goes onward; limited, it follows. -/
def Shadows (pre : σ → Prop) (work : EStateM Failure σ α) (post : α → σ → Prop) : Prop :=
  ∀ s, pre s → k.Goes post s (work s) ∧ (k.Open s → k.Follows s (work s) (work (k.limited s)))

variable {k}

theorem Refused.onwards {s t u : σ} (h : k.Refused t s) (hu : k.Onward s u) : k.Refused t u :=
  ⟨h.most, Nat.lt_of_lt_of_le h.more (k.checks_le hu), k.trans h.onward hu⟩

theorem Goes.onward {post : α → σ → Prop} {s : σ} {r : EStateM.Result Failure σ α}
    (h : k.Goes post s r) : k.Onward s (endState r) := by
  cases r <;> exact h.2

/-- Free work is not called off, whatever is done to the state in which it ends. -/
theorem Goes.endIn_ne_cancelled {post : α → σ → Prop} {s : σ} {r : EStateM.Result Failure σ α}
    (h : k.Goes post s r) (f : σ → σ) (t : σ) : endIn f r ≠ .error .cancelled t := by
  intro hoff
  cases r with
  | ok a u => cases hoff
  | error e u =>
    cases hoff
    exact h.1 rfl

theorem Goes.mono {post post' : α → σ → Prop} {s t : σ} {r : EStateM.Result Failure σ α}
    (h : k.Goes post s r) (hpost : ∀ a u, post a u → post' a u) (honward : k.Onward t s) :
    k.Goes post' t r := by
  cases r with
  | ok a u => exact ⟨hpost a u h.1, k.trans honward h.2⟩
  | error e u => exact ⟨h.1, k.trans honward h.2⟩

namespace Shadows

variable {pre : σ → Prop} {post : α → σ → Prop} {work : EStateM Failure σ α}

/-! ### Single steps -/

theorem ofReturn {f : σ → σ} {a : σ → α} (hrun : ∀ s, pre s → work s = .ok (a s) (f s))
    (hlimited : ∀ s, pre s → work (k.limited s) = .ok (a s) (k.limited (f s)))
    (hchecks : ∀ s, k.checks (f s) = k.checks s) (honward : ∀ s, pre s → k.Onward s (f s))
    (hpost : ∀ s, pre s → post (a s) (f s)) : k.Shadows pre work post := by
  intro s hs
  rw [hrun s hs, hlimited s hs]
  refine ⟨⟨hpost s hs, honward s hs⟩, fun hopen => .inl ⟨fun n hn => ?_, rfl⟩⟩
  exact (hchecks s).symm ▸ hopen n hn

theorem pure {a : α} (h : ∀ s, pre s → post a s) :
    k.Shadows pre (Pure.pure a : EStateM Failure σ α) post :=
  ofReturn (f := id) (a := fun _ => a) (fun _ _ => rfl) (fun _ _ => rfl) (fun _ => rfl)
    (fun s _ => k.refl s) h

theorem throw {e : Failure} (h : e ≠ .cancelled) :
    k.Shadows pre (MonadExcept.throw e : EStateM Failure σ α) post := fun s _ =>
  ⟨⟨h, k.refl s⟩, fun hopen => .inl ⟨hopen, rfl⟩⟩

theorem modify {f : σ → σ} {post : PUnit → σ → Prop}
    (hlimited : ∀ s, f (k.limited s) = k.limited (f s))
    (hchecks : ∀ s, k.checks (f s) = k.checks s) (honward : ∀ s, pre s → k.Onward s (f s))
    (hpost : ∀ s, pre s → post ⟨⟩ (f s)) :
    k.Shadows pre (modify f : EStateM Failure σ PUnit) post := by
  refine ofReturn (f := f) (a := fun _ => ⟨⟩) (fun _ _ => rfl) ?_ hchecks honward hpost
  intro s _
  rw [← hlimited s]
  rfl

theorem orFail {r : Except Failure α} (hok : ∀ a, r = .ok a → ∀ s, pre s → post a s)
    (herror : r ≠ .error .cancelled) : k.Shadows pre (ProductLine.orFail r) post := by
  cases r with
  | ok a => exact pure (hok a rfl)
  | error e => exact throw fun he => herror (he ▸ rfl)

theorem strengthen {pre' : σ → Prop} (h : k.Shadows pre work post) (hpre : ∀ s, pre' s → pre s) :
    k.Shadows pre' work post := fun s hs => h s (hpre s hs)

theorem inState {s : σ} (h : k.Shadows pre work post) (hs : pre s) :
    k.Shadows (· = s) work post := by
  intro t ht
  rw [ht]
  exact h s hs

theorem assuming {p : Prop} (h : p → k.Shadows pre work post) :
    k.Shadows (fun s => p ∧ pre s) work post := fun s hs => h hs.1 s hs.2

theorem ofState (h : ∀ s, pre s → k.Shadows (· = s) work post) : k.Shadows pre work post :=
  fun s hs => h s hs s rfl

/-! ### Steps put together -/

/-- If the first part is called off, the whole work goes on from there when it is free. -/
theorem bind {mid : α → σ → Prop} {post : β → σ → Prop} {next : α → EStateM Failure σ β}
    (h : k.Shadows pre work mid) (hnext : ∀ a, k.Shadows (mid a) (next a) post) :
    k.Shadows pre (work >>= next) post := by
  intro s hs
  obtain ⟨hfree, hfollows⟩ := h s hs
  cases hr : work s with
  | error e t =>
    rw [hr] at hfree hfollows
    rw [bind_eq_of_error hr]
    refine ⟨hfree, fun hopen => ?_⟩
    rcases hfollows hopen with ⟨ht, hsame⟩ | ⟨u, hoff, hu⟩
    · rw [bind_eq_of_error hsame]
      exact .inl ⟨ht, rfl⟩
    · rw [bind_eq_of_error hoff]
      exact .inr ⟨u, rfl, hu⟩
  | ok a t =>
    rw [hr] at hfree hfollows
    rw [bind_eq_of_ok hr]
    obtain ⟨hrest, hgoes⟩ := hnext a t hfree.1
    refine ⟨hrest.mono (fun _ _ => id) hfree.2, fun hopen => ?_⟩
    rcases hfollows hopen with ⟨ht, hsame⟩ | ⟨u, hoff, hu, hrefused⟩
    · rw [bind_eq_of_ok hsame]
      rcases hgoes ht with hsync | ⟨u, hoff, hu, hrefused⟩
      · exact .inl hsync
      · exact .inr ⟨u, hoff, k.trans hfree.2 hu, hrefused⟩
    · rw [bind_eq_of_error hoff]
      exact .inr ⟨u, rfl, hu, hrefused.onwards hrest.onward⟩

theorem get_bind {next : σ → EStateM Failure σ α}
    (hlimited : ∀ s, pre s → next (k.limited s) = next s)
    (h : ∀ s, pre s → k.Shadows (· = s) (next s) post) :
    k.Shadows pre (MonadState.get >>= next) post := by
  intro s hs
  have hfree : (MonadState.get >>= next : EStateM Failure σ α) s = next s s := rfl
  have hquick : (MonadState.get >>= next : EStateM Failure σ α) (k.limited s) =
      next s (k.limited s) := by
    rw [← hlimited s hs]
    rfl
  rw [hfree, hquick]
  exact h s hs s rfl

/-- The ending takes place after success and after failure alike, and after being called off. -/
theorem always {ending : σ → σ} {post' : α → σ → Prop} (h : k.Shadows pre work post)
    (hlimited : ∀ s, ending (k.limited s) = k.limited (ending s))
    (hchecks : ∀ s, k.checks (ending s) = k.checks s)
    (honward : ∀ {s t}, k.Onward s t → k.Onward s (ending t))
    (hback : ∀ {s t}, k.Onward s t → k.Onward (ending s) t)
    (hpost : ∀ a s, post a s → post' a (ending s)) :
    k.Shadows pre (ProductLine.always ending work) post' := by
  have hopen : ∀ {s}, k.Open s → k.Open (ending s) := fun h n hn => (hchecks _).symm ▸ h n hn
  have hrefused : ∀ {t s}, k.Refused t s → k.Refused (ending t) (ending s) := fun {t s} h =>
    ⟨(hchecks t).symm ▸ h.most, (hchecks t).symm ▸ (hchecks s).symm ▸ h.more,
      hback (honward h.onward)⟩
  have hends : ∀ s, ProductLine.always ending work s = endIn ending (work s) := by
    intro s
    unfold ProductLine.always
    cases work s <;> rfl
  intro s hs
  obtain ⟨hfree, hfollows⟩ := h s hs
  rw [hends, hends]
  refine ⟨?_, fun hs => ?_⟩
  · cases hr : work s with
    | ok a t =>
      rw [hr] at hfree
      exact ⟨hpost a t hfree.1, honward hfree.2⟩
    | error e t =>
      rw [hr] at hfree
      exact ⟨hfree.1, honward hfree.2⟩
  · rcases hfollows hs with ⟨ht, hsame⟩ | ⟨u, hoff, hu, hcut⟩
    · refine .inl ⟨(endState_endIn _ _).symm ▸ hopen ht, ?_⟩
      rw [hsame]
      cases work s with
      | ok a t => exact congrArg (EStateM.Result.ok a) (hlimited t)
      | error e t => exact congrArg (EStateM.Result.error e) (hlimited t)
    · rw [hoff]
      exact .inr ⟨ending u, rfl, honward hu, (endState_endIn _ _).symm ▸ hrefused hcut⟩

/-! ### Runs over lists -/

theorem foldlM {I : β → σ → Prop} {f : β → α → EStateM Failure σ β} {l : List α} {b : β}
    (step : ∀ b, ∀ a ∈ l, k.Shadows (I b) (f b a) I) : k.Shadows (I b) (l.foldlM f b) I := by
  induction l generalizing b with
  | nil => exact pure fun _ => id
  | cons a l ih =>
    rw [List.foldlM_cons]
    apply bind (step b a List.mem_cons_self)
    intro b'
    exact ih fun b a' ha' => step b a' (List.mem_cons_of_mem _ ha')

theorem forM {I : σ → Prop} {f : α → EStateM Failure σ PUnit} {l : List α}
    (step : ∀ a ∈ l, k.Shadows I (f a) fun _ => I) : k.Shadows I (l.forM f) fun _ => I := by
  rw [Ensures.forM_eq_foldlM]
  exact foldlM (I := fun _ => I) fun _ a ha => step a ha

theorem mapM {I : σ → Prop} {f : α → EStateM Failure σ β} {l : List α}
    (step : ∀ a ∈ l, k.Shadows I (f a) fun _ => I) : k.Shadows I (l.mapM f) fun _ => I := by
  induction l with
  | nil => exact pure fun _ => id
  | cons a l ih =>
    rw [List.mapM_cons]
    apply bind (step a List.mem_cons_self)
    intro b
    apply bind (ih fun a' ha' => step a' (List.mem_cons_of_mem _ ha'))
    intro bs
    exact pure fun _ => id

end Shadows
end Budget
end ProductLine
