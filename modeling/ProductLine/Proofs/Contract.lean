import ProductLine.Workbench.Scope

/-! # Contracts

Work may change its state and may fail. `Ensures pre work post fail` says that `work`, started in a
state with `pre`, ends with `post` or fails with `fail`. There is one rule for every way of putting
work together; the rules for lists ask for an invariant of one step and give it for the whole run. Work
that `Keeps` a property does so whether it returns or fails. -/

namespace ProductLine

/-- Started in a state with `pre`, the work ends with `post` or fails with `fail`. -/
def Ensures {ε σ α : Type} (pre : σ → Prop) (work : EStateM ε σ α) (post : α → σ → Prop)
    (fail : ε → σ → Prop) : Prop :=
  ∀ s, pre s →
    match work s with
    | .ok a t => post a t
    | .error e t => fail e t

section bind

variable {ε σ α β : Type} {work : EStateM ε σ α} {next : α → EStateM ε σ β} {s t : σ}

theorem bind_eq_of_ok {a : α} (h : work s = .ok a t) : (work >>= next) s = next a t := by
  show EStateM.bind work next s = _
  unfold EStateM.bind
  rw [h]

theorem bind_eq_of_error {e : ε} (h : work s = .error e t) :
    (work >>= next) s = .error e t := by
  show EStateM.bind work next s = _
  unfold EStateM.bind
  rw [h]

theorem get_bind_eq {next : σ → EStateM ε σ β} : (get >>= next) s = next s s := rfl

/-- What goes on in the same way after the same beginning is the same. -/
theorem bind_congr_at {work' : EStateM ε σ α} {next' : α → EStateM ε σ β} (h : work s = work' s)
    (hnext : ∀ a t, work' s = .ok a t → next a t = next' a t) :
    (work >>= next) s = (work' >>= next') s := by
  cases hr : work' s with
  | ok a t => rw [bind_eq_of_ok (h.trans hr), bind_eq_of_ok hr, hnext a t hr]
  | error e t => rw [bind_eq_of_error (h.trans hr), bind_eq_of_error hr]

end bind

namespace Ensures

variable {ε σ α β γ : Type} {pre : σ → Prop} {post : α → σ → Prop} {fail : ε → σ → Prop}

/-! ### Outcomes -/

theorem of_eq_ok {work : EStateM ε σ α} {s t : σ} {a : α} (h : Ensures pre work post fail)
    (hs : pre s) (hr : work s = .ok a t) : post a t := by
  have hw := h s hs
  rw [hr] at hw
  exact hw

theorem returns {work : EStateM ε σ α} {s : σ} (h : Ensures pre work post fun _ _ => False)
    (hs : pre s) : ∃ a t, work s = .ok a t ∧ post a t := by
  have hw := h s hs
  cases hr : work s with
  | ok a t =>
    rw [hr] at hw
    exact ⟨a, t, rfl, hw⟩
  | error e t =>
    rw [hr] at hw
    exact absurd hw id

theorem exists_of_bind_eq_ok {work : EStateM ε σ α} {next : α → EStateM ε σ β} {s t : σ} {b : β}
    (h : (work >>= next) s = .ok b t) : ∃ a u, work s = .ok a u ∧ next a u = .ok b t := by
  change EStateM.bind work next s = _ at h
  unfold EStateM.bind at h
  cases hr : work s with
  | ok a u =>
    rw [hr] at h
    exact ⟨a, u, rfl, h⟩
  | error e u =>
    rw [hr] at h
    cases h

theorem exists_of_always_eq_ok {ending : σ → σ} {work : EStateM ε σ α} {s t : σ} {a : α}
    (h : ProductLine.always ending work s = .ok a t) : ∃ u, work s = .ok a u ∧ ending u = t := by
  unfold ProductLine.always at h
  cases hr : work s with
  | ok b u =>
    rw [hr] at h
    cases h
    exact ⟨u, rfl, rfl⟩
  | error e u =>
    rw [hr] at h
    cases h

theorem strengthen {pre' : σ → Prop} {work : EStateM ε σ α} (h : Ensures pre work post fail)
    (hpre : ∀ s, pre' s → pre s) : Ensures pre' work post fail := fun s hs => h s (hpre s hs)

theorem inState {work : EStateM ε σ α} {s : σ} (h : Ensures pre work post fail) (hs : pre s) :
    Ensures (· = s) work post fail := by
  intro t ht
  rw [ht]
  exact h s hs

theorem mono {post' : α → σ → Prop} {fail' : ε → σ → Prop} {work : EStateM ε σ α}
    (h : Ensures pre work post fail) (hpost : ∀ a s, post a s → post' a s)
    (hfail : ∀ e s, fail e s → fail' e s) : Ensures pre work post' fail' := by
  intro s hs
  have hw := h s hs
  cases hr : work s with
  | ok a t =>
    rw [hr] at hw
    exact hpost a t hw
  | error e t =>
    rw [hr] at hw
    exact hfail e t hw

theorem weaken {post' : α → σ → Prop} {work : EStateM ε σ α} (h : Ensures pre work post fail)
    (hpost : ∀ a s, post a s → post' a s) : Ensures pre work post' fail :=
  h.mono hpost fun _ _ => id

theorem weakenFail {fail' : ε → σ → Prop} {work : EStateM ε σ α} (h : Ensures pre work post fail)
    (hfail : ∀ e s, fail e s → fail' e s) : Ensures pre work post fail' :=
  h.mono (fun _ _ => id) hfail

theorem both {post' : α → σ → Prop} {fail' : ε → σ → Prop} {work : EStateM ε σ α}
    (h : Ensures pre work post fail) (h' : Ensures pre work post' fail') :
    Ensures pre work (fun a s => post a s ∧ post' a s) fun e s => fail e s ∧ fail' e s := by
  intro s hs
  have hw := h s hs
  have hw' := h' s hs
  cases hr : work s with
  | ok a t =>
    rw [hr] at hw hw'
    exact ⟨hw, hw'⟩
  | error e t =>
    rw [hr] at hw hw'
    exact ⟨hw, hw'⟩

theorem nothing {work : EStateM ε σ α} : Ensures pre work (fun _ _ => True) fun _ _ => True := by
  intro s _
  cases work s with
  | ok a t => trivial
  | error e t => trivial

theorem assuming {p : Prop} {work : EStateM ε σ α} (h : p → Ensures pre work post fail) :
    Ensures (fun s => p ∧ pre s) work post fail := fun s hs => h hs.1 s hs.2

/-- A contract for every state of a precondition is one for the precondition. -/
theorem ofState {work : EStateM ε σ α} (h : ∀ s, pre s → Ensures (· = s) work post fail) :
    Ensures pre work post fail := fun s hs => h s hs s rfl

/-! ### Single steps -/

theorem pure {a : α} (h : ∀ s, pre s → post a s) :
    Ensures pre (Pure.pure a : EStateM ε σ α) post fail := h

theorem pureState {a : α} {s : σ} (h : post a s) :
    Ensures (· = s) (Pure.pure a : EStateM ε σ α) post fail := fun _ hs => hs ▸ h

theorem throw {e : ε} (h : ∀ s, pre s → fail e s) :
    Ensures pre (MonadExcept.throw e : EStateM ε σ α) post fail := h

theorem modify {f : σ → σ} {post : PUnit → σ → Prop} (h : ∀ s, pre s → post ⟨⟩ (f s)) :
    Ensures pre (modify f : EStateM ε σ PUnit) post fail := h

theorem bind {mid : α → σ → Prop} {post : β → σ → Prop} {work : EStateM ε σ α}
    {next : α → EStateM ε σ β} (h : Ensures pre work mid fail)
    (k : ∀ a, Ensures (mid a) (next a) post fail) : Ensures pre (work >>= next) post fail := by
  intro s hs
  have hw := h s hs
  show match EStateM.bind work next s with
    | .ok b t => post b t
    | .error e t => fail e t
  unfold EStateM.bind
  cases hr : work s with
  | ok a t =>
    rw [hr] at hw
    exact k a t hw
  | error e t =>
    rw [hr] at hw
    exact hw

theorem nothing_bind {post : β → σ → Prop} {work : EStateM ε σ α} {next : α → EStateM ε σ β}
    (k : ∀ a, Ensures (fun _ => True) (next a) post fun _ _ => True) :
    Ensures pre (work >>= next) post fun _ _ => True := bind nothing k

/-- The second part may be looked at from every state in which the first part can end. -/
theorem bindState {mid : α → σ → Prop} {post : β → σ → Prop} {work : EStateM ε σ α}
    {next : α → EStateM ε σ β} (h : Ensures pre work mid fail)
    (k : ∀ a s, mid a s → Ensures (· = s) (next a) post fail) :
    Ensures pre (work >>= next) post fail := bind h fun a => ofState (k a)

theorem get_bind {post : β → σ → Prop} {next : σ → EStateM ε σ β}
    (h : ∀ s, pre s → Ensures (· = s) (next s) post fail) :
    Ensures pre (MonadState.get >>= next) post fail := fun s hs => h s hs s rfl

theorem discard {post : σ → Prop} {work : EStateM ε σ α}
    (h : Ensures pre work (fun _ => post) fail) :
    Ensures pre (Functor.discard work) (fun _ => post) fail :=
  bind h fun _ => pure fun _ => id

theorem orFail {fail : Failure → σ → Prop} {r : Except Failure α}
    (hok : ∀ a, r = .ok a → ∀ s, pre s → post a s)
    (herror : ∀ e, r = .error e → ∀ s, pre s → fail e s) :
    Ensures pre (ProductLine.orFail r) post fail := by
  cases r with
  | ok a => exact hok a rfl
  | error e => exact herror e rfl

/-- The ending takes place after success and after failure alike. -/
theorem always {work : EStateM ε σ α} {ending : σ → σ} {post' : α → σ → Prop}
    {fail' : ε → σ → Prop} (h : Ensures pre work post fail)
    (hpost : ∀ a s, post a s → post' a (ending s)) (hfail : ∀ e s, fail e s → fail' e (ending s)) :
    Ensures pre (ProductLine.always ending work) post' fail' := by
  intro s hs
  have hw := h s hs
  unfold ProductLine.always
  cases hr : work s with
  | ok a t =>
    rw [hr] at hw
    exact hpost a t hw
  | error e t =>
    rw [hr] at hw
    exact hfail e t hw

/-! ### Runs over lists -/

/-- What every step keeps, given what was done before it, holds after the run of all steps. -/
theorem foldlM_done {I : List α → β → σ → Prop} {f : β → α → EStateM ε σ β} {l : List α} {b : β}
    (step : ∀ (done : List α) a rest b, l = done ++ a :: rest →
      Ensures (I done b) (f b a) (I (done ++ [a])) fail) :
    Ensures (I [] b) (l.foldlM f b) (I l) fail := by
  suffices h : ∀ done rest b, l = done ++ rest →
      Ensures (I done b) (rest.foldlM f b) (I l) fail from h [] l b rfl
  intro done rest
  induction rest generalizing done with
  | nil =>
    intro b hl
    rw [List.append_nil] at hl
    subst hl
    exact pure fun _ => id
  | cons a rest ih =>
    intro b hl
    rw [List.foldlM_cons]
    refine bind (step done a rest b hl) fun b' => ih (done ++ [a]) b' ?_
    rw [hl, List.append_assoc, List.singleton_append]

theorem foldlM {I : β → σ → Prop} {f : β → α → EStateM ε σ β} {l : List α} {b : β}
    (step : ∀ b, ∀ a ∈ l, Ensures (I b) (f b a) I fail) :
    Ensures (I b) (l.foldlM f b) I fail := by
  refine foldlM_done (I := fun _ => I) fun done a rest b hl => step b a ?_
  rw [hl]
  exact List.mem_append_right _ List.mem_cons_self

theorem forM_eq_foldlM (f : α → EStateM ε σ PUnit) (l : List α) :
    l.forM f = l.foldlM (fun _ => f) ⟨⟩ := by
  induction l with
  | nil => rfl
  | cons a rest ih =>
    have hrest : (a :: rest).forM f = f a >>= fun _ => rest.forM f := rfl
    rw [hrest, List.foldlM_cons, ih]

/-- Steps fail as the first one does that fails, behind those in front of it. -/
theorem forM_eq_error {f : α → EStateM ε σ PUnit} {l : List α} {s t : σ} {e : ε}
    (h : l.forM f s = .error e t) : ∃ before a after u, l = before ++ a :: after ∧
      before.forM f s = .ok ⟨⟩ u ∧ f a u = .error e t := by
  induction l generalizing s with
  | nil => cases h
  | cons a l ih =>
    have hcons : (a :: l).forM f = f a >>= fun _ => l.forM f := rfl
    rw [hcons] at h
    cases ha : f a s with
    | error e' t' =>
      rw [bind_eq_of_error ha] at h
      cases h
      exact ⟨[], a, l, s, rfl, rfl, ha⟩
    | ok _ u =>
      rw [bind_eq_of_ok ha] at h
      obtain ⟨before, b, after, v, rfl, hbefore, hb⟩ := ih h
      exact ⟨a :: before, b, after, v, rfl, (bind_eq_of_ok ha).trans hbefore, hb⟩

theorem forM_done {I : List α → σ → Prop} {f : α → EStateM ε σ PUnit} {l : List α}
    (step : ∀ (done : List α) a rest, l = done ++ a :: rest →
      Ensures (I done) (f a) (fun _ => I (done ++ [a])) fail) :
    Ensures (I []) (l.forM f) (fun _ => I l) fail := by
  rw [forM_eq_foldlM]
  exact foldlM_done (I := fun done _ => I done) fun done a rest _ hl => step done a rest hl

theorem forM {I : σ → Prop} {f : α → EStateM ε σ PUnit} {l : List α}
    (step : ∀ a ∈ l, Ensures I (f a) (fun _ => I) fail) :
    Ensures I (l.forM f) (fun _ => I) fail := by
  refine forM_done (I := fun _ => I) fun done a rest hl => step a ?_
  rw [hl]
  exact List.mem_append_right _ List.mem_cons_self

/-- What every step keeps, given what was done before it and with what results, holds of all
results. -/
theorem mapM_done {I : List α → List β → σ → Prop} {f : α → EStateM ε σ β} {l : List α}
    (step : ∀ (done : List α) a rest bs, l = done ++ a :: rest →
      Ensures (I done bs) (f a) (fun b => I (done ++ [a]) (bs ++ [b])) fail) :
    Ensures (I [] []) (l.mapM f) (I l) fail := by
  suffices h : ∀ done rest bs, l = done ++ rest →
      Ensures (I done bs) (rest.mapM f) (fun bs' => I l (bs ++ bs')) fail from h [] l [] rfl
  intro done rest
  induction rest generalizing done with
  | nil =>
    intro bs hl
    rw [List.append_nil] at hl
    subst hl
    exact pure fun s hs => (List.append_nil bs).symm ▸ hs
  | cons a rest ih =>
    intro bs hl
    rw [List.mapM_cons]
    apply bind (step done a rest bs hl)
    intro b
    have hothers : l = (done ++ [a]) ++ rest := by
      rw [hl, List.append_assoc, List.singleton_append]
    apply bind (ih (done ++ [a]) (bs ++ [b]) hothers)
    intro bs'
    apply pure
    intro s hs
    rwa [List.append_assoc, List.singleton_append] at hs

end Ensures

/-- Whatever is true before the work is true after it, whether it returns or fails. -/
def Keeps {σ α : Type} (P : σ → Prop) (work : EStateM Failure σ α) : Prop :=
  Ensures P work (fun _ => P) fun _ => P

namespace Keeps

variable {σ α β : Type} {P : σ → Prop} {work : EStateM Failure σ α}

theorem bind {next : α → EStateM Failure σ β} (h : Keeps P work) (h' : ∀ a, Keeps P (next a)) :
    Keeps P (work >>= next) := Ensures.bind h h'

theorem pure (a : α) : Keeps P (Pure.pure a) := fun _ => id

theorem throw (e : Failure) : Keeps P (throw e : EStateM Failure σ α) := fun _ => id

theorem get_bind {next : σ → EStateM Failure σ α} (h : ∀ s, Keeps P (next s)) :
    Keeps P (get >>= next) := fun s hs => h s s hs

theorem orFail (x : Except Failure α) : Keeps P (ProductLine.orFail x) :=
  Ensures.orFail (fun _ _ _ => id) fun _ _ _ => id

theorem discard (h : Keeps P work) : Keeps P (Functor.discard work) := Ensures.discard h

theorem forM {f : α → EStateM Failure σ PUnit} {l : List α} (h : ∀ a, Keeps P (f a)) :
    Keeps P (l.forM f) := Ensures.forM fun a _ => h a

theorem foldlM {f : β → α → EStateM Failure σ β} {l : List α} {b : β}
    (h : ∀ b a, Keeps P (f b a)) : Keeps P (l.foldlM f b) :=
  Ensures.foldlM (I := fun _ => P) fun b a _ => h b a

theorem mapM {f : α → EStateM Failure σ β} {l : List α} (h : ∀ a, Keeps P (f a)) :
    Keeps P (l.mapM f) := Ensures.mapM_done (I := fun _ _ => P) fun _ a _ _ _ => h a

end Keeps
end ProductLine
