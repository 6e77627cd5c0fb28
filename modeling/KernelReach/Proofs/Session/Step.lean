import KernelReach.Reach.Session

/-!
# Reasoning about the steps of a session

`Ends x s Q E` says what the step `x` comes to in the session `s`: it succeeds with a value and a
session that satisfy `Q`, or fails with an error and a session that satisfy `E`. There is a rule for
each way in which steps are put together; the rules for sequences (`ends_bind`) and loops
(`Ends.forM`) are the ones that carry an argument through a phase.
-/

namespace KernelReach.Session

variable {σ α β : Type} {s : Session σ} {Q Q' : α → Session σ → Prop}
  {E E' : AnalysisError → Session σ → Prop}

/-- The session with another resolver. -/
def setResolver (s : Session σ) (r : Resolver σ) : Session σ := { s with resolver := r }

@[simp] theorem setResolver_resolver (s : Session σ) (r : Resolver σ) :
    (s.setResolver r).resolver = r := rfl

@[simp] theorem setResolver_setResolver (s : Session σ) (r r' : Resolver σ) :
    (s.setResolver r).setResolver r' = s.setResolver r' := rfl

theorem note_eq (s : Session σ) (e : Event) : s.note e = s.setResolver (s.resolver.note e) := rfl

/-- From `s`, the step `x` succeeds as `Q` says or fails as `E` says. -/
def Ends (x : SessionM σ α) (s : Session σ) (Q : α → Session σ → Prop)
    (E : AnalysisError → Session σ → Prop) : Prop :=
  match x s with
  | (.ok a, s') => Q a s'
  | (.error e, s') => E e s'

theorem Ends.ok {x : SessionM σ α} {a : α} {s' : Session σ} (h : Ends x s Q E)
    (hx : x s = (.ok a, s')) : Q a s' := by
  simpa only [Ends, hx] using h

theorem Ends.error {x : SessionM σ α} {e : AnalysisError} {s' : Session σ} (h : Ends x s Q E)
    (hx : x s = (.error e, s')) : E e s' := by
  simpa only [Ends, hx] using h

theorem Ends.mono {x : SessionM σ α} (h : Ends x s Q E) (hQ : ∀ a s', Q a s' → Q' a s')
    (hE : ∀ e s', E e s' → E' e s') : Ends x s Q' E' := by
  rcases hx : x s with ⟨e | a, s'⟩
  · simpa only [Ends, hx] using hE e s' (h.error hx)
  · simpa only [Ends, hx] using hQ a s' (h.ok hx)

/-- For someone who does not care about failures. -/
theorem Ends.imp {x : SessionM σ α} (h : Ends x s Q fun _ _ => True)
    (hQ : ∀ a s', Q a s' → Q' a s') : Ends x s Q' fun _ _ => True :=
  h.mono hQ fun _ _ => id

@[simp]
theorem ends_pure {a : α} : Ends (pure a) s Q E ↔ Q a s := Iff.rfl

@[simp]
theorem ends_throw {e : AnalysisError} : Ends (throw e) s Q E ↔ E e s := Iff.rfl

@[simp]
theorem ends_modify {f : Session σ → Session σ} {Q : PUnit → Session σ → Prop} :
    Ends (modify f) s Q E ↔ Q ⟨⟩ (f s) := Iff.rfl

@[simp]
theorem ends_get {Q : Session σ → Session σ → Prop} : Ends get s Q E ↔ Q s s := Iff.rfl

@[simp]
theorem ends_ask {q : Resolver σ → Except AnalysisError α × Resolver σ}
    {Q : Except AnalysisError α → Session σ → Prop} :
    Ends (ask q) s Q E ↔ Q (q s.resolver).1 (s.setResolver (q s.resolver).2) := Iff.rfl

theorem bind_apply {ε : Type} (x : ExceptT ε (StateM (Session σ)) α)
    (f : α → ExceptT ε (StateM (Session σ)) β) (s : Session σ) :
    (x >>= f) s = match x s with
      | (.ok a, s') => f a s'
      | (.error e, s') => (.error e, s') := by
  change ExceptT.bindCont f (x s).1 (x s).2 = _
  rcases x s with ⟨e | a, s'⟩ <;> rfl

/-- A sequence succeeds if both of its parts do. -/
theorem bind_eq_ok {ε : Type} {x : ExceptT ε (StateM (Session σ)) α}
    {f : α → ExceptT ε (StateM (Session σ)) β} {b : β} {s' : Session σ}
    (h : (x >>= f) s = (.ok b, s')) : ∃ a s₁, x s = (.ok a, s₁) ∧ f a s₁ = (.ok b, s') := by
  rcases hx : x s with ⟨e | a, s₁⟩
  · rw [bind_apply, hx] at h
    cases h
  · rw [bind_apply, hx] at h
    exact ⟨a, s₁, rfl, h⟩

@[simp]
theorem ends_bind {x : SessionM σ α} {f : α → SessionM σ β} {Q : β → Session σ → Prop} :
    Ends (x >>= f) s Q E ↔ Ends x s (fun a s' => Ends (f a) s' Q E) E := by
  rcases hx : x s with ⟨e | a, s'⟩ <;> simp only [Ends, bind_apply, hx]

@[simp]
theorem ends_discard {x : SessionM σ α} {Q : PUnit → Session σ → Prop} :
    Ends (discard x) s Q E ↔ Ends x s (fun _ s' => Q ⟨⟩ s') E := by
  change Ends (x >>= fun _ => pure ⟨⟩) s Q E ↔ _
  rw [ends_bind]
  rfl

theorem ends_ite {p : Prop} [Decidable p] {x y : SessionM σ α} :
    Ends (if p then x else y) s Q E ↔ (p → Ends x s Q E) ∧ (¬p → Ends y s Q E) := by
  by_cases hp : p <;> simp [hp]

/-- A loop, with an invariant about what was done so far. If a round fails, the loop does. -/
theorem Ends.forM {f : α → SessionM σ PUnit} {l : List α} {I : List α → Session σ → Prop}
    {Q : PUnit → Session σ → Prop}
    (hstep : ∀ done a rest, l = done ++ a :: rest → ∀ s, I done s →
      Ends (f a) s (fun _ s' => I (done ++ [a]) s') E)
    (hQ : ∀ s, I l s → Q ⟨⟩ s) (h : I [] s) : Ends (l.forM f) s Q E := by
  suffices H : ∀ rest done s, l = done ++ rest → I done s → Ends (rest.forM f) s Q E from
    H l [] s rfl h
  intro rest
  induction rest with
  | nil =>
    intro done s hl hI
    rw [List.append_nil] at hl
    exact hQ s (hl ▸ hI)
  | cons a rest ih =>
    intro done s hl hI
    change Ends (f a >>= fun _ => rest.forM f) s Q E
    rw [ends_bind]
    refine (hstep done a rest hl s hI).mono (fun _ s' hs' => ?_) fun _ _ => id
    exact ih (done ++ [a]) s' (by rw [hl, List.append_assoc]; rfl) hs'

end KernelReach.Session
