import KernelReach.Proofs.Resolver.Answer
import KernelReach.Proofs.Session.Worklist

/-!
# More fuel

Searches and traversals are bounded by fuel, and a search or traversal that was cut off says so. One
that was not cut off comes to the same with more fuel (`Extends`). So the bound can be left out of
account as soon as there is one with which nothing is cut off.
-/

namespace KernelReach

namespace Resolver

variable {σ : Type} {P : Provider σ} {sig : Signature} {r r' : Resolver σ} {fuel fuel' : Nat}

/-- A search that is not cut off goes the same way with more fuel. -/
theorem Search.of_le {seen : List ClassName} {c : Class} {o : Except AnalysisError Method}
    (h : Search P sig fuel seen c r o r') (hle : fuel ≤ fuel') (ho : o ≠ .error .exhausted) :
    Search P sig fuel' seen c r o r' := by
  induction h generalizing fuel' with
  | exhausted => exact absurd rfl ho
  | found hm =>
    obtain ⟨k, rfl⟩ := Nat.exists_eq_add_of_lt hle
    exact .found hm
  | top hm hs =>
    obtain ⟨k, rfl⟩ := Nat.exists_eq_add_of_lt hle
    exact .top hm hs
  | circle hm hs hin =>
    obtain ⟨k, rfl⟩ := Nat.exists_eq_add_of_lt hle
    exact .circle hm hs hin
  | unavailable hm hs hnew hr he =>
    obtain ⟨k, rfl⟩ := Nat.exists_eq_add_of_lt hle
    exact .unavailable hm hs hnew hr he
  | failed hm hs hnew hr he =>
    obtain ⟨k, rfl⟩ := Nat.exists_eq_add_of_lt hle
    exact .failed hm hs hnew hr he
  | up hm hs hnew hr _ ih =>
    obtain ⟨k, rfl⟩ := Nat.exists_eq_add_of_lt hle
    exact .up hm hs hnew hr (ih (Nat.le_add_right _ _) ho)

theorem resolveMethod_of_le (hle : fuel ≤ fuel')
    (h : (r.resolveMethod P fuel sig).1 ≠ .error .exhausted) :
    r.resolveMethod P fuel' sig = r.resolveMethod P fuel sig := by
  rw [resolveMethod, resolveMethod]
  rw [resolveMethod] at h
  rcases hc : r.classes[sig.owner]? with _ | c
  · rfl
  · by_cases hl : .signatures ≤ c.level
    · simp only [hc, hl, if_true] at h ⊢
      exact search_iff.1 ((search_searchMethod P sig fuel [c.name] c r).of_le hle h)
    · simp only [hl, if_false]

end Resolver

namespace Session

variable {σ α β : Type} {P : Provider σ} {s t : Session σ} {fuel fuel' : Nat}

/-- The step `y` comes to the same as `x` where `x` is not cut off. -/
def Extends (x y : SessionM σ α) : Prop := ∀ s, (x s).1 ≠ .error .exhausted → y s = x s

theorem Extends.refl (x : SessionM σ α) : Extends x x := fun _ _ => rfl

theorem Extends.bind {x y : SessionM σ α} {f g : α → SessionM σ β} (h : Extends x y)
    (hf : ∀ a, Extends (f a) (g a)) : Extends (x >>= f) (y >>= g) := by
  intro s hs
  rw [bind_apply] at hs
  rw [bind_apply, bind_apply]
  rcases hx : x s with ⟨e | a, s₁⟩
  · rw [hx] at hs
    have he : e ≠ .exhausted := fun hcut => hs (congrArg Except.error hcut)
    rw [h s (by rw [hx]; exact fun hcut => he (Except.error.inj hcut)), hx]
  · rw [hx] at hs
    rw [h s (by rw [hx]; simp), hx]
    exact hf a s₁ hs

/-- Where the outcome of the first step is handed on as a value, the second step has to fail if that
    value says that the first one was cut off. -/
theorem Extends.outcome {x y : SessionM σ (Except AnalysisError α)}
    {f g : Except AnalysisError α → SessionM σ β}
    (h : ∀ s, (x s).1 ≠ .ok (.error .exhausted) → y s = x s)
    (hx : ∀ s, (f (.error .exhausted) s).1 = .error .exhausted)
    (hf : ∀ o, Extends (f o) (g o)) : Extends (x >>= f) (y >>= g) := by
  intro s hs
  rw [bind_apply] at hs
  have hxs : y s = x s := by
    refine h s fun hcut => hs ?_
    rw [show x s = (.ok (.error .exhausted), (x s).2) from Prod.ext hcut rfl]
    exact hx _
  rw [bind_apply, bind_apply, hxs]
  rcases hrun : x s with ⟨e | o, s₁⟩
  · rfl
  · rw [hrun] at hs
    exact hf o s₁ hs

theorem Extends.forM {f g : α → SessionM σ PUnit} (h : ∀ a, Extends (f a) (g a)) (l : List α) :
    Extends (l.forM f) (l.forM g) := by
  induction l with
  | nil => exact .refl _
  | cons a l ih => exact (h a).bind fun _ => ih

theorem Extends.ite {p : Prop} [Decidable p] {x x' y y' : SessionM σ α} (h : Extends x y)
    (h' : Extends x' y') : Extends (if p then x else x') (if p then y else y') := by
  by_cases hp : p
  · simpa only [hp, if_true] using h
  · simpa only [hp, if_false] using h'

/-! ### Lookups -/

section

variable (hle : fuel ≤ fuel')
include hle

theorem ask_resolveMethod_of_le (sig : Signature) (s : Session σ)
    (h : (ask (·.resolveMethod P fuel sig) s).1 ≠ .ok (.error .exhausted)) :
    ask (·.resolveMethod P fuel' sig) s = ask (·.resolveMethod P fuel sig) s := by
  have heq := Resolver.resolveMethod_of_le (P := P) (r := s.resolver) hle fun hcut =>
    h (congrArg Except.ok hcut)
  simp only [ask, heq]

theorem resolveToBody_extends (sig : Signature) :
    Extends (resolveToBody P fuel sig) (resolveToBody P fuel' sig) := by
  refine (Extends.refl _).bind fun _ => (Extends.refl _).bind fun _ =>
    (Extends.refl _).bind fun _ =>
      Extends.outcome (ask_resolveMethod_of_le hle sig) (fun _ => rfl) fun o =>
      (Extends.refl _).bind fun m => ?_
  refine .ite (.refl _) (.ite (.refl _) ?_)
  exact (Extends.refl _).bind fun _ => (Extends.refl _).bind fun _ =>
    Extends.outcome (ask_resolveMethod_of_le hle m.signature) (fun _ => rfl) fun o => .refl _

theorem fullyResolve_extends (sig : Signature) :
    Extends (fullyResolve P fuel sig) (fullyResolve P fuel' sig) := by
  refine (Extends.refl _).bind fun s => ?_
  rcases s.resolved[sig]? with _ | o
  · refine Extends.outcome (fun s hs => ?_) (fun _ => rfl) fun o => .refl _
    have heq := resolveToBody_extends hle sig s fun hcut => hs (congrArg Except.ok hcut)
    simp only [fullyResolve.attempt, heq]
  · exact .refl _

/-! ### The traversal -/

theorem scanCall_extends (caller : Signature) (offset : Nat) (c : Invocation) :
    Extends (scanCall P fuel caller offset c) (scanCall P fuel' caller offset c) :=
  (Extends.refl _).bind fun _ => (fullyResolve_extends hle c.target).bind fun _ => .refl _

theorem scan_extends (caller : Signature) (b : Body) :
    Extends (scan P fuel caller b) (scan P fuel' caller b) := by
  refine (Extends.forM (fun i => ?_) b.instructions).bind fun _ => .refl _
  unfold scanInstruction
  split
  · exact scanCall_extends hle caller i.offset _
  · exact .refl _

theorem scanMethod_extends (m : Method) :
    Extends (scanMethod P fuel m) (scanMethod P fuel' m) := by
  refine (Extends.refl _).bind fun o => ?_
  cases o with
  | error e => exact .refl _
  | ok b => exact (Extends.refl _).bind fun _ => scan_extends hle m.signature b

theorem visit_extends (sig : Signature) : Extends (visit P fuel sig) (visit P fuel' sig) := by
  rw [visit_eq, visit_eq]
  refine (fullyResolve_extends hle sig).bind fun o => ?_
  cases o with
  | error e => exact .refl _
  | ok m =>
    refine .ite ?_ (scanMethod_extends hle m)
    refine (Extends.refl _).bind fun s => .ite (.refl _) ?_
    exact (Extends.refl _).bind fun _ => scanMethod_extends hle m

end

/-! ### Rounds -/

/-- A traversal without a bound on its length, step by step. The first entry of the queue is dropped
    if it was visited before, and else it is visited; `visits` are the signatures that are visited.
    A search that takes more than `limit` classes is cut off. -/
inductive Rounds (P : Provider σ) (limit : Nat) :
    Session σ → (visits : List Signature) → Except AnalysisError Unit → Session σ → Prop
  | done {s : Session σ} : s.work.pop? = none → Rounds P limit s [] (.ok ()) s
  | drop {s t : Session σ} {sig : Signature} {work : Queue Signature} {visits : List Signature}
      {o : Except AnalysisError Unit} :
      s.work.pop? = some (sig, work) → sig ∈ s.visited.toList →
      Rounds P limit (s.setWork work) visits o t → Rounds P limit s visits o t
  | visit {s s₁ t : Session σ} {sig : Signature} {work : Queue Signature}
      {visits : List Signature} {o : Except AnalysisError Unit} :
      s.work.pop? = some (sig, work) → sig ∉ s.visited.toList →
      visit P limit sig ((s.setWork work).mark sig) = (.ok (), s₁) →
      Rounds P limit s₁ visits o t → Rounds P limit s (sig :: visits) o t
  | fail {s t : Session σ} {sig : Signature} {work : Queue Signature} {e : AnalysisError} :
      s.work.pop? = some (sig, work) → sig ∉ s.visited.toList →
      visit P limit sig ((s.setWork work).mark sig) = (.error e, t) →
      Rounds P limit s [sig] (.error e) t

/-- Every round takes one unit of fuel. -/
theorem exists_fuel {limit n : Nat} {o : Except AnalysisError Unit}
    (h : ∀ limit' fuel, limit ≤ limit' → n ≤ fuel →
      drain P limit' (fuel + 1) none s = (o, t)) :
    ∃ n, ∀ limit' fuel, limit ≤ limit' → n ≤ fuel → drain P limit' fuel none s = (o, t) := by
  refine ⟨n + 1, fun limit' fuel hlimit hfuel => ?_⟩
  obtain ⟨fuel, rfl⟩ := Nat.exists_eq_add_of_le' (Nat.le_of_add_left_le hfuel)
  exact h limit' fuel hlimit (by omega)

/-- If no search was cut off, then neither the bound on searches nor that on the length of the
    traversal matters, as long as both are large enough. -/
theorem Rounds.drain_eq {limit : Nat} {visits : List Signature} {o : Except AnalysisError Unit}
    (h : Rounds P limit s visits o t) (ho : o ≠ .error .exhausted) :
    ∃ n, ∀ limit' fuel, limit ≤ limit' → n ≤ fuel → drain P limit' fuel none s = (o, t) := by
  induction h with
  | done hw =>
    refine exists_fuel (n := 0) fun limit' fuel _ _ => ?_
    simp [drain, hw]
  | drop hw hv _ ih =>
    obtain ⟨n, ih⟩ := ih ho
    refine exists_fuel (n := n) fun limit' fuel hlimit hfuel => ?_
    rw [drain]
    simp only [reduceCtorEq, if_false, hw, OrderedSet.contains_iff_mem_toList.2 hv, if_true]
    exact ih limit' fuel hlimit hfuel
  | visit hw hv hrun _ ih =>
    obtain ⟨n, ih⟩ := ih ho
    refine exists_fuel (n := n) fun limit' fuel hlimit hfuel => ?_
    have hrun' := visit_extends hlimit _ _ (by rw [hrun]; simp)
    rw [hrun] at hrun'
    simp only [setWork, mark] at hrun'
    rw [drain]
    simp only [reduceCtorEq, if_false, hw, OrderedSet.contains_iff_mem_toList, hv, hrun']
    exact ih limit' fuel hlimit hfuel
  | fail hw hv hrun =>
    refine exists_fuel (n := 0) fun limit' fuel hlimit _ => ?_
    have hrun' := visit_extends hlimit _ _ (by rw [hrun]; exact ho)
    rw [hrun] at hrun'
    simp only [setWork, mark] at hrun'
    rw [drain]
    simp only [reduceCtorEq, if_false, hw, OrderedSet.contains_iff_mem_toList, hv, hrun']

end Session

end KernelReach
