import KernelReach.Proofs.Session.Resolution
import KernelReach.Proofs.Session.Worklist
import KernelReach.Reach.Result
import Mathlib.Order.Bounds.Defs

/-!
# The methods that are reached

Over a coherent provider a traversal computes a least set: the methods to which the methods of the
application and runtime classes lead, and all that their bodies call (`Oracle.Closed`). The queue,
the two sets and the memory of the session play together in one invariant (`Explored`), which says
for any closed set `R` that

* what was visited is done: the method that it leads to is scanned;
* what is called for is not lost: a seed or a callee of a scanned method is visited or in the queue;
* nothing goes too far: what is scanned is in `R`, and so is what the queue leads to.

When the queue is empty, the first two make the scanned methods a closed set, and the third makes it
the least one.
-/

namespace KernelReach

namespace Oracle

variable {A : Oracle} {sig t u : Signature} {m : Method} {b : Body}

/-- The signature leads to the method with the signature `t`, of which there is a body. -/
def Reaches (A : Oracle) (sig t : Signature) : Prop := ∃ m b, A.LeadsTo sig m b ∧ m.signature = t

/-- A call of the body leads to the method with the signature `t`. -/
def Calls (A : Oracle) (b : Body) (t : Signature) : Prop :=
  ∃ call ∈ b.calls, A.Reaches call.2.target t

/-- The method with the signature `sig` is declared by one of the classes that `roots` lets pass. -/
def Seeds (A : Oracle) (roots : ClassName → Prop) (sig : Signature) : Prop :=
  ∃ name c, roots name ∧ A.resolve name .signatures = .ok c ∧ ∃ m ∈ c.methods, m.signature = sig

/-- At which level a class is looked at makes no difference to the methods that it declares. -/
theorem seeds_iff_of_has (hA : A.Graded) {name : ClassName} {c : Class} (h : A.Has name c) :
    A.Seeds (· = name) sig ↔ sig ∈ c.methods.map Method.signature := by
  obtain ⟨d, hd, -, hm⟩ := h.signatures hA
  have heq : d.methods.map Method.signature = c.methods.map Method.signature := by
    simpa [Function.comp_def, Method.entry] using congrArg (List.map Prod.fst) hm
  simp [Seeds, hd, ← heq]

/-- A set of methods that has what the methods of the `roots` lead to, and with every method what
    the calls in its body lead to. -/
structure Closed (A : Oracle) (roots : ClassName → Prop) (R : Set Signature) : Prop where
  seed {sig t : Signature} : A.Seeds roots sig → A.Reaches sig t → t ∈ R
  call {sig t : Signature} {m : Method} {b : Body} :
    sig ∈ R → A.LeadsTo sig m b → A.Calls b t → t ∈ R

theorem LeadsTo.reaches (h : A.LeadsTo sig m b) : A.Reaches sig m.signature := ⟨m, b, h, rfl⟩

theorem LeadsTo.eq_of_reaches (h : A.LeadsTo sig m b) (ht : A.Reaches sig t) : t = m.signature := by
  obtain ⟨n, b', hn, rfl⟩ := ht
  rw [(h.unique hn).1]

/-- A method that is reached leads to itself, and to nothing else. -/
theorem Reaches.self (hA : A.Coherent) (h : A.Reaches sig t) : A.Reaches t t := by
  obtain ⟨m, b, hm, rfl⟩ := h
  exact (hm.self hA).reaches

theorem Reaches.eq (hA : A.Coherent) (h : A.Reaches sig t) (hu : A.Reaches t u) : u = t := by
  obtain ⟨m, b, hm, rfl⟩ := h
  exact (hm.self hA).eq_of_reaches hu

theorem Calls.exists_reaches (h : A.Calls b t) : ∃ sig, A.Reaches sig t := by
  obtain ⟨call, -, hr⟩ := h
  exact ⟨call.2.target, hr⟩

end Oracle

namespace Session

variable {σ : Type} {P : Provider σ} {start : σ} {A : Oracle} {s s' : Session σ}

/-! ### The queue -/

/-- The signatures of which `p` holds were queued. -/
structure Queues (p : Signature → Prop) (s s' : Session σ) : Prop where
  work : ∀ sig, sig ∈ s'.work.toList ↔ sig ∈ s.work.toList ∨ p sig
  visited : s'.visited = s.visited
  scanned : s'.scanned = s.scanned

theorem Idle.queues {p : Signature → Prop} (h : Idle s s') (hp : ∀ sig, ¬p sig) : Queues p s s' :=
  ⟨fun sig => by simp [h.work, hp], h.visited, h.scanned⟩

theorem Queues.trans {p q : Signature → Prop} {s₁ s₂ s₃ : Session σ} (h : Queues p s₁ s₂)
    (h' : Queues q s₂ s₃) : Queues (fun sig => p sig ∨ q sig) s₁ s₃ :=
  ⟨fun sig => by rw [h'.work, h.work, or_assoc], h'.visited.trans h.visited,
    h'.scanned.trans h.scanned⟩

theorem Queues.congr {p q : Signature → Prop} (h : Queues p s s') (hpq : ∀ sig, p sig ↔ q sig) :
    Queues q s s' :=
  ⟨fun sig => by rw [h.work, hpq], h.visited, h.scanned⟩

/-! ### The whole traversal -/

/-- The signature was visited, or it will be. -/
def Covers (s : Session σ) (sig : Signature) : Prop :=
  sig ∈ s.visited.toList ∨ sig ∈ s.work.toList

/-- The traversal is on its way to the least closed set: `R` is any closed set, and the signatures
    in `pending` are marked as visited, but it is still open what they lead to. -/
structure Explored (P : Provider σ) (start : σ) (A : Oracle) (roots : ClassName → Prop)
    (R : Set Signature) (pending : List Signature) (s : Session σ) : Prop where
  knows : Knows P start A s
  settled : ∀ sig ∈ s.visited.toList, sig ∉ pending → ∀ t, A.Reaches sig t → t ∈ s.scanned.toList
  seeded : ∀ sig, A.Seeds roots sig → s.Covers sig
  called : ∀ sig ∈ s.scanned.toList, ∀ m b, A.LeadsTo sig m b → ∀ t, A.Calls b t → s.Covers t
  scanned : ∀ sig ∈ s.scanned.toList, sig ∈ R
  licensed : ∀ sig, sig ∈ s.work.toList ∨ sig ∈ pending → ∀ t, A.Reaches sig t → t ∈ R

variable {roots : ClassName → Prop} {R : Set Signature} {sig : Signature} {work : Queue Signature}

/-- A step that scans nothing keeps the traversal on its way if it loses nothing, queues nothing and
    leaves nothing open. -/
theorem Explored.unscanned {pending pending' : List Signature}
    (h : Explored P start A roots R pending s) (hk : Knows P start A s')
    (hscanned : s'.scanned = s.scanned) (hcovers : ∀ t, s.Covers t → s'.Covers t)
    (hlicensed : ∀ t, t ∈ s'.work.toList ∨ t ∈ pending' → t ∈ s.work.toList ∨ t ∈ pending)
    (hsettled : ∀ u ∈ s'.visited.toList, u ∉ pending' → ∀ t, A.Reaches u t → t ∈ s.scanned.toList) :
    Explored P start A roots R pending' s' where
  knows := hk
  settled := hscanned ▸ hsettled
  seeded t ht := hcovers t (h.seeded t ht)
  called u hu m b hm t ht := hcovers t (h.called u (hscanned ▸ hu) m b hm t ht)
  scanned := hscanned ▸ h.scanned
  licensed t ht := h.licensed t (hlicensed t ht)

/-- The signature that is next may be thrown away if it was visited. -/
theorem Explored.drop (h : Explored P start A roots R [] s) (hw : s.work.pop? = some (sig, work))
    (hsig : sig ∈ s.visited.toList) : Explored P start A roots R [] (s.setWork work) := by
  have hpop := Queue.toList_of_pop? hw
  refine h.unscanned ⟨h.knows.resolver, h.knows.resolved⟩ rfl (fun t ht => ?_)
    (fun t => Or.imp_left fun ht => ?_) h.settled
  · rw [Covers, hpop, List.mem_cons] at ht
    exact ht.elim .inl (Or.imp_left fun he => he ▸ hsig)
  · rw [hpop]
    exact List.mem_cons_of_mem sig ht

/-- The signature that is next may be marked, and is open then. -/
theorem Explored.mark (h : Explored P start A roots R [] s) (hw : s.work.pop? = some (sig, work)) :
    Explored P start A roots R [sig] ((s.setWork work).mark sig) := by
  have hpop := Queue.toList_of_pop? hw
  have hvisited {t : Signature} :
      t ∈ ((s.setWork work).mark sig).visited.toList ↔ t ∈ s.visited.toList ∨ t = sig :=
    OrderedSet.mem_toList_insert
  refine h.unscanned ⟨h.knows.resolver, h.knows.resolved⟩ rfl (fun t ht => ?_)
    (fun t ht => .inl ?_) fun u hu hne => ?_
  · rw [Covers, hvisited, or_assoc]
    rwa [Covers, hpop, List.mem_cons] at ht
  · rw [hpop, List.mem_cons]
    exact ht.symm.imp_left List.mem_singleton.1
  · have hu := (hvisited.1 hu).resolve_right (by simpa using hne)
    exact h.settled u hu List.not_mem_nil

/-- When the queue is empty, the scanned methods are a closed set. -/
theorem Explored.closed (hA : A.Coherent) (h : Explored P start A roots R [] s)
    (hw : s.work.toList = []) : A.Closed roots {sig | sig ∈ s.scanned.toList} := by
  have hdone {u t : Signature} (hu : s.Covers u) (hr : A.Reaches u t) : t ∈ s.scanned.toList := by
    rw [Covers, hw] at hu
    exact h.settled u (hu.resolve_right List.not_mem_nil) List.not_mem_nil t hr
  refine ⟨fun hs hr => hdone (h.seeded _ hs) hr, fun {sig t m b} hsig hm hcall => ?_⟩
  obtain ⟨_, ht⟩ := hcall.exists_reaches
  exact hdone (h.called sig hsig m b hm t hcall) (ht.self hA)

end Session

end KernelReach
