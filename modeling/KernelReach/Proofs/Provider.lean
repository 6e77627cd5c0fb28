import KernelReach.Reach.Provider
import Mathlib.Order.Defs.LinearOrder

/-!
# What is asked of a provider

A provider has a state, which changes with every call, and so its answers may differ from call to
call. A *coherent* provider is one whose calls could be left out: its answers depend on the request
alone, and the answers about one class at different levels fit together.

* `Leads`: the states to which calls lead;
* `Oracle`: answers that depend on the request alone. `Provider.Follows` says that a provider gives
  the answers of an oracle in every state that it can get into;
* `Oracle.Graded`: the answers about a class at different levels are the same class, known better
  and better, or the same complaint; `Oracle.Coherent` asks in addition that a class declares its
  methods under its own name;
* `Oracle.ofClasses`: the answers of a list of classes, which are coherent, and `Sample.oracle`,
  those of a small program;
* `Provider.recorded`: a provider that keeps a journal of its calls, and answers as before.
-/

namespace KernelReach

namespace Level

instance : LinearOrder Level where
  le_refl a := Int.le_refl a.rank
  le_trans _ _ _ := Int.le_trans
  lt_iff_le_not_ge _ _ := Int.lt_iff_le_and_not_ge
  le_antisymm _ _ h h' := congrArg Level.mk (Int.le_antisymm h h')
  le_total a b := Int.le_total a.rank b.rank
  toDecidableLE := inferInstance
  toDecidableLT := inferInstance

theorem isValid_hierarchy : hierarchy.IsValid := by decide
theorem isValid_signatures : signatures.IsValid := by decide
theorem isValid_bodies : bodies.IsValid := by decide

/-- No valid level is above `bodies`. -/
theorem IsValid.eq_bodies {l : Level} (h : l.IsValid) (hl : bodies ≤ l) : l = bodies :=
  le_antisymm h.2 hl

theorem le_signatures_of_lt {l : Level} (h : l < bodies) : l ≤ signatures :=
  Int.le_of_lt_add_one h

end Level

namespace Provider

variable {σ : Type}

/-- The states to which calls lead from `start`, if classes are asked for only at levels that
    `admits` lets pass. -/
inductive Leads (P : Provider σ) (admits : Level → Prop) (start : σ) : σ → Prop
  | start : Leads P admits start start
  | resolve {s : σ} (name : ClassName) (level : Level) :
      Leads P admits start s → admits level → Leads P admits start (P.resolve name level s).2
  | retrieveBody {s : σ} (m : Method) :
      Leads P admits start s → Leads P admits start (P.retrieveBody m s).2

theorem Leads.trans {P : Provider σ} {admits : Level → Prop} {a b c : σ}
    (hab : P.Leads admits a b) (hbc : P.Leads admits b c) : P.Leads admits a c := by
  induction hbc with
  | start => exact hab
  | resolve name level _ hl ih => exact .resolve name level ih hl
  | retrieveBody m _ ih => exact .retrieveBody m ih

end Provider

/-! ### Answers that depend on the request alone -/

/-- Answers to every request. -/
structure Oracle where
  /-- The answer about the class of that name at that level. -/
  resolve : ClassName → Level → Except ProviderError Class
  /-- The answer about the body of a method. -/
  retrieveBody : Method → Except ProviderError Body

namespace Provider

variable {σ : Type}

/-- Whatever it was asked before, the provider answers requests for classes as `A` does. -/
def FollowsClasses (P : Provider σ) (start : σ) (A : Oracle) : Prop :=
  ∀ s, P.Leads Level.IsValid start s → ∀ name level, level.IsValid →
    (P.resolve name level s).1 = A.resolve name level

/-- Whatever it was asked before, the provider hands out bodies as `A` does. -/
def FollowsBodies (P : Provider σ) (start : σ) (A : Oracle) : Prop :=
  ∀ s, P.Leads Level.IsValid start s → ∀ m, (P.retrieveBody m s).1 = A.retrieveBody m

/-- Whatever it was asked before, the provider answers as `A` does. -/
structure Follows (P : Provider σ) (start : σ) (A : Oracle) : Prop where
  classes : P.FollowsClasses start A
  bodies : P.FollowsBodies start A

end Provider

/-- What the method table says about a method before its body is known. -/
def Method.entry (m : Method) : Signature × AccessFlags := (m.signature, m.flags)

namespace Oracle

/-- The answers about a class at different levels fit together. -/
structure Graded (A : Oracle) : Prop where
  name_eq {name : ClassName} {l : Level} {c : Class} :
    l.IsValid → A.resolve name l = .ok c → c.name = name
  level_eq {name : ClassName} {l : Level} {c : Class} :
    l.IsValid → A.resolve name l = .ok c → c.level = l
  /-- A class that can be had can be had at every lower level, with the same header and, if that
      level is high enough for one, the same method table. -/
  ok_of_le {name : ClassName} {l l' : Level} {c : Class} :
    l.IsValid → l'.IsValid → l ≤ l' → A.resolve name l' = .ok c →
      ∃ d, A.resolve name l = .ok d ∧ d.flags = c.flags ∧ d.superclass = c.superclass ∧
        d.interfaces = c.interfaces ∧
        (.signatures ≤ l → d.methods.map Method.entry = c.methods.map Method.entry)
  /-- A class that is unavailable is unavailable at every higher level, for the same reason. -/
  error_of_le {name : ClassName} {l l' : Level} {e : ProviderError} :
    l.IsValid → l'.IsValid → l ≤ l' → e.isUnavailable = true → A.resolve name l = .error e →
      A.resolve name l' = .error e

/-- The answers fit together, and every class declares its methods as its own. -/
structure Coherent (A : Oracle) : Prop extends A.Graded where
  owner_eq {name : ClassName} {l : Level} {c : Class} {m : Method} :
    l.IsValid → A.resolve name l = .ok c → m ∈ c.methods → m.signature.owner = name

end Oracle

/-! ### Lists of classes -/

/-- What is known of a class at a level, given all of it. -/
def Class.atLevel (c : Class) (l : Level) : Class :=
  { c with
    level := l
    methods :=
      if .bodies ≤ l then c.methods
      else if .signatures ≤ l then c.methods.map fun m => { m with body := none }
      else [] }

namespace Oracle

/-- The answers of a provider that has the classes `cs`. -/
def ofClasses (cs : List Class) : Oracle where
  resolve name l :=
    match cs.find? (·.name = name) with
    | some c => .ok (c.atLevel l)
    | none =>
      .error (.unavailable .classNotFound (name.text ++ ": " ++ Lack.classNotFound.message))
  retrieveBody m :=
    match m.body with
    | some b => .ok b
    | none => .error .noBody

theorem ofClasses_eq_ok {cs : List Class} {name : ClassName} {l : Level} {d : Class} :
    (ofClasses cs).resolve name l = .ok d ↔
      ∃ c, cs.find? (·.name = name) = some c ∧ d = c.atLevel l := by
  simp only [ofClasses]
  cases cs.find? (·.name = name) with
  | none => simp
  | some c => simp [eq_comm]

theorem map_entry_atLevel {c : Class} {l : Level} (hl : .signatures ≤ l) :
    (c.atLevel l).methods.map Method.entry = c.methods.map Method.entry := by
  by_cases hb : .bodies ≤ l
  · simp [Class.atLevel, hb]
  · simp [Class.atLevel, hb, hl, Method.entry, Function.comp_def]

/-- A list of classes is a coherent provider if every class declares its methods as its own. -/
theorem coherent_ofClasses {cs : List Class}
    (h : ∀ c ∈ cs, ∀ m ∈ c.methods, m.signature.owner = c.name) : (ofClasses cs).Coherent where
  name_eq _ hc := by
    obtain ⟨c, hf, rfl⟩ := ofClasses_eq_ok.1 hc
    simpa [Class.atLevel] using List.find?_some hf
  level_eq _ hc := by
    obtain ⟨c, _, rfl⟩ := ofClasses_eq_ok.1 hc
    rfl
  ok_of_le _ _ hle hc := by
    obtain ⟨c, hf, rfl⟩ := ofClasses_eq_ok.1 hc
    refine ⟨_, ofClasses_eq_ok.2 ⟨c, hf, rfl⟩, rfl, rfl, rfl, fun hs => ?_⟩
    rw [map_entry_atLevel hs, map_entry_atLevel (le_trans hs hle)]
  error_of_le {name l l' e} _ _ _ _ he := by
    revert he
    simp only [ofClasses]
    cases cs.find? (·.name = name) <;> simp
  owner_eq {name l c m} _ hc hm := by
    obtain ⟨c, hf, rfl⟩ := ofClasses_eq_ok.1 hc
    have hn : c.name = name := by simpa using List.find?_some hf
    have hentry : ∃ m' ∈ c.methods, m'.signature = m.signature := by
      simp only [Class.atLevel] at hm
      split_ifs at hm with hb hs
      · exact ⟨m, hm, rfl⟩
      · obtain ⟨m', hm', rfl⟩ := List.mem_map.1 hm
        exact ⟨m', hm', rfl⟩
      · exact absurd hm List.not_mem_nil
    obtain ⟨m', hm', he⟩ := hentry
    rw [← he, h c (List.mem_of_find?_eq_some hf) m' hm', hn]

/-- The provider that gives the answers of `A` and has no state. -/
def toProvider (A : Oracle) : Provider Unit where
  resolve name l s := (A.resolve name l, s)
  retrieveBody m s := (A.retrieveBody m, s)

theorem follows_toProvider (A : Oracle) : A.toProvider.Follows () A :=
  ⟨fun _ _ _ _ _ => rfl, fun _ _ _ => rfl⟩

end Oracle

/-! ### A small program

    A kernel that calls a method which its class inherits, an abstract method and a method of a
    class that is missing. The inherited method calls itself, and its code ends in a fault. -/

namespace Sample

/-- The method `name` of the class `owner`, without parameters and result. -/
def signature (owner name : String) : Signature := ⟨⟨owner⟩, name, "", "void"⟩

/-- A virtual call of `target` at `offset`. -/
def call (offset : Nat) (target : Signature) : Instruction :=
  ⟨offset, 0xb6, some ⟨.virtual, target⟩⟩

/-- The classes of the program. -/
def classes : List Class :=
  [{ name := ⟨"app.K"⟩, level := .bodies, flags := .isPublic, superclass := none
     interfaces := [⟨"api.Kernel"⟩]
     methods := [⟨signature "app.K" "run", .isPublic, some
      ⟨[call 0 (signature "app.Sub" "work"), call 3 (signature "app.Shape" "area"),
        call 6 (signature "app.Gone" "lost"), ⟨9, 0xb1, none⟩], none⟩⟩] },
   { name := ⟨"app.Base"⟩, level := .bodies, flags := .isPublic, superclass := none
     interfaces := []
     methods := [⟨signature "app.Base" "work", .isPublic, some
      ⟨[call 0 (signature "app.Base" "work")], some ⟨3, 0xfe, "undefined opcode"⟩⟩⟩] },
   { name := ⟨"app.Sub"⟩, level := .bodies, flags := .isPublic, superclass := some ⟨"app.Base"⟩
     interfaces := [], methods := [] },
   { name := ⟨"app.Shape"⟩, level := .bodies, flags := .isInterface, superclass := none
     interfaces := [], methods := [⟨signature "app.Shape" "area", .isAbstract, none⟩] }]

/-- The answers of a provider that has the program. -/
def oracle : Oracle := .ofClasses classes

theorem coherent_oracle : oracle.Coherent := Oracle.coherent_ofClasses (by decide)

end Sample

/-! ### Journals -/

namespace Provider

variable {σ τ : Type}

/-- The provider `Q` answers as `P` does, and has in `view` the state of `P`. -/
structure Refines (Q : Provider τ) (P : Provider σ) (view : τ → σ) : Prop where
  resolve : ∀ name level t, P.resolve name level (view t) =
    ((Q.resolve name level t).1, view (Q.resolve name level t).2)
  retrieveBody : ∀ m t, P.retrieveBody m (view t) =
    ((Q.retrieveBody m t).1, view (Q.retrieveBody m t).2)

/-- A call of a provider, with its answer. -/
inductive Call
  | resolve (name : ClassName) (level : Level) (answer : Except ProviderError Class)
  | retrieveBody (m : Method) (answer : Except ProviderError Body)

/-- The class that a call asks for, and the level. -/
def Call.asks? : Call → Option (ClassName × Level)
  | resolve name level _ => some (name, level)
  | retrieveBody .. => none

/-- The class that a call is about. -/
def Call.subject : Call → ClassName
  | resolve name _ _ => name
  | retrieveBody m _ => m.signature.owner

/-- The call asked for a class, and its answer cannot be kept: it is a failure, or a class below
    the level that was asked for. -/
def Call.Fruitless : Call → Prop
  | resolve _ level (.ok c) => c.level < level
  | resolve _ _ (.error e) => e.isUnavailable = false
  | retrieveBody .. => False

/-- The provider with a journal of its calls, the last one last. -/
def recorded (P : Provider σ) : Provider (σ × List Call) where
  resolve name level s :=
    let (answer, source) := P.resolve name level s.1
    (answer, source, s.2 ++ [.resolve name level answer])
  retrieveBody m s :=
    let (answer, source) := P.retrieveBody m s.1
    (answer, source, s.2 ++ [.retrieveBody m answer])

theorem journal_of_resolve {P : Provider σ} {name : ClassName} {level : Level}
    {s t : σ × List Call} {answer : Except ProviderError Class}
    (h : P.recorded.resolve name level s = (answer, t)) :
    t.2 = s.2 ++ [.resolve name level answer] := by
  obtain ⟨rfl, rfl⟩ := Prod.mk.inj h
  rfl

/-- A journal changes no answer. -/
theorem recorded_refines (P : Provider σ) : P.recorded.Refines P Prod.fst :=
  ⟨fun _ _ _ => rfl, fun _ _ => rfl⟩

theorem Refines.leads {P : Provider σ} {Q : Provider τ} {view : τ → σ} {admits : Level → Prop}
    {t u : τ} (h : Q.Refines P view) (hl : Q.Leads admits t u) :
    P.Leads admits (view t) (view u) := by
  induction hl with
  | start => exact .start
  | @resolve u name level _ hlevel ih =>
    have hstep := ih.resolve name level hlevel
    rwa [h.resolve name level u] at hstep
  | @retrieveBody u m _ ih =>
    have hstep := ih.retrieveBody m
    rwa [h.retrieveBody m u] at hstep

/-- A provider that answers as another one follows the same oracle. -/
theorem Refines.follows {P : Provider σ} {Q : Provider τ} {view : τ → σ} {t : τ} {A : Oracle}
    (h : Q.Refines P view) (hP : P.Follows (view t) A) : Q.Follows t A where
  classes u hu name level hl := by
    rw [← hP.classes (view u) (h.leads hu) name level hl, h.resolve]
  bodies u hu m := by
    rw [← hP.bodies (view u) (h.leads hu) m, h.retrieveBody]

end Provider

end KernelReach
