import KernelReach.Class.Descriptor
import KernelReach.Proofs.Collections
import KernelReach.Proofs.Text.Held
import KernelReach.Text.Affix
import Mathlib.Logic.Function.Basic

/-!
# The grammar of method descriptors

What a descriptor can look like is told by trees: a `MethodForm` is written `(` types `)` type, and
a `TypeForm` is any number of `[` before the letter of a primitive type or before `L` name `;`. The
trees are over an `Alphabet`, for a descriptor can be taken as a list of characters or of bytes. No
two of them are written alike (`MethodForm.spelling_injective`).
-/

namespace KernelReach.Descriptor

/-! ### Alphabets -/

/-- What a descriptor is made of, apart from the names of classes. -/
inductive Mark
  | openParams
  | closeParams
  | dimension
  | object
  | endName
  | void
  | primitive (p : Primitive)
  deriving DecidableEq, Repr

namespace Mark

def char : Mark → Char
  | openParams => '('
  | closeParams => ')'
  | dimension => '['
  | object => 'L'
  | endName => ';'
  | void => 'V'
  | primitive p => p.code

def all : List Mark :=
  [openParams, closeParams, dimension, object, endName, void] ++ Primitive.all.map primitive

theorem mem_all (m : Mark) : m ∈ all := by
  cases m with
  | primitive p => cases p <;> decide
  | _ => decide

theorem isAscii_char (m : Mark) : Text.IsAscii m.char := by
  have hall : ∀ m ∈ all, Text.IsAscii m.char := by decide
  exact hall m m.mem_all

theorem char_injective : Function.Injective char := by
  have hall : ∀ m ∈ all, ∀ n ∈ all, m.char = n.char → m = n := by decide
  exact fun m n => hall m m.mem_all n n.mem_all

theorem asciiByte_char_injective : Function.Injective fun m : Mark => Text.asciiByte m.char := by
  have hall : ∀ m ∈ all, ∀ n ∈ all, Text.asciiByte m.char = Text.asciiByte n.char → m = n := by
    decide
  exact fun m n => hall m m.mem_all n n.mem_all

end Mark

/-- What descriptors are written in. -/
structure Alphabet (α : Type) where
  mark : Mark → α
  mark_injective : Function.Injective mark
  /-- The text that a name is. -/
  text : List α → String

/-- Descriptors as characters. -/
def chars : Alphabet Char := ⟨Mark.char, Mark.char_injective, String.ofList⟩

/-- Descriptors as bytes. -/
def bytes : Alphabet UInt8 :=
  ⟨fun m => Text.asciiByte m.char, Mark.asciiByte_char_injective, Text.hold⟩

/-! ### Trees -/

variable {α : Type} {A : Alphabet α}

/-- An element type: a letter, or `L`, a name without `;` and `;`. -/
inductive ElementForm (A : Alphabet α)
  | primitive (p : Primitive)
  | object (name : List α) (h : A.mark .endName ∉ name)

/-- A type: an element type behind any number of `[`. -/
structure TypeForm (A : Alphabet α) where
  dims : Nat
  element : ElementForm A

/-- A method descriptor. -/
structure MethodForm (A : Alphabet α) where
  params : List (TypeForm A)
  /-- The type of the result; none if it is `V`. -/
  result : Option (TypeForm A)

namespace ElementForm

def spelling : ElementForm A → List α
  | primitive p => [A.mark (.primitive p)]
  | object name _ => A.mark .object :: (name ++ [A.mark .endName])

theorem spelling_object_append (name : List α) (h : A.mark .endName ∉ name) (r : List α) :
    (object name h).spelling ++ r = A.mark .object :: (name ++ A.mark .endName :: r) := by
  simp [spelling]

/-- The keyword, or the name with dots for slashes. -/
def text : ElementForm A → String
  | primitive p => p.keyword
  | object name _ => Text.replaceChar '/' '.' (A.text name)

end ElementForm

namespace TypeForm

def spelling (t : TypeForm A) : List α :=
  List.replicate t.dims (A.mark .dimension) ++ t.element.spelling

/-- The text of the element type, and one `[]` for each `[`. -/
def text (t : TypeForm A) : String :=
  t.element.text ++ String.join (List.replicate t.dims "[]")

/-- The type is `Lvoid;`. -/
def IsVoidClass (t : TypeForm A) : Prop :=
  t.dims = 0 ∧ ∃ name h, t.element = .object name h ∧ A.text name = "void"

end TypeForm

/-- How the type of a result is written. -/
def resultSpelling : Option (TypeForm A) → List α
  | none => [A.mark .void]
  | some t => t.spelling

/-- The text of the type of a result. -/
def resultText : Option (TypeForm A) → String
  | none => "void"
  | some t => t.text

namespace MethodForm

def spelling (d : MethodForm A) : List α :=
  A.mark .openParams ::
    (d.params.flatMap TypeForm.spelling ++ A.mark .closeParams :: resultSpelling d.result)

/-- The texts of the parameter types and of the result. -/
def texts (d : MethodForm A) : List String × String :=
  (d.params.map TypeForm.text, resultText d.result)

/-- No parameter is of the type `Lvoid;`. -/
def IsAdmissible (d : MethodForm A) : Prop := ∀ t ∈ d.params, ¬ t.IsVoidClass

end MethodForm

/-! ### One tree only -/

/-- An element type starts with a mark that tells it from an array and from the end of a list. -/
theorem ElementForm.spelling_eq_cons (e : ElementForm A) :
    ∃ m rest, e.spelling = A.mark m :: rest ∧ m ≠ .dimension ∧ m ≠ .closeParams ∧ m ≠ .void := by
  cases e with
  | primitive p => exact ⟨_, _, rfl, nofun, nofun, nofun⟩
  | object name h => exact ⟨_, _, rfl, nofun, nofun, nofun⟩

theorem TypeForm.spelling_eq_cons (t : TypeForm A) :
    ∃ m rest, t.spelling = A.mark m :: rest ∧ m ≠ .closeParams ∧ m ≠ .void := by
  obtain ⟨dims, element⟩ := t
  cases dims with
  | zero =>
    obtain ⟨m, rest, h, -, hm⟩ := element.spelling_eq_cons
    exact ⟨m, rest, h, hm⟩
  | succ dims => exact ⟨.dimension, _, rfl, nofun, nofun⟩

theorem mark_eq_of_cons {m n : Mark} {l r : List α} (h : A.mark m :: l = A.mark n :: r) : m = n :=
  A.mark_injective (List.cons.inj h).1

theorem ElementForm.spelling_append_inj {e e' : ElementForm A} {r r' : List α}
    (h : e.spelling ++ r = e'.spelling ++ r') : e = e' ∧ r = r' := by
  cases e with
  | primitive p =>
    cases e' with
    | primitive p' =>
      obtain ⟨rfl⟩ := mark_eq_of_cons h
      exact ⟨rfl, (List.cons.inj h).2⟩
    | object name' h' => cases mark_eq_of_cons h
  | object name hn =>
    cases e' with
    | primitive p' => cases mark_eq_of_cons h
    | object name' hn' =>
      rw [spelling_object_append, spelling_object_append] at h
      obtain ⟨rfl, rfl⟩ := append_cons_inj hn hn' (List.cons.inj h).2
      exact ⟨rfl, rfl⟩

theorem TypeForm.spelling_append_inj {t t' : TypeForm A} {r r' : List α}
    (h : t.spelling ++ r = t'.spelling ++ r') : t = t' ∧ r = r' := by
  obtain ⟨dims, element⟩ := t
  obtain ⟨dims', element'⟩ := t'
  simp only [spelling, List.append_assoc] at h
  -- The brackets are counted off in pairs; neither element type starts with one.
  induction dims generalizing dims' with
  | zero =>
    cases dims' with
    | zero =>
      obtain ⟨rfl, rfl⟩ := ElementForm.spelling_append_inj h
      exact ⟨rfl, rfl⟩
    | succ dims' =>
      obtain ⟨m, rest, hm, hne, -⟩ := element.spelling_eq_cons
      rw [hm] at h
      exact absurd (mark_eq_of_cons h) hne
  | succ dims ih =>
    cases dims' with
    | zero =>
      obtain ⟨m, rest, hm, hne, -⟩ := element'.spelling_eq_cons
      rw [hm] at h
      exact absurd (mark_eq_of_cons h).symm hne
    | succ dims' =>
      obtain ⟨hform, rfl⟩ := ih dims' (List.cons.inj h).2
      obtain ⟨rfl, rfl⟩ := TypeForm.mk.inj hform
      exact ⟨rfl, rfl⟩

theorem params_spelling_inj {ts ts' : List (TypeForm A)} {r r' : List α}
    (h : ts.flatMap TypeForm.spelling ++ A.mark .closeParams :: r =
      ts'.flatMap TypeForm.spelling ++ A.mark .closeParams :: r') : ts = ts' ∧ r = r' := by
  induction ts generalizing ts' with
  | nil =>
    cases ts' with
    | nil => exact ⟨rfl, (List.cons.inj h).2⟩
    | cons t' ts' =>
      obtain ⟨m, rest, hm, hne, -⟩ := t'.spelling_eq_cons
      rw [List.flatMap_cons, hm] at h
      exact absurd (mark_eq_of_cons h).symm hne
  | cons t ts ih =>
    cases ts' with
    | nil =>
      obtain ⟨m, rest, hm, hne, -⟩ := t.spelling_eq_cons
      rw [List.flatMap_cons, hm] at h
      exact absurd (mark_eq_of_cons h) hne
    | cons t' ts' =>
      rw [List.flatMap_cons, List.flatMap_cons, List.append_assoc, List.append_assoc] at h
      obtain ⟨rfl, htail⟩ := TypeForm.spelling_append_inj h
      obtain ⟨rfl, rfl⟩ := ih htail
      exact ⟨rfl, rfl⟩

theorem resultSpelling_injective : Function.Injective (resultSpelling (A := A)) := by
  intro t t' h
  cases t with
  | none =>
    cases t' with
    | none => rfl
    | some t' =>
      obtain ⟨m, rest, hm, -, hne⟩ := t'.spelling_eq_cons
      rw [resultSpelling, resultSpelling, hm] at h
      exact absurd (mark_eq_of_cons h).symm hne
  | some t =>
    cases t' with
    | none =>
      obtain ⟨m, rest, hm, -, hne⟩ := t.spelling_eq_cons
      rw [resultSpelling, resultSpelling, hm] at h
      exact absurd (mark_eq_of_cons h) hne
    | some t' =>
      have happend : t.spelling ++ [] = t'.spelling ++ [] := by
        rw [List.append_nil, List.append_nil]
        exact h
      exact congrArg some (TypeForm.spelling_append_inj happend).1

/-- No two trees are written alike. -/
theorem MethodForm.spelling_injective : Function.Injective (spelling (A := A)) := by
  rintro ⟨params, result⟩ ⟨params', result'⟩ h
  obtain ⟨hparams, hresult⟩ := params_spelling_inj (List.cons.inj h).2
  exact congrArg₂ MethodForm.mk hparams (resultSpelling_injective hresult)

end KernelReach.Descriptor
