import KernelReach.Text.Blank
import KernelReach.Text.Case
import KernelReach.Text.Quoted

/-!
# Levels of resolution

A class is resolved to a level: its place in the hierarchy, then its method table, then the
bodies of its methods. Each level holds all that the levels below it hold. Levels are compared by
rank; a request may carry any rank, and only the three ranks above `none` can be served.
-/

namespace KernelReach

/-- How much of a class is known. -/
structure Level where
  rank : Int
  deriving DecidableEq, Repr, Inhabited

namespace Level

/-- Nothing is known. -/
def none : Level := ⟨0⟩

/-- Name, flags, superclass and interfaces are known. -/
def hierarchy : Level := ⟨1⟩

/-- The method table is known as well. -/
def signatures : Level := ⟨2⟩

/-- The bodies of the concrete methods are known as well. -/
def bodies : Level := ⟨3⟩

instance : LE Level := ⟨fun a b => a.rank ≤ b.rank⟩
instance : LT Level := ⟨fun a b => a.rank < b.rank⟩
instance (a b : Level) : Decidable (a ≤ b) := inferInstanceAs (Decidable (a.rank ≤ b.rank))
instance (a b : Level) : Decidable (a < b) := inferInstanceAs (Decidable (a.rank < b.rank))

/-- The levels that a class can be resolved to. -/
def IsValid (l : Level) : Prop := hierarchy ≤ l ∧ l ≤ bodies

instance (l : Level) : Decidable l.IsValid := inferInstanceAs (Decidable (_ ∧ _))

/-- The name of a level. A rank that cannot be served has the name of `none`. -/
def name (l : Level) : String :=
  if l = hierarchy then "hierarchy"
  else if l = signatures then "signatures"
  else if l = bodies then "bodies"
  else "none"

/-- A text that names no level. -/
structure Unknown where
  text : String
  deriving DecidableEq, Repr

def Unknown.message (e : Unknown) : String :=
  "unknown resolution level " ++ Text.quote e.text

/-- Reads the name of a level that can be served, in any case and with blanks around it. -/
def parse (s : String) : Except Unknown Level :=
  match Text.lower (Text.trim s) with
  | "hierarchy" => .ok hierarchy
  | "signatures" => .ok signatures
  | "bodies" => .ok bodies
  | _ => .error ⟨s⟩

end Level

end KernelReach
