import KernelReach.Text.Affix
import KernelReach.Text.Numeral

/-!
# Database engines

Reports are kept in a file or on a database server; which of them is decided by the address. The
two differ in how the places for values are marked in a statement.
-/

namespace KernelReach

/-- The engine that runs a report database. -/
inductive Engine
  /-- A database in a file. -/
  | sqlite
  /-- A database server. -/
  | postgres
  deriving DecidableEq, Repr

namespace Engine

def name : Engine → String
  | sqlite => "sqlite"
  | postgres => "postgres"

/-- Whether an address is that of a database server. -/
def isServerAddress (address : String) : Bool :=
  Text.startsWith "postgres://" address || Text.startsWith "postgresql://" address

/-- Numbers the question marks of a statement from `n + 1` on. -/
def numberPlaces (n : Nat) : List Char → List Char
  | [] => []
  | '?' :: cs => '$' :: (Text.decimal 1 (n + 1)).toList ++ numberPlaces (n + 1) cs
  | c :: cs => c :: numberPlaces n cs

/-- A statement with its places for values marked as the engine wants it. -/
def bindPlaces (e : Engine) (statement : String) : String :=
  match e with
  | sqlite => statement
  | postgres => String.ofList (numberPlaces 0 statement.toList)

end Engine

end KernelReach
