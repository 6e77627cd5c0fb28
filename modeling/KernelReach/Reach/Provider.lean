import KernelReach.Class.Basic

/-!
# Providers of classes

The analysis reads classes from a provider. A provider answers a request for a class at a level,
and hands out the bodies of methods. It may have a state of its own (caches, counters), which it
changes with every answer. An answer is a value, or says that what was asked for is unavailable,
which the analysis takes note of and lives with, or is a failure that ends the analysis.
-/

namespace KernelReach

/-- What is missing when something is unavailable. -/
inductive Lack
  | classNotFound
  | malformedClass
  | methodNotFound
  | noBody
  deriving DecidableEq, Repr

/-- What every complaint about a lack says. -/
def Lack.message : Lack → String
  | classNotFound => "class not found"
  | malformedClass => "malformed class file"
  | methodNotFound => "method not found"
  | noBody => "method has no body"

/-- The failure of a provider. -/
inductive ProviderError
  /-- What was asked for is not there or cannot be used. -/
  | unavailable (lack : Lack) (message : String)
  /-- Something went wrong that has nothing to do with what was asked for. -/
  | fatal (message : String)
  deriving DecidableEq, Repr

namespace ProviderError

def message : ProviderError → String
  | unavailable _ m => m
  | fatal m => m

/-- Whether the analysis goes on without what was asked for. -/
def isUnavailable : ProviderError → Bool
  | unavailable .. => true
  | fatal _ => false

/-- The answer about a method that has no body. -/
def noBody : ProviderError := .unavailable .noBody Lack.noBody.message

end ProviderError

/-- A source of classes with the state `σ`. -/
structure Provider (σ : Type) where
  /-- The class of that name, resolved to that level. -/
  resolve : ClassName → Level → σ → Except ProviderError Class × σ
  /-- The body of a method of a class that was resolved to bodies. -/
  retrieveBody : Method → σ → Except ProviderError Body × σ

end KernelReach
