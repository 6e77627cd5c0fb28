import KernelReach.Reach.Provider

/-!
# Failures of the analysis

Everything that can keep the analysis from an answer. The unavailable ones are noted and left
behind; the others end the phase in which they arise.
-/

namespace KernelReach

/-- Why the analysis cannot answer. -/
inductive AnalysisError
  /-- The provider's answer, passed on as it is. -/
  | provider (e : ProviderError)
  /-- The provider failed while it resolved a class. -/
  | resolving (name : ClassName) (message : String)
  /-- The provider answered with less than was asked for. -/
  | belowLevel (name : ClassName) (got want : Level)
  /-- A method is looked for in a class whose method table is not known. -/
  | levelTooLow (sig : Signature)
  | methodNotFound (sig : Signature)
  /-- The search for a method ends at a superclass that cannot be had. -/
  | superclassUnavailable (sig : Signature) (superclass : ClassName)
  /-- A method is abstract or native. -/
  | noBody (sig : Signature)
  /-- The analysis was called off. -/
  | canceled
  /-- The bound on the number of steps was reached. -/
  | exhausted
  deriving DecidableEq, Repr

namespace AnalysisError

/-- What is missing, if that is what the failure is about. -/
def lack? : AnalysisError → Option Lack
  | provider (.unavailable lack _) => some lack
  | methodNotFound _ | superclassUnavailable .. => some .methodNotFound
  | noBody _ => some .noBody
  | _ => none

def isUnavailable (e : AnalysisError) : Bool := e.lack?.isSome

def message : AnalysisError → String
  | provider e => e.message
  | resolving name m => "resolving " ++ name.text ++ ": " ++ m
  | belowLevel name got want =>
    "resolving " ++ name.text ++ ": provider returned " ++ got.name ++ ", want " ++ want.name
  | levelTooLow sig => sig.text ++ ": class not resolved to signatures"
  | methodNotFound sig => sig.text ++ ": " ++ Lack.methodNotFound.message
  | superclassUnavailable sig superclass =>
    sig.text ++ ": " ++ Lack.methodNotFound.message ++ ": superclass " ++ superclass.text
      ++ " unavailable"
  | noBody sig => sig.text ++ ": " ++ Lack.noBody.message
  | canceled => "context canceled"
  | exhausted => "step limit reached"

end AnalysisError

/-- The phases of an analysis in which it can fail. -/
inductive Phase
  | loadingSignatures
  | loadingBuiltins
  | buildingCallGraph
  deriving DecidableEq, Repr

def Phase.name : Phase → String
  | loadingSignatures => "loading signatures"
  | loadingBuiltins => "loading built-in classes"
  | buildingCallGraph => "building call graph"

/-- A failure and the phase that it ends. -/
structure PhaseError where
  phase : Phase
  cause : AnalysisError
  deriving DecidableEq, Repr

def PhaseError.message (e : PhaseError) : String := e.phase.name ++ ": " ++ e.cause.message

end KernelReach
