import KernelReach.Class.Basic
import KernelReach.Text.Affix

/-!
# What happens during an analysis

A diagnostic is a condition that the analysis took note of and lived with. An event is a
diagnostic or a step of progress; events are recorded in order, and a reader who wants the
diagnostics only leaves out the rest.
-/

namespace KernelReach

/-- Where a diagnostic comes from. -/
inductive DiagnosticKind
  | ingest
  | resolve
  | entryPoint
  | builtin
  | scan
  deriving DecidableEq, Repr

def DiagnosticKind.name : DiagnosticKind → String
  | ingest => "ingest"
  | resolve => "resolve"
  | entryPoint => "entrypoint"
  | builtin => "builtin"
  | scan => "scan"

/-- A condition that does not end the analysis. -/
structure Diagnostic where
  kind : DiagnosticKind
  subject : String
  message : String
  deriving DecidableEq, Repr

/-- Something that happens during an analysis. -/
inductive Event
  | diagnosed (d : Diagnostic)
  /-- The provider is asked for a class. -/
  | resolving (name : ClassName) (level : Level)
  /-- The package filter keeps an ingested class out. -/
  | ignoring (name : ClassName)
  | loadingSignatures (name : ClassName)
  | resolvingToBodies (name : ClassName)
  /-- A queued method does not lead to a concrete method. -/
  | noConcreteBody (sig : Signature) (reason : String)
  /-- A queued method has no body that can be retrieved. -/
  | noBody (sig : Signature)
  /-- The body of a method is scanned. -/
  | scanning (sig : Signature)
  deriving DecidableEq, Repr

namespace Event

def isWarning : Event → Bool
  | diagnosed _ => true
  | _ => false

/-- The line that a log has about an event. -/
def line : Event → String
  | diagnosed d => "warning: " ++ d.kind.name ++ " " ++ d.subject ++ ": " ++ d.message
  | resolving name level => "resolving " ++ name.text ++ " to " ++ level.name
  | ignoring name => "ignoring " ++ name.text
  | loadingSignatures name => "loading class to signatures: " ++ name.text
  | resolvingToBodies name => "resolving to bodies: " ++ name.text
  | noConcreteBody sig reason => "unable to find a concrete body for " ++ sig.text ++ ": " ++ reason
  | noBody sig => "cannot find body for method " ++ sig.text
  | scanning sig => "call graph: " ++ sig.text

def lines (e : Event) : List String := Text.lines e.line

end Event

end KernelReach
