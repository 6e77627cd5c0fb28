import KernelReach.Report.Basic
import KernelReach.Text.Affix
import Std.Data.HashMap
import Std.Data.HashSet

/-!
# The graph view

The part of a call graph that lies around a method, up to a depth. A filter hides methods by their
classes and calls by their status, and says where to stop. The walk is breadth first, so that
every method is met at its least distance from the root.

A view can be extended by a walk from another root; what was met before keeps its depth and is not
expanded again.
-/

namespace KernelReach.Web

/-- What to show of a call graph. -/
structure GraphFilter where
  /-- Leave out the classes of the platform. -/
  hidePlatform : Bool := false
  /-- Leave out calls that were not followed. -/
  hideUnavailable : Bool := false
  /-- Do not look into classes whose names start like this. -/
  stopAt : List String := []
  /-- The greatest depth; no bound if it is not positive. -/
  maxDepth : Int := 6
  /-- Patterns of classes to leave out. -/
  noise : List String := []
  deriving DecidableEq, Repr

/-- The class in the text of a signature: what stands before the first colon, without the angle
    bracket at the start. -/
def signatureClass (sig : String) : String :=
  let cs := match sig.toList with
    | '<' :: cs => cs
    | cs => cs
  String.ofList (cs.takeWhile (· != ':'))

def isPlatform (name : String) : Bool :=
  ["java.", "javax.", "sun.", "jdk."].any fun head => Text.startsWith head name

/-- Whether a class matches a pattern: the name itself, a package with `.*` after it, or the
    beginning of a name with `*` after it. -/
def matchesPattern (pattern name : String) : Bool :=
  if pattern = name then true
  else if Text.endsWith ".*" pattern then
    let package := Text.dropEnd ".*" pattern
    Text.startsWith (package ++ ".") name || name == package
  else if Text.endsWith "*" pattern then Text.startsWith (Text.dropEnd "*" pattern) name
  else false

namespace GraphFilter

/-- Whether the methods of a class are left out. -/
def hides (f : GraphFilter) (name : String) : Bool :=
  (f.hidePlatform && isPlatform name) || f.noise.any fun pattern => matchesPattern pattern name

/-- Whether the methods of a class are not looked into. -/
def stops (f : GraphFilter) (name : String) : Bool :=
  f.stopAt.any fun head => Text.startsWith head name

/-- Whether a call is left out. -/
def hidesCall (f : GraphFilter) (e : EdgeRecord) : Bool :=
  f.hideUnavailable && e.status == EdgeRecord.unavailableStatus

/-- A depth, cut to the greatest depth of the filter. -/
def clampDepth (f : GraphFilter) (depth : Int) : Int :=
  if 0 < f.maxDepth ∧ f.maxDepth < depth then f.maxDepth else depth

end GraphFilter

/-- A method in a view. -/
structure GraphNode where
  signature : String
  owner : String
  /-- Whether the analysis reached the method. -/
  reached : Bool
  /-- Whether the calls of the method are part of the view. -/
  expanded : Bool
  depth : Nat
  deriving DecidableEq, Repr

/-- All calls from one method to another. -/
@[ext]
structure GraphEdge where
  source : String
  target : String
  /-- The kind of the first call. -/
  kind : String
  /-- The status of the first call. -/
  status : String
  callSites : Nat
  deriving DecidableEq, Repr

/-- A view on a call graph. -/
structure GraphView where
  root : String
  depth : Int
  nodes : List GraphNode
  edges : List GraphEdge
  /-- How many methods and calls were left out. -/
  filtered : Nat
  deriving DecidableEq, Repr

/-- The calls of a method to one callee are counted together, in the order of the first ones. -/
def countCall (edges : List GraphEdge) (source : String) (e : EdgeRecord) : List GraphEdge :=
  match edges with
  | [] => [⟨source, e.callee, e.kind, e.status, 1⟩]
  | g :: gs =>
    if g.target = e.callee then { g with callSites := g.callSites + 1 } :: gs
    else g :: countCall gs source e

/-- A call graph and the part of it that is in view. -/
structure GraphBuilder where
  filter : GraphFilter
  /-- The calls of every method, in order. -/
  calls : Std.HashMap String (List EdgeRecord)
  /-- The methods that the analysis reached. -/
  reached : Std.HashSet String
  nodes : Std.HashMap String GraphNode := ∅
  /-- The edges in view, the last first. -/
  edges : List GraphEdge := []
  /-- The methods that were or will be expanded. -/
  visited : Std.HashSet String := ∅
  filtered : Nat := 0

namespace GraphBuilder

/-- The builder for the calls and the reachable methods of a run. -/
def new (edges : List EdgeRecord) (methods : List MethodRecord) (filter : GraphFilter) :
    GraphBuilder where
  filter
  calls := edges.foldr (fun e calls =>
    calls.insert e.caller (e :: calls.getD e.caller [])) ∅
  reached := Std.HashSet.ofList (methods.map MethodRecord.signature)

/-- The calls of a method that are not left out, counted by callee. -/
def outgoing (b : GraphBuilder) (sig : String) : List GraphEdge :=
  ((b.calls.getD sig []).filter fun e => !b.filter.hidesCall e).foldl
    (fun edges e => countCall edges sig e) []

/-- The number of calls of a method that are left out. -/
def hiddenCalls (b : GraphBuilder) (sig : String) : Nat :=
  (b.calls.getD sig []).countP b.filter.hidesCall

/-- Brings a method into view, unless its class is left out. A method that is in view already
    stays as it is. The answer is whether the method is in view. -/
def addNode (sig : String) (depth : Nat) (expanded : Bool) (b : GraphBuilder) :
    Bool × GraphBuilder :=
  let owner := signatureClass sig
  if b.nodes.contains sig then (true, b)
  else if b.filter.hides owner then (false, { b with filtered := b.filtered + 1 })
  else
    let node : GraphNode := ⟨sig, owner, b.reached.contains sig, expanded, depth⟩
    (true, { b with nodes := b.nodes.insert sig node })

/-- Brings a call into view. The second part of the state are the methods to expand on the next
    level, the last first. -/
def addEdge (depth : Nat) (state : GraphBuilder × List String) (e : GraphEdge) :
    GraphBuilder × List String :=
  let (b, next) := state
  match b.addNode e.target depth false with
  | (false, b) => (b, next)
  | (true, b) =>
    let b := { b with edges := e :: b.edges }
    if b.visited.contains e.target then (b, next)
    else ({ b with visited := b.visited.insert e.target }, e.target :: next)

/-- Marks a method as expanded, if it is in view. -/
def markExpanded (sig : String) (b : GraphBuilder) : GraphBuilder :=
  match b.nodes[sig]? with
  | some node => { b with nodes := b.nodes.insert sig { node with expanded := true } }
  | none => b

/-- Brings the calls of a method into view, unless the filter stops at its class. Their targets
    are at `depth`. -/
def expandMethod (depth : Nat) (state : GraphBuilder × List String) (sig : String) :
    GraphBuilder × List String :=
  let (b, next) := state
  if b.filter.stops (signatureClass sig) then (b, next)
  else
    let edges := b.outgoing sig
    let b := { b with filtered := b.filtered + b.hiddenCalls sig }
    let (b, next) := edges.foldl (addEdge depth) (b, next)
    (b.markExpanded sig, next)

/-- Expands the methods of a frontier, then those that are met there, for so many levels. -/
def expand : (levels : Nat) → (depth : Nat) → (frontier : List String) → GraphBuilder →
    GraphBuilder
  | 0, _, _, b => b
  | levels + 1, depth, frontier, b =>
    match frontier with
    | [] => b
    | _ :: _ =>
      let (b, next) := frontier.foldl (expandMethod (depth + 1)) (b, [])
      expand levels (depth + 1) next.reverse b

def added (b : GraphBuilder) : List GraphNode := b.nodes.toList.map Prod.snd

/-- The order of the nodes of a view. -/
def nodeBefore (a b : GraphNode) : Bool :=
  if a.depth = b.depth then a.signature ≤ b.signature else a.depth < b.depth

/-- Extends the view by a walk from a root, and shows all of it. -/
def build (root : String) (depth : Int) (b : GraphBuilder) : GraphView × GraphBuilder :=
  let depth := b.filter.clampDepth depth
  let (_, b) := b.addNode root 0 true
  let b := { b with visited := b.visited.insert root }
  let b := b.expand depth.toNat 0 [root]
  ({ root, depth, nodes := b.added.mergeSort nodeBefore, edges := b.edges.reverse,
      filtered := b.filtered }, b)

end GraphBuilder

/-! ### Documents -/

def GraphNode.toJson (n : GraphNode) : Json := .object [
  ("signature", .string n.signature), ("class", .string n.owner), ("reached", .bool n.reached),
  ("expanded", .bool n.expanded), ("depth", .int n.depth)]

def GraphEdge.toJson (e : GraphEdge) : Json := .object [
  ("source", .string e.source), ("target", .string e.target), ("call_kind", .string e.kind),
  ("status", .string e.status), ("callsite_count", .int e.callSites)]

def GraphView.toJson (v : GraphView) : Json := .object [
  ("nodes", .list GraphNode.toJson v.nodes), ("edges", .list GraphEdge.toJson v.edges),
  ("root", .string v.root), ("max_depth", .int v.depth), ("filtered_count", .int v.filtered)]

end KernelReach.Web
