import KernelReach.Store.Basic
import KernelReach.Text.ReadNumeral
import KernelReach.Web.GraphView
import KernelReach.Web.Response

/-!
# The report interface

Stored reports can be read over the web. The interface answers only to reading, and its documents
may be read by pages of other sites:

* `/api/runs` lists runs, `/api/stats` counts rows, `/api/health` says that the server is there;
* `/api/runs/ID` is the summary of a run, where `latest` stands for the run that started last, and
  `/api/runs/ID/RESOURCE` is one of its lists, the whole report, or a view on its call graph.

Every other path but the root leads nowhere.
-/

namespace KernelReach.Web

/-- A report server. -/
structure Server where
  store : Store
  port : Int

namespace Server

/-- The number of runs that are listed unless another is asked for. -/
def defaultLimit : Int := 50

/-- The response to a failure of the store while something was being loaded. -/
def storeFailure (what : String) (e : StoreError) : Response :=
  if e.root = .noRun then .failure 404 "run not found" else .failure 500 ("failed to load " ++ what)

/-- The response with what the store answers, which `fault?` may keep from being written. -/
def attempt {α : Type} (what : String) (fault? : α → Option Time.WriteFault) (toJson : α → Json)
    (x : Except StoreError α) : Response :=
  match x with
  | .ok a => .attempt 200 (fault? a) (toJson a)
  | .error e => storeFailure what e

def answer {α : Type} (what : String) (toJson : α → Json) (x : Except StoreError α) : Response :=
  attempt what (fun _ => none) toJson x

/-- Why the summary of a run cannot be written, if it cannot. -/
def summaryFault? (r : RunSummary) : Option Time.WriteFault := r.startedAt.writeFault?

def health (s : Server) : Response :=
  .document 200 (.object [("status", .string "ok"), ("store", .string s.store.engine.name)])

/-- The counts over all stored runs. -/
def stats (s : Server) : Response :=
  match s.store.stats with
  | .ok st => .attempt 200 st.lastRunAt.writeFault? st.toJson
  | .error _ => .failure 500 "failed to get stats"

/-- The number of runs that a request asks for. -/
def limit? (r : Request) : Option Int :=
  let text := r.value "limit"
  if text = "" then some defaultLimit else (Text.int64? text).filter (0 ≤ ·)

def runs (s : Server) (r : Request) : Response :=
  match limit? r with
  | none => .failure 400 "invalid limit"
  | some limit =>
    attempt "runs" (fun runs => runs.findSome? summaryFault?) (.list RunSummary.toJson)
      (s.store.ask (·.listRuns limit))

def graphFilter (r : Request) : GraphFilter :=
  let parts (name : String) : List String :=
    let text := r.value name
    if text = "" then [] else Text.splitAt ',' text
  { hidePlatform := r.value "hide_platform" == "true"
    hideUnavailable := r.value "hide_unavailable" == "true"
    noise := parts "noise"
    stopAt := parts "stop_at" }

def depth? (f : GraphFilter) (r : Request) : Option Int :=
  let text := r.value "depth"
  if text = "" then some f.maxDepth else (Text.int64? text).filter (1 ≤ ·)

/-- The method from which a view starts: the one that is asked for, or the first entry point of
    the run. -/
def graphRoot (s : Server) (r : Request) (id : String) : Except Response String :=
  let root := r.value "root"
  if root ≠ "" then .ok root
  else
    match s.store.ask (·.entryPointsOf id) with
    | .ok (e :: _) => .ok e.method
    | .ok [] => .error (.failure 404 "run has no entry points")
    | .error e => .error (storeFailure "entrypoints" e)

/-- The view from a root on the call graph of a run. -/
def graphOf (filter : GraphFilter) (id root : String) (depth : Int) (db : Database) :
    Except StoreError GraphView := do
  let edges ← db.edgesOf id ""
  let methods ← db.methodsOf id
  pure ((GraphBuilder.new edges methods filter).build root depth).1

/-- A view on the call graph of a run. -/
def graph (s : Server) (r : Request) (id : String) : Response :=
  let filter := graphFilter r
  match depth? filter r with
  | none => .failure 400 "invalid depth"
  | some depth =>
    match s.graphRoot r id with
    | .error response => response
    | .ok root => answer "graph" GraphView.toJson (s.store.ask (graphOf filter id root depth))

def findRun (s : Server) (id : String) : Except StoreError RunSummary :=
  s.store.ask fun db => if id = "latest" then db.latestRun else db.getRun id

def resource (s : Server) (r : Request) (run : RunSummary) (name : String) : Response :=
  let store := s.store
  match name with
  | "" => .attempt 200 (summaryFault? run) run.toJson
  | "report" => attempt name Report.writeFault? Report.toJson (store.ask (·.reportOf run.id))
  | "kernels" => answer name (.list .string) (store.ask (·.kernelsOf run.id))
  | "entrypoints" => answer name (.list EntryRecord.toJson) (store.ask (·.entryPointsOf run.id))
  | "classes" =>
    answer name (.list ClassRecord.toJson)
      (store.ask (·.classesOf run.id (r.value "disposition")))
  | "methods" => answer name (.list MethodRecord.toJson) (store.ask (·.methodsOf run.id))
  | "edges" =>
    answer name (.list EdgeRecord.toJson) (store.ask (·.edgesOf run.id (r.value "status")))
  | "diagnostics" =>
    answer name (.list DiagnosticRecord.toJson) (store.ask (·.diagnosticsOf run.id))
  | "graph" => s.graph r run.id
  | _ => .failure 404 "unknown run resource"

/-- A text without slashes at its ends. -/
def trimSlashes (s : String) : String :=
  let cs := s.toList.dropWhile (· == '/')
  String.ofList (cs.reverse.dropWhile (· == '/')).reverse

def run (s : Server) (r : Request) : Response :=
  let (id, name) := Text.cut '/' (trimSlashes (Text.dropStart "/api/runs/" r.path))
  if id = "" then .failure 400 "missing run ID"
  else
    match s.findRun id with
    | .error e => storeFailure "run" e
    | .ok run => s.resource r run (name.getD "")

/-- The page at the root. -/
def index (s : Server) : String :=
  "<!DOCTYPE html>
<html>
<head>
    <title>kernelscan</title>
    <style>
        body \x7b font-family: -apple-system, BlinkMacSystemFont, 'Segoe UI', Roboto, sans-serif;
               max-width: 800px; margin: 50px auto; padding: 20px; \x7d
        .api-list \x7b background: #f5f5f5; padding: 20px; border-radius: 8px; \x7d
        .api-list a \x7b display: block; margin: 10px 0; color: #0066cc; \x7d
        pre \x7b background: #f0f0f0; padding: 10px; border-radius: 4px; overflow-x: auto; \x7d
    </style>
</head>
<body>
    <h1>kernelscan report server</h1>
    <div class=\"api-list\">
        <h3>Available Endpoints:</h3>
        <a href=\"/api/stats\">GET /api/stats</a> - Store statistics
        <a href=\"/api/runs\">GET /api/runs</a> - Recent runs
        <a href=\"/api/runs/latest\">GET /api/runs/latest</a> - Latest run summary
        <a href=\"/api/runs/latest/classes?disposition=emit\">GET /api/runs/latest/classes?disposition=emit</a> - Classes to generate
        <a href=\"/api/runs/latest/edges?status=unavailable\">GET /api/runs/latest/edges?status=unavailable</a> - Calls that could not be followed
        <a href=\"/api/runs/latest/graph\">GET /api/runs/latest/graph</a> - Call graph from the first kernel
        <a href=\"/api/health\">GET /api/health</a> - Health check
    </div>
    <h3>Example Usage:</h3>
    <pre>
curl http://localhost:" ++ Text.integer s.port ++ "/api/runs/latest/report
    </pre>
</body>
</html>"

/-- A part of the interface, which answers to reading only. -/
def reading (r : Request) (response : Response) : Response :=
  if r.method = "OPTIONS" then .noContent
  else if r.method = "GET" then response
  else .failure 405 "method not allowed"

def respond (s : Server) (r : Request) : Response :=
  if r.isForServer then .refused
  else if r.isRoundabout then .moved r
  else
    match r.segments with
    | ["api", "runs"] => reading r (s.runs r)
    | "api" :: "runs" :: _ :: _ => reading r (s.run r)
    | ["api", "stats"] => reading r s.stats
    | ["api", "health"] => reading r s.health
    | _ => if r.path = "/" then .page s.index else .pageNotFound

end Server

end KernelReach.Web
