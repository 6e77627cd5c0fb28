import KernelReach.Command.Execute
import KernelReach.Json.Reader
import KernelReach.Report.OfJson
import Std.Time.DateTime.Timestamp

/-!
# The program

Reads the working directory, executes the command and writes back what it changed. A database is
kept as the list of the reports in it.
-/

namespace KernelReach.Program

open Time (Timestamp)

def pathOf (l : Location) : String := "/".intercalate l

/-- The database that is kept in some bytes. -/
def databaseOf (bytes : List UInt8) : Database :=
  match Json.parse (Text.ofBytes bytes) with
  | .ok (.array reports) =>
    reports.foldl (fun db r => ((db.save (.ofJson r)).toOption).getD db) ({} : Database).withTables
  | _ => ({} : Database).withTables

def databaseBytes (db : Database) : List UInt8 :=
  let runs := (db.listRuns 0).toOption.getD []
  let reports := runs.reverse.filterMap fun r => (db.reportOf r.id).toOption
  Text.toBytes (Json.list Report.toJson reports).compact

/-- Reads the files below a location into a workspace. -/
partial def readBelow (l : Location) (space : Workspace) : IO Workspace := do
  let mut space := space
  for entry in ← (← IO.FS.realPath (if l = [] then "." else pathOf l)).readDir do
    let name := entry.fileName
    let here := l ++ [name]
    if ← entry.path.isDir then
      space ← readBelow here { space with files := space.files.insert here .directory }
    else
      let bytes := (← IO.FS.readBinFile entry.path).toList
      if name = Store.databaseName then
        space := { space with databases := space.databases.insert here (databaseOf bytes) }
      else
        space := { space with files := space.files.insert here (.file bytes) }
  return space

/-- Writes the files that are new or different, and the databases. -/
def writeBack (old new : Workspace) : IO Unit := do
  for (l, node) in new.files.nodes.toList do
    if l ≠ [] ∧ old.files.node? l ≠ some node then
      match node with
      | .directory => IO.FS.createDirAll (pathOf l)
      | .file bytes =>
        IO.FS.createDirAll (pathOf l.dropLast)
        IO.FS.writeBinFile (pathOf l) ⟨bytes.toArray⟩
      | _ => pure ()
  for (l, db) in new.databases.toList do
    IO.FS.createDirAll (pathOf l.dropLast)
    IO.FS.writeBinFile (pathOf l) ⟨(databaseBytes db).toArray⟩

/-- The variables that the program looks at. -/
def variableNames : List String := [
  "KERNELSCAN_STORE_DSN", "KERNELSCAN_STAGING_DIR", "NEO4J_URI", "NEO4J_USER", "NEO4J_PASSWORD",
  "ARTIFACT_S3_ENDPOINT", "ARTIFACT_S3_BUCKET", "ARTIFACT_S3_REGION", "ARTIFACT_S3_ACCESS_KEY",
  "ARTIFACT_S3_SECRET_KEY", "ARTIFACT_S3_USE_SSL", "MINIO_ROOT_USER", "MINIO_ROOT_PASSWORD"]

def readEnvironment : IO Environment :=
  variableNames.filterMapM fun name => do
    return (← IO.getEnv name).map (name, ·)

/-- A name for a run. -/
def freshId : IO String := do
  let bytes := (← IO.getRandomBytes 16).toList.map UInt8.toNat
  let digits := (bytes.map (Text.hexadecimal 2)).foldl (· ++ ·) ""
  let part (n m : Nat) : String := String.ofList ((digits.toList.drop n).take m)
  return "-".intercalate [part 0 8, part 8 4, "4" ++ part 13 3, "8" ++ part 17 3, part 20 12]

/-- The seconds from the first instant of the year 1 to that of the year 1970. -/
def epoch : Int := 62135596800

def present : IO Timestamp := do
  let now := (← Std.Time.Timestamp.now).val
  return {
    seconds := now.second.val + epoch, nanos := Time.nanosOf now.nano.val.toNat, offset := 0 }

/-- Answers requests that are read from standard input, a method and a target a line. -/
partial def answerRequests (server : Web.Server) (input output : IO.FS.Stream) : IO Unit := do
  let line ← input.getLine
  if line.isEmpty then return
  let request := match Text.fields line with
    | method :: target :: _ => Web.Request.ofTarget method target
    | [target] => Web.Request.ofTarget "GET" target
    | [] => Web.Request.ofTarget "GET" "/"
  let response := server.respond request
  output.putStr (Text.decimal 1 response.status ++ "\n" ++ response.body)
  output.flush
  answerRequests server input output

end KernelReach.Program

open KernelReach in
/-- Executes the command that the arguments name. -/
def main (args : List String) : IO UInt32 := do
  let started ← IO.monoNanosNow
  let space ← Program.readBelow [] {}
  let clock : RunClock := {
    id := ← Program.freshId, start := ← Program.present
    durationNs := (← IO.monoNanosNow) - started }
  let out := Command.runProgram args { space, environment := ← Program.readEnvironment, clock }
  IO.print out.printed
  (← IO.getStderr).putStr out.messages
  Program.writeBack space out.world.space
  if let some server := out.server then
    Program.answerRequests server (← IO.getStdin) (← IO.getStdout)
  return if out.failure.isSome then 1 else 0
