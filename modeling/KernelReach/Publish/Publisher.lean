import KernelReach.Publish.Endpoint
import KernelReach.Publish.ObjectStore
import KernelReach.Report.Basic
import KernelReach.Settings.Basic
import KernelReach.Text.Utf8

/-!
# Publishing

The report on a run and the list of its kernels are published as objects whose keys start with the
name of the run. The bucket is looked for before the first request, and made if it is not there;
what came of that is not tried again.
-/

namespace KernelReach

open Binary (Bytes)

/-- Why something cannot be published. -/
inductive PublishError
  | noEndpoint
  | noKeys
  | noBucket
  | badEndpoint (cause : Endpoint.Fault)
  | noRun
  | noPath
  | bucket (cause : ObjectStore.Fault)
  | request (cause : ObjectStore.Fault)
  | uploading (name : String) (cause : PublishError)
  | briefLink
  | lastingLink
  | noLinks
  deriving DecidableEq, Repr

def PublishError.message : PublishError → String
  | noEndpoint => "s3 endpoint is required"
  | noKeys => "s3 access key and secret key are required"
  | noBucket => "s3 bucket is required"
  | badEndpoint cause => "init s3 client: " ++ cause.message
  | noRun => "run_id is required"
  | noPath => "path is required"
  | bucket cause => "ensure bucket: " ++ cause.message
  | request cause => cause.message
  | uploading name cause => "uploading " ++ name ++ ": " ++ cause.message
  | briefLink => "Minimum expiry time is 1 second."
  | lastingLink => "Maximum expiry time is 7 days."
  | noLinks => "signed links are not made"

/-- The kernels of a report, one a line. -/
def kernelList (kernels : List String) : String := String.join (kernels.map (· ++ "\n"))

/-- Something that publishes reports in a bucket. -/
structure Publisher where
  bucket : String
  region : String
  /-- What came of looking for the bucket, once that was done. -/
  ready : Option (Except ObjectStore.Fault Unit) := none

namespace Publisher

/-- The region in which buckets are made unless another is set. -/
def defaultRegion : String := "us-east-1"

/-- The name under which a report is published. -/
def reportName : String := "report.json"

/-- The name under which a list of kernels is published. -/
def kernelsName : String := "kernels.txt"

def ofSettings (s : PublishSettings) : Except PublishError Publisher :=
  let bucket := Text.trim s.bucket
  let endpoint := Text.trim s.endpoint
  if endpoint = "" then .error .noEndpoint
  else if Text.trim s.accessKey = "" ∨ Text.trim s.secretKey = "" then .error .noKeys
  else if bucket = "" then .error .noBucket
  else do
    (Endpoint.check s.isEncrypted endpoint).mapError .badEndpoint
    .ok { bucket, region := Settings.overrideText defaultRegion (Text.trim s.region) }

def objectKey (run path : String) : String :=
  Text.trim run ++ "/" ++ String.ofList ((Text.trim path).toList.dropWhile (· == '/'))

/-- Looks for the bucket and makes it if it is not there. -/
def lookForBucket (p : Publisher) (s : ObjectStore) :
    Except ObjectStore.Fault Unit × ObjectStore :=
  match s.hasBucket p.bucket with
  | (.error e, s) => (.error e, s)
  | (.ok true, s) => (.ok (), s)
  | (.ok false, s) => s.makeBucket p.bucket

/-- Makes sure, once, that there is a bucket. -/
def ensureBucket (p : Publisher) (s : ObjectStore) :
    Except PublishError Unit × Publisher × ObjectStore :=
  match p.ready with
  | some r => (r.mapError .bucket, p, s)
  | none =>
    let (r, s) := p.lookForBucket s
    (r.mapError .bucket, { p with ready := some r }, s)

/-- The type of an object for which none is given. -/
def defaultType : String := "application/octet-stream"

def put (p : Publisher) (run path contentType : String) (content : Bytes) (s : ObjectStore) :
    Except PublishError Unit × Publisher × ObjectStore :=
  if Text.trim run = "" then (.error .noRun, p, s)
  else if Text.trim path = "" then (.error .noPath, p, s)
  else
    match p.ensureBucket s with
    | (.error e, p, s) => (.error e, p, s)
    | (.ok (), p, s) =>
      let contentType := Settings.overrideText defaultType contentType
      let (r, s) := s.store ⟨p.bucket, objectKey run path, contentType, content⟩
      (r.mapError .request, p, s)

/-- The objects of a report: name, type and content. -/
def reportObjects (r : Report) : List (String × String × Bytes) := [
  (reportName, "application/json", Text.toBytes r.toJson.indented),
  (kernelsName, "text/plain; charset=utf-8", Text.toBytes (kernelList (r.kernels.getD [])))]

/-- Publishes objects of a run up to the first failure. Gives the keys of those that are
    published. -/
def putAll (run : String) : List (String × String × Bytes) → Publisher → ObjectStore →
    List String × Option PublishError × Publisher × ObjectStore
  | [], p, s => ([], none, p, s)
  | (name, contentType, content) :: rest, p, s =>
    match p.put run name contentType content s with
    | (.error e, p, s) => ([], some (.uploading name e), p, s)
    | (.ok (), p, s) =>
      let (keys, e, p, s) := putAll run rest p s
      (objectKey run name :: keys, e, p, s)

def publish (p : Publisher) (r : Report) (s : ObjectStore) :
    List String × Option PublishError × Publisher × ObjectStore :=
  putAll r.run.id (reportObjects r) p s

/-- The paths of the objects of a run, in order. -/
def list (p : Publisher) (run : String) (s : ObjectStore) :
    Except PublishError (List String) × Publisher × ObjectStore :=
  let run := Text.trim run
  if run = "" then (.error .noRun, p, s)
  else
    match p.ensureBucket s with
    | (.error e, p, s) => (.error e, p, s)
    | (.ok (), p, s) =>
      let start := Text.dropEnd "/" run ++ "/"
      let (r, s) := s.keys p.bucket start
      let names (keys : List String) : List String :=
        (keys.map (Text.dropStart start)).mergeSort fun a b => a ≤ b
      ((r.map names).mapError .request, p, s)

/-- The longest time for which a link is valid, in seconds. -/
def maxLinkSeconds : Int := 7 * 24 * 60 * 60

/-- A link to an object that is valid for some nanoseconds. A store that takes signed links has to
    be reached for it, so only the time is checked. -/
def link (nanoseconds : Int) : Except PublishError String :=
  let seconds := nanoseconds.tdiv 1000000000
  if seconds < 1 then .error .briefLink
  else if maxLinkSeconds < seconds then .error .lastingLink
  else .error .noLinks

end Publisher

end KernelReach
