import KernelReach.Json.Document
import KernelReach.Settings.Basic
import KernelReach.Text.Quoted
import KernelReach.Yaml.Node

/-!
# The settings document

Settings are written as a YAML mapping with a key for each of them. What stands for nothing sets
nothing, and an unknown key is ignored. A text may be written as any scalar. A number may be written
as a fraction, which is cut off. A mapping may take in the entries of others under the key `<<`; its
own entries and those taken in first win. All values that do not fit where they stand are told
together.
-/

namespace KernelReach.Settings

open Yaml (Node Value Fault)

/-! ### Values that do not fit -/

/-- A value that does not fit where it stands. -/
inductive Misfit
  /-- The value of a type is not of the wanted kind. -/
  | wrongKind (line : Nat) (tag text wanted : String)
  /-- A key stands in a mapping before. -/
  | sameKey (line : Nat) (key : String) (first : Nat)
  /-- A setting is set twice, by keys that are written differently. -/
  | setTwice (line : Nat) (key wanted : String)
  deriving DecidableEq, Repr

namespace Misfit

/-- The number of bytes of a text that a message shows in full. -/
def shownLength : Nat := 10

def shown (text : String) : String :=
  if text.utf8ByteSize ≤ shownLength then text
  else Text.ofBytes ((Text.toBytes text).take (shownLength - 3)) ++ "..."

def message : Misfit → String
  | wrongKind line tag text wanted =>
    let value := if tag = Yaml.sequenceTag ∨ tag = Yaml.mappingTag then text
      else " \x60" ++ shown text ++ "\x60"
    "line " ++ Text.integer line ++ ": cannot unmarshal " ++ tag ++ value ++ " into " ++ wanted
  | sameKey line key first =>
    "line " ++ Text.integer line ++ ": mapping key " ++ Text.quote key
      ++ " already defined at line " ++ Text.integer first
  | setTwice line key wanted =>
    "line " ++ Text.integer line ++ ": field " ++ key ++ " already set in type " ++ wanted

end Misfit

/-- What is known while settings are read. -/
structure Progress where
  /-- The values that do not fit. -/
  misfits : List Misfit := []
  /-- The number of values that were read. -/
  read : Nat := 0
  /-- The number of values that were read inside of an alias. -/
  aliased : Nat := 0

/-- A step of reading settings, which keeps the values that do not fit. -/
abbrev Decode := StateT Progress (Except Fault)

namespace Decode

/-- Keeps a value that does not fit. -/
def report (m : Misfit) : Decode Unit := modify fun p => { p with misfits := p.misfits ++ [m] }

/-- Counts a value that is read. Of many values at most 99 in a hundred may come from aliases. -/
def count (isAliased : Bool) : Decode Unit := do
  modify fun p => { p with
    read := p.read + 1
    aliased := if isAliased then p.aliased + 1 else p.aliased }
  let p ← get
  if p.aliased > 100 ∧ p.read > 1000 ∧ 100 * p.aliased > 99 * p.read then
    throw { problem := .tooManyAliases }

/-- What aliases stand for, and the aliases inside of which a value is read. -/
structure Context where
  anchored : List (Nat × Node) := []
  inside : List Nat := []

def target (ctx : Context) (n : Node) : Decode Node :=
  match n with
  | .reference _ name _ target =>
    match ctx.anchored.lookup target with
    | some m => pure m
    | none => throw { problem := .unknownAnchor name }
  | n => pure n

/-- The node that a node stands for, which is read next. -/
def follow (ctx : Context) (n : Node) : Decode (Context × Node) := do
  count (!ctx.inside.isEmpty)
  match n with
  | .reference _ name place _ =>
    if ctx.inside.contains place then throw { problem := .anchorInItself name }
    let m ← target ctx n
    count true
    pure ({ ctx with inside := place :: ctx.inside }, m)
  | n => pure (ctx, n)

/-- Whether two keys count as the same: nodes of one kind, and scalars and aliases with the same
    text. -/
def isSameKey : Node → Node → Bool
  | .scalar _ _ a, .scalar _ _ b => a == b
  | .reference _ a _ _, .reference _ b _ _ => a == b
  | .sequence .., .sequence .. | .mapping .., .mapping .. => true
  | _, _ => false

def keyText : Node → String
  | .scalar _ _ s | .reference _ s _ _ => s
  | _ => ""

/-- The keys of a mapping that stand in it before. -/
def sameKeys : List (Node × Node) → List Misfit
  | [] => []
  | (k, _) :: entries =>
    (entries.filter fun e => isSameKey k e.1).map
        (fun e => Misfit.sameKey e.1.line (keyText e.1) k.line)
      ++ sameKeys entries

/-- Refuses a value, unless it is a mapping with a fault of its own. -/
def misfit {α : Type} (wanted : String) : Node → Decode (Option α)
  | .scalar line tag text => do
    report (.wrongKind line tag text wanted)
    pure none
  | .sequence line tag _ => do
    report (.wrongKind line tag "" wanted)
    pure none
  | .mapping line tag entries => do
    match sameKeys entries with
    | [] => report (.wrongKind line tag "" wanted)
    | ms => ms.forM report
    pure none
  | .reference .. => pure none

/-! ### Scalars -/

/-- What a scalar stands for, and its text if it is one. -/
def scalarValue (tag text : String) : Decode (Value × String) := do
  if tag = Yaml.binaryTag then
    match Yaml.base64? text with
    | some bytes => pure (.text, Text.hold bytes)
    | none => throw { problem := .badBase64 }
  else
    let v ← liftM (Yaml.valueOf tag text)
    pure (v, text)

/-- The text of a value; none if it sets nothing. -/
def text (ctx : Context) (n : Node) : Decode (Option String) := do
  let (_, n) ← follow ctx n
  match n with
  | .scalar _ tag s =>
    let (v, s) ← scalarValue tag s
    pure (if v = .null then none else some s)
  | n => misfit "string" n

def leastNumber : Int := -(Number.signedLimit : Int)

/-- The whole part of a fraction, if the fraction is not above the greatest number. What is below
    the least number, or would be one above the greatest, becomes the least number. -/
def wholeOf? : Binary64 → Option Int
  | .finite negative mantissa exponent =>
    let n := Binary64.wholePart mantissa exponent
    if negative then some (max leastNumber (-(n : Int)))
    else if n < Number.signedLimit then some n
    else if n = Number.signedLimit then some leastNumber
    else none
  | .infinite negative => if negative then some leastNumber else none
  | .notANumber => none

/-- The number of a value; none if it sets nothing. -/
def number (ctx : Context) (n : Node) : Decode (Option Int) := do
  let (_, n) ← follow ctx n
  match n with
  | .scalar _ tag s =>
    match (← scalarValue tag s).1 with
    | .null => pure none
    | .whole k => if Text.fits64 k then pure (some k) else misfit "int" n
    | .fraction x =>
      match wholeOf? x with
      | some k => pure (some k)
      | none => misfit "int" n
    | _ => misfit "int" n
  | n => misfit "int" n

/-- The words that are truth values where one is expected. -/
def politeTruth? (s : String) : Option Bool :=
  if ["y", "Y", "yes", "Yes", "YES", "on", "On", "ON"].contains s then some true
  else if ["n", "N", "no", "No", "NO", "off", "Off", "OFF"].contains s then some false
  else none

/-- The truth value of a value, which may be none; none at all if it sets nothing. -/
def truth (ctx : Context) (n : Node) : Decode (Option (Option Bool)) := do
  let (_, n) ← follow ctx n
  match n with
  | .scalar _ tag s =>
    match ← scalarValue tag s with
    | (.null, _) => pure (some none)
    | (.truth b, _) => pure (some (some b))
    | (.text, s) =>
      match politeTruth? s with
      | some b => pure (some (some b))
      | none => misfit "bool" n
    | _ => misfit "bool" n
  | n => misfit "bool" n

/-- The items of a list, each read by `item`. Items that set nothing are left out. -/
def list {α : Type} (wanted : String) (item : Context → Node → Decode (Option α)) (ctx : Context)
    (n : Node) : Decode (Option (List α)) := do
  let (ctx, n) ← follow ctx n
  match n with
  | .sequence _ _ items => do
    let values ← items.mapM (item ctx)
    pure (some (values.filterMap id))
  | .scalar _ tag s =>
    match (← scalarValue tag s).1 with
    | .null => pure (some [])
    | _ => misfit wanted n
  | n => misfit wanted n

def texts : Context → Node → Decode (Option (List String)) := list "[]string" text

/-! ### Sections -/

/-- The place of a setting in a section: its key and how a value sets it. -/
structure Slot (α : Type) where
  key : String
  set : Context → Node → α → Decode α

/-- A setting that is read by `read` and put in place by `put`. -/
def Slot.of {α β : Type} (key : String) (read : Context → Node → Decode (Option β))
    (put : β → α → α) : Slot α where
  key := key
  set ctx n a := do
    match ← read ctx n with
    | some b => pure (put b a)
    | none => pure a

/-- Whether a key takes in other mappings. -/
def isMerge : Node → Bool
  | .scalar _ tag s => s == "<<" && tag == Yaml.mergeTag
  | _ => false

/-- The mappings that a value takes in. -/
def merged (ctx : Context) (n : Node) : Decode (List Node) := do
  let isMapping (m : Node) : Decode Unit := do
    match ← target ctx m with
    | .mapping .. => pure ()
    | _ => throw { problem := .badMerge }
  match n with
  | .sequence _ _ items => pure items
  | n => do
    isMapping n
    pure [n]

/-- What is known while the entries of a section are read. -/
structure Entries (α : Type) where
  value : α
  /-- The keys of this mapping that were set. -/
  done : List String := []
  /-- All keys that were read. -/
  names : List String := []
  /-- The value under the key that takes in others. -/
  others : Option Node := none

/-- Reads an entry of a section. In a mapping that is taken in, keys in `taken` and keys that were
    read before are set already. -/
def entry {α : Type} (wanted : String) (fields : List (Slot α)) (ctx : Context)
    (taken : Option (List String)) (e : Entries α) (k v : Node) : Decode (Entries α) := do
  if isMerge k then pure { e with others := some v }
  else
    match ← text ctx k with
    | none => pure e
    | some name =>
      if taken.any (fun names => names.contains name || e.names.contains name) then pure e
      else
        let e := { e with names := name :: e.names }
        match fields.find? (fun f => f.key == name) with
        | none => pure e
        | some f =>
          if e.done.contains name then
            report (.setTwice k.line name wanted)
            pure e
          else
            let value ← f.set ctx v e.value
            pure { e with value, done := name :: e.done }

/-- Reads the entries of a section over a value, and then those of the mappings that it takes in. If
    it is itself taken in, `taken` has the keys that are set already; if not, and it takes in
    others, its keys are read once more. Gives also the keys that are set then. -/
def sectionOver {α : Type} (wanted : String) (fields : List (Slot α)) :
    (fuel : Nat) → Context → (taken : Option (List String)) → Node → α →
      Decode (Option (α × List String))
  | 0, _, _, _, _ => pure none
  | fuel + 1, ctx, taken, n, a => do
    let (ctx, n) ← follow ctx n
    match n with
    | .mapping _ _ entries =>
      match sameKeys entries with
      | [] =>
        let e ← entries.foldlM (fun e (k, v) => entry wanted fields ctx taken e k v)
          { value := a }
        match e.others with
        | none => pure (some (e.value, e.names ++ taken.getD []))
        | some v =>
          if taken.isNone then entries.forM fun (k, _) => discard (follow ctx k)
          let taken := e.names ++ taken.getD []
          let ns ← merged ctx v
          let result ← ns.foldlM (fun (value, taken) m => do
            match ← target ctx m with
            | .mapping .. =>
              return (← sectionOver wanted fields fuel ctx (some taken) m value).getD (value, taken)
            | _ => throw { problem := .badMerge }) (e.value, taken)
          pure (some result)
      | ms => do
        ms.forM report
        pure none
    | .scalar _ tag s =>
      match (← scalarValue tag s).1 with
      | .null => pure none
      | _ => misfit wanted n
    | n => misfit wanted n

/-- The number of mappings inside each other that are taken in. -/
def mergeDepth : Nat := 10000

/-- Reads a section over a value. -/
def sectionOf {α : Type} (wanted : String) (fields : List (Slot α)) (a : α) (ctx : Context)
    (n : Node) : Decode (Option α) := do
  return (← sectionOver wanted fields mergeDepth ctx none n a).map Prod.fst

/-- A setting that is a section of its own. -/
def Slot.ofSection {α β : Type} (key wanted : String) (fields : List (Slot β)) (get : α → β)
    (put : β → α → α) : Slot α where
  key := key
  set ctx n a := do
    match ← sectionOf wanted fields (get a) ctx n with
    | some b => pure (put b a)
    | none => pure a

end Decode

open Decode (Slot)

/-! ### The settings -/

/-- The settings of a platform class. -/
def builtinFields : List (Slot BuiltinSetting) := [
  .of "class" Decode.text fun s b => { b with className := s },
  .of "level" Decode.text fun s b => { b with level := s }]

/-- The settings of where reports are kept. -/
def storeFields : List (Slot StoreSettings) := [
  .of "dir" Decode.text fun s c => { c with dir := s },
  .of "dsn" Decode.text fun s c => { c with address := s }]

/-- The settings of where call graphs are exported to. -/
def graphFields : List (Slot GraphSettings) := [
  .of "uri" Decode.text fun s c => { c with uri := s },
  .of "user" Decode.text fun s c => { c with user := s },
  .of "password" Decode.text fun s c => { c with password := s },
  .of "database" Decode.text fun s c => { c with database := s },
  .of "batch_size" Decode.number fun n c => { c with batchSize := n }]

/-- The settings of where reports are published. -/
def publishFields : List (Slot PublishSettings) := [
  .of "endpoint" Decode.text fun s c => { c with endpoint := s },
  .of "bucket" Decode.text fun s c => { c with bucket := s },
  .of "region" Decode.text fun s c => { c with region := s },
  .of "access_key" Decode.text fun s c => { c with accessKey := s },
  .of "secret_key" Decode.text fun s c => { c with secretKey := s },
  .of "use_ssl" Decode.truth fun b c => { c with encrypted := b }]

/-- The kind of a platform class in messages. -/
def builtinKind : String := "config.BuiltinConfig"

def fields : List (Slot Settings) := [
  .of "inputs" Decode.texts fun l s => { s with inputs := l },
  .of "class_path" Decode.texts fun l s => { s with classPath := l },
  .of "class_path_dirs" Decode.texts fun l s => { s with classPathDirs := l },
  .of "staging_dir" Decode.text fun t s => { s with stagingDir := t },
  .of "runtime_classes" Decode.texts fun l s => { s with runtimeClasses := l },
  .of "keep_packages" Decode.texts fun l s => { s with keepPackages := l },
  .of "ignore_packages" Decode.texts fun l s => { s with ignorePackages := l },
  .of "marker_interface" Decode.text fun t s => { s with markerInterface := t },
  .of "entry_method" Decode.text fun t s => { s with entryMethod := t },
  .of "builtins"
    (Decode.list ("[]" ++ builtinKind) (Decode.sectionOf builtinKind builtinFields ⟨"", ""⟩))
    fun l s => { s with builtins := l },
  .of "backend" Decode.text fun t s => { s with backend := t },
  .of "class_cache_size" Decode.number fun n s => { s with classCacheSize := n },
  .ofSection "store" "config.StoreConfig" storeFields (·.store) fun c s => { s with store := c },
  .ofSection "neo4j" "config.Neo4jConfig" graphFields (·.graph) fun c s => { s with graph := c },
  .ofSection "artifact" "config.ArtifactConfig" publishFields (·.publish)
    fun c s => { s with publish := c }]

/-- Why a document gives no settings. -/
inductive DocumentFault
  | notYaml (cause : Fault)
  | misfits (list : List Misfit)
  deriving DecidableEq, Repr

def DocumentFault.message : DocumentFault → String
  | notYaml cause => cause.message
  | misfits list =>
    "yaml: unmarshal errors:\n  " ++ "\n  ".intercalate (list.map Misfit.message)

/-- Reads settings over others, which stay where the document sets nothing. -/
def readOver (old : Settings) (n : Node) (anchored : List (Nat × Node)) :
    Except DocumentFault Settings := do
  let read := do
    Decode.count false
    Decode.sectionOf "config.Config" fields old { anchored } n
  let (s, p) ← (read.run {}).mapError .notYaml
  if p.misfits.isEmpty then pure (s.getD old) else .error (.misfits p.misfits)

/-- The settings as a document, with the keys under which they are read. -/
def toJson (s : Settings) : Json :=
  let texts := Json.list Json.string
  .object [
    ("inputs", texts s.inputs), ("class_path", texts s.classPath),
    ("class_path_dirs", texts s.classPathDirs), ("staging_dir", .string s.stagingDir),
    ("runtime_classes", texts s.runtimeClasses), ("keep_packages", texts s.keepPackages),
    ("ignore_packages", texts s.ignorePackages), ("marker_interface", .string s.markerInterface),
    ("entry_method", .string s.entryMethod),
    ("builtins", .list (fun b => .object [
      ("class", .string b.className), ("level", .string b.level)]) s.builtins),
    ("backend", .string s.backend), ("class_cache_size", .int s.classCacheSize),
    ("store", .object [("dir", .string s.store.dir), ("dsn", .string s.store.address)]),
    ("neo4j", .object [
      ("uri", .string s.graph.uri), ("user", .string s.graph.user),
      ("password", .string s.graph.password), ("database", .string s.graph.database),
      ("batch_size", .int s.graph.batchSize)]),
    ("artifact", .object [
      ("endpoint", .string s.publish.endpoint), ("bucket", .string s.publish.bucket),
      ("region", .string s.publish.region), ("access_key", .string s.publish.accessKey),
      ("secret_key", .string s.publish.secretKey),
      ("use_ssl", match s.publish.encrypted with
        | some b => .bool b
        | none => .null)])]

/-- The settings that a file gives. -/
def ofBytes (bytes : List UInt8) : Except DocumentFault Settings := do
  match ← (Yaml.Document.ofBytes bytes).mapError .notYaml with
  | none => pure {}
  | some d => readOver {} d.root d.anchored

end KernelReach.Settings
