import KernelReach.Store.Pragma
import KernelReach.Text.Blank
import KernelReach.Text.Case
import KernelReach.Text.Percent

/-!
# Addresses of database files

A database is opened at an address, a path after which options may stand: a question mark, and names
with values as in a query. If the path starts with `file:`, it may hold escapes with percent signs,
and more options count: they say whether the file has to be there, whether it may be written to, and
whether there is a file at all. A database without a file is gone when it is closed. Options that
are not known are ignored.
-/

namespace KernelReach.Store

/-- Why a database cannot be opened at an address. -/
inductive AddressFault
  /-- The options are not well formed. -/
  | badOptions (fault : Text.PercentFault)
  /-- Different file systems are named. -/
  | manySystems (names : List String)
  /-- The file system, or the way to open the file, is not known. -/
  | unknownOpening
  /-- The file may be opened in several ways, of which a later one allows more. -/
  | widerOpening
  /-- The file cannot be opened. -/
  | cannotOpen
  /-- A statement to run first is refused. -/
  | badPragma (fault : PragmaFault)
  /-- An option has a value that it cannot have. -/
  | badValue (option value : String)
  /-- An option is neither on nor off. -/
  | badSwitch (option value : String)
  deriving DecidableEq, Repr

/-- The values of an option that is on or off. -/
def switches : List String :=
  ["1", "t", "T", "TRUE", "true", "True", "0", "f", "F", "FALSE", "false", "False"]

def AddressFault.message : AddressFault → String
  | badOptions fault => fault.message
  | manySystems names =>
    "conflicting vfs query parameters: [" ++ String.intercalate " " names ++ "]"
  | unknownOpening => "SQL logic error: out of memory (1)"
  | widerOpening => "access permission denied: out of memory (3)"
  | cannotOpen => "unable to open database file: out of memory (14)"
  | badPragma fault => "SQL logic error: " ++ fault.message ++ " (1)"
  | badValue option value => "unknown " ++ option ++ " " ++ Text.quote value
  | badSwitch option value =>
    "unknown " ++ option ++ " " ++ Text.quote value ++ ", must be "
      ++ String.intercalate ", " switches

/-- Where a database is, and how it is opened. -/
structure Address where
  /-- The path of the file, which holds stray bytes. -/
  file : String
  /-- The options that say how the file is opened, if the path starts with `file:`. -/
  uriOptions : Option (List (String × String))
  /-- The options as they are written. -/
  query : String
  deriving DecidableEq, Repr

namespace Address

/-- How an address starts whose path may hold escapes. -/
def uriStart : String := "file:"

/-- A part of an address with escapes. What follows an escaped zero is left out, and a percent sign
    that starts no escape stands for itself. -/
def unescapePart : List Char → List UInt8
  | '%' :: a :: b :: cs =>
    match Text.hexDigit? a, Text.hexDigit? b with
    | some m, some n =>
      if 16 * m + n = 0 then [] else UInt8.ofNat (16 * m + n) :: unescapePart cs
    | _, _ => 0x25 :: unescapePart (a :: b :: cs)
  | c :: cs => String.utf8EncodeChar c ++ unescapePart cs
  | [] => []

/-- The text of a part of an address with escapes. -/
def partText (s : String) : String := Text.hold (unescapePart s.toList)

/-- The options after a path that starts with `file:`. Those without a name are left out. -/
def optionsIn (query : String) : List (String × String) :=
  (Text.splitAt '&' query).filterMap fun part =>
    let (name, value) := Text.cut '=' part
    let name := partText name
    if name = "" then none else some (name, partText (value.getD ""))

def ofText (text : String) : Address :=
  let (before, query) := match Text.cut '?' text with
    | ("", _) => (text, "")
    | (before, query) => (before, query.getD "")
  if Text.startsWith uriStart text then
    let uri := (Text.dropStart uriStart text).toList.takeWhile (· != '#')
    let (path, options) := Text.cut '?' (String.ofList uri)
    { file := partText path, uriOptions := some (optionsIn (options.getD "")), query }
  else { file := before, uriOptions := none, query }

/-- The values of an option that is set for a connection. -/
def values (a : Address) (option : String) : List String :=
  (Text.queryPairs a.query).filterMap fun (name, value) =>
    if name = option then some value else none

/-- The value of an option that is given and is not empty. -/
def value? (a : Address) (option : String) : Option String :=
  (a.values option).head?.filter (· != "")

/-- The values of an option that says how the file is opened. -/
def uriValues (a : Address) (option : String) : List String :=
  (a.uriOptions.getD []).filterMap fun (name, value) => if name = option then some value else none

/-! ### File systems and access -/

/-- The name of the file system: that of all that are given, which have to agree. -/
def systemGiven (a : Address) : Except AddressFault String :=
  let given := a.values "vfs"
  given.foldlM (fun found name =>
    if found ≠ "" ∧ found ≠ name then .error (.manySystems given) else .ok name) ""

/-- The name of the file system that is used; none if it is the usual one. -/
def system? (a : Address) : Except AddressFault (Option String) := do
  let given ← a.systemGiven
  match (a.uriValues "vfs").getLast? with
  | some name => pure (some name)
  | none => pure (if given = "" then none else some given)

/-- The file systems that are known. -/
def systems : List String := ["unix", "unix-none", "unix-dotfile", "unix-excl", "memdb"]

/-- The file system whose files are kept in memory. -/
def memorySystem : String := "memdb"

/-- What may be done with the file. -/
inductive Access
  | readOnly
  /-- The file has to be there. -/
  | readWrite
  | create
  /-- There is no file. -/
  | memory
  deriving DecidableEq, Repr

/-- How much an access allows. -/
def Access.rank : Access → Nat
  | readOnly => 1
  | readWrite => 2
  | create => 3
  | memory => 4

def Access.ofName? : String → Option Access
  | "ro" => some .readOnly
  | "rw" => some .readWrite
  | "rwc" => some .create
  | "memory" => some .memory
  | _ => none

/-- What may be done with the file. Each access that is given has to allow no more than the one
    before, except that there may be no file. -/
def access (a : Address) : Except AddressFault Access :=
  (a.uriValues "mode").foldlM (fun before name =>
    match Access.ofName? name with
    | none => .error .unknownOpening
    | some next =>
      if next = .memory ∨ next.rank ≤ before.rank then .ok next else .error .widerOpening) .create

/-- How a database is opened. -/
structure Opening where
  /-- Whether there is no file, so that the database is gone when it is closed. -/
  isPrivate : Bool
  /-- Whether the file has to be there. -/
  isThere : Bool
  isReadOnly : Bool
  deriving DecidableEq, Repr

/-- How the database is opened, if that is known. -/
def opening (a : Address) : Except AddressFault Opening := do
  match Text.queryFault? a.query with
  | some fault => throw (.badOptions fault)
  | none => pure ()
  let system ← a.system?
  if !(a.uriValues "cache").all ["shared", "private"].contains then throw .unknownOpening
  let access ← a.access
  if !system.all systems.contains then throw .unknownOpening
  let hasFile := a.file != "" && a.file != ":memory:" && access != .memory
  let isImmutable := hasFile && (a.uriValues "immutable").head?.any Pragma.saysYes
  let isPrivate := !hasFile || system == some memorySystem
  pure {
    isPrivate
    isThere := !isPrivate && (access == .readOnly || access == .readWrite)
    isReadOnly := access == .readOnly || isImmutable }

/-! ### Options of the connection -/

/-- Puts a statement among those before it: statements that set a time to wait come first, the last
    of them in front, and the others follow in the order of their texts. -/
def insertPragma (text : String) (before : List String) : List String :=
  let key (s : String) : String := Text.trim (Text.lower s)
  let isFirst (s : String) : Bool := Text.startsWith "busy_timeout" (key s)
  let goesBefore (s t : String) : Bool :=
    isFirst s || (!isFirst t && Text.heldBytes (key s) < Text.heldBytes (key t))
  let after := (before.reverse.takeWhile (goesBefore text ·)).reverse
  before.take (before.length - after.length) ++ text :: after

/-- Runs the statements that are to be run first. -/
def runPragmas (a : Address) : Except AddressFault Pragma.Effect :=
  ((a.values "_pragma").foldl (fun before text => insertPragma text before) []).foldlM
    (fun effect text => do
      let p ← (Pragma.ofText text).mapError fun fault => .badPragma (.badForm fault)
      p.check.mapError .badPragma
      pure (effect.after p)) {}

/-- Refuses a value of an option that is not among the known ones. -/
def checkValue (a : Address) (option : String) (known : String → Bool) :
    Except AddressFault Unit :=
  match a.value? option with
  | some value => if known value then .ok () else .error (.badValue option value)
  | none => .ok ()

/-- Sets the options of a connection, and gives what it allows. -/
def connect (a : Address) : Except AddressFault Pragma.Effect := do
  let effect ← a.runPragmas
  let opening ← a.opening
  a.checkValue "_time_format" (· == "sqlite")
  a.checkValue "_time_integer_format"
    ["unix", "unix_milli", "unix_micro", "unix_nano"].contains
  match a.value? "_inttotime" with
  | some value =>
    if switches.contains value then pure () else throw (.badSwitch "_inttotime" value)
  | none => pure ()
  a.checkValue "_txlock" fun v => ["deferred", "immediate", "exclusive"].contains v.toLower
  pure { effect with isReadOnly := effect.isReadOnly || opening.isReadOnly }

end Address

end KernelReach.Store
