import KernelReach.Files.Path
import KernelReach.Text.Percent

/-!
# Requests

A request has a method and a target, a path with an optional query; a target may also start with the
address of the server. In the path, a percent sign and two hexadecimal digits stand for a byte. In
the query the first value of a name counts.
-/

namespace KernelReach.Web

/-- A request for a target. -/
structure Request where
  method : String
  /-- Whether the request is for the server as a whole. -/
  isForServer : Bool := false
  /-- The path as it was sent. -/
  rawPath : String
  /-- The query as it was sent. -/
  rawQuery : String
  deriving DecidableEq, Repr

namespace Request

/-- The method that asks for a connection, whose paths are taken as they are. -/
def connect : String := "CONNECT"

/-- The part of a target after its scheme, if it starts with one. -/
def afterScheme? (target : String) : Option String :=
  let isSchemeChar (c : Char) : Bool := c.isAlphanum || c == '+' || c == '-' || c == '.'
  match target.toList with
  | c :: cs =>
    let rest := cs.dropWhile isSchemeChar
    if c.isAlpha && rest.head? == some ':' then some (String.ofList (rest.drop 1)) else none
  | [] => none

/-- The path of a target without a query. The address of a server before it is left out. -/
def pathOf (method target : String) : String :=
  let afterServer (rest : List Char) : String := String.ofList (rest.dropWhile (· != '/'))
  if Text.startsWith "/" target then target
  else if method = connect then afterServer target.toList
  else match afterScheme? target with
    | some rest =>
      if Text.startsWith "//" rest then afterServer (rest.toList.drop 2)
      else if Text.startsWith "/" rest then rest
      else ""
    | none => target

def ofTarget (method target : String) : Request :=
  let (rest, query) := Text.cut '?' target
  { method, isForServer := target == "*", rawPath := pathOf method rest
    rawQuery := query.getD "" }

def pathBytes (r : Request) : List UInt8 :=
  match Text.unescapeBytes false r.rawPath.toList with
  | .ok bytes => bytes
  | .error _ => Text.toBytes r.rawPath

def path (r : Request) : String := Text.hold r.pathBytes

/-- The first value of a name in the query; empty if there is none. -/
def value (r : Request) (name : String) : String :=
  (((Text.queryPairs r.rawQuery).find? fun p => p.1 = name).map Prod.snd).getD ""

/-- Whether a character of a path is written as it is. -/
def isPathChar (c : Char) : Bool :=
  c.isAlphanum || ['-', '_', '.', '~', '$', '&', '+', ',', '/', ':', ';', '=', '@'].contains c

/-- Whether a character may stand in a path that is written well. -/
def mayStand (c : Char) : Bool :=
  isPathChar c || ['!', '\'', '(', ')', '*', '[', ']', '%'].contains c

/-- The path in the form in which it is written well: as it was sent if it is, or else with all
    other characters escaped. -/
def escapedPath (r : Request) : String :=
  if r.rawPath.toList.all mayStand then r.rawPath
  else String.join (r.pathBytes.map fun b =>
    let c := Char.ofNat b.toNat
    if isPathChar c then String.singleton c
    else "%" ++ (Text.hexadecimal 2 b.toNat).toUpper)

/-- The path without empty components and with dots resolved; a slash at its end stays. -/
def cleanPath (r : Request) : String :=
  let p := if Text.startsWith "/" r.escapedPath then r.escapedPath else "/" ++ r.escapedPath
  let clean := Path.clean p
  if Text.endsWith "/" p ∧ clean ≠ "/" then clean ++ "/" else clean

/-- Whether the request has to be sent on to the shortest form of its path. -/
def isRoundabout (r : Request) : Bool := r.method != connect && r.cleanPath != r.escapedPath

/-- The components of the path, each unescaped on its own. -/
def segments (r : Request) : List String :=
  ((Text.splitAt '/' r.escapedPath).drop 1).map fun s =>
    match Text.unescapeBytes false s.toList with
    | .ok bytes => Text.hold bytes
    | .error _ => s

end Request

end KernelReach.Web
