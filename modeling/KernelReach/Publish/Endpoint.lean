import KernelReach.Publish.AmazonHost
import KernelReach.Publish.HostNumber
import KernelReach.Text.Blank
import KernelReach.Text.Percent

/-!
# Endpoints and names

The address at which an object store is reached is a host, by name or by number, with an optional
port. It is checked before the first request, and so are the names of buckets and the keys of
objects.
-/

namespace KernelReach.Endpoint

/-- Why an address is not one of an object store. -/
inductive Fault
  /-- The address, with its scheme, is no address at all. -/
  | badAddress (address reason : String)
  /-- A path follows the host. -/
  | hasPath
  | badHost (host : String)
  | badAmazonHost
  | badGoogleHost
  deriving DecidableEq, Repr

def Fault.message : Fault → String
  | badAddress address reason => "parse " ++ Text.quote address ++ ": " ++ reason
  | hasPath => "Endpoint url cannot have fully qualified paths."
  | badHost host =>
    "Endpoint: " ++ host ++ " does not follow ip address or domain name standards."
  | badAmazonHost => "Amazon S3 endpoint should be 's3.amazonaws.com'."
  | badGoogleHost => "Google Cloud Storage endpoint should be 'storage.googleapis.com'."

/-! ### Hosts -/

/-- Whether a character of a host needs no escape. -/
def isHostChar (c : Char) : Bool :=
  c.isAlphanum || ['-', '_', '.', '~', '!', '$', '&', '\'', '(', ')', '*', '+', ',', ';', '=', ':',
    '[', ']', '<', '>', '"'].contains c || 0x80 ≤ c.toNat

/-- Whether a character may stand in the name of a user. -/
def isUserChar (c : Char) : Bool :=
  c.isAlphanum || ['-', '.', '_', ':', '~', '!', '$', '&', '\'', '(', ')', '*', '+', ',', ';', '=',
    '%', '@'].contains c

/-- Whether a text is a colon and digits, or empty. -/
def isPort : List Char → Bool
  | [] => true
  | ':' :: cs => cs.all Char.isDigit
  | _ => false

/-- Whether a byte may be escaped: in a host only one outside of ASCII and the percent sign, in the
    zone of a host only a blank, the percent sign and what needs no escape. -/
def mayEscape (inZone : Bool) (byte : Nat) : Bool :=
  byte == 0x25 || (if inZone then byte == 0x20 || (byte < 0x80 && isHostChar (Char.ofNat byte))
    else 0x80 ≤ byte)

/-- What is wrong with the characters of a host or of its zone. -/
def hostFault? (inZone : Bool) : List Char → Option String
  | '%' :: a :: b :: cs =>
    match Text.hexDigit? a, Text.hexDigit? b with
    | some m, some n =>
      if mayEscape inZone (16 * m + n) then hostFault? inZone cs
      else some (Text.refusePercent ['%', a, b]).message
    | _, _ => some (Text.refusePercent ('%' :: a :: b :: cs)).message
  | '%' :: cs => some (Text.refusePercent ('%' :: cs)).message
  | c :: cs =>
    if isHostChar c then hostFault? inZone cs
    else some ("invalid character " ++ Text.quote (String.singleton c) ++ " in host name")
  | [] => none

/-- The text before the last of a character, and the text from there on. -/
def cutLast (separator : Char) (cs : List Char) : List Char × List Char :=
  if cs.contains separator then
    let after := (cs.reverse.takeWhile (· != separator)).length + 1
    (cs.take (cs.length - after), cs.drop (cs.length - after))
  else (cs, [])

/-- The text that an escaped text stands for, or the text itself if it is not well formed. -/
def unescaped (cs : List Char) : String :=
  match Text.unescapeBytes false cs with
  | .ok bytes => Text.hold bytes
  | .error _ => String.ofList cs

/-- A number in brackets and its zone, which starts with an escaped percent sign. -/
def splitZone : List Char → List Char × List Char
  | '%' :: '2' :: '5' :: cs => ([], '%' :: '2' :: '5' :: cs)
  | c :: cs =>
    let (number, zone) := splitZone cs
    (c :: number, zone)
  | [] => ([], [])

/-- What is wrong with a host in brackets, which has a number with colons. -/
def bracketFault? (inner : List Char) : Option String :=
  let (number, zone) := splitZone inner
  (hostFault? false number).or <| (hostFault? true zone).or <|
    let number := unescaped inner
    match HostNumber.form number.toList with
    | .error e => some ("invalid host: " ++ e.message number)
    | .ok .dotted => some "invalid IP-literal"
    | .ok (.coloned _) => none

def portFault? (port : List Char) : Option String :=
  if isPort port then none
  else some ("invalid port " ++ Text.quote (String.ofList port) ++ " after host")

/-- What is wrong with a host and its port. -/
def authorityFault? (host : List Char) : Option String :=
  if (host.drop 1).contains '[' then some "invalid IP-literal"
  else if host.head? == some '[' then
    if host.contains ']' then
      let (inner, rest) := cutLast ']' (host.drop 1)
      (portFault? (rest.drop 1)).or (bracketFault? inner)
    else some "missing ']' in host"
  else (portFault? (cutLast ':' host).2).or (hostFault? false host)

/-- The name of a host, without a port and without brackets. -/
def nameOf (host : List Char) : List Char :=
  let (before, port) := cutLast ':' host
  let name := if isPort port then before else host
  if name.head? == some '[' ∧ name.getLast? == some ']' then (name.drop 1).dropLast else name

/-! ### Names of hosts -/

/-- The longest name of a host. -/
def maxHostLength : Nat := 255

/-- The characters that no name of a host has. -/
def refusedChars : List Char := "\x60~!@#$%^&*()+=\x7b\x7d[]|\\\"';:><?/".toList

def isHostName (name : String) : Bool :=
  let cs := (Text.trim name).toList
  let isEdge (c : Option Char) : Bool := c == some '-' || c == some '_'
  !cs.isEmpty && (Text.heldBytes (Text.trim name)).length ≤ maxHostLength && !isEdge cs.head?
    && !isEdge cs.getLast? && cs.head? != some '.' && !cs.any refusedChars.contains

/-! ### Addresses -/

/-- What is wrong with the name of a user. -/
def userFault? (user : List Char) : Option String :=
  if !user.all isUserChar then some "net/url: invalid userinfo"
  else
    let name := user.takeWhile (· != ':')
    [name, user.drop (name.length + 1)].findSome? fun part =>
      match Text.unescapeBytes false part with
      | .ok _ => none
      | .error e => some e.message

/-- What is wrong with an address as it is written: its host, its user and its path, in this order.
    -/
def writtenFault? (user host path : List Char) : Option String :=
  (authorityFault? host).or <| (userFault? user).or <|
    match Text.unescapeBytes false path with
    | .ok _ => none
    | .error e => some e.message

/-- Checks the host of an object store. -/
def checkHost (host : String) : Except Fault Unit :=
  let name := String.ofList (nameOf host.toList)
  let isNumber := match HostNumber.form name.toList with
    | .ok form => form ≠ .coloned true
    | .error _ => false
  if !isNumber && !isHostName name then .error (.badHost host)
  else if Text.contains ".s3.amazonaws.com" name && !isAmazonHost name then .error .badAmazonHost
  else if Text.contains ".googleapis.com" name && name != "storage.googleapis.com" then
    .error .badGoogleHost
  else .ok ()

/-- Checks the address of an object store. -/
def check (encrypted : Bool) (endpoint : String) : Except Fault Unit :=
  let scheme := if encrypted then "https://" else "http://"
  let bad (shown reason : String) : Except Fault Unit :=
    .error (.badAddress (scheme ++ shown) reason)
  let cs := endpoint.toList
  let written := cs.takeWhile (· != '#')
  let rest := written.takeWhile (· != '?')
  let authority := rest.takeWhile (· != '/')
  let path := rest.drop authority.length
  let host := (authority.reverse.takeWhile (· != '@')).reverse
  let user := authority.take (authority.length - host.length - 1)
  if written.any fun c => c.toNat < 0x20 || c.toNat = 0x7f then
    bad (String.ofList written) "net/url: invalid control character in URL"
  else match writtenFault? user host path, Text.unescapeBytes false (cs.drop written.length) with
    | some reason, _ => bad (String.ofList written) reason
    | none, .error e => bad endpoint e.message
    | none, .ok _ =>
      if path ≠ [] ∧ path ≠ ['/'] then .error .hasPath else checkHost (unescaped host)

end KernelReach.Endpoint
