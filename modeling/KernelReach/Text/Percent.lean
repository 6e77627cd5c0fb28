import KernelReach.Text.Affix
import KernelReach.Text.Numeral
import KernelReach.Text.Quoted

/-!
# Escapes with percent signs

In addresses a percent sign and two hexadecimal digits stand for a byte. A query is a list of names
with values between ampersands, in which a plus sign stands for a blank.
-/

namespace KernelReach.Text

/-- What is wrong with an escaped text. -/
inductive PercentFault
  /-- A percent sign without two digits, and up to two bytes after it. -/
  | badEscape (bytes : List UInt8)
  /-- A semicolon in a query. -/
  | semicolon
  /-- A query with too many parts. -/
  | tooMany
  deriving DecidableEq, Repr

def PercentFault.message : PercentFault → String
  | badEscape bytes => "invalid URL escape " ++ quoteBytes bytes
  | semicolon => "invalid semicolon separator in query"
  | tooMany => "number of URL query parameters exceeded limit"

/-- Refuses an escape at the start of a text. -/
def refusePercent (cs : List Char) : PercentFault :=
  .badEscape ((toBytes (String.ofList (cs.take 3))).take 3)

/-- The bytes that an escaped text stands for. -/
def unescapeBytes (plusIsBlank : Bool) : List Char → Except PercentFault (List UInt8)
  | '%' :: a :: b :: cs =>
    match hexDigit? a, hexDigit? b with
    | some m, some n => (unescapeBytes plusIsBlank cs).map (UInt8.ofNat (16 * m + n) :: ·)
    | _, _ => .error (refusePercent ('%' :: a :: b :: cs))
  | '%' :: cs => .error (refusePercent ('%' :: cs))
  | c :: cs =>
    let byte := if c = '+' ∧ plusIsBlank then [0x20] else String.utf8EncodeChar c
    (unescapeBytes plusIsBlank cs).map (byte ++ ·)
  | [] => .ok []

/-- The parts of a text before and after the first separator. -/
def cut (separator : Char) (s : String) : String × Option String :=
  let cs := s.toList
  match cs.dropWhile (· != separator) with
  | [] => (s, none)
  | _ :: after => (String.ofList (cs.takeWhile (· != separator)), some (String.ofList after))

/-- A part of a query as a name and a value; none if it is empty. -/
def queryPair (part : String) : Except PercentFault (Option (String × String)) :=
  if part.toList.contains ';' then .error .semicolon
  else if part = "" then .ok none
  else do
    let (name, value) := cut '=' part
    let name ← unescapeBytes true name.toList
    let value ← unescapeBytes true (value.getD "").toList
    .ok (some (hold name, hold value))

/-- The greatest number of parts of a query. -/
def maxQueryParts : Nat := 10000

/-- The parts of a query; none if there are too many. -/
def queryParts? (query : String) : Option (List String) :=
  let parts := splitAt '&' query
  if maxQueryParts < parts.length then none else some parts

/-- The names and values of a query. Parts that are not well formed are left out. -/
def queryPairs (query : String) : List (String × String) :=
  ((queryParts? query).getD []).filterMap fun part => (queryPair part).toOption.join

/-- What is told of a query that is not well formed: the last semicolon, or else the first escape.
    -/
def queryFault? (query : String) : Option PercentFault :=
  match queryParts? query with
  | none => some .tooMany
  | some parts => parts.foldl (fun found part =>
    match queryPair part with
    | .error .semicolon => some .semicolon
    | .error e => found.or (some e)
    | .ok _ => found) none

end KernelReach.Text
