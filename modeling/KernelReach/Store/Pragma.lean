import KernelReach.Store.Cell
import KernelReach.Store.Name
import KernelReach.Text.ReadNumeral

/-!
# Options of a database

A statement sets an option of a database: the name of the option, perhaps after that of the
database, and a value after an equals sign or in brackets. Options that are not known are ignored.
Of those that are, two can keep the tables from being made: a database that is only read, and one
that has too few pages.
-/

namespace KernelReach.Store

/-- A statement that sets an option. -/
structure Pragma where
  /-- The name of the database, as it is written and as it is meant, if it is given. -/
  database : Option (String × String)
  name : String
  value : Option String
  deriving DecidableEq, Repr

/-- Why a statement that sets an option is refused. -/
inductive PragmaFault
  /-- It is not well formed. -/
  | badForm (fault : NameFault)
  | unknownDatabase (name : String)
  | unknownEncoding (name : String)
  deriving DecidableEq, Repr

def PragmaFault.message : PragmaFault → String
  | badForm fault => fault.message
  | unknownDatabase name => "unknown database " ++ name
  | unknownEncoding name => "unsupported encoding: " ++ name

namespace Pragma

/-! ### Reading -/

def readNumber (cs : List Char) : Except NameFault (String × List Char) :=
  match Token.next? cs with
  | some (.number text, rest) => .ok (text, rest)
  | _ => refuse cs

/-- Reads a value: a number, perhaps with a sign, or a word. -/
def readValue (cs : List Char) : Except NameFault (String × List Char) :=
  match Token.next? cs with
  | some (.mark "-", rest) => (readNumber rest).map fun (n, rest) => ("-" ++ n, rest)
  | some (.mark "+", rest) => readNumber rest
  | some (.number text, rest) => .ok (text, rest)
  | some (.word text, rest) =>
    if ["on", "delete", "default"].contains text.toLower then .ok (text, rest) else readName cs
  | _ => readName cs

/-- Reads a statement from the name of the option on. -/
def ofText (text : String) : Except NameFault Pragma := do
  let cs := text.toList
  let (first, rest) ← readName cs
  let (database, name, rest) ← match skip? "." rest with
    | some rest => do
      let written := ((Token.next? cs).map fun (token, _) => token.text).getD first
      let (name, rest) ← readName rest
      pure (some (written, first), name, rest)
    | none => pure (none, first, rest)
  let (value, rest) ← match (skip? "=" rest).or (skip? "==" rest), skip? "(" rest with
    | some rest, _ => do
      let (value, rest) ← readValue rest
      pure (some value, rest)
    | none, some rest => do
      let (value, rest) ← readValue rest
      pure (some value, ← skip ")" rest)
    | none, none => pure (none, rest)
  checkEnd rest
  pure ⟨database, name, value⟩

/-! ### Checks and effects -/

def encodings : List String :=
  ["utf8", "utf-8", "utf-16le", "utf-16be", "utf16le", "utf16be", "utf-16", "utf16"]

/-- Refuses a statement on a database that is not there, or for an encoding that is not known. -/
def check (p : Pragma) : Except PragmaFault Unit := do
  match p.database with
  | some (written, name) =>
    if !(["main", "temp"].contains name.toLower) then throw (.unknownDatabase written)
  | none => pure ()
  match p.value with
  | some value =>
    if p.name.toLower = "encoding" ∧ !encodings.contains value.toLower then
      throw (.unknownEncoding value)
  | none => pure ()

/-- The number that the digits at the start of a text give, which may be hexadecimal. -/
def leadingNumber (cs : List Char) : Nat :=
  let decimal := cs.takeWhile Char.isDigit
  let given := match cs with
    | '0' :: x :: rest =>
      let digits := rest.takeWhile fun c => (Text.hexDigit? c).isSome
      if (x == 'x' || x == 'X') && !digits.isEmpty then Text.digitsIn? 16 digits
      else Text.digitsIn? 10 decimal
    | _ => Text.digitsIn? 10 decimal
  given.getD 0

/-- Whether a text says yes: as a word, or as a number of 31 bits of which the last eight are not
    all zero. -/
def saysYes (text : String) : Bool :=
  if text.toList.head?.any Char.isDigit then
    let n := leadingNumber text.toList
    n < 0x80000000 && n % 0x100 != 0
  else ["on", "yes", "true"].contains text.toLower

/-- The number of pages that a text gives as the greatest, if it gives one. -/
def pages? (text : String) : Option Nat :=
  let cs := text.toList.dropWhile Cell.isNumberBlank
  let cs := (cs.reverse.dropWhile Cell.isNumberBlank).reverse
  let n := match cs with
    | '+' :: digits => Text.digitsIn? 10 digits
    | '0' :: x :: digits =>
      if x == 'x' || x == 'X' then Text.digitsIn? 16 digits else Text.digitsIn? 10 cs
    | digits => Text.digitsIn? 10 digits
  n.filter fun n => 0 < n && n < Number.signedLimit

/-- What the options allow. -/
structure Effect where
  /-- Whether the database is only read. -/
  isReadOnly : Bool := false
  /-- The greatest number of pages. -/
  maxPages : Option Nat := none
  deriving DecidableEq, Repr

/-- What is allowed once a statement was run. -/
def Effect.after (e : Effect) (p : Pragma) : Effect :=
  match p.name.toLower, p.value with
  | "query_only", some value => { e with isReadOnly := saysYes value }
  | "max_page_count", some value =>
    if p.database.all fun d => d.2.toLower == "main" then
      { e with maxPages := (pages? value).or e.maxPages }
    else e
  | _, _ => e

end Pragma

end KernelReach.Store
