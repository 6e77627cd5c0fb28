import KernelReach.Store.Token

/-!
# Names in statements

Tables and columns are named in statements by words, or by any text between quotes, brackets or
backticks. The case of letters does not matter.
-/

namespace KernelReach.Store

/-- Why a part of a statement is not what has to stand there. -/
inductive NameFault
  /-- Something else stands there. -/
  | near (text : String)
  /-- What stands there is no token. -/
  | unrecognized (text : String)
  /-- The statement ends there. -/
  | incomplete
  deriving DecidableEq, Repr

def NameFault.message : NameFault → String
  | near text => "near \"" ++ text ++ "\": syntax error"
  | unrecognized text => "unrecognized token: \"" ++ text ++ "\""
  | incomplete => "incomplete input"

/-- The words that are no names unless they are quoted. -/
def reservedWords : List String :=
  ["add", "all", "alter", "and", "as", "autoincrement", "between", "case", "check", "collate",
    "commit", "constraint", "create", "default", "deferrable", "delete", "distinct", "drop", "else",
    "escape", "exists", "foreign", "from", "group", "having", "in", "index", "insert", "intersect",
    "into", "is", "isnull", "join", "limit", "not", "nothing", "notnull", "null", "on", "or",
    "order", "primary", "references", "returning", "select", "set", "table", "then", "to",
    "transaction", "union", "unique", "update", "using", "values", "when", "where"]

/-- Refuses what stands at the start of a text. -/
def refuse {α : Type} (cs : List Char) : Except NameFault α :=
  match Token.next? cs with
  | none => .error .incomplete
  | some (.illegal text, _) => .error (.unrecognized text)
  | some (token, _) => .error (.near token.text)

/-- Reads a name, and gives the rest of the text. -/
def readName (cs : List Char) : Except NameFault (String × List Char) :=
  match Token.next? cs with
  | some (.quoted _ name, rest) => .ok (name, rest)
  | some (.word text, rest) =>
    if reservedWords.contains text.toLower then refuse cs else .ok (text, rest)
  | _ => refuse cs

/-- Skips a mark or a word if it stands at the start of a text. -/
def skip? (text : String) (cs : List Char) : Option (List Char) :=
  match Token.next? cs with
  | some (.word found, rest) | some (.mark found, rest) =>
    if found.toLower = text then some rest else none
  | _ => none

/-- Skips a mark or a word that has to stand at the start of a text. -/
def skip (text : String) (cs : List Char) : Except NameFault (List Char) :=
  match skip? text cs with
  | some rest => .ok rest
  | none => refuse cs

/-- Skips the mark that ends a statement, unless the text ends there. -/
def skipEnd (cs : List Char) : Except NameFault (List Char) :=
  match Token.next? cs with
  | none => .ok []
  | some (.mark ";", rest) => .ok rest
  | _ => refuse cs

/-- Skips statements in which nothing stands. -/
def skipEmpty : (fuel : Nat) → List Char → List Char
  | 0, cs => cs
  | fuel + 1, cs =>
    match Token.next? cs with
    | some (.mark ";", rest) => skipEmpty fuel rest
    | _ => cs

/-- Refuses what follows a statement, unless nothing stands in it. -/
def checkEnd (cs : List Char) : Except NameFault Unit := do
  let rest ← skipEnd cs
  let rest := skipEmpty rest.length rest
  if (Token.next? rest).isNone then pure () else refuse rest

/-- Reads the name of a column that is set in a statement, in which `next` follows the name. -/
def columnName (text next : String) : Except NameFault String := do
  let (name, rest) ← readName (text ++ next).toList
  let _ ← skip "=" rest
  pure name

/-- The name of a table: that of its database, if one is given, and its own. -/
structure TableName where
  database : Option String
  table : String
  /-- Whether there has to be such a table. -/
  isRequired : Bool := true
  deriving DecidableEq, Repr

/-- Reads the name of a table, of which it may be said that there need not be one, at the end of a
    statement, and gives the text after the statement. -/
def tableName (cs : List Char) : Except NameFault (TableName × List Char) := do
  let (isRequired, cs) ← match skip? "if" cs with
    | some rest => (skip "exists" rest).map (false, ·)
    | none => pure (true, cs)
  let (first, rest) ← readName cs
  let (name, rest) ← match skip? "." rest with
    | some rest => do
      let (second, rest) ← readName rest
      pure ((⟨some first, second, isRequired⟩ : TableName), rest)
    | none => pure (⟨none, first, isRequired⟩, rest)
  pure (name, ← skipEnd rest)

/-- The text after the words with which the next statement starts to drop a table; none if there is
    no other statement. -/
def nextDrop (cs : List Char) : Except NameFault (Option (List Char)) := do
  let cs := skipEmpty cs.length cs
  if (Token.next? cs).isNone then pure none
  else
    let rest ← skip "drop" cs
    some <$> skip "table" rest

def TableName.text (n : TableName) : String :=
  match n.database with
  | some d => d ++ "." ++ n.table
  | none => n.table

/-- Whether a name is that of a table in the main database. -/
def TableName.isIn (n : TableName) (table : String) : Bool :=
  n.table.toLower == table && (match n.database with
    | some d => d.toLower == "main"
    | none => true)

/-- Whether a name is that of a table in the database of passing tables. -/
def TableName.isPassing (n : TableName) (table : String) : Bool :=
  n.table.toLower == table && n.database.any (·.toLower == "temp")

end KernelReach.Store
