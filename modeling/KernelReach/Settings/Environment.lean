import KernelReach.Settings.Basic
import KernelReach.Text.Utf8

/-!
# The environment

Connections and secrets can be set by variables of the environment. Variables that are not set there
can be given by a file of assignments:

* an assignment is a name, `=` or `:`, and a value; the word `export` may stand before it;
* a line that starts with `#` is a comment, and so is the end of a line after a blank and `#`;
* a value in quotes may run over several lines;
* `$NAME` in a value, unless it is in single quotes, stands for a variable that was assigned before.

A file that is not written like this gives no variables at all.
-/

namespace KernelReach

/-- Variables with their values. A later one of the same name is not looked at. -/
abbrev Environment := List (String × String)

namespace Environment

/-- The value of a variable without the blanks around it; empty if it is not set. -/
def value (env : Environment) (name : String) : String := Text.trim ((env.lookup name).getD "")

/-- Whether a variable can be kept. Its name is not empty and has no equals sign, and the mark of
    the end of a text stands neither in the name nor in the value. -/
def canKeep (name value : String) : Bool :=
  name != "" && !name.toList.contains '=' && !name.toList.contains '\x00'
    && !value.toList.contains '\x00'

/-- The environment with variables that are added unless they are set or cannot be kept. -/
def withMissing (env vars : Environment) : Environment :=
  env ++ vars.filter fun v =>
    (env.lookup v.1).isNone && vars.lookup v.1 == some v.2 && canKeep v.1 v.2

/-! ### Files of assignments -/

/-- A blank that does not end a line. -/
def isLineBlank (c : Char) : Bool :=
  c == ' ' || c == '\t' || c == '\x0b' || c == '\x0c' || c == '\r' || c == '\u0085' || c == '\u00a0'

/-- Whether a byte may stand in the name of a variable, where a byte is taken for the character with
    its code: letters, digits, and the like, and blanks. -/
def isNameByte (b : UInt8) : Bool :=
  let c := Char.ofNat b.toNat
  c.isAlphanum || c == '_' || c == '.' || isLineBlank c
    || b == 0xAA || b == 0xB5 || b == 0xBA || b == 0xB2 || b == 0xB3 || b == 0xB9
    || (0xBC ≤ b && b ≤ 0xBE) || (0xC0 ≤ b && b != 0xD7 && b != 0xF7)

/-- Whether a piece of text may stand in the name of a variable. -/
def isNamePiece : Text.Piece → Bool
  | .char c => (String.utf8EncodeChar c).all isNameByte
  | .stray b => isNameByte b

/-- The characters of pieces of text, in which stray bytes are held. -/
def charsOf (ps : List Text.Piece) : List Char := ps.map Text.Piece.held

/-- The text without the blanks at its start. -/
def skipLineBlanks (ps : List Text.Piece) : List Text.Piece :=
  ps.dropWhile fun p => isLineBlank p.shown

/-- Skips blanks, empty lines and comments. -/
def skipToStatement (inComment : Bool) : List Text.Piece → List Text.Piece
  | [] => []
  | p :: ps =>
    if inComment then skipToStatement (p.shown != '\n') ps
    else if Text.isBlank p.shown then skipToStatement false ps
    else if p.shown == '#' then skipToStatement true ps
    else p :: ps

/-- Skips the word that may stand before an assignment. -/
def skipExport (ps : List Text.Piece) : List Text.Piece :=
  let rest := ps.drop "export".length
  if charsOf (ps.take "export".length) == "export".toList
      && rest.head?.any (isLineBlank ·.shown) then skipLineBlanks rest
  else ps

/-- Reads the name in an assignment. Without a sign of assignment all of the text is the value. -/
def readName (ps : List Text.Piece) : Option (String × List Text.Piece) :=
  let name := ps.takeWhile fun p => p.shown != '=' && p.shown != ':'
  if ps.isEmpty || !name.all isNamePiece then none
  else match ps.drop name.length with
    | [] => some ("", ps)
    | _ :: rest => some (Text.trim (String.ofList (charsOf name)), skipLineBlanks rest)

/-- Whether a character may stand in the name of a variable that a value refers to. -/
def isReferenceChar (c : Char) : Bool := ('A' ≤ c && c ≤ 'Z') || c.isDigit || c == '_'

def skipChar (c : Char) : List Char → List Char
  | d :: cs => if d == c then cs else d :: cs
  | [] => []

/-- Puts in the values of the variables that a value refers to. A dollar after a backslash is only a
    dollar. -/
def expand (vars : Environment) : (fuel : Nat) → List Char → List Char
  | 0, cs => cs
  | _, [] => []
  | fuel + 1, '\\' :: '$' :: cs => '$' :: takeReference fuel cs
  | fuel + 1, '$' :: cs =>
    let opened := skipChar '\x7b' (skipChar '(' cs)
    let name := opened.takeWhile isReferenceChar
    let rest := skipChar '\x7d' (opened.drop name.length)
    if name.isEmpty then '$' :: takeReference fuel cs
    else ((vars.lookup (String.ofList name)).getD "").toList ++ expand vars fuel rest
  | fuel + 1, c :: cs => c :: expand vars fuel cs
where
  /-- Keeps what looks like a reference as it is. -/
  takeReference (fuel : Nat) (cs : List Char) : List Char :=
    let opened := skipChar '\x7b' (skipChar '(' cs)
    let rest := skipChar '\x7d' (opened.dropWhile isReferenceChar)
    cs.take (cs.length - rest.length) ++ expand vars fuel rest

/-- Replaces the escapes of line breaks in a quoted value. -/
def expandBreaks : List Char → List Char
  | '\\' :: 'n' :: cs => '\n' :: expandBreaks cs
  | '\\' :: 'r' :: cs => '\r' :: expandBreaks cs
  | '\\' :: '\n' :: cs => '\\' :: '\n' :: expandBreaks cs
  | '\\' :: c :: cs => '\\' :: c :: expandBreaks cs
  | c :: cs => c :: expandBreaks cs
  | [] => []

/-- Drops the backslash before every character but a dollar. -/
def dropBackslashes : List Char → List Char
  | '\\' :: '$' :: cs => '\\' :: '$' :: dropBackslashes cs
  | '\\' :: c :: cs => c :: dropBackslashes cs
  | c :: cs => c :: dropBackslashes cs
  | [] => []

/-- The text up to the last `#` that has a blank before it. -/
def withoutComment (line : List Char) : List Char :=
  go none [] line
where
  /-- Goes on after a character, with what was read of the line in reverse. -/
  go (before : Option Char) (read : List Char) : List Char → List Char
    | [] => line
    | c :: cs =>
      if c == '#' && before.any isLineBlank && !hasComment (some c) cs then read.reverse
      else go (some c) (c :: read) cs
  /-- Whether a comment starts in a line. -/
  hasComment (before : Option Char) : List Char → Bool
    | [] => false
    | c :: cs => (c == '#' && before.any isLineBlank) || hasComment (some c) cs

/-- The text without the blanks around it. -/
def trimLine (cs : List Char) : List Char :=
  ((cs.dropWhile isLineBlank).reverse.dropWhile isLineBlank).reverse

/-- The text of a quoted value and what follows it. A quote after a backslash does not end it. -/
def readQuoted (quote : Char) (before : Char) (read : List Char) :
    List Char → Option (List Char × List Char)
  | [] => none
  | c :: cs =>
    if c == quote && before != '\\' then some (read.reverse, cs)
    else readQuoted quote c (c :: read) cs

/-- Reads the value in an assignment. Stray bytes are held only in quotes. -/
def readValue (vars : Environment) (cs : List Char) : Option (String × List Char) :=
  let unquoted :=
    let isEnd (c : Char) : Bool := c == '\n' || c == '\r'
    let line := cs.takeWhile fun c => !isEnd c
    let text := trimLine (withoutComment (Text.shown (String.ofList line)).toList)
    some (String.ofList (expand vars text.length text), cs.drop line.length)
  let quoted (q : Char) (rest : List Char) := do
    let (text, rest) ← readQuoted q q [] rest
    let text := ((text.dropWhile (· == q)).reverse.dropWhile (· == q)).reverse
    let text := if q == '"' then
        let text := dropBackslashes (expandBreaks text)
        expand vars text.length text
      else text
    pure (String.ofList text, rest)
  match cs with
  | '"' :: rest => quoted '"' rest
  | '\'' :: rest => quoted '\'' rest
  | _ => unquoted

/-- Reads assignments, the last of which is the first in the result. -/
def readAssignments : (fuel : Nat) → Environment → List Text.Piece → Option Environment
  | 0, vars, _ => some vars
  | fuel + 1, vars, ps =>
    match skipToStatement false ps with
    | [] => some vars
    | ps => do
      let (name, ps) ← readName (skipExport ps)
      let (value, rest) ← readValue vars (charsOf ps)
      readAssignments fuel ((name, value) :: vars) (ps.drop (ps.length - rest.length))

/-- Line breaks of one kind only. -/
def joinBreaks : List Text.Piece → List Text.Piece
  | .char '\r' :: .char '\n' :: ps => .char '\n' :: joinBreaks ps
  | p :: ps => p :: joinBreaks ps
  | [] => []

/-- The variables of a file of assignments; none at all if it is not one. -/
def ofBytes (bytes : List UInt8) : Environment :=
  let ps := joinBreaks (Text.pieces bytes)
  (readAssignments (ps.length + 1) [] ps).getD []

end Environment

namespace Settings

def truthValue? (s : String) : Option Bool :=
  if ["1", "t", "T", "TRUE", "true", "True"].contains s then some true
  else if ["0", "f", "F", "FALSE", "false", "False"].contains s then some false
  else none

/-- The settings, overridden by variables of the environment. -/
def withEnvironment (s : Settings) (env : Environment) : Settings :=
  { s with
    stagingDir := overrideText s.stagingDir (env.value "KERNELSCAN_STAGING_DIR")
    store := { s.store with
      address := overrideText s.store.address (env.value "KERNELSCAN_STORE_DSN") }
    graph := { s.graph with
      uri := overrideText s.graph.uri (env.value "NEO4J_URI")
      user := overrideText s.graph.user (env.value "NEO4J_USER")
      password := overrideText s.graph.password (env.value "NEO4J_PASSWORD") }
    publish := {
      endpoint := overrideText s.publish.endpoint (env.value "ARTIFACT_S3_ENDPOINT")
      bucket := overrideText s.publish.bucket (env.value "ARTIFACT_S3_BUCKET")
      region := overrideText s.publish.region (env.value "ARTIFACT_S3_REGION")
      accessKey := overrideText (overrideText s.publish.accessKey (env.value "MINIO_ROOT_USER"))
        (env.value "ARTIFACT_S3_ACCESS_KEY")
      secretKey := overrideText
        (overrideText s.publish.secretKey (env.value "MINIO_ROOT_PASSWORD"))
        (env.value "ARTIFACT_S3_SECRET_KEY")
      encrypted := (truthValue? (env.value "ARTIFACT_S3_USE_SSL")).or s.publish.encrypted } }

end Settings

end KernelReach
