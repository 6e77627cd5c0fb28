import KernelReach.Yaml.Glyph

/-!
# Anchors, tags and directives

What a text says about its values besides the values themselves: a name for a value that is used
again, the type of a value, and at the start of a document its version and short forms of types. All
of it stands on one line, whose number messages name.
-/

namespace KernelReach.Yaml

/-- A short form of types: types that start with `handle` are written out with `expansion`. -/
structure TagHandle where
  handle : String
  expansion : String
  deriving DecidableEq, Repr

/-- A line at the start of a document. -/
inductive Directive
  | version (major minor : Nat)
  | tag (handle : TagHandle)
  deriving DecidableEq, Repr

/-- The type of a value as it is written: a short form, which may be empty, and what follows it. -/
structure TagText where
  handle : String
  suffix : String
  deriving DecidableEq, Repr

/-- The name at the start of a text, and the rest. -/
def takeName (gs : List Glyph) : List Char × List Glyph :=
  ((gs.takeWhile fun g => isNameChar g.char).map Glyph.char,
    gs.dropWhile fun g => isNameChar g.char)

def skipSpaces (gs : List Glyph) : List Glyph := gs.dropWhile fun g => isSpace g.char

def skipLine (gs : List Glyph) : List Glyph := gs.dropWhile fun g => !isBreakOrEnd g.char

/-! ### Anchors -/

/-- Whether a character may follow the name of an anchor. -/
def endsAnchor (c : Char) : Bool :=
  isGapOrEnd c || ['?', ':', ',', ']', '\x7d', '%', '@', '\x60'].contains c

def scanAnchor (line : Nat) (gs : List Glyph) : Except Fault (String × List Glyph) :=
  let (name, rest) := takeName gs
  if name.isEmpty || !endsAnchor (front rest) then tokenFault .badAnchor line rest
  else .ok (String.ofList name, rest)

/-! ### Tags -/

/-- Whether a character may stand in the written form of a type. -/
def isTagChar (c : Char) : Bool :=
  isNameChar c || [';', '/', '?', ':', '@', '&', '=', '+', '$', '.', ',', '!', '~', '*', '\'', '(',
    ')', '[', ']', '%'].contains c

/-- The byte that a percent sign and two digits give. -/
def escapedByte? : List Glyph → Option (UInt8 × List Glyph)
  | p :: a :: b :: rest =>
    match Text.hexDigit? a.char, Text.hexDigit? b.char with
    | some x, some y => if p.char == '%' then some (UInt8.ofNat (16 * x + y), rest) else none
    | _, _ => none
  | _ => none

/-- Reads the bytes of a character after its first one. -/
def escapedTail (line : Nat) : (left : Nat) → List Glyph → Except Fault (List UInt8 × List Glyph)
  | 0, gs => .ok ([], gs)
  | left + 1, gs =>
    match escapedByte? gs with
    | none => tokenFault .badTagEscape line gs
    | some (b, rest) =>
      if Text.isTail b then do
        let (bs, rest) ← escapedTail line left rest
        .ok (b :: bs, rest)
      else tokenFault .badTagTail line gs

/-- Reads a character that is written as percent signs and digits. -/
def escapedChar (line : Nat) (gs : List Glyph) : Except Fault (List UInt8 × List Glyph) :=
  match escapedByte? gs with
  | none => tokenFault .badTagEscape line gs
  | some (b, rest) =>
    if leadWidth b = 0 then tokenFault .badTagLead line gs
    else do
      let (bs, rest) ← escapedTail line (leadWidth b - 1) rest
      .ok (b :: bs, rest)

/-- Reads the characters of a type, after some that are known. -/
def tagChars (line : Nat) : (fuel : Nat) → (read : List UInt8) → List Glyph →
    Except Fault (List UInt8 × List Glyph)
  | 0, read, gs => .ok (read, gs)
  | fuel + 1, read, gs =>
    if !isTagChar (front gs) then .ok (read, gs)
    else if front gs == '%' then do
      let (bytes, rest) ← escapedChar line gs
      tagChars line fuel (read ++ bytes) rest
    else tagChars line fuel (read ++ Text.toBytes (String.singleton (front gs))) (gs.drop 1)

/-- Reads the written form of a type, after a start that is known. -/
def scanTagText (line : Nat) (known : Option String) (gs : List Glyph) :
    Except Fault (String × List Glyph) := do
  let (bytes, rest) ← tagChars line gs.length (Text.toBytes (known.getD "")) gs
  if known.isNone && rest.length == gs.length then tokenFault .missingTag line rest
  else .ok (Text.ofBytes bytes, rest)

/-- Reads a short form between exclamation marks, or what may turn out to be one. -/
def scanHandle (line : Nat) (inDirective : Bool) (gs : List Glyph) :
    Except Fault (List Char × List Glyph) :=
  if front gs != '!' then tokenFault .missingMark line gs
  else
    let (name, rest) := takeName (gs.drop 1)
    if front rest == '!' then .ok ('!' :: name ++ ['!'], rest.drop 1)
    else if inDirective && !name.isEmpty then tokenFault .missingMark line rest
    else .ok ('!' :: name, rest)

/-- Whether what was read is a short form. -/
def isHandle (cs : List Char) : Bool := 1 < cs.length && cs.getLast? == some '!'

/-- Reads the type of a value. -/
def scanTag (line : Nat) (gs : List Glyph) : Except Fault (TagText × List Glyph) := do
  let (tag, rest) ←
    if front (gs.drop 1) == '<' then do
      let (suffix, rest) ← scanTagText line none (gs.drop 2)
      if front rest == '>' then pure ((⟨"", suffix⟩ : TagText), rest.drop 1)
      else tokenFault .missingTagEnd line rest
    else do
      let (handle, rest) ← scanHandle line false gs
      if isHandle handle then
        let (suffix, rest) ← scanTagText line none rest
        pure (⟨String.ofList handle, suffix⟩, rest)
      else
        let (suffix, rest) ← scanTagText line (some (String.ofList (handle.drop 1))) rest
        pure (if suffix.isEmpty then ⟨"", "!"⟩ else ⟨"!", suffix⟩, rest)
  if isGapOrEnd (front rest) then .ok (tag, rest) else tokenFault .tagGoesOn line rest

/-! ### Directives -/

/-- The greatest number of digits in a version number. -/
def maxVersionDigits : Nat := 2

def versionNumber (line : Nat) (gs : List Glyph) : Except Fault (Nat × List Glyph) :=
  let digits := gs.takeWhile fun g => '0' ≤ g.char ∧ g.char ≤ '9'
  let rest := gs.drop digits.length
  if maxVersionDigits < digits.length then tokenFault .longVersionNumber line gs
  else if digits.isEmpty then tokenFault .missingVersionNumber line gs
  else .ok (digits.foldl (fun n g => 10 * n + (g.char.toNat - '0'.toNat)) 0, rest)

/-- Reads a directive after its percent sign, up to the end of its line. -/
def scanDirective (line : Nat) (gs : List Glyph) : Except Fault (Directive × List Glyph) := do
  let (name, rest) := takeName gs
  if name.isEmpty then tokenFault .missingDirectiveName line rest
  else if !isGapOrEnd (front rest) then tokenFault .badDirectiveName line rest
  else
    let (directive, rest) ←
      if name == "YAML".toList then do
        let (major, rest) ← versionNumber line (skipSpaces rest)
        if front rest != '.' then tokenFault .missingVersionPoint line rest
        else
          let (minor, rest) ← versionNumber line (rest.drop 1)
          pure (Directive.version major minor, rest)
      else if name == "TAG".toList then do
        let (handle, rest) ← scanHandle line true (skipSpaces rest)
        if !isSpace (front rest) then tokenFault .missingBlank line rest
        else
          let (expansion, rest) ← scanTagText line none (skipSpaces rest)
          if isGapOrEnd (front rest) then
            pure (Directive.tag ⟨String.ofList handle, expansion⟩, rest)
          else tokenFault .tagPrefixGoesOn line rest
      else tokenFault .unknownDirective line rest
    let rest := skipSpaces rest
    let rest := if front rest == '#' then skipLine rest else rest
    if isBreak (front rest) then .ok (directive, rest.drop 1)
    else if front rest == endMark then .ok (directive, rest)
    else tokenFault .directiveGoesOn line rest

end KernelReach.Yaml
