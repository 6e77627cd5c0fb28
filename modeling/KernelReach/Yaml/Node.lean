import KernelReach.Yaml.Token
import KernelReach.Yaml.Value

/-!
# Nodes

A YAML document is a tree of scalars, sequences and mappings. A scalar that is left out is an empty
plain one. A node with an anchor may be used again by an alias, inside of itself too, so an alias
only gives the number of the node that it stands for. Only the first document of a text is read.
-/

namespace KernelReach.Yaml

/-- A value of a document, with the line on which it starts, counted from 1, and its type. -/
inductive Node
  | scalar (line : Nat) (tag text : String)
  | sequence (line : Nat) (tag : String) (items : List Node)
  /-- Keys and values, in order. -/
  | mapping (line : Nat) (tag : String) (entries : List (Node × Node))
  /-- Stands for the node with the number `target`; `place` tells it from all other aliases. -/
  | reference (line : Nat) (name : String) (place target : Nat)
  deriving Repr, Inhabited

namespace Node

def line : Node → Nat
  | scalar n _ _ | sequence n _ _ | mapping n _ _ | reference n _ _ _ => n

/-- A list without a place. -/
def ofItems (items : List Node) : Node := sequence 0 sequenceTag items

/-- A mapping with texts as keys, without a place. -/
def ofFields (fields : List (String × Node)) : Node :=
  mapping 0 mappingTag (fields.map fun (k, v) => (scalar 0 textTag k, v))

/-- A text without a place. -/
def ofText (text : String) : Node := scalar 0 textTag text

/-- A scalar that is not quoted, without a place. -/
def ofPlain (text : String) : Node := scalar 0 (plainValue true text).tag text

end Node

/-- A document: its value and the nodes that aliases stand for. -/
structure Document where
  root : Node
  anchored : List (Nat × Node) := []

/-- What is known while a document is read. -/
structure Reading where
  scan : Scan
  /-- The short forms of types. -/
  handles : List TagHandle := []
  /-- The number of the last node with each anchor. -/
  anchors : List (String × Nat) := []
  anchored : List (Nat × Node) := []
  /-- The number of anchors and aliases so far. -/
  count : Nat := 0

/-- A step of reading a document. -/
abbrev Read := StateT Reading (Except Fault)

namespace Read

/-- The next token. -/
def peek : Read Lexeme := do
  let r ← get
  let (t, scan) ← r.scan.peek
  set { r with scan }
  pure t

/-- Takes the next token. -/
def skip : Read Unit := modify fun r => { r with scan := r.scan.take }

/-- Refuses the order of tokens at a line. -/
def refuse {α : Type} (p : Problem) (start line : Nat) : Read α :=
  throw { problem := p, part := .order, start, line }

/-- What stands for a value that is left out on a line. -/
def empty (line : Nat) : Node := .scalar (line + 1) nullTag ""

def number : Read Nat :=
  modifyGet fun r => (r.count, { r with count := r.count + 1 })

/-! ### Types and anchors -/

/-- What is written before a value. -/
structure Properties where
  anchor : Option String := none
  tag : Option TagText := none
  /-- The line of the type. -/
  tagLine : Nat := 0

/-- Reads what is written before a value: an anchor and a type, in any order. -/
def properties : Read Properties := do
  let t ← peek
  match t.token with
  | .anchor name =>
    skip
    let u ← peek
    match u.token with
    | .tag tag =>
      skip
      pure { anchor := some name, tag := some tag, tagLine := u.line }
    | _ => pure { anchor := some name }
  | .tag tag =>
    skip
    let u ← peek
    match u.token with
    | .anchor name =>
      skip
      pure { anchor := some name, tag := some tag, tagLine := t.line }
    | _ => pure { tag := some tag, tagLine := t.line }
  | _ => pure {}

/-- The type that is written before a value, written out; empty if there is none. -/
def fullTag (start : Nat) (p : Properties) : Read String := do
  match p.tag with
  | none => pure ""
  | some tag =>
    if tag.handle = "" then pure tag.suffix
    else
      match (← get).handles.find? (fun h => h.handle == tag.handle) with
      | some h =>
        if h.expansion ++ tag.suffix = "" then refuse .undefinedTagHandle start p.tagLine
        else pure (h.expansion ++ tag.suffix)
      | none => refuse .undefinedTagHandle start p.tagLine

/-- The type of a value: the one that is written before it, or else the one that it has by itself.
    -/
def tagOr (written own : String) : String :=
  if written = "" ∨ written = "!" then own else shortTag written

/-- The type of a scalar without a written one. -/
def scalarTag (text : String) (plain : Bool) : String :=
  if !plain then textTag
  else if text = "<<" then mergeTag
  else (plainValue true text).tag

/-- Announces a node with an anchor, so that aliases inside of it find it. -/
def announce (p : Properties) : Read (Option Nat) := do
  match p.anchor with
  | none => pure none
  | some name =>
    let n ← number
    modify fun r => { r with anchors := (name, n) :: r.anchors }
    pure (some n)

def keep (number : Option Nat) (n : Node) : Read Node := do
  match number with
  | none => pure n
  | some k =>
    modify fun r => { r with anchored := (k, n) :: r.anchored }
    pure n

/-! ### Collections -/

/-- Whether a value that was announced is left out in a block. -/
def isLeftOut : Token → Bool
  | .key | .value | .blockEnd => true
  | _ => false

/-- Takes the comma before an item that is not the first one. -/
def comma (first : Bool) (start : Nat) (p : Problem) : Read Unit := do
  if !first then
    let t ← peek
    if t.token = .flowEntry then skip else refuse p start t.line

mutual

/-- Reads a value. In a mapping a sequence may start without deeper indentation. -/
def node : (fuel : Nat) → (block indentless : Bool) → Read Node
  | 0, _, _ => refuse (.tooDeep maxDepth) 0 0
  | fuel + 1, block, indentless => do
    let first ← peek
    match first.token with
    | .reference name =>
      skip
      match (← get).anchors.lookup name with
      | some target => pure (.reference (first.line + 1) name (← number) target)
      | none => throw { problem := .unknownAnchor name }
    | _ =>
      let p ← properties
      let t ← peek
      let written ← fullTag first.line p
      let line := first.line + 1
      match t.token with
      | .scalar text plain =>
        let number ← announce p
        skip
        keep number (.scalar line (tagOr written (scalarTag text plain)) text)
      | .flowSequenceStart =>
        let number ← announce p
        skip
        let items ← flowItems fuel t.line true
        keep number (.sequence line (tagOr written sequenceTag) items)
      | .flowMappingStart =>
        let number ← announce p
        skip
        let entries ← flowEntries fuel t.line true
        keep number (.mapping line (tagOr written mappingTag) entries)
      | other =>
        if indentless && other = .blockEntry then
          let number ← announce p
          let items ← indentlessItems fuel
          keep number (.sequence line (tagOr written sequenceTag) items)
        else if block && other = .blockSequenceStart then
          let number ← announce p
          skip
          let items ← blockItems fuel t.line
          keep number (.sequence line (tagOr written sequenceTag) items)
        else if block && other = .blockMappingStart then
          let number ← announce p
          skip
          let entries ← blockEntries fuel t.line
          keep number (.mapping line (tagOr written mappingTag) entries)
        else if p.anchor.isSome || written != "" then
          let number ← announce p
          keep number (.scalar line (tagOr written nullTag) "")
        else refuse .missingContent first.line t.line

def blockItems : (fuel : Nat) → (start : Nat) → Read (List Node)
  | 0, _ => refuse (.tooDeep maxDepth) 0 0
  | fuel + 1, start => do
    let t ← peek
    match t.token with
    | .blockEntry =>
      skip
      let next ← peek
      let item ←
        if next.token = .blockEntry ∨ next.token = .blockEnd then pure (empty t.line)
        else node fuel true false
      return item :: (← blockItems fuel start)
    | .blockEnd =>
      skip
      return []
    | _ => refuse .missingDash start t.line

/-- Reads the items of a sequence that is not indented deeper than the mapping around it. -/
def indentlessItems : (fuel : Nat) → Read (List Node)
  | 0 => refuse (.tooDeep maxDepth) 0 0
  | fuel + 1 => do
    let t ← peek
    match t.token with
    | .blockEntry =>
      skip
      let next ← peek
      let item ←
        if next.token = .blockEntry || isLeftOut next.token then pure (empty t.line)
        else node fuel true false
      return item :: (← indentlessItems fuel)
    | _ => return []

def blockEntries : (fuel : Nat) → (start : Nat) → Read (List (Node × Node))
  | 0, _ => refuse (.tooDeep maxDepth) 0 0
  | fuel + 1, start => do
    let t ← peek
    match t.token with
    | .key =>
      skip
      let next ← peek
      let k ← if isLeftOut next.token then pure (empty t.line) else node fuel true true
      let v ← blockValue fuel
      return (k, v) :: (← blockEntries fuel start)
    | .blockEnd =>
      skip
      return []
    | _ => refuse .missingKey start t.line

/-- Reads the value of an entry in a block mapping. -/
def blockValue : (fuel : Nat) → Read Node
  | 0 => refuse (.tooDeep maxDepth) 0 0
  | fuel + 1 => do
    let t ← peek
    match t.token with
    | .value =>
      skip
      let next ← peek
      if isLeftOut next.token then return empty t.line else node fuel true true
    | _ => return empty t.line

/-- Reads the value of an entry in a flow collection that ends with `close`. -/
def flowValue : (fuel : Nat) → (close : Token) → Read Node
  | 0, _ => refuse (.tooDeep maxDepth) 0 0
  | fuel + 1, close => do
    let t ← peek
    match t.token with
    | .value =>
      skip
      let next ← peek
      if next.token = .flowEntry ∨ next.token = close then return empty next.line
      else node fuel false false
    | _ => return empty t.line

/-- Reads the items of a flow sequence. An item with a colon is a mapping of one entry. -/
def flowItems : (fuel : Nat) → (start : Nat) → (first : Bool) → Read (List Node)
  | 0, _, _ => refuse (.tooDeep maxDepth) 0 0
  | fuel + 1, start, first => do
    let t ← peek
    if t.token = .flowSequenceEnd then
      skip
      return []
    else
      comma first start .missingSequenceEnd
      let t ← peek
      match t.token with
      | .flowSequenceEnd =>
        skip
        return []
      | .key =>
        skip
        let next ← peek
        let k ←
          if next.token = .value ∨ next.token = .flowEntry ∨ next.token = .flowSequenceEnd then do
            skip
            pure (empty next.line)
          else node fuel false false
        let v ← flowValue fuel .flowSequenceEnd
        return .mapping (t.line + 1) mappingTag [(k, v)] :: (← flowItems fuel start false)
      | _ =>
        let item ← node fuel false false
        return item :: (← flowItems fuel start false)

/-- Reads the entries of a flow mapping. A value without a colon is a key with nothing. -/
def flowEntries : (fuel : Nat) → (start : Nat) → (first : Bool) → Read (List (Node × Node))
  | 0, _, _ => refuse (.tooDeep maxDepth) 0 0
  | fuel + 1, start, first => do
    let t ← peek
    if t.token = .flowMappingEnd then
      skip
      return []
    else
      comma first start .missingMappingEnd
      let t ← peek
      match t.token with
      | .flowMappingEnd =>
        skip
        return []
      | .key =>
        skip
        let next ← peek
        let k ←
          if next.token = .value ∨ next.token = .flowEntry ∨ next.token = .flowMappingEnd then
            pure (empty next.line)
          else node fuel false false
        let v ← flowValue fuel .flowMappingEnd
        return (k, v) :: (← flowEntries fuel start false)
      | _ =>
        let k ← node fuel false false
        let next ← peek
        return (k, empty next.line) :: (← flowEntries fuel start false)

end

/-! ### Documents -/

/-- The short forms of types that every document has. -/
def standardHandles : List TagHandle := [⟨"!", "!"⟩, ⟨"!!", commonTypes⟩]

def directives : (fuel : Nat) → (version : Bool) → Read Unit
  | 0, _ => pure ()
  | fuel + 1, version => do
    let t ← peek
    match t.token with
    | .directive (.version major minor) =>
      if version then refuse .duplicateVersion 0 t.line
      else if major ≠ 1 ∨ minor ≠ 1 then refuse .wrongVersion 0 t.line
      else
        skip
        directives fuel true
    | .directive (.tag handle) =>
      if (← get).handles.any (fun h => h.handle == handle.handle) then
        refuse .duplicateTagHandle 0 t.line
      else
        modify fun r => { r with handles := r.handles ++ [handle] }
        skip
        directives fuel version
    | _ => modify fun r => { r with handles := r.handles ++ standardHandles }

def documentEnd : Read Unit := do
  let t ← peek
  if t.token = .documentEnd then skip

/-- Reads the value of the first document; none if there is no document. -/
def document (fuel : Nat) : Read (Option Node) := do
  let _ ← peek
  skip
  let t ← peek
  match t.token with
  | .streamEnd => return none
  | .directive _ | .documentStart =>
    directives fuel false
    let t ← peek
    if t.token ≠ .documentStart then refuse .missingDocumentStart 0 t.line
    else
      skip
      let t ← peek
      let root ← match t.token with
        | .directive _ | .documentStart | .documentEnd | .streamEnd => pure (empty t.line)
        | _ => node fuel true false
      documentEnd
      return some root
  | _ =>
    modify fun r => { r with handles := standardHandles }
    let root ← node fuel true false
    documentEnd
    return some root

end Read

namespace Document

/-- The first document of a file; none if there is none. -/
def ofBytes (bytes : List UInt8) : Except Fault (Option Document) := do
  let scan := Scan.ofBytes bytes
  let (root, r) ← (Read.document (4 * scan.rest.length + 4)).run { scan }
  pure (root.map fun root => { root, anchored := r.anchored })

end Document

end KernelReach.Yaml
