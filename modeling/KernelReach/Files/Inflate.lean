import KernelReach.Binary.Reader
import KernelReach.Number.Power

/-!
# Compressed bytes

Compressed bytes are a row of blocks of bits, the least bit of each byte first. A block holds bytes
as they are, or symbols in a code of variable length: a byte, the end of the block, or a piece to be
repeated that was met before. The lengths of the code are fixed or come with the block. What was
decoded before a fault is kept.

Decoded bytes are passed on when the window of what may be repeated is full, at an empty block of
bytes as they are, and at the end. The last ones are passed on together with the end or the fault.
-/

namespace KernelReach.Inflate

open Binary (Bytes)

/-- What is wrong with compressed bytes. -/
inductive Fault
  /-- They make no sense, which shows after some of them. -/
  | corrupt (offset : Nat)
  | endedEarly
  deriving DecidableEq, Repr

/-- What is left to decode, and what was decoded. -/
structure State where
  /-- The bytes that were not looked at. -/
  rest : Bytes
  /-- The number of bytes that were looked at. -/
  offset : Nat := 0
  /-- The bits of these that were not used, as a number. -/
  bits : Nat := 0
  /-- The number of these bits. -/
  count : Nat := 0
  out : Array UInt8 := #[]
  /-- The sizes that `out` had at empty blocks before the last block, the greatest first. -/
  pauses : List Nat := []

/-- A step of decoding. A fault keeps what was decoded. -/
abbrev Step := ExceptT Fault (StateM State)

/-- Gives up at the present place. -/
def corrupt {α : Type} : Step α := do throw (.corrupt (← get).offset)

/-- Takes a byte that was not looked at. -/
def nextByte : Step UInt8 := do
  let s ← get
  match s.rest with
  | [] => throw .endedEarly
  | b :: rest =>
    set { s with rest, offset := s.offset + 1 }
    pure b

/-- Looks at no more bytes than are needed for a number of bits, and at no more than some. -/
def fill (needed : Nat) : (bytes : Nat) → Step Unit
  | 0 => pure ()
  | bytes + 1 => do
    if (← get).count < needed then
      let b ← nextByte
      modify fun s => { s with
        bits := s.bits + b.toNat * Number.twoTo s.count, count := s.count + 8 }
      fill needed bytes

/-- Takes a number of at most sixteen bits. -/
def takeBits (n : Nat) : Step Nat := do
  fill n 2
  let s ← get
  set { s with bits := s.bits / Number.twoTo n, count := s.count - n }
  pure (s.bits % Number.twoTo n)

/-- Adds a decoded byte. -/
def put (b : UInt8) : Step Unit := modify fun s => { s with out := s.out.push b }

/-- Repeats a piece that starts at a distance before the end. -/
def repeatPiece (distance : Nat) : (length : Nat) → Step Unit
  | 0 => pure ()
  | length + 1 => do
    let s ← get
    match s.out[s.out.size - distance]? with
    | some b => put b
    | none => corrupt
    repeatPiece distance length

/-! ### Codes -/

/-- A code in which the symbols of one length have consecutive words, and longer words follow
    shorter ones. -/
structure Code where
  /-- The number of words of each length, from one on. -/
  counts : List Nat
  /-- The symbols in the order of their words. -/
  symbols : Array Nat
  /-- The number of bits that are looked at before a symbol is taken. -/
  least : Nat
  deriving DecidableEq, Repr

namespace Code

/-- The greatest length of a word. -/
def maxLength : Nat := 15

/-- The number of words that are given away up to each length. -/
def filled (counts : List Nat) : Nat := counts.foldl (fun code c => 2 * code + c) 0

/-- The code with given lengths, in the order of the symbols; a length of zero is for a symbol
    without a word. All words have to be used, except that there may be only one, of length one, or
    none. -/
def ofLengths? (lengths : List Nat) : Option Code :=
  let longest := lengths.foldl max 0
  let counts := (List.range longest).map fun i => lengths.count (i + 1)
  let symbols := (List.range longest).flatMap fun i =>
    (lengths.zipIdx.filter fun (l, _) => l = i + 1).map Prod.snd
  let code : Code := ⟨counts, symbols.toArray, ((lengths.filter (0 < ·)).min?).getD 0⟩
  let words := filled counts
  if longest = 0 ∨ words = Number.twoTo longest ∨ (words = 1 ∧ longest = 1) then some code else none

/-- Takes a symbol, given the word so far, the first word of its length, and the number of words
    that are shorter. -/
def takeFrom (c : Code) : (word first shorter : Nat) → (counts : List Nat) → Step Nat
  | _, _, _, [] => corrupt
  | word, first, shorter, n :: counts => do
    let word := word + (← takeBits 1)
    if word < first + n then
      match c.symbols[shorter + (word - first)]? with
      | some s => pure s
      | none => corrupt
    else takeFrom c (2 * word) (2 * (first + n)) (shorter + n) counts

def take (c : Code) : Step Nat := do
  fill c.least 2
  c.takeFrom 0 0 0 c.counts

end Code

/-! ### Blocks -/

def endSymbol : Nat := 256

def fixedLengths : List Nat :=
  List.replicate 144 8 ++ List.replicate 112 9 ++ List.replicate 24 7 ++ List.replicate 8 8

def fixedCode : Code := (Code.ofLengths? fixedLengths).getD ⟨[], #[], 0⟩

def fixedDistances : Code := (Code.ofLengths? (List.replicate 32 5)).getD ⟨[], #[], 0⟩

/-- The length of a piece for a symbol after that of the end: the first one, and the bits to add. -/
def lengthOf (s : Nat) : Option (Nat × Nat) :=
  if s < 265 then some (s - 254, 0)
  else if s < 285 then
    let bits := (s - 261) / 4
    some (Number.twoTo bits * (4 + (s - 261) % 4) + 3, bits)
  else if s = 285 then some (258, 0)
  else none

/-- The distance of a piece for a symbol: the first one, and the bits to add. -/
def distanceOf (s : Nat) : Option (Nat × Nat) :=
  if s < 4 then some (s + 1, 0)
  else if s < 30 then
    let bits := (s - 2) / 2
    some (Number.twoTo bits * (2 + s % 2) + 1, bits)
  else none

/-- Takes what a table says for a symbol. -/
def takeExtended : Option (Nat × Nat) → Step Nat
  | some (first, bits) => do pure (first + (← takeBits bits))
  | none => corrupt

/-- Decodes symbols up to the end of a block. -/
def symbols (code distances : Code) : (fuel : Nat) → Step Unit
  | 0 => pure ()
  | fuel + 1 => do
    let s ← code.take
    if s < endSymbol then
      put (UInt8.ofNat s)
      symbols code distances fuel
    else if s = endSymbol then pure ()
    else
      let length ← takeExtended (lengthOf s)
      let distance ← takeExtended (distanceOf (← distances.take))
      if (← get).out.size < distance then corrupt
      repeatPiece distance length
      symbols code distances fuel

/-- Copies bytes as they are. -/
def copy : (length : Nat) → Step Unit
  | 0 => pure ()
  | length + 1 => do
    put (← nextByte)
    copy length

/-- Passes on what was decoded, if there is more to come. -/
def pause (isLast : Bool) : Step Unit :=
  if isLast then pure () else modify fun s => { s with pauses := s.out.size :: s.pauses }

/-- Copies a block that is not compressed. It starts at a byte. -/
def plainBlock (isLast : Bool) : Step Unit := do
  modify fun s => { s with bits := 0, count := 0 }
  let take2 : Step Nat := do
    let low ← nextByte
    pure (low.toNat + 256 * (← nextByte).toNat)
  let length ← take2
  let complement ← take2
  if length + complement ≠ 65535 then corrupt
  if length = 0 then pause isLast else copy length

/-- The order in which the lengths of the code of lengths are given. -/
def lengthOrder : List Nat := [16, 17, 18, 0, 8, 7, 9, 6, 10, 5, 11, 4, 12, 3, 13, 2, 14, 1, 15]

/-- Takes lengths until there are as many as asked for; those taken are in reverse. -/
def takeLengths (code : Code) (wanted : Nat) : (fuel : Nat) → (taken : List Nat) → Step (List Nat)
  | 0, taken => pure taken.reverse
  | fuel + 1, taken => do
    if wanted ≤ taken.length then pure taken.reverse
    else
      let s ← code.take
      let fillWith (value least bits : Nat) : Step (List Nat) := do
        let n := least + (← takeBits bits)
        if wanted < taken.length + n then corrupt
        takeLengths code wanted fuel (List.replicate n value ++ taken)
      if s < 16 then takeLengths code wanted fuel (s :: taken)
      else if s = 16 then
        match taken with
        | [] => corrupt
        | last :: _ => fillWith last 3 2
      else if s = 17 then fillWith 0 3 3
      else fillWith 0 11 7

/-- The code with given lengths, if they are right. -/
def codeOf (lengths : List Nat) : Step Code :=
  match Code.ofLengths? lengths with
  | some code => pure code
  | none => corrupt

/-- The code of literals with given lengths, if they are right. As the end of the block is still to
    come, as many bits as it takes are there. -/
def literalCodeOf (lengths : List Nat) : Step Code := do
  let code ← codeOf lengths
  pure { code with least := max code.least (lengths[endSymbol]?.getD 0) }

/-- Takes the codes that come with a block. -/
def takeCodes : Step (Code × Code) := do
  fill 14 2
  let literals := 257 + (← takeBits 5)
  if 286 < literals then corrupt
  let distances := 1 + (← takeBits 5)
  if 30 < distances then corrupt
  let count := 4 + (← takeBits 4)
  let given ← (lengthOrder.take count).mapM fun s => do pure (s, ← takeBits 3)
  let code ← codeOf ((List.range 19).map fun s => (given.lookup s).getD 0)
  let all ← takeLengths code (literals + distances) (literals + distances) []
  pure (← literalCodeOf (all.take literals), ← codeOf (all.drop literals))

/-- Decodes blocks up to the last one. -/
def blocks : (fuel : Nat) → Step Unit
  | 0 => pure ()
  | fuel + 1 => do
    fill 3 2
    let isLast := (← takeBits 1) = 1
    let limit := 8 * (← get).rest.length + 16
    match ← takeBits 2 with
    | 0 => plainBlock isLast
    | 1 => symbols fixedCode fixedDistances limit
    | 2 =>
      let (code, distances) ← takeCodes
      symbols code distances limit
    | _ => corrupt
    if isLast then pure () else blocks fuel

/-- What was decoded. -/
structure Decoded where
  content : Bytes
  /-- After how many bytes those before were passed on, apart from the ends of windows. -/
  pauses : List Nat
  /-- What is wrong if that is not all. -/
  fault : Option Fault
  deriving DecidableEq, Repr

def inflate (compressed : Bytes) : Decoded :=
  let (outcome, s) := blocks (8 * compressed.length + 8) { rest := compressed }
  ⟨s.out.toList, s.pauses.reverse,
    match outcome with
    | .ok () => none
    | .error e => some e⟩

def windowSize : Nat := 32768

/-- Cuts bytes, of which the first has an index, before those with certain indices. -/
def cutAt (index : Nat) : (indices : List Nat) → Bytes → List Bytes
  | [], bs => [bs]
  | i :: is, bs => bs.take (i - index) :: cutAt i is (bs.drop (i - index))

/-- The bytes as they are passed on; the last ones come with the end. -/
def Decoded.portions (d : Decoded) : List Bytes :=
  let size := d.content.length
  let windows := (List.range (size / windowSize)).map fun i => (i + 1) * windowSize
  cutAt 0 ((windows ++ d.pauses).mergeSort) d.content

end KernelReach.Inflate
