import KernelReach.Binary.Reader
import KernelReach.Text.Affix

/-!
# Object stores

A store keeps objects in buckets, each object under a key. It is asked by requests, which it may
refuse by their kind, and it remembers what it was asked. A request with a name that no bucket can
have, or with a key that is too long, is not made.
-/

namespace KernelReach

open Binary (Bytes)

/-- An object of a bucket. -/
structure StoredObject where
  bucket : String
  key : String
  contentType : String
  content : Bytes
  deriving DecidableEq, Repr

/-- A kind of request. -/
inductive ObjectVerb
  | head
  | put
  | get
  deriving DecidableEq, Repr

def ObjectVerb.name : ObjectVerb → String
  | head => "HEAD"
  | put => "PUT"
  | get => "GET"

/-- An object store. -/
structure ObjectStore where
  buckets : List String := []
  objects : List StoredObject := []
  /-- The kinds of requests that are refused. -/
  refused : List ObjectVerb := []
  /-- The requests that were made, the last one first. -/
  requests : List String := []
  deriving Repr

namespace ObjectStore

/-- Why a request fails or is not made. -/
inductive Fault
  | accessDenied
  | noBucket
  | emptyBucketName
  | shortBucketName
  | longBucketName
  | numericBucketName
  | badBucketName
  | longKey
  deriving DecidableEq, Repr

def Fault.message : Fault → String
  | accessDenied => "Access Denied."
  | noBucket => "The specified bucket does not exist"
  | emptyBucketName => "Bucket name cannot be empty"
  | shortBucketName => "Bucket name cannot be shorter than 3 characters"
  | longBucketName => "Bucket name cannot be longer than 63 characters"
  | numericBucketName => "Bucket name cannot be an ip address"
  | badBucketName => "Bucket name contains invalid characters"
  | longKey => "Object name cannot be longer than 1024 characters"

/-! ### Names -/

/-- Whether a name is four numbers between points. -/
def isNumericName (name : String) : Bool :=
  let parts := name.toList.splitOn '.'
  parts.length == 4 && parts.all fun p => !p.isEmpty && p.all Char.isDigit

/-- Whether a character may stand at the ends of a bucket's name. New buckets have no capitals. -/
def isNameEdge (new : Bool) (c : Char) : Bool := c.isDigit || c.isLower || (!new && c.isUpper)

/-- Whether a character may stand in a bucket's name. -/
def isNameChar (new : Bool) (c : Char) : Bool :=
  isNameEdge new c || c == '.' || c == '-' || (!new && (c == '_' || c == ':'))

/-- Checks the name of a bucket, or of a new one, for which fewer characters are allowed. -/
def checkBucketName (new : Bool) (name : String) : Except Fault Unit :=
  let cs := name.toList
  let isEdge (c : Option Char) : Bool := c.any (isNameEdge new)
  if cs.isEmpty then .error .emptyBucketName
  else if name.utf8ByteSize < 3 then .error .shortBucketName
  else if 63 < name.utf8ByteSize then .error .longBucketName
  else if isNumericName name then .error .numericBucketName
  else if ["..", ".-", "-."].any (Text.contains · name) then .error .badBucketName
  else if cs.length < 3 || !isEdge cs.head? || !isEdge cs.getLast? || !cs.all (isNameChar new) then
    .error .badBucketName
  else .ok ()

/-- The longest key, in bytes. -/
def maxKeyLength : Nat := 1024

def checkKey (key : String) : Except Fault Unit :=
  if maxKeyLength < key.utf8ByteSize then .error .longKey else .ok ()

/-! ### Requests -/

/-- Makes a request for a target, and does `step` unless the request is refused. -/
def ask {α : Type} (s : ObjectStore) (verb : ObjectVerb) (target : String)
    (step : ObjectStore → Except Fault α × ObjectStore) : Except Fault α × ObjectStore :=
  let s := { s with requests := (verb.name ++ " " ++ target) :: s.requests }
  if s.refused.contains verb then (.error .accessDenied, s) else step s

/-- Makes a request that was checked before. -/
def checked {α : Type} (s : ObjectStore) (check : Except Fault Unit)
    (request : ObjectStore → Except Fault α × ObjectStore) : Except Fault α × ObjectStore :=
  match check with
  | .error e => (.error e, s)
  | .ok () => request s

def hasBucket (s : ObjectStore) (bucket : String) : Except Fault Bool × ObjectStore :=
  s.checked (checkBucketName false bucket) fun s =>
    s.ask .head bucket fun s => (.ok (s.buckets.contains bucket), s)

def makeBucket (s : ObjectStore) (bucket : String) : Except Fault Unit × ObjectStore :=
  s.checked (checkBucketName true bucket) fun s =>
    s.ask .put bucket fun s => (.ok (), { s with buckets := s.buckets ++ [bucket] })

/-- Stores an object in place of the one with its key. -/
def store (s : ObjectStore) (o : StoredObject) : Except Fault Unit × ObjectStore :=
  s.checked (checkKey o.key) fun s =>
    s.ask .put (o.bucket ++ " " ++ o.key) fun s =>
      if s.buckets.contains o.bucket then
        let others := s.objects.filter fun p => p.bucket ≠ o.bucket ∨ p.key ≠ o.key
        (.ok (), { s with objects := others ++ [o] })
      else (.error .noBucket, s)

/-- The keys in a bucket that start with a text, in order. -/
def keys (s : ObjectStore) (bucket start : String) : Except Fault (List String) × ObjectStore :=
  s.checked (checkKey start) fun s =>
    s.ask .get bucket fun s =>
      if s.buckets.contains bucket then
        let found := s.objects.filter fun o => o.bucket = bucket && Text.startsWith start o.key
        (.ok ((found.map StoredObject.key).mergeSort fun a b => a ≤ b), s)
      else (.error .noBucket, s)

end ObjectStore

end KernelReach
