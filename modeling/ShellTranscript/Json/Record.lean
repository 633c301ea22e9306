import ShellTranscript.Json.Skip

-- Reading JSON as values of given types. A record is an object or the array of its fields in order; a
-- choice is a name, or an object with the name as its one field and a payload as the value.
namespace ShellTranscript

-- Whether a field may be left out.
inductive FieldNeed where
  | required
  | fromObject
  | always
deriving DecidableEq, Repr

namespace FieldNeed

def optionalInObject : FieldNeed → Bool
  | required => false
  | fromObject => true
  | always => true

def optionalInArray : FieldNeed → Bool
  | required => false
  | fromObject => false
  | always => true

end FieldNeed

-- A field of a record: its reader tells what the value read does to the record.
structure JsonField (α : Type) where
  name : Text
  need : FieldNeed := .required
  read : JsonReader (α → α)

-- A choice by its name: it is complete by itself, or has a payload.
inductive JsonChoice (α : Type) where
  | plain (value : α)
  | payload (read : JsonReader α)

namespace JsonReader

variable {α β : Type}

-- A value of another kind than the one asked for. It is looked at as far as its kind can be told.
def wrongKind : JsonReader α := do
  let c ← peek
  if c = 'n' then literal "null".toList
  else if c = 't' then literal "true".toList
  else if c = 'f' then literal "false".toList
  else if c = '"' then let _ ← quotedText true
  else if c = '-' ∨ isDigit c = true then let _ ← number
  else if c = '[' ∨ c = '\x7b' then pure ()
  else throw .malformed
  throw .unexpected

def null : JsonReader Unit := do
  if (← peek) = 'n' then literal "null".toList else wrongKind

def bool : JsonReader Bool := do
  let c ← peek
  if c = 't' then
    literal "true".toList
    pure true
  else if c = 'f' then
    literal "false".toList
    pure false
  else wrongKind

def text : JsonReader Text := do
  if (← peek) = '"' then quotedText true else wrongKind

-- An integer of a given range.
def integer (low high : Int) : JsonReader Int := do
  let c ← peek
  if c = '-' ∨ isDigit c = true then
    match ← number with
    | some n => if low ≤ n ∧ n ≤ high then pure n else throw .unexpected
    | none => throw .unexpected
  else wrongKind

-- A natural number below `2 ^ bits`.
def natural (bits : Nat) : JsonReader Nat := do
  let n ← integer 0 ((Nat.pow 2 bits - 1 : Nat) : Int)
  pure n.toNat

def optional (read : JsonReader α) : JsonReader (Option α) := do
  if (← peek) = 'n' then
    literal "null".toList
    pure none
  else
    some <$> read

-- A text that stands for a value.
def parsed (parse : Text → Option α) : JsonReader α := do
  match parse (← text) with
  | some a => pure a
  | none => throw .unexpected

-- The end of an array all of whose items have been read.
def closeArray : JsonReader Unit := expect ']'

-- Goes on to the next item, unless the array ends here.
def nextItem (isFirst : Bool) : JsonReader Bool := do
  let c ← peek
  if c = ']' then pure false
  else if isFirst then pure true
  else if c = ',' then
    skipChar
    if (← peek) = ']' then throw .malformed else pure true
  else throw .malformed

-- The items up to the closing bracket. The fuel bounds their number.
def itemsFor (read : JsonReader α) : Nat → Bool → JsonReader (List α)
  | 0, _ => throw .truncated
  | fuel + 1, isFirst => do
    if ← nextItem isFirst then
      let item ← read
      let rest ← itemsFor read fuel false
      pure (item :: rest)
    else
      closeArray
      pure []

def list (read : JsonReader α) : JsonReader (List α) := do
  if (← peek) = '[' then
    skipChar
    itemsFor read ((← get).length + 1) true
  else wrongKind

-- An array with one item for each field, in order. Fields at the end may be left out if all of them
-- are optional there.
def fieldsInOrder : List (JsonField α) → Bool → α → JsonReader α
  | [], _, value => do
    closeArray
    pure value
  | field :: rest, isFirst, value => do
    if ← nextItem isFirst then
      let change ← field.read
      fieldsInOrder rest false (change value)
    else if field.need.optionalInArray then fieldsInOrder rest isFirst value
    else throw .unexpected

def tuple (start : α) (fields : List (JsonField α)) : JsonReader α := do
  if (← peek) = '[' then
    skipChar
    fieldsInOrder fields true start
  else wrongKind

-- Goes on to the next name, unless the object ends here.
def nextName (isFirst : Bool) : JsonReader (Option Text) := do
  let c ← peek
  if c = '\x7d' then pure none
  else
    if isFirst then
      if c = '"' then pure () else throw .malformed
    else if c = ',' then
      skipChar
      if (← peek) = '"' then pure () else throw .malformed
    else throw .malformed
    some <$> quotedText true

-- The fields up to the closing brace, in any order. No field comes twice, and unknown ones are passed
-- over. The fuel bounds their number.
def fieldsByNameFor (fields : List (JsonField α)) :
    Nat → List Text → α → JsonReader α
  | 0, _, _ => throw .truncated
  | fuel + 1, seen, value => do
    match ← nextName seen.isEmpty with
    | none =>
      if fields.all fun f => f.need.optionalInObject || seen.contains f.name then
        expect '\x7d'
        pure value
      else throw .unexpected
    | some name =>
      match fields.find? fun f => f.name == name with
      | none =>
        expect ':'
        skipValue
        fieldsByNameFor fields fuel (name :: seen) value
      | some field =>
        if seen.contains name then throw .unexpected
        else
          expect ':'
          let change ← field.read
          fieldsByNameFor fields fuel (name :: seen) (change value)

-- A record, made from a start by the fields that are there.
def record (start : α) (fields : List (JsonField α)) : JsonReader α := do
  let c ← peek
  if c = '[' then
    skipChar
    fieldsInOrder fields true start
  else if c = '\x7b' then
    skipChar
    fieldsByNameFor fields ((← get).length + 1) [] start
  else wrongKind

-- A choice written as an object has a payload, or null where it needs none.
def payload : JsonChoice α → JsonReader α
  | .plain value => do
    null
    pure value
  | .payload read => read

def choiceNamed (choices : Text → Option (JsonChoice α)) : JsonReader (JsonChoice α) :=
  parsed choices

def choice (choices : Text → Option (JsonChoice α)) : JsonReader α := do
  let c ← peek
  if c = '"' then
    match ← choiceNamed choices with
    | .plain value => pure value
    | .payload _ => throw .unexpected
  else if c = '\x7b' then
    skipChar
    let chosen ← choiceNamed choices
    expect ':'
    let value ← payload chosen
    expect '\x7d'
    pure value
  else throw .malformed

-- A whole text that holds one value and nothing else.
def readAll (read : JsonReader α) (t : Text) : Except JsonFault α := do
  let (value, t) ← read.run t
  if (t.dropWhile isJsonBlank).isEmpty then .ok value else .error .malformed

end JsonReader

end ShellTranscript
