import ShellTranscript.Json.Scan

-- Passing over a JSON value that nobody asked for. It must be well formed, but a number that stops
-- too early is malformed here, and a text may hold half a pair of surrogates.
namespace ShellTranscript.JsonReader

def skipNumber : JsonReader Unit := fun t => do
  let (_, t) ← scanNumber .malformed t
  .ok ((), t)

def skipText : JsonReader Unit := do
  let _ ← quotedText false

mutual

-- The fuel bounds the values and the items still to come.
def skipValueFor : Nat → JsonReader Unit
  | 0 => throw .truncated
  | fuel + 1 => do
    let c ← peek
    if c = 'n' then literal "null".toList
    else if c = 't' then literal "true".toList
    else if c = 'f' then literal "false".toList
    else if c = '"' then skipText
    else if c = '-' ∨ isDigit c = true then skipNumber
    else if c = '[' then
      skipChar
      if (← peek) = ']' then skipChar else skipItemsFor fuel
    else if c = '\x7b' then
      skipChar
      if (← peek) = '\x7d' then skipChar else skipFieldsFor fuel
    else throw .malformed

-- One or more items and the closing bracket.
def skipItemsFor : Nat → JsonReader Unit
  | 0 => throw .truncated
  | fuel + 1 => do
    skipValueFor fuel
    let c ← peek
    if c = ',' then
      skipChar
      skipItemsFor fuel
    else if c = ']' then skipChar
    else throw .malformed

-- One or more fields and the closing brace.
def skipFieldsFor : Nat → JsonReader Unit
  | 0 => throw .truncated
  | fuel + 1 => do
    if (← peek) = '"' then skipText else throw .malformed
    expect ':'
    skipValueFor fuel
    let c ← peek
    if c = ',' then
      skipChar
      skipFieldsFor fuel
    else if c = '\x7d' then skipChar
    else throw .malformed

end

-- A value and its list of items take two units of fuel for at least one character.
def skipValue : JsonReader Unit := do
  skipValueFor (2 * (← get).length + 2)

end ShellTranscript.JsonReader
