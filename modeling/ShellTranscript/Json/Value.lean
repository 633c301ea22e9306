import ShellTranscript.Text.Basic

-- JSON values and how they are written: without blanks, fields in their order, and a text with
-- escapes only for quotes, backslashes and control characters. Numbers are integers.
namespace ShellTranscript

inductive JsonValue where
  | null
  | bool (b : Bool)
  | number (n : Int)
  | text (t : Text)
  | array (items : List JsonValue)
  | object (fields : List (Text × JsonValue))

namespace JsonValue

def hexDigit (n : Nat) : Char := Nat.digitChar (n % 16)

-- A character as it is written between quotes.
def writeChar (c : Char) : Text :=
  match c with
  | '"' => ['\\', '"']
  | '\\' => ['\\', '\\']
  | '\x08' => ['\\', 'b']
  | '\x0c' => ['\\', 'f']
  | '\n' => ['\\', 'n']
  | '\r' => ['\\', 'r']
  | '\t' => ['\\', 't']
  | c =>
    if c.toNat < 0x20 then ['\\', 'u', '0', '0', hexDigit (c.toNat / 16), hexDigit c.toNat]
    else [c]

def writeText (t : Text) : Text := ['"'] ++ t.flatMap writeChar ++ ['"']

def writeNumber : Int → Text
  | .ofNat n => Nat.toDigits 10 n
  | .negSucc n => '-' :: Nat.toDigits 10 (n + 1)

mutual

def write : JsonValue → Text
  | null => "null".toList
  | bool true => "true".toList
  | bool false => "false".toList
  | number n => writeNumber n
  | text t => writeText t
  | array items => '[' :: writeItems items ++ [']']
  | object fields => '{' :: writeFields fields ++ ['}']

def writeItems : List JsonValue → Text
  | [] => []
  | [item] => item.write
  | item :: next :: rest => item.write ++ ',' :: writeItems (next :: rest)

def writeFields : List (Text × JsonValue) → Text
  | [] => []
  | [(name, value)] => writeText name ++ ':' :: value.write
  | (name, value) :: next :: rest =>
    writeText name ++ ':' :: value.write ++ ',' :: writeFields (next :: rest)

end

def ofOption {α : Type} (f : α → JsonValue) : Option α → JsonValue
  | none => null
  | some a => f a

def ofNat (n : Nat) : JsonValue := number n

end JsonValue

end ShellTranscript
