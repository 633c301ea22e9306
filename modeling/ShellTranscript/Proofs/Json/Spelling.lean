import Mathlib.Tactic.Common
import ShellTranscript.Stored.Look

-- JSON as anybody may write it. Blanks stand around every token, a character has several escapes, and
-- the members of an object come in any order, known and unknown ones. What is written here is one
-- spelling of many.
namespace ShellTranscript

open JsonReader Text

-- The texts that a value may be written as, without blanks around it.
abbrev Spelling := Text → Prop

namespace Spelling

def Blanks (w : Text) : Prop := ∀ c ∈ w, isJsonBlank c = true

-- What stands behind a backslash, and the character that is meant.
def shortEscapes : List (Char × Char) :=
  [('"', '"'), ('\\', '\\'), ('/', '/'), ('b', '\x08'), ('f', '\x0c'), ('n', '\n'), ('r', '\r'),
    ('t', '\t')]

def IsQuad (quad : Text) (n : Nat) : Prop :=
  quad.length = 4 ∧ Numeral.digits? Numeral.hexDigit? 16 quad = some n

-- A character between quotes. In a text that nobody keeps, half a pair of surrogates may stand alone.
inductive Symbol (keep : Bool) : Char → Text → Prop where
  | plain {c : Char} (hcontrol : 0x20 ≤ c.toNat) (hquote : c ≠ '"') (hslash : c ≠ '\\') :
      Symbol keep c [c]
  | short {letter c : Char} (h : (letter, c) ∈ shortEscapes) : Symbol keep c ['\\', letter]
  | code {quad : Text} {n : Nat} (hquad : IsQuad quad n)
      (hwhole : keep = true → isHighSurrogate n = false ∧ isLowSurrogate n = false) :
      Symbol keep (Char.ofNat n) ('\\' :: 'u' :: quad)
  | pair {quad quad' : Text} {high low : Nat} (hkeep : keep = true) (hquad : IsQuad quad high)
      (hquad' : IsQuad quad' low) (hhigh : isHighSurrogate high = true)
      (hlow : isLowSurrogate low = true) :
      Symbol keep (Char.ofNat (0x10000 + (high - 0xD800) * 0x400 + (low - 0xDC00)))
        ('\\' :: 'u' :: quad ++ '\\' :: 'u' :: quad')

inductive Symbols (keep : Bool) : Text → Text → Prop where
  | nil : Symbols keep [] []
  | cons {c : Char} {symbol t q : Text} (hsymbol : Symbol keep c symbol) (h : Symbols keep t q) :
      Symbols keep (c :: t) (symbol ++ q)

def IsDigits (t : Text) : Prop := t ≠ [] ∧ ∀ c ∈ t, isDigit c = true

def IsFraction (t : Text) : Prop := t = [] ∨ ∃ digits, IsDigits digits ∧ t = '.' :: digits

def IsExponent (t : Text) : Prop :=
  t = [] ∨ ∃ e sign digits, (e = 'e' ∨ e = 'E') ∧ (sign = [] ∨ sign = ['+'] ∨ sign = ['-']) ∧
    IsDigits digits ∧ t = e :: sign ++ digits

-- There is no needless zero in front.
inductive IsNumber : Text → Prop where
  | mk {sign whole fraction exponent : Text} (hsign : sign = [] ∨ sign = ['-'])
      (hwhole : IsDigits whole) (hzero : whole.head? = some '0' → whole = ['0'])
      (hfraction : IsFraction fraction) (hexponent : IsExponent exponent) :
      IsNumber (sign ++ (whole ++ (fraction ++ exponent)))

inductive JsonPart where
  | value
  | items
  | members

-- Items and members have no blanks before the first of them.
inductive IsJson : JsonPart → Text → Prop where
  | null : IsJson .value "null".toList
  | true : IsJson .value "true".toList
  | false : IsJson .value "false".toList
  | number {v : Text} (h : IsNumber v) : IsJson .value v
  | text {t q : Text} (h : Symbols Bool.false t q) : IsJson .value ('"' :: q ++ ['"'])
  | emptyArray {w : Text} (hw : Blanks w) : IsJson .value ('[' :: w ++ [']'])
  | array {w t : Text} (hw : Blanks w) (h : IsJson .items t) : IsJson .value ('[' :: w ++ t ++ [']'])
  | emptyObject {w : Text} (hw : Blanks w) : IsJson .value ('{' :: w ++ ['}'])
  | object {w t : Text} (hw : Blanks w) (h : IsJson .members t) :
      IsJson .value ('{' :: w ++ t ++ ['}'])
  | lastItem {v w : Text} (h : IsJson .value v) (hw : Blanks w) : IsJson .items (v ++ w)
  | item {v w w' t : Text} (h : IsJson .value v) (hw : Blanks w) (hw' : Blanks w')
      (hitems : IsJson .items t) : IsJson .items (v ++ w ++ ',' :: w' ++ t)
  | lastMember {name q w w' v w'' : Text} (hname : Symbols Bool.false name q) (hw : Blanks w)
      (hw' : Blanks w') (h : IsJson .value v) (hw'' : Blanks w'') :
      IsJson .members ('"' :: q ++ '"' :: w ++ ':' :: w' ++ v ++ w'')
  | member {name q w w' v w'' u t : Text} (hname : Symbols Bool.false name q) (hw : Blanks w)
      (hw' : Blanks w') (h : IsJson .value v) (hw'' : Blanks w'') (hu : Blanks u)
      (hmembers : IsJson .members t) :
      IsJson .members ('"' :: q ++ '"' :: w ++ ':' :: w' ++ v ++ w'' ++ ',' :: u ++ t)

def any : Spelling := IsJson .value

def null : Spelling := fun v => v = "null".toList

def bool (b : Bool) : Spelling := fun v => v = (JsonValue.bool b).write

-- An integer has one spelling only.
def number (n : Int) : Spelling := fun v => v = JsonValue.writeNumber n

def text (t : Text) : Spelling := fun v => ∃ q, Symbols true t q ∧ v = '"' :: q ++ ['"']

def option {α : Type} (f : α → Spelling) : Option α → Spelling
  | none => null
  | some a => f a

inductive Items : List Spelling → Text → Prop where
  | last {item : Spelling} {v w : Text} (h : item v) (hw : Blanks w) : Items [item] (v ++ w)
  | cons {item : Spelling} {items : List Spelling} {v w w' t : Text} (h : item v) (hw : Blanks w)
      (hw' : Blanks w') (hitems : Items items t) : Items (item :: items) (v ++ w ++ ',' :: w' ++ t)

def array (items : List Spelling) : Spelling := fun v =>
  ∃ w t, Blanks w ∧ (items = [] ∧ t = [] ∨ Items items t) ∧ v = '[' :: w ++ t ++ [']']

def Member (value : Spelling) (name m : Text) : Prop :=
  ∃ q w w' v w'', Symbols true name q ∧ Blanks w ∧ Blanks w' ∧ value v ∧ Blanks w'' ∧
    m = '"' :: q ++ '"' :: w ++ ':' :: w' ++ v ++ w''

inductive Members (value : Text → Spelling) : List Text → Text → Prop where
  | last {name m : Text} (h : Member (value name) name m) : Members value [name] m
  | cons {name m w t : Text} {names : List Text} (h : Member (value name) name m) (hw : Blanks w)
      (hmembers : Members value names t) : Members value (name :: names) (m ++ ',' :: w ++ t)

-- An object with members of these names in this order, each with a value that suits its name.
def object (value : Text → Spelling) (names : List Text) : Spelling := fun v =>
  ∃ w t, Blanks w ∧ (names = [] ∧ t = [] ∨ Members value names t) ∧ v = '{' :: w ++ t ++ ['}']

-- What is told of some names; a member of another name may have any value.
def told (known : List (String × Spelling)) (name : Text) : Spelling :=
  match known.find? fun entry => entry.1.toList == name with
  | some entry => entry.2
  | none => any

-- No known name comes twice, and unknown ones stand anywhere between.
def Once (known : List (String × Spelling)) (names : List Text) : Prop :=
  ∀ entry ∈ known, names.count entry.1.toList ≤ 1

-- The fields of a record in any order, and unknown ones.
def record (known : List (String × Spelling)) : Spelling := fun v =>
  ∃ names, Once known names ∧ (∀ entry ∈ known, entry.1.toList ∈ names) ∧
    object (told known) names v

-- A whole text, with blanks before and after the value.
def document (value : Spelling) : Spelling := fun t =>
  ∃ w v w', Blanks w ∧ value v ∧ Blanks w' ∧ t = w ++ v ++ w'

end Spelling

end ShellTranscript
