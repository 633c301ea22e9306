import ShellTranscript.Text.Basic

-- Values stored by name. A key has a name and a kind, and a look-up finds the value under its name
-- only if it has the key's kind; there is at most one value under a name, whatever its kind.
namespace ShellTranscript

structure TypedStore (Kind : Type) (Value : Kind → Type) where
  entries : List (Text × Sigma Value) := []

namespace TypedStore

variable {Kind : Type} {Value : Kind → Type} [DecidableEq Kind]

-- The stored value if it is of the given kind.
def ofKind? (kind : Kind) (stored : Sigma Value) : Option (Value kind) :=
  if h : stored.1 = kind then some (h ▸ stored.2) else none

def find? (s : TypedStore Kind Value) (name : Text) : Option (Sigma Value) := s.entries.lookup name

def erase (s : TypedStore Kind Value) (name : Text) : TypedStore Kind Value :=
  { entries := s.entries.filter fun entry => entry.1 != name }

def get? (s : TypedStore Kind Value) (kind : Kind) (name : Text) : Option (Value kind) :=
  (s.find? name).bind (ofKind? kind)

-- Stores a value and gives back the one of its kind that it replaces.
def put (s : TypedStore Kind Value) (kind : Kind) (name : Text) (value : Value kind) :
    Option (Value kind) × TypedStore Kind Value :=
  (s.get? kind name, { entries := (name, ⟨kind, value⟩) :: (s.erase name).entries })

-- Whatever is stored under the name goes; it is given back if it is of the key's kind.
def remove (s : TypedStore Kind Value) (kind : Kind) (name : Text) :
    Option (Value kind) × TypedStore Kind Value :=
  (s.get? kind name, s.erase name)

-- Changes the value if there is one of the key's kind, and tells whether there was.
def modify (s : TypedStore Kind Value) (kind : Kind) (name : Text) (f : Value kind → Value kind) :
    Bool × TypedStore Kind Value :=
  match s.get? kind name with
  | none => (false, s)
  | some value => (true, (s.put kind name (f value)).2)

def names (s : TypedStore Kind Value) : List Text := s.entries.map Prod.fst

end TypedStore

end ShellTranscript
