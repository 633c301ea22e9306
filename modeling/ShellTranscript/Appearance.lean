import ShellTranscript.Text.Basic

-- The look of a run of text: colours before any palette is applied, the other attributes, and ranges
-- of a text that share one look.
namespace ShellTranscript

inductive Hue where
  | black
  | red
  | green
  | yellow
  | blue
  | magenta
  | cyan
  | white
deriving DecidableEq, Repr

namespace Hue

def all : List Hue := [.black, .red, .green, .yellow, .blue, .magenta, .cyan, .white]

def name : Hue → String
  | .black => "Black"
  | .red => "Red"
  | .green => "Green"
  | .yellow => "Yellow"
  | .blue => "Blue"
  | .magenta => "Magenta"
  | .cyan => "Cyan"
  | .white => "White"

def ofName? (s : String) : Option Hue := all.find? fun hue => hue.name == s

theorem ofName?_name (hue : Hue) : ofName? hue.name = some hue := by
  cases hue <;> rfl

end Hue

inductive TextColor where
  | default
  | plain (hue : Hue)
  | bright (hue : Hue)
  | indexed (index : UInt8)
  | rgb (red green blue : UInt8)
deriving DecidableEq, Repr

structure Appearance where
  fg : TextColor := .default
  bg : TextColor := .default
  bold : Bool := false
  italic : Bool := false
  underline : Bool := false
  inverse : Bool := false
  dim : Bool := false
  strikeout : Bool := false
deriving DecidableEq, Repr

def Appearance.isDefault (s : Appearance) : Bool := s == {}

-- The bytes `[start, stop)` of some text, in one style.
structure StyledSpan where
  start : Nat
  stop : Nat
  style : Appearance
deriving DecidableEq, Repr

namespace StyledSpan

-- Continues the last range, which stands first in the list, when the new piece touches it and has
-- its style; the default style makes no range.
def push (ranges : List StyledSpan) (start stop : Nat) (style : Appearance) : List StyledSpan :=
  if style.isDefault then ranges
  else
    match ranges with
    | last :: rest =>
      if last.stop = start ∧ last.style = style then
        { last with stop := stop } :: rest
      else
        ⟨start, stop, style⟩ :: last :: rest
    | [] => [⟨start, stop, style⟩]

-- The ranges of a text made of pieces, each in one style, in ascending order.
def ofPieces (pieces : List (Text × Appearance)) : List StyledSpan :=
  let step := fun (state : Nat × List StyledSpan) (piece : Text × Appearance) =>
    let stop := state.1 + Text.byteLength piece.1
    (stop, push state.2 state.1 stop piece.2)
  (pieces.foldl step (0, [])).2.reverse

end StyledSpan

end ShellTranscript
