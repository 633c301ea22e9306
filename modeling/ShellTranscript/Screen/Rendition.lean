import ShellTranscript.Screen.Cell

-- Graphic rendition: the parameters of a control sequence that change the pen. A parameter is a
-- number with the numbers that colons attach to it.
namespace ShellTranscript.Pen

def byte? (n : Nat) : Option UInt8 := if n < 256 then some (UInt8.ofNat n) else none

-- A colour in numbers, and the numbers left after it. A number that cannot be part of the colour is
-- used up.
def readColor : List Nat → Option CellColor × List Nat
  | 2 :: numbers =>
    match numbers with
    | [] => (none, [])
    | r :: numbers =>
      match byte? r, numbers with
      | none, numbers => (none, numbers)
      | some _, [] => (none, [])
      | some r, g :: numbers =>
        match byte? g, numbers with
        | none, numbers => (none, numbers)
        | some _, [] => (none, [])
        | some g, b :: numbers => ((byte? b).map fun b => .rgb r g b, numbers)
  | 5 :: n :: numbers => ((byte? n).map .indexed, numbers)
  | _ :: numbers => (none, numbers)
  | [] => (none, [])

-- A colour attached with colons, where a colour space may stand before the components.
def attachedColor : List Nat → Option CellColor
  | [] => none
  | kind :: numbers =>
    let components := if numbers.length > 3 then numbers.drop 1 else numbers
    (readColor (kind :: components)).1

-- The hue that a number stands for, counted from the number of black.
def hueFrom (base n : Nat) : Option Hue := if base ≤ n then Hue.all[n - base]? else none

def plainColor? (base n : Nat) : Option CellColor :=
  (hueFrom base n).map fun hue => .named (.plain hue)

def brightColor? (base n : Nat) : Option CellColor :=
  (hueFrom base n).map fun hue => .named (.bright hue)

-- What a number without attached ones does.
def applyPlain (p : Pen) (n : Nat) : Pen :=
  match n with
  | 0 => {}
  | 1 => { p with bold := true }
  | 2 => { p with dim := true }
  | 3 => { p with italic := true }
  | 4 => { p with underline := true }
  | 7 => { p with inverse := true }
  | 9 => { p with strikeout := true }
  | 21 => { p with bold := false }
  | 22 => { p with bold := false, dim := false }
  | 23 => { p with italic := false }
  | 24 => { p with underline := false }
  | 27 => { p with inverse := false }
  | 29 => { p with strikeout := false }
  | 39 => { p with fg := .named .foreground }
  | 49 => { p with bg := .named .background }
  | n =>
    match plainColor? 30 n <|> brightColor? 90 n, plainColor? 40 n <|> brightColor? 100 n with
    | some fg, _ => { p with fg }
    | none, some bg => { p with bg }
    | none, none => p

def withFg (p : Pen) (color : Option CellColor) : Pen := { p with fg := color.getD p.fg }

def withBg (p : Pen) (color : Option CellColor) : Pen := { p with bg := color.getD p.bg }

-- Applies parameters from left to right. A colour's components may follow as parameters of their
-- own, of which only the first number counts; the colour of underlines is read and not kept.
def applyRendition (p : Pen) : List (List Nat) → Pen
  | [] => p
  | [] :: rest => applyRendition p rest
  | [n] :: rest =>
    if n = 38 ∨ n = 48 ∨ n = 58 then
      let (color, left) := readColor (rest.map fun numbers => numbers.headD 0)
      let p := if n = 38 then p.withFg color else if n = 48 then p.withBg color else p
      applyRendition p (rest.drop (rest.length - left.length))
    else
      applyRendition (p.applyPlain n) rest
  | (n :: attached) :: rest =>
    let p :=
      if n = 4 then { p with underline := attached != [0] }
      else if n = 38 then p.withFg (attachedColor attached)
      else if n = 48 then p.withBg (attachedColor attached)
      else p
    applyRendition p rest
termination_by parameters => parameters.length
decreasing_by all_goals (simp only [List.length_cons, List.length_drop]; omega)

end ShellTranscript.Pen
