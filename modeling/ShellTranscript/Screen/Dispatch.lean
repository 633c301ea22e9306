import ShellTranscript.Screen.Basic
import ShellTranscript.Screen.Control
import ShellTranscript.Screen.Rendition

-- What the items that a terminal reads do to its screen.
namespace ShellTranscript.Screen

def decimal (n : Nat) : Text := (toString n).toList

-- A reply in the form of a control sequence.
def replySequence (s : Screen) (body : Text) : Screen := s.reply (Char.ofNat 0x1B :: '[' :: body)

-- What the terminal says it is.
def identify (s : Screen) (intermediate : Option UInt8) : Screen :=
  match intermediate with
  | none => s.replySequence "?6c".toList
  | some 0x3E => s.replySequence ">0;2501;1c".toList
  | some _ => s

def reportStatus (s : Screen) : Nat → Screen
  | 5 => s.replySequence "0n".toList
  | 6 =>
    let cursor := s.grid.cursor
    s.replySequence (decimal (cursor.line + 1) ++ [';'] ++ decimal (cursor.column + 1) ++ ['R'])
  | _ => s

def reportSize (s : Screen) : Screen :=
  s.replySequence ("8;".toList ++ decimal s.lines ++ [';'] ++ decimal s.columns ++ ['t'])

def reportAnsiMode (s : Screen) (number : Nat) : Screen :=
  let state := Modes.stateNumber ((AnsiMode.ofNumber? number).map s.modes.ansiValue)
  s.replySequence (decimal number ++ [';'] ++ decimal state ++ "$y".toList)

def reportPrivateMode (s : Screen) (number : Nat) : Screen :=
  let state := Modes.stateNumber ((PrivateMode.ofNumber? number).bind s.modes.value?)
  s.replySequence (['?'] ++ decimal number ++ [';'] ++ decimal state ++ "$y".toList)

def assignAnsiMode (on : Bool) (s : Screen) (number : Nat) : Screen :=
  match AnsiMode.ofNumber? number with
  | some mode => { s with modes := s.modes.assignAnsi on mode }
  | none => s

-- Setting the origin mode goes home; changing the column width gives up the region and blanks the
-- screen.
def assignPrivateMode (on : Bool) (s : Screen) (number : Nat) : Screen :=
  match PrivateMode.ofNumber? number with
  | some .alternateScreen => s.setAlternate on
  | some .columnWidth => (s.setRegion 1 none).modifyGrid Grid.resetAll
  | some .origin =>
    let s := { s with modes := s.modes.assign on .origin }
    if on then s.moveTo 0 0 else s
  | some mode => { s with modes := s.modes.assign on mode }
  | none => s

def eraseScreenBy (s : Screen) : Nat → Screen
  | 0 => s.eraseScreen .below
  | 1 => s.eraseScreen .above
  | 2 => s.eraseScreen .whole
  | 3 => s.eraseScreen .history
  | _ => s

def eraseLineBy (s : Screen) : Nat → Screen
  | 0 => s.eraseLine .toEnd
  | 1 => s.eraseLine .toStart
  | 2 => s.eraseLine .whole
  | _ => s

-- The first number of a parameter, where a missing one and zero count as the default.
def numberOr (parameters : List (List Nat)) (index default : Nat) : Nat :=
  match parameters[index]? with
  | some (n :: _) => if n = 0 then default else n
  | _ => default

def firstNumbers (parameters : List (List Nat)) : List Nat :=
  parameters.map fun numbers => numbers.headD 0

def repeatLast (s : Screen) (count : Nat) : Screen :=
  match s.lastPrinted with
  | some c => (List.range count).foldl (fun s _ => s.print c) s
  | none => s

-- A cursor style blinks if its number is odd; only the known styles count.
def setCursorStyle (s : Screen) (number : Nat) : Screen :=
  if number ≤ 6 then { s with modes := s.modes.assign (number % 2 == 1) .blinkingCursor } else s

-- A control sequence without intermediate bytes.
def plainSequence (s : Screen) (parameters : List (List Nat)) (final : Char) : Screen :=
  let number := numberOr parameters 0
  let count := number 1
  let column := s.grid.cursor.column
  match final with
  | '@' => s.insertBlanks count
  | 'A' => s.moveUp count column
  | 'B' | 'e' => s.moveDown count column
  | 'C' | 'a' => s.moveForward count
  | 'D' => s.moveBackward count
  | 'E' => s.moveDown count 0
  | 'F' => s.moveUp count 0
  | 'G' => s.moveToColumn (count - 1)
  | 'H' | 'f' => s.moveTo (count - 1) (numberOr parameters 1 1 - 1)
  | 'I' => s.moveTabs nextTab count
  | 'J' => s.eraseScreenBy (number 0)
  | 'K' => s.eraseLineBy (number 0)
  | 'L' => s.insertLines count
  | 'M' => s.deleteLines count
  | 'P' => s.deleteCharacters count
  | 'S' => s.scrollUp count
  | 'T' => s.scrollDown count
  | 'X' => s.eraseCharacters count
  | 'Z' => s.moveTabs previousTab count
  | 'b' => s.repeatLast count
  | 'c' => if number 0 = 0 then s.identify none else s
  | 'd' => s.moveToLine (count - 1)
  | 'g' => if number 0 = 0 then s.clearTab else if number 0 = 3 then s.clearTabs else s
  | 'h' => (firstNumbers parameters).foldl (assignAnsiMode true) s
  | 'l' => (firstNumbers parameters).foldl (assignAnsiMode false) s
  | 'm' => s.modifyCursor fun c => { c with pen := c.pen.applyRendition parameters }
  | 'n' => s.reportStatus (number 0)
  | 'r' =>
    let bottom := numberOr parameters 1 0
    s.setRegion count (if bottom = 0 then none else some bottom)
  | 's' => s.saveCursor
  | 't' => if count = 18 then s.reportSize else s
  | 'u' => s.restoreCursor
  | c => if c.toNat = 0x60 then s.moveToColumn (count - 1) else s

-- Any control sequence. One that is not known does nothing.
def sequence (s : Screen) (parameters : List (List Nat)) (intermediates : List UInt8)
    (final : UInt8) : Screen :=
  let number := numberOr parameters 0 0
  let final := Char.ofNat final.toNat
  match intermediates with
  | [] => s.plainSequence parameters final
  | [0x3F] =>
    match final with
    | 'h' => (firstNumbers parameters).foldl (assignPrivateMode true) s
    | 'l' => (firstNumbers parameters).foldl (assignPrivateMode false) s
    | 'W' => if number = 5 then s.resetTabs else s
    | _ => s
  | [0x3F, 0x24] => if final = 'p' then s.reportPrivateMode number else s
  | [0x24] => if final = 'p' then s.reportAnsiMode number else s
  | [0x20] => if final = 'q' then s.setCursorStyle number else s
  | [0x3E] => if final = 'c' ∧ number = 0 then s.identify (some 0x3E) else s
  | _ => s

def charsetSlot? : UInt8 → Option CharsetSlot
  | 0x28 => some .g0
  | 0x29 => some .g1
  | 0x2A => some .g2
  | 0x2B => some .g3
  | _ => none

def designate (s : Screen) (intermediates : List UInt8) (charset : Charset) : Screen :=
  match intermediates with
  | [b] =>
    match charsetSlot? b with
    | some slot => s.modifyCursor fun c => { c with charsets := c.charsets.set slot charset }
    | none => s
  | _ => s

def escape (s : Screen) (intermediates : List UInt8) (final : UInt8) : Screen :=
  match Char.ofNat final.toNat, intermediates with
  | 'B', intermediates => s.designate intermediates .ascii
  | '0', intermediates => s.designate intermediates .lineDrawing
  | '8', [0x23] => s.fillWithLetters
  | 'D', [] => s.lineFeed
  | 'E', [] => s.lineFeed.carriageReturn
  | 'H', [] => s.setTab
  | 'M', [] => s.reverseLineFeed
  | 'Z', [] => s.identify none
  | 'c', [] => s.reset
  | '7', [] => s.saveCursor
  | '8', [] => s.restoreCursor
  | _, _ => s

def execute (s : Screen) : Nat → Screen
  | 0x08 => s.backspace
  | 0x09 => s.tab
  | 0x0A | 0x0B | 0x0C => s.lineFeed
  | 0x0D => s.carriageReturn
  | 0x0E => { s with slot := .g1 }
  | 0x0F => { s with slot := .g0 }
  | _ => s

def apply (s : Screen) : ControlItem → Screen
  | .print c => { s.print c with lastPrinted := some c }
  | .execute code => s.execute code
  | .escape intermediates final => s.escape intermediates final
  | .sequence parameters intermediates final => s.sequence parameters intermediates final

end ShellTranscript.Screen
