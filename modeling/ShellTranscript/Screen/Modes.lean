-- The modes of a terminal, by the numbers they are set, reset and asked for with.
namespace ShellTranscript

inductive PrivateMode where
  | cursorKeys
  | columnWidth
  | origin
  | lineWrap
  | blinkingCursor
  | showCursor
  | reportClicks
  | reportDrags
  | reportMotion
  | reportFocus
  | utf8Mouse
  | sgrMouse
  | alternateScroll
  | urgencyHints
  | alternateScreen
  | bracketedPaste
  | heldUpdate
deriving DecidableEq, Repr

def PrivateMode.ofNumber? : Nat → Option PrivateMode
  | 1 => some .cursorKeys
  | 3 => some .columnWidth
  | 6 => some .origin
  | 7 => some .lineWrap
  | 12 => some .blinkingCursor
  | 25 => some .showCursor
  | 1000 => some .reportClicks
  | 1002 => some .reportDrags
  | 1003 => some .reportMotion
  | 1004 => some .reportFocus
  | 1005 => some .utf8Mouse
  | 1006 => some .sgrMouse
  | 1007 => some .alternateScroll
  | 1042 => some .urgencyHints
  | 1049 => some .alternateScreen
  | 2004 => some .bracketedPaste
  | 2026 => some .heldUpdate
  | _ => none

inductive AnsiMode where
  | insert
  | newLine
deriving DecidableEq, Repr

def AnsiMode.ofNumber? : Nat → Option AnsiMode
  | 4 => some .insert
  | 20 => some .newLine
  | _ => none

-- The modes that are on.
structure Modes where
  insert : Bool := false
  newLine : Bool := false
  cursorKeys : Bool := false
  origin : Bool := false
  lineWrap : Bool := true
  blinkingCursor : Bool := false
  showCursor : Bool := true
  reportClicks : Bool := false
  reportDrags : Bool := false
  reportMotion : Bool := false
  reportFocus : Bool := false
  utf8Mouse : Bool := false
  sgrMouse : Bool := false
  alternateScroll : Bool := true
  urgencyHints : Bool := true
  alternateScreen : Bool := false
  bracketedPaste : Bool := false
deriving DecidableEq, Repr

namespace Modes

-- Sets or resets the mode itself. Of the mouse reports at most one is on, and of the mouse
-- encodings too.
def assign (m : Modes) (on : Bool) : PrivateMode → Modes
  | .cursorKeys => { m with cursorKeys := on }
  | .columnWidth => m
  | .origin => { m with origin := on }
  | .lineWrap => { m with lineWrap := on }
  | .blinkingCursor => { m with blinkingCursor := on }
  | .showCursor => { m with showCursor := on }
  | .reportClicks =>
    if on then { m with reportClicks := true, reportDrags := false, reportMotion := false }
    else { m with reportClicks := false }
  | .reportDrags =>
    if on then { m with reportClicks := false, reportDrags := true, reportMotion := false }
    else { m with reportDrags := false }
  | .reportMotion =>
    if on then { m with reportClicks := false, reportDrags := false, reportMotion := true }
    else { m with reportMotion := false }
  | .reportFocus => { m with reportFocus := on }
  | .utf8Mouse =>
    if on then { m with utf8Mouse := true, sgrMouse := false } else { m with utf8Mouse := false }
  | .sgrMouse =>
    if on then { m with sgrMouse := true, utf8Mouse := false } else { m with sgrMouse := false }
  | .alternateScroll => { m with alternateScroll := on }
  | .urgencyHints => { m with urgencyHints := on }
  | .alternateScreen => { m with alternateScreen := on }
  | .bracketedPaste => { m with bracketedPaste := on }
  | .heldUpdate => m

def assignAnsi (m : Modes) (on : Bool) : AnsiMode → Modes
  | .insert => { m with insert := on }
  | .newLine => { m with newLine := on }

-- Whether a mode is on, if it can be asked for.
def value? (m : Modes) : PrivateMode → Option Bool
  | .cursorKeys => some m.cursorKeys
  | .columnWidth => none
  | .origin => some m.origin
  | .lineWrap => some m.lineWrap
  | .blinkingCursor => some m.blinkingCursor
  | .showCursor => some m.showCursor
  | .reportClicks => some m.reportClicks
  | .reportDrags => some m.reportDrags
  | .reportMotion => some m.reportMotion
  | .reportFocus => some m.reportFocus
  | .utf8Mouse => some m.utf8Mouse
  | .sgrMouse => some m.sgrMouse
  | .alternateScroll => some m.alternateScroll
  | .urgencyHints => some m.urgencyHints
  | .alternateScreen => some m.alternateScreen
  | .bracketedPaste => some m.bracketedPaste
  | .heldUpdate => some false

def ansiValue (m : Modes) : AnsiMode → Bool
  | .insert => m.insert
  | .newLine => m.newLine

-- The number that tells a mode's state in a report: set, reset, or not known.
def stateNumber : Option Bool → Nat
  | some true => 1
  | some false => 2
  | none => 0

end Modes

end ShellTranscript
