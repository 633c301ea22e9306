import ShellTranscript.Terminal

-- A snapshot of what a terminal shows: its text and styles, the epoch, and whether the alternate
-- screen was in use.
namespace ShellTranscript

structure Snapshot where
  text : Text := []
  ranges : List StyledSpan := []
  epoch : Nat := 0
  alternate : Bool := false
deriving DecidableEq, Repr

def Terminal.snapshot (t : Terminal) : Snapshot :=
  let (text, ranges) := t.screen.render
  { text, ranges, epoch := t.epoch, alternate := t.isAlternate }

end ShellTranscript
