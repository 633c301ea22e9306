import ShellTranscript.Text.Basic
import ShellTranscript.Text.WidthTable

-- How many cells of a terminal a character takes.
namespace ShellTranscript.Text

-- The control characters of general category Cc.
def isControl (c : Char) : Bool := c.toNat < 0x20 || (0x7F ≤ c.toNat && c.toNat < 0xA0)

def inRanges (ranges : List (Nat × Nat)) (n : Nat) : Bool :=
  ranges.any fun range => range.1 ≤ n && n ≤ range.2

-- The number of cells a character takes; a control character has no width. Of the first characters only
-- the soft hyphen takes no cell, and none takes two.
def cellWidth? (c : Char) : Option Nat :=
  let n := c.toNat
  if isControl c then none
  else if n < 0x300 then some (if n == 0xAD then 0 else 1)
  else if inRanges combiningRanges n then some 0
  else if inRanges wideRanges n then some 2
  else some 1

-- Printable ASCII characters take one cell each.
theorem cellWidth?_of_ascii {c : Char} (low : 0x20 ≤ c.toNat) (high : c.toNat < 0x7F) :
    cellWidth? c = some 1 := by
  have hc : isControl c = false := by simp [isControl]; omega
  have hn : (c.toNat == 0xAD) = false := by simp; omega
  simp [cellWidth?, hc, hn, show c.toNat < 0x300 by omega]

end ShellTranscript.Text
