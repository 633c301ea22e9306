import ShellTranscript.Text.Basic

-- The character sets that a terminal can print through.
namespace ShellTranscript

inductive Charset where
  | ascii
  | lineDrawing
deriving DecidableEq, Repr

-- The drawing shown for the characters from underscore to tilde.
def Charset.drawings : List (Char × Nat) := [
  ('_', 0x20), (Char.ofNat 0x60, 0x25C6), ('a', 0x2592), ('b', 0x2409), ('c', 0x240C),
  ('d', 0x240D), ('e', 0x240A), ('f', 0xB0), ('g', 0xB1), ('h', 0x2424), ('i', 0x240B),
  ('j', 0x2518), ('k', 0x2510), ('l', 0x250C), ('m', 0x2514), ('n', 0x253C), ('o', 0x23BA),
  ('p', 0x23BB), ('q', 0x2500), ('r', 0x23BC), ('s', 0x23BD), ('t', 0x251C), ('u', 0x2524),
  ('v', 0x2534), ('w', 0x252C), ('x', 0x2502), ('y', 0x2264), ('z', 0x2265),
  (Char.ofNat 0x7B, 0x3C0), ('|', 0x2260), (Char.ofNat 0x7D, 0xA3), ('~', 0xB7)]

def Charset.map : Charset → Char → Char
  | .ascii, c => c
  | .lineDrawing, c => ((drawings.lookup c).map Char.ofNat).getD c

-- The four sets that a shift can choose from.
structure Charsets where
  g0 : Charset := .ascii
  g1 : Charset := .ascii
  g2 : Charset := .ascii
  g3 : Charset := .ascii
deriving DecidableEq, Repr

inductive CharsetSlot where
  | g0
  | g1
  | g2
  | g3
deriving DecidableEq, Repr

namespace Charsets

def get (sets : Charsets) : CharsetSlot → Charset
  | .g0 => sets.g0
  | .g1 => sets.g1
  | .g2 => sets.g2
  | .g3 => sets.g3

def set (sets : Charsets) (slot : CharsetSlot) (charset : Charset) : Charsets :=
  match slot with
  | .g0 => { sets with g0 := charset }
  | .g1 => { sets with g1 := charset }
  | .g2 => { sets with g2 := charset }
  | .g3 => { sets with g3 := charset }

end Charsets

end ShellTranscript
