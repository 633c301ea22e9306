import ShellTranscript.Text.Basic

-- White space: the characters with the Unicode property White_Space, and texts without it at an end.
namespace ShellTranscript.Text

-- The twenty-five characters with the property White_Space.
def isBlank (c : Char) : Bool :=
  let n := c.toNat
  (0x09 ≤ n && n ≤ 0x0D) || n == 0x20 || n == 0x85 || n == 0xA0 || n == 0x1680 ||
    (0x2000 ≤ n && n ≤ 0x200A) || n == 0x2028 || n == 0x2029 || n == 0x202F || n == 0x205F ||
    n == 0x3000

-- A text without some of its first or last characters.
def dropStartWhile (p : Char → Bool) (t : Text) : Text := t.dropWhile p

def dropEndWhile (p : Char → Bool) (t : Text) : Text := (t.reverse.dropWhile p).reverse

def trimStart (t : Text) : Text := dropStartWhile isBlank t

def trimEnd (t : Text) : Text := dropEndWhile isBlank t

def trim (t : Text) : Text := trimEnd (trimStart t)

-- What a trim at the end takes away is one run of such characters.
theorem dropEndWhile_append_removed (p : Char → Bool) (t : Text) :
    dropEndWhile p t ++ (t.reverse.takeWhile p).reverse = t := by
  rw [dropEndWhile, ← List.reverse_append, List.takeWhile_append_dropWhile, List.reverse_reverse]

end ShellTranscript.Text
