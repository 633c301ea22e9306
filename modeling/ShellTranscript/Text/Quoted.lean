import ShellTranscript.Text.Blank
import ShellTranscript.Text.Width

-- Texts in double quotes, for logs. What would not be seen, or would end the quotation, is escaped.
namespace ShellTranscript.Text

-- A character that shows nothing of its own: a control or format character, a combining mark, a blank
-- other than the space, or one for private use. Vowels of Hangul take no cell but can be seen.
def isInvisible (c : Char) : Bool :=
  let n := c.toNat
  isControl c || (isBlank c && c != ' ') || (0xE000 ≤ n && n ≤ 0xF8FF) || 0xF0000 ≤ n ||
    (cellWidth? c == some 0 && !(0x1160 ≤ n && n ≤ 0x11FF))

-- A code point in hexadecimal, without leading zeros.
def codePoint (c : Char) : Text := ['\\', 'u', '{'] ++ Nat.toDigits 16 c.toNat ++ ['}']

def quoteChar (c : Char) : Text :=
  match c with
  | '"' => ['\\', '"']
  | '\\' => ['\\', '\\']
  | '\t' => ['\\', 't']
  | '\n' => ['\\', 'n']
  | '\r' => ['\\', 'r']
  | '\x00' => ['\\', '0']
  | c => if isInvisible c then codePoint c else [c]

def quoted (t : Text) : Text := ['"'] ++ t.flatMap quoteChar ++ ['"']

end ShellTranscript.Text
