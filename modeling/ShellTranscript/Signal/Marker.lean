import ShellTranscript.Text.Blank
import ShellTranscript.Text.Numeral
import ShellTranscript.Text.Utf8

-- Shell markers: what the payload of an operating system command tells about the shell. A payload is
-- a number, a semicolon and fields; `7` tells the working directory, `133` and `633` tell where the
-- prompt, the input and the output of a command start and end.
namespace ShellTranscript.Signal

open Text

inductive Marker where
  | workingDirectory (path : Text)
  | promptStart
  | commandStart
  | commandExecuted
  | commandFinished (exitCode : Option Int)
  | commandLine (line : Text)
deriving DecidableEq, Repr

namespace Marker

-- A backslash written twice stands for one; a backslash, an x and two hexadecimal digits stand for
-- the character of that number. An x with anything else after it stays as written, and so does a
-- backslash before another character.
def unescape : Text → Text
  | '\\' :: '\\' :: t => '\\' :: unescape t
  | '\\' :: 'x' :: a :: b :: t =>
    match Numeral.hexByte? [a, b] with
    | some n => Char.ofNat n.toNat :: unescape t
    | none => '\\' :: 'x' :: a :: b :: unescape t
  | ['\\', 'x', a] =>
    match Numeral.hexByte? [a] with
    | some n => [Char.ofNat n.toNat]
    | none => ['\\', 'x', a]
  | c :: t => c :: unescape t
  | [] => []

-- A percent sign and two hexadecimal digits stand for the byte of that number.
def percentDecode : List UInt8 → List UInt8
  | a :: b :: c :: bytes =>
    if a = 0x25 then
      match Numeral.hexByte? [Char.ofNat b.toNat, Char.ofNat c.toNat] with
      | some n => n :: percentDecode bytes
      | none => a :: percentDecode (b :: c :: bytes)
    else
      a :: percentDecode (b :: c :: bytes)
  | bytes => bytes

-- The path of a file address: what follows the host. A text that is no file address is the path.
def filePath (address : Text) : Text :=
  let address := trim address
  match dropBeginning? "file://".toList address with
  | none => address
  | some rest =>
    let fromSlash := rest.dropWhile (· != '/')
    let path := if fromSlash.isEmpty then rest else fromSlash
    Utf8.decodeLossy (percentDecode (Utf8.encode path))

def ofFields : List Text → Option Marker
  | ['A'] :: _ => some .promptStart
  | ['B'] :: _ => some .commandStart
  | ['C'] :: _ => some .commandExecuted
  | ['D'] :: rest => some (.commandFinished (rest.head?.bind fun code => Numeral.exitCode? (trim code)))
  | ['E'] :: rest => some (.commandLine (unescape (rest.head?.getD [])))
  | _ => none

-- The marker a payload denotes, if it is one; null characters at its ends do not count.
def ofPayload? (payload : Text) : Option Marker :=
  let payload := dropEndWhile (· == Char.ofNat 0) (dropStartWhile (· == Char.ofNat 0) payload)
  match dropBeginning? "7;".toList payload with
  | some address => some (.workingDirectory (filePath address))
  | none =>
    (dropBeginning? "133;".toList payload <|> dropBeginning? "633;".toList payload).bind fun rest =>
      ofFields (fields ';' rest)

def ofBytes? (payload : List UInt8) : Option Marker := ofPayload? (Utf8.decodeLossy payload)

end Marker

end ShellTranscript.Signal
