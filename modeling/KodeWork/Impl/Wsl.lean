import KodeWork.Framework.Utf8
import KodeWork.Framework.Utf16
import KodeWork.Impl.Text

/-!
# The distributions of WSL

`decode_wsl_distributions` of `kodework-local-pty/src/lib.rs`, which reads the output of
`wsl.exe --list`.
-/

namespace KW.Wsl

/-- `iter().skip(1).step_by(2).all(|byte| *byte == 0)` -/
def oddZero : List UInt8 → Bool
  | _ :: b :: bytes => b == 0 && oddZero bytes
  | _ => true

/-- The text of the bytes, in the encoding that they look like. -/
def decodeText (bytes : List UInt8) : Text :=
  if 2 ≤ bytes.length && oddZero bytes then Utf16.lossy (Utf16.ofLeBytes bytes) else Utf8.lossy bytes

def cleanLine (line : Text) : Text :=
  let line := Text.trimMatches line (· == Char.ofNat 0)
  let line := Text.trimMatches line Text.isWhitespace
  Text.trimMatches (line.dropWhile (· == '*')) Text.isWhitespace

def distributionsOf (text : Text) : List Text :=
  ((Text.lines text).map cleanLine).filter fun line => !line.isEmpty

def decodeWslDistributions (input : List UInt8) : List Text :=
  let bytes := if [0xFF, 0xFE].isPrefixOf input then input.drop 2 else input
  distributionsOf (decodeText bytes)

end KW.Wsl
