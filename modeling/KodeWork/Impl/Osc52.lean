import KodeWork.Framework.Base64
import KodeWork.Framework.Utf16
import KodeWork.Framework.Utf8

/-!
# Clipboard writes of the terminal

`decodeOsc52` of `src/terminal/osc52.ts`. A string is its UTF-16 code units; the string that `atob`
returns is the bytes its characters stand for.
-/

namespace KW.Osc52

abbrev JsString := List UInt16

/-- A string literal. -/
def js (s : String) : JsString := Utf16.encode s.toList

def maxClipboardBytes : Nat := 4 * 1024 * 1024

/-- `Math.ceil(MAX_CLIPBOARD_BYTES / 3) * 4` -/
def maxBase64Length : Nat := (maxClipboardBytes + 2) / 3 * 4

inductive Osc52InvalidReason
  | osc52MissingSelection
  | osc52InvalidSelection
  | osc52TooLarge
  | osc52InvalidEncoding
  | osc52InvalidUtf8
deriving DecidableEq, Repr

inductive Osc52Result
  | write (text : JsString)
  | query
  | invalid (reason : Osc52InvalidReason)
deriving DecidableEq, Repr

def separator : UInt16 := 59
def questionMark : UInt16 := 63

/-- `[cps0-7]` -/
def isSelection (u : UInt16) : Bool :=
  let n := u.toNat
  n == 99 || n == 112 || n == 115 || (48 ≤ n && n ≤ 55)

/-- `^[A-Za-z0-9+/]*={0,2}$` -/
def isBase64 (payload : JsString) : Bool :=
  let rest := payload.dropWhile fun u => (Base64.valueOf u).isSome
  rest.length ≤ 2 && rest.all (· == Base64.equals)

def byteOrderMark : Char := Char.ofNat 0xFEFF

/-- `new TextDecoder('utf-8', { fatal: true }).decode(bytes)`: a byte order mark in front is not
part of the text. -/
def textDecoder (bytes : List UInt8) : Option (List Char) :=
  (Utf8.decode bytes).map fun
    | c :: t => if c = byteOrderMark then t else c :: t
    | [] => []

def decodePayload (payload : JsString) : Osc52Result :=
  if payload = [questionMark] then .query
  else if payload.length = 0 then .write []
  else if maxBase64Length < payload.length then .invalid .osc52TooLarge
  else if !isBase64 payload || payload.length % 4 == 1 then .invalid .osc52InvalidEncoding
  else match Base64.decode payload with
    | none => .invalid .osc52InvalidUtf8
    | some binary =>
      if maxClipboardBytes < binary.length then .invalid .osc52TooLarge
      else match textDecoder binary with
        | none => .invalid .osc52InvalidUtf8
        | some text => .write (Utf16.encode text)

def decodeOsc52 (data : JsString) : Osc52Result :=
  match data.idxOf? separator with
  | none => .invalid .osc52MissingSelection
  | some i =>
    if !(data.take i).all isSelection then .invalid .osc52InvalidSelection
    else decodePayload (data.drop (i + 1))

end KW.Osc52
