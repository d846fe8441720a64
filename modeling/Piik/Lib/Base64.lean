/-
  Unpadded URL-safe base64, as the Go package `encoding/base64` has it under
  `RawURLEncoding`: line breaks in the input are skipped and the unused bits of
  the last group are not checked.
-/
import Mathlib

namespace Base64

/-- The URL-safe alphabet. -/
def alphabet : List Char :=
  "ABCDEFGHIJKLMNOPQRSTUVWXYZabcdefghijklmnopqrstuvwxyz0123456789-_".toList

/-- The character of a value below 64. -/
def digit (n : ℕ) : Char := alphabet.getD n 'A'

/-- The value of a character. -/
def value (c : Char) : Option ℕ := alphabet.idxOf? c

/-- Three bytes make four characters. -/
def encodeChars : List UInt8 → List Char
  | [] => []
  | [a] => [digit (a.toNat / 4), digit (a.toNat % 4 * 16)]
  | [a, b] => [digit (a.toNat / 4), digit (a.toNat % 4 * 16 + b.toNat / 16), digit (b.toNat % 16 * 4)]
  | a :: b :: c :: rest =>
    digit (a.toNat / 4) :: digit (a.toNat % 4 * 16 + b.toNat / 16) ::
      digit (b.toNat % 16 * 4 + c.toNat / 64) :: digit (c.toNat % 64) :: encodeChars rest

/-- The encoding without padding. -/
def encodeToString (bytes : List UInt8) : String := String.ofList (encodeChars bytes)

/-- The bytes of a list of values below 64; a single value left over is an error. -/
def decodeValues : List ℕ → Option (List UInt8)
  | [] => some []
  | [_] => none
  | [a, b] => some [.ofNat (a * 4 + b / 16)]
  | [a, b, c] => some [.ofNat (a * 4 + b / 16), .ofNat (b % 16 * 16 + c / 4)]
  | a :: b :: c :: d :: rest => (decodeValues rest).map fun bytes =>
    .ofNat (a * 4 + b / 16) :: .ofNat (b % 16 * 16 + c / 4) :: .ofNat (c % 4 * 64 + d) :: bytes

/-- The bytes that a text stands for, line breaks aside. -/
def decodeString (text : String) : Option (List UInt8) := do
  let values ← (text.toList.filter fun c => c ≠ '\n' && c ≠ '\r').mapM value
  decodeValues values

end Base64
