/-
  SHA-256 over lists of bytes (FIPS 180-4), words as naturals below `2 ^ 32`.
-/
import Mathlib

namespace Sha256

/-- Words are reduced to 32 bits. -/
def wordSize : ℕ := 2 ^ 32

/-- Addition of words. -/
def add (x y : ℕ) : ℕ := (x + y) % wordSize

/-- Rotation to the right. -/
def rotr (n x : ℕ) : ℕ := (x >>> n ||| x <<< (32 - n)) % wordSize

/-- All bits inverted. -/
def complement (x : ℕ) : ℕ := wordSize - 1 - x

/-- The choice function. -/
def ch (x y z : ℕ) : ℕ := (x &&& y) ^^^ (complement x &&& z)

/-- The majority function. -/
def maj (x y z : ℕ) : ℕ := (x &&& y) ^^^ (x &&& z) ^^^ (y &&& z)

/-- The first function on the state. -/
def bigSigma0 (x : ℕ) : ℕ := rotr 2 x ^^^ rotr 13 x ^^^ rotr 22 x
/-- The second function on the state. -/
def bigSigma1 (x : ℕ) : ℕ := rotr 6 x ^^^ rotr 11 x ^^^ rotr 25 x
/-- The first function of the schedule. -/
def smallSigma0 (x : ℕ) : ℕ := rotr 7 x ^^^ rotr 18 x ^^^ (x >>> 3)
/-- The second function of the schedule. -/
def smallSigma1 (x : ℕ) : ℕ := rotr 17 x ^^^ rotr 19 x ^^^ (x >>> 10)

/-- The round constants. -/
def k : List ℕ := [
  0x428a2f98, 0x71374491, 0xb5c0fbcf, 0xe9b5dba5, 0x3956c25b, 0x59f111f1, 0x923f82a4, 0xab1c5ed5,
  0xd807aa98, 0x12835b01, 0x243185be, 0x550c7dc3, 0x72be5d74, 0x80deb1fe, 0x9bdc06a7, 0xc19bf174,
  0xe49b69c1, 0xefbe4786, 0x0fc19dc6, 0x240ca1cc, 0x2de92c6f, 0x4a7484aa, 0x5cb0a9dc, 0x76f988da,
  0x983e5152, 0xa831c66d, 0xb00327c8, 0xbf597fc7, 0xc6e00bf3, 0xd5a79147, 0x06ca6351, 0x14292967,
  0x27b70a85, 0x2e1b2138, 0x4d2c6dfc, 0x53380d13, 0x650a7354, 0x766a0abb, 0x81c2c92e, 0x92722c85,
  0xa2bfe8a1, 0xa81a664b, 0xc24b8b70, 0xc76c51a3, 0xd192e819, 0xd6990624, 0xf40e3585, 0x106aa070,
  0x19a4c116, 0x1e376c08, 0x2748774c, 0x34b0bcb5, 0x391c0cb3, 0x4ed8aa4a, 0x5b9cca4f, 0x682e6ff3,
  0x748f82ee, 0x78a5636f, 0x84c87814, 0x8cc70208, 0x90befffa, 0xa4506ceb, 0xbef9a3f7, 0xc67178f2]

/-- The initial hash value. -/
def h0 : List ℕ :=
  [0x6a09e667, 0xbb67ae85, 0x3c6ef372, 0xa54ff53a, 0x510e527f, 0x9b05688c, 0x1f83d9ab, 0x5be0cd19]

/-- `bytes` and the bytes of a big-endian word. -/
def ofBytes (bytes : List ℕ) : ℕ := bytes.foldl (fun acc b => acc * 256 + b) 0

/-- A number as so many bytes, the high ones first. -/
def toBytes (n word : ℕ) : List ℕ := (List.range n).reverse.map fun i => word >>> (8 * i) % 256

/-- The message with its padding and its length in bits. -/
def pad (message : List ℕ) : List ℕ :=
  let zeros := (119 - message.length % 64) % 64
  message ++ 0x80 :: List.replicate zeros 0 ++ toBytes 8 (8 * message.length)

/-- A list in pieces of one length. -/
def chunks {α : Type} (n : ℕ) : ℕ → List α → List (List α)
  | 0, _ => []
  | fuel + 1, l => if l.isEmpty then [] else l.take n :: chunks n fuel (l.drop n)

/-- Extend the schedule by one word. -/
def extend (w : List ℕ) : List ℕ :=
  let at' (i : ℕ) := w.getD (w.length - i) 0
  w ++ [add (add (smallSigma1 (at' 2)) (at' 7)) (add (smallSigma0 (at' 15)) (at' 16))]

/-- The 64 words of a block. -/
def schedule (block : List ℕ) : List ℕ :=
  (List.range 48).foldl (fun w _ => extend w) ((chunks 4 16 block).map ofBytes)

/-- One round on the eight words of the state. -/
def round (s : List ℕ) (kw : ℕ × ℕ) : List ℕ :=
  match s with
  | [a, b, c, d, e, f, g, h] =>
    let t1 := add (add h (bigSigma1 e)) (add (ch e f g) (add kw.1 kw.2))
    let t2 := add (bigSigma0 a) (maj a b c)
    [add t1 t2, a, b, c, add d t1, e, f, g]
  | s => s

/-- All rounds of a block. -/
def compress (hash block : List ℕ) : List ℕ :=
  List.zipWith add hash ((k.zip (schedule block)).foldl round hash)

/-- The 32 bytes of the digest. -/
def sum256 (message : List ℕ) : List ℕ :=
  let padded := pad message
  ((chunks 64 padded.length padded).foldl compress h0).flatMap (toBytes 4)

end Sha256
