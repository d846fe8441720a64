/-
  The authority of an `http` URL as the WHATWG URL parser reads it, for texts
  without a percent sign that hold none of the characters an authority ends at.
  What the domain-to-ASCII step does beyond plain ASCII domains is a parameter.
-/
import Piik.Lib.Text

namespace Piik.Whatwg

open Text

/-! ## Code points -/

/-- The forbidden host code points of the standard. -/
def forbiddenHostCodePoints : List Char :=
  ['\x00', '\t', '\n', '\x0d', ' ', '#', '/', ':', '<', '>', '?', '@', '[', '\\', ']', '^', '|']

/-- A forbidden domain code point of the standard. -/
def isForbiddenDomainCodePoint (c : Char) : Bool :=
  c ∈ forbiddenHostCodePoints || c.toNat ≤ 0x1f || c = '%' || c = '\x7f'

/-- ASCII letters in lower case. -/
def asciiLowercase (s : List Char) : List Char := s.map Char.toLower

/-- Percent-encode an ASCII code point. -/
def percentEncode (c : Char) : List Char := ['%', Nat.digitChar (c.toNat / 16), Nat.digitChar (c.toNat % 16)]

/-- The characters that are percent-encoded in a user name. -/
def userinfoPercentEncodeSet (c : Char) : Bool :=
  !(c.isAlphanum || c ∈ ['-', '_', '.', '~', '!', '$', '&', '\'', '(', ')', '*', '+', ',', '%'])

/-! ## IPv4 -/

/-- The parts between the dots, without an empty last one after a dot. -/
def labels (s : List Char) : List (List Char) :=
  let parts := s.splitOn '.'
  if parts.length > 1 && parts.getLast? = some [] then parts.dropLast else parts

/-- The IPv4 number parser. -/
def parseIPv4Number (input : List Char) : Option ℕ :=
  let (radix, digits) := radixPrefix input
  if input.isEmpty then none
  else if digits.all fun c => radixDigit c < radix then some (number radix digits) else none

/-- The ends-in-a-number checker. -/
def endsInNumber (s : List Char) : Bool :=
  let last := (labels s).getLastD []
  (!last.isEmpty && last.all Char.isDigit) || (parseIPv4Number last).isSome

/-- The IPv4 parser's answer, or failure. -/
def parseIPv4 (s : List Char) : Option ℕ :=
  if (labels s).length > 4 then none
  else match (labels s).mapM parseIPv4Number with
    | none => none
    | some numbers =>
      let last := numbers.getLastD 0
      if numbers.dropLast.any fun n => n > 255 then none
      else if last ≥ 256 ^ (5 - numbers.length) then none
      else some (numbers.dropLast.zipIdx.foldl (fun ipv4 p => ipv4 + p.1 * 256 ^ (3 - p.2)) last)

/-! ## IPv6 -/

/-- A decimal piece up to 255 without a leading zero, and what follows it. -/
def ipv4Piece (piece : Option ℕ) : List Char → Option (List Char)
  | [] => some []
  | c :: rest =>
    if c.isDigit then
      match piece with
      | none => ipv4Piece (some (radixDigit c)) rest
      | some 0 => none
      | some value =>
        if value * 10 + radixDigit c > 255 then none
        else ipv4Piece (some (value * 10 + radixDigit c)) rest
    else some (c :: rest)

/-- A piece that begins with a digit. -/
def ipv4Number (s : List Char) : Option (List Char) :=
  if s.head?.any Char.isDigit then ipv4Piece none s else none

/-- The numbers still to be seen, each after a dot. -/
def ipv4Rest : ℕ → List Char → Bool
  | left, [] => left = 0
  | 0, _ :: _ => false
  | left + 1, c :: rest => c = '.' && (ipv4Number rest).any (ipv4Rest left)

/-- Four numbers at the end of an IPv6 address. -/
def embeddedIPv4 (s : List Char) : Bool := (ipv4Number s).any (ipv4Rest 3)

/-- The loop over the pieces, of which `left` are left before the piece index is eight. -/
def ipv6Pieces (compress : Bool) : ℕ → List Char → Bool
  | left, [] => compress || left = 0
  | 0, _ :: _ => false
  | left + 1, c :: rest =>
    if c = ':' then if compress then false else ipv6Pieces true left rest
    else
      let digits := ((c :: rest).takeWhile isHexDigit).take 4
      match (c :: rest).drop digits.length with
      | [] => ipv6Pieces compress left []
      | '.' :: _ =>
        if digits.isEmpty then false
        else if left + 1 < 2 then false
        else embeddedIPv4 (c :: rest) && (compress || left + 1 = 2)
      | ':' :: rest => if rest.isEmpty then false else ipv6Pieces compress left rest
      | _ => false

/-- Whether the IPv6 parser succeeds. -/
def parseIPv6 : List Char → Bool
  | ':' :: ':' :: rest => ipv6Pieces true 7 rest
  | ':' :: _ => false
  | s => ipv6Pieces false 8 s

/-! ## Hosts -/

/-- A host as the standard's parser returns it. -/
inductive Host
  | domain (name : List Char)
  | ipv4 (address : ℕ)
  | ipv6
  deriving DecidableEq

/-- The serialization of an address is never empty. -/
def Host.isEmpty : Host → Bool
  | .domain name => name.isEmpty
  | _ => false

/-- Some label begins with `xn--`, in any case; no dot stands in the prefix. -/
def hasPunycodeLabel (labelStart : Bool) : List Char → Bool
  | [] => false
  | c :: rest => labelStart && "xn--".toList.isPrefixOf (asciiLowercase (c :: rest)) ||
      hasPunycodeLabel (c = '.') rest

/-- On an ASCII domain without `xn--` labels, the step is ASCII lowercasing. -/
def domainToASCII (uts46 : List Char → Option (List Char)) (domain : List Char) : Option (List Char) :=
  if domain.all (fun c => c.toNat < 0x80) && !hasPunycodeLabel true domain then
    some (asciiLowercase domain)
  else uts46 domain

/-- The host parser for a special scheme. -/
def parseHost (uts46 : List Char → Option (List Char)) (input : List Char) : Option Host :=
  if input.head? = some '[' then
    if input.getLast? ≠ some ']' then none
    else if parseIPv6 ((input.drop 1).dropLast) then some .ipv6 else none
  else do
    let asciiDomain ← domainToASCII uts46 input
    if asciiDomain.isEmpty then none
    if asciiDomain.any isForbiddenDomainCodePoint then none
    if endsInNumber asciiDomain then (parseIPv4 asciiDomain).map .ipv4
    else some (.domain asciiDomain)

/-! ## The authority -/

/-- The parts of a URL that are asked for. -/
structure Url where
  username : List Char
  password : List Char
  host : Host
  port : Option ℕ

/-- The authority state's reading of the buffer before an at sign. -/
def addCredentials (username password : List Char) (passwordTokenSeen : Bool) :
    List Char → List Char × List Char × Bool
  | [] => (username, password, passwordTokenSeen)
  | c :: rest =>
    if c = ':' && !passwordTokenSeen then addCredentials username password true rest
    else
      let encoded := if userinfoPercentEncodeSet c then percentEncode c else [c]
      if passwordTokenSeen then addCredentials username (password ++ encoded) true rest
      else addCredentials (username ++ encoded) password false rest

/-- The authority state: the credentials, and the buffer that the host state reads again. -/
def authorityState (atSignSeen passwordTokenSeen : Bool) (username password buffer : List Char) :
    List Char → Option (List Char × List Char × List Char)
  | [] => if atSignSeen && buffer.isEmpty then none else some (username, password, buffer)
  | c :: rest =>
    if c = '@' then
      let buffer := if atSignSeen then "%40".toList ++ buffer else buffer
      let (username, password, passwordTokenSeen) :=
        addCredentials username password passwordTokenSeen buffer
      authorityState true passwordTokenSeen username password [] rest
    else authorityState atSignSeen passwordTokenSeen username password (buffer ++ [c]) rest

/-- The host state: the text of the host and, after a colon outside brackets, the rest. -/
def hostState (insideBrackets : Bool) (buffer : List Char) :
    List Char → Option (List Char × List Char)
  | [] => if buffer.isEmpty then none else some (buffer, [])
  | c :: rest =>
    if c = ':' && !insideBrackets then if buffer.isEmpty then none else some (buffer, rest)
    else hostState (if c = '[' then true else if c = ']' then false else insideBrackets)
      (buffer ++ [c]) rest

/-- The port state; the default port of `http` is null. -/
def portState (buffer : List Char) : List Char → Option (Option ℕ)
  | [] =>
    if buffer.isEmpty then some none
    else if number 10 buffer > 65535 then none
    else some (if number 10 buffer = 80 then none else some (number 10 buffer))
  | c :: rest => if c.isDigit then portState (buffer ++ [c]) rest else none

/-- The URL of `http://` and an authority. -/
def parse (uts46 : List Char → Option (List Char)) (authority : List Char) : Option Url := do
  let (username, password, hostAndPort) ← authorityState false false [] [] [] authority
  let (hostText, portText) ← hostState false [] hostAndPort
  let host ← parseHost uts46 hostText
  let port ← portState [] portText
  some { username, password, host, port }

end Piik.Whatwg
