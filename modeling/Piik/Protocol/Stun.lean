/-
  STUN URLs: `ValidStunURL` (`protocol/scalars.go`) on top of `net/url`, and
  `isValidStunUrl` (`shared/protocol.ts`) on top of the WHATWG URL parser.
-/
import Piik.Protocol.Address

namespace Piik.Protocol

open Text

/-! ## `protocol/scalars.go` -/

/-- The whitespace of a browser's regular expression. -/
def isJSWhitespace (c : Char) : Bool :=
  c ∈ ['\t', '\n', '\x0b', '\x0c', '\x0d', ' ', '\u00a0', '\u1680', '\u2028', '\u2029', '\u202f',
    '\u205f', '\u3000', '\ufeff'] || (0x2000 ≤ c.toNat && c.toNat ≤ 0x200a)

/-- An ASCII letter in lower case. -/
def asciiLower (c : Char) : Char :=
  if 'A' ≤ c ∧ c ≤ 'Z' then Char.ofNat (c.toNat + 'a'.toNat - 'A'.toNat) else c

/-- Equal up to the case of ASCII letters. -/
def asciiEqualFold (left right : List Char) : Bool := left.map asciiLower = right.map asciiLower

/-- The WHATWG forbidden domain code points. -/
def forbiddenDomainCodePoints : List Char := " #/:<>?@[\\]^|%".toList

/-- The parts between the dots, without an empty last one after a dot. -/
def hostParts (host : List Char) : List (List Char) :=
  let parts := host.splitOn '.'
  if parts.length > 1 && parts.getLast? = some [] then parts.dropLast else parts

/-- `strconv.ParseUint` with 64 bits, on digits of the radix. -/
def parseUint (radix : ℕ) (digits : List Char) : Option ℕ :=
  if number radix digits < 2 ^ 64 then some (number radix digits) else none

/-- One part of an IPv4 address, in its radix. -/
def parseIPv4Number (input : List Char) : Option ℕ :=
  let (radix, digits) := radixPrefix input
  if input.isEmpty then none
  else if digits.isEmpty then some 0
  else if digits.any fun c => radixDigit c ≥ radix then none
  else parseUint radix digits

/-- The last part of the host is a number. -/
def hostEndsInNumber (host : List Char) : Bool :=
  let last := (hostParts host).getLastD []
  (!last.isEmpty && last.all Char.isDigit) || (parseIPv4Number last).isSome

/-- At most four parts, the last of which fills the rest of the address. -/
def validIPv4Host (host : List Char) : Bool :=
  if (hostParts host).length > 4 then false
  else match (hostParts host).mapM parseIPv4Number with
    | none => false
    | some numbers =>
      if numbers.dropLast.any fun number => number > 255 then false
      else numbers.getLastD 0 < 256 ^ (5 - numbers.length)

/-- The host as a browser would take it. -/
def validWHATWGHost (rawHost hostname : List Char) : Bool :=
  if rawHost.head? = some '[' then
    -- `net/url` lets IPv6 zone identifiers through.
    hostname.contains ':' && !hostname.contains '%'
  else if hostname.any fun c => c.toNat ≤ 0x1f || c.toNat = 0x7f || c ∈ forbiddenDomainCodePoints then
    false
  else if hostEndsInNumber hostname then validIPv4Host hostname
  else true

/-- `strconv.Atoi` on a run of digits. -/
def atoi (digits : List Char) : Option ℕ :=
  if number 10 digits < 2 ^ 63 then some (number 10 digits) else none

/-- The authority text has no character that frames a path, a query or a fragment. -/
def validAuthority (authority : List Char) : Bool :=
  match NetUrl.parseAuthority authority with
  | none => false
  | some (user, host) =>
    if user.any fun user => !user.1.isEmpty then false
    else if user.any fun user => !user.2.isEmpty then false
    else
      let (hostname, port) := NetUrl.splitHostPort host
      if hostname.isEmpty || !validWHATWGHost host hostname then false
      else port.isEmpty || (atoi port).any fun number => 0 < number && number ≤ 65535

/-- The scheme, a valid host and a port in range, and nothing else. -/
def validStunURL (value : String) : Bool :=
  match cut ':' value.toList with
  | none => false
  | some (scheme, authority) =>
    if scheme.isEmpty || !asciiEqualFold scheme "stun".toList then false
    else if authority.isEmpty || authority.getLast? = some ':' then false
    else if authority.any fun c => c = '\\' || c = '/' || c = '?' || c = '#' || isJSWhitespace c then
      false
    else validAuthority authority

/-! ## `shared/protocol.ts` -/

variable (uts46 : List Char → Option (List Char))

/-- What is asked of the URL of an authority. -/
def isValidAuthority (authority : List Char) : Bool :=
  (Whatwg.parse uts46 authority).any fun url =>
    !url.host.isEmpty && url.username.isEmpty && url.password.isEmpty && url.port.all (0 < ·)

/-- No character beyond ASCII has a lower case that `stun` is spelled with. -/
def isValidStunUrl (value : String) : Bool :=
  match cut ':' value.toList with
  | none => false
  | some (scheme, authorityText) =>
    if scheme.isEmpty || scheme.map Char.toLower ≠ "stun".toList then false
    else if authorityText.isEmpty ||
        authorityText.any (fun c => c = '\\' || c = '/' || c = '?' || c = '#' || isJSWhitespace c) ||
        authorityText.getLast? = some ':' then false
    else isValidAuthority uts46 authorityText

end Piik.Protocol
