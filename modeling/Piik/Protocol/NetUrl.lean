/-
  The authority of a URL as Go's `net/url` reads it, for texts without a percent
  sign, and the addresses `net/netip` accepts between brackets.
-/
import Piik.Lib.Text

namespace Piik.NetUrl

open Text

/-! ## Escapes -/

/-- The characters a host may hold as they are. -/
def hostCharacters : List Char :=
  ['-', '_', '.', '~', '!', '$', '&', '\'', '(', ')', '*', '+', ',', ';', '=', ':', '[', ']', '<', '>', '"']

/-- An ASCII character of a host that should have been escaped. -/
def shouldEscape (c : Char) : Bool :=
  c.toNat < 0x80 && !(c.isAlphanum || c ∈ hostCharacters)

/-- A host without characters that would have to be escaped. -/
def unescapeHost (s : List Char) : Option (List Char) := if s.any shouldEscape then none else some s

/-- The characters beside letters and digits. -/
def userinfoCharacters : List Char :=
  ['-', '.', '_', ':', '~', '!', '$', '&', '\'', '(', ')', '*', '+', ',', ';', '=', '%', '@']

/-- Every character may stand in a user name or password. -/
def validUserinfo (s : List Char) : Bool := s.all fun c => c.isAlphanum || c ∈ userinfoCharacters

/-! ## Addresses -/

/-- Four decimal fields: `pos` of them are behind, the current one has `digLen` digits. -/
def parseIPv4Fields (pos val digLen : ℕ) : List Char → Bool
  | [] => !(pos < 3)
  | c :: rest =>
    if c.isDigit then
      if digLen = 1 && val = 0 then false
      else if val * 10 + radixDigit c > 255 then false
      else parseIPv4Fields pos (val * 10 + radixDigit c) (digLen + 1) rest
    else if c = '.' then
      -- The field before the dot has no digit, or nothing follows it.
      if digLen = 0 || rest.isEmpty then false
      else if pos = 3 then false
      else parseIPv4Fields (pos + 1) 0 0 rest
    else false

/-- The whole text is used, and the ellipsis stands for at least one of the fields left. -/
def filled (ellipsis : Bool) (left : ℕ) : Bool := if 0 < left then ellipsis else !ellipsis

/-- The loop over the fields, of which `left` are left to fill. -/
def parseIPv6Fields (ellipsis : Bool) : ℕ → List Char → Bool
  | 0, s => s.isEmpty && filled ellipsis 0
  | left + 1, s =>
    let digits := s.takeWhile isHexDigit
    if digits.length > 4 || digits.isEmpty then false
    else match s.dropWhile isHexDigit with
      | [] => filled ellipsis left
      | '.' :: _ =>
        -- An embedded IPv4 address replaces the final two fields.
        if !ellipsis && left + 1 ≠ 2 then false
        else if left + 1 < 2 then false
        else parseIPv4Fields 0 0 0 s && filled ellipsis (left + 1 - 2)
      | [':'] => false
      | ':' :: ':' :: rest =>
        if ellipsis then false
        else if rest.isEmpty then filled true left
        else parseIPv6Fields true left rest
      | ':' :: rest => parseIPv6Fields ellipsis left rest
      | _ => false

/-- An IPv6 address, with at most one `::`. -/
def parseIPv6 : List Char → Bool
  | [':', ':'] => true
  | ':' :: ':' :: rest => parseIPv6Fields true 8 rest
  | s => parseIPv6Fields false 8 s

/-- `netip.ParseAddr`, when the address is no IPv4 address: the first separator decides. -/
def isIPv6 (s : List Char) : Bool :=
  match s.find? fun c => c = '.' || c = ':' || c = '%' with
  | some ':' => parseIPv6 s
  | _ => false

/-! ## The authority -/

/-- Nothing, or a colon and digits. -/
def validOptionalPort : List Char → Bool
  | [] => true
  | c :: port => c = ':' && port.all Char.isDigit

/-- The host with its port: in brackets, or unescaped. -/
def parseHost (host : List Char) : Option (List Char) :=
  match cutLast '[' host with
  | some (before, literal) =>
    match cutLast ']' literal with
    | none => none
    | some (hostname, colonPort) =>
      if !before.isEmpty || !validOptionalPort colonPort then none
      else match unescapeHost colonPort, unescapeHost hostname with
        | some colonPort, some hostname =>
          if isIPv6 hostname then some ('[' :: hostname ++ ']' :: colonPort) else none
        | _, _ => none
  | none =>
    if (cut ':' host).all fun p => validOptionalPort (':' :: p.2) then unescapeHost host else none

/-- A username and a password, which is empty where there is none. -/
def parseUserinfo (userinfo : List Char) : List Char × List Char :=
  (cut ':' userinfo).getD (userinfo, [])

/-- The user information, if there is an at sign, and the host with its port. -/
def parseAuthority (authority : List Char) :
    Option (Option (List Char × List Char) × List Char) :=
  match cutLast '@' authority with
  | none => (parseHost authority).map fun host => (none, host)
  | some (userinfo, host) => do
    let host ← parseHost host
    if !validUserinfo userinfo then none
    some (some (parseUserinfo userinfo), host)

/-- What stands before a valid port, and the port. -/
def cutPort (hostPort : List Char) : List Char × List Char :=
  match cutLast ':' hostPort with
  | some (host, port) => if validOptionalPort (':' :: port) then (host, port) else (hostPort, [])
  | none => (hostPort, [])

/-- The hostname without brackets, and the port. -/
def splitHostPort (hostPort : List Char) : List Char × List Char :=
  let (host, port) := cutPort hostPort
  if host.head? = some '[' && host.getLast? = some ']' then ((host.drop 1).dropLast, port)
  else (host, port)

end Piik.NetUrl
