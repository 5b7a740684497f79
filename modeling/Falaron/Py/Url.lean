/-
`urllib.parse.urlsplit`, as far as the host.

The NFKC form of a text and the IPv6 addresses are parameters: neither says
anything about a host of ASCII characters without a colon. An IPv6 address
is known by whether one of the flags the caller asks for is set.
-/
import Falaron.Py.Address

namespace Py

open Falaron.Text (lowerChar)

structure SplitUrl where
  scheme : List Char
  netloc : List Char
  deriving DecidableEq, Repr

/-- `ipaddress.ip_address(host)`: an IPv4 address, or an IPv6 address with its flag. -/
def ipAddress (v6 : List Char → Option Bool) (host : List Char) : Option (Nat ⊕ Bool) :=
  match ipv4 host with
  | some a => some (.inl a)
  | none => if ':' ∈ host then (v6 host).map .inr else none

/-- What stands behind the last `c`, or everything. -/
def afterLast (c : Char) (cs : List Char) : List Char := (cs.reverse.takeWhile (· ≠ c)).reverse

/-- What stands before the last `c`, if there is one. -/
def beforeLast (c : Char) (cs : List Char) : Option (List Char) :=
  if c ∈ cs then some (cs.reverse.dropWhile (· ≠ c)).tail.reverse else none

def before (c : Char) (cs : List Char) : List Char := cs.takeWhile (· ≠ c)

def behind (c : Char) (cs : List Char) : List Char := (cs.dropWhile (· ≠ c)).tail

def isSchemeChar (c : Char) : Bool := c.isAlphanum || c = '+' || c = '-' || c = '.'

/-- The scheme in lower case, and what follows its colon. -/
def splitScheme (url : List Char) : List Char × List Char :=
  let name := before ':' url
  if ':' ∈ url && (name.head?.any Char.isAlpha) && name.all isSchemeChar then (name.map lowerChar, behind ':' url)
  else ([], url)

/-- The host between brackets is an IPv6 address, or of a later version. -/
def bracketedHost (v6 : List Char → Option Bool) (host : List Char) : Bool :=
  if host.head? = some 'v' then
    let version := host.tail.takeWhile (hexValue · |>.isSome)
    let rest := host.tail.dropWhile (hexValue · |>.isSome)
    version ≠ [] && rest.head? = some '.' && rest.tail ≠ [] && '\n' ∉ rest.tail
  else match ipAddress v6 host with
    | some (.inr _) => true
    | _ => false

/-- `_hostinfo`'s host -/
def rawHost (netloc : List Char) : List Char :=
  let info := afterLast '@' netloc
  if '[' ∈ info then before ']' (behind '[' info) else before ':' info

/-- The checks on brackets. -/
def bracketsAllowed (v6 : List Char → Option Bool) (netloc : List Char) : Bool :=
  if '[' ∈ netloc then
    let info := afterLast '@' netloc
    let port := behind ']' (behind '[' info)
    ']' ∈ netloc && ('[' ∉ info || before '[' info = [] && (port = [] || port.head? = some ':')) &&
      bracketedHost v6 (rawHost netloc)
  else ']' ∉ netloc

/-- `_checknetloc` -/
def netlocAllowed (nfkc : List Char → List Char) (netloc : List Char) : Bool :=
  let plain := netloc.filter fun c => c ≠ '@' && c ≠ ':' && c ≠ '#' && c ≠ '?'
  netloc.all (·.toNat < 128) || nfkc plain = plain || (nfkc plain).all fun c => c ∉ ['/', '?', '#', '@', ':']

/-- `urlsplit(url)`; nothing where it raises `ValueError` -/
def urlsplit (nfkc : List Char → List Char) (v6 : List Char → Option Bool) (url : List Char) : Option SplitUrl :=
  let url := (url.dropWhile (·.toNat ≤ 32)).filter fun c => c ≠ '\t' && c ≠ '\r' && c ≠ '\n'
  let (scheme, rest) := splitScheme url
  let netloc := if rest.take 2 = ['/', '/'] then (rest.drop 2).takeWhile (fun c => c ∉ ['/', '?', '#']) else []
  if bracketsAllowed v6 netloc && netlocAllowed nfkc netloc then some ⟨scheme, netloc⟩ else none

namespace SplitUrl

variable (u : SplitUrl)

/-- `username or password` is not empty. -/
def hasCredentials : Bool :=
  match beforeLast '@' u.netloc with
  | some info => before ':' info ≠ [] || behind ':' info ≠ []
  | none => false

/-- `(hostname or "").lower()` -/
def hostname : List Char := (rawHost u.netloc).map lowerChar

end SplitUrl

end Py
