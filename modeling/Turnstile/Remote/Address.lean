import Turnstile.Remote.ClientError
import Turnstile.Text.Decimal

/-!
# Addresses of a coordination server

A server is reached over the network or through a socket in the file system. `Address.ofText` says
which texts are addresses and what is wrong with the others.
-/

namespace Turnstile.Remote

open Text

inductive Address
  | network
  | socket
deriving DecidableEq

namespace Address

def invalid (description : String) : ClientError :=
  .described "InvalidClientConfig" description none

def unreadable : ClientError := invalid "Redis URL did not parse"

/-- The part before the mark `://` and the part after it. -/
def cutScheme : List Char → Option (List Char × List Char)
  | [] => none
  | ':' :: '/' :: '/' :: rest => some ([], rest)
  | c :: rest => (cutScheme rest).map fun (scheme, rest) => (c :: scheme, rest)

def isStop (c : Char) : Bool := c == '/' || c == '?' || c == '#'

/-- What stands behind the last `@`. -/
def dropUser (s : List Char) : List Char := (s.reverse.takeWhile (· != '@')).reverse

/-- The number behind the host is missing or has 16 bits. -/
def isService (s : List Char) : Bool :=
  s.all Char.isDigit && Decimal.value s < UInt16.size

/-- The database of an address is its path, a number if there is any. -/
def isDatabase (path : List Char) : Bool :=
  let number := (path.dropWhile (· == '/')).reverse.dropWhile (· == '/')
  number.isEmpty || (Decimal.ofText? number.reverse).isSome

/-- An address over the network: a host, perhaps with a number, and perhaps a database. -/
def network? (rest : List Char) : Except ClientError Address :=
  let authority := dropUser (rest.takeWhile fun c => !isStop c)
  let path := (rest.dropWhile fun c => !isStop c).takeWhile fun c => c != '?' && c != '#'
  let host := authority.takeWhile (· != ':')
  let service := (authority.dropWhile (· != ':')).drop 1
  if !isService service then .error unreadable
  else if authority.isEmpty then .error (invalid "Missing hostname")
  else if host.isEmpty then .error unreadable
  else if isDatabase path then .ok network
  else .error (invalid "Invalid database number")

/-- Reads the address of a server. -/
def ofText (s : String) : Except ClientError Address :=
  match cutScheme s.toList with
  | none => .error unreadable
  | some (scheme, rest) =>
    match String.ofList scheme with
    | "redis" => network? rest
    | "unix" => .ok socket
    | "redis+unix" => .ok socket
    | _ => .error unreadable

/-- What a client reports if nobody listens. -/
def refusal : Address → ClientError
  | network => .transport "Connection refused (os error 111)"
  | socket => .transport "No such file or directory (os error 2)"

end Address

/-- The failure to connect to an address where nobody listens. -/
def connect (address : String) : GuardError :=
  match Address.ofText address with
  | .error e => .backend ("invalid redis url: " ++ e.message)
  | .ok a => a.refusal.toGuard

end Turnstile.Remote
