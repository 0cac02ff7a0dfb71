import Turnstile.Remote.ClientError
import Turnstile.Remote.Script
import Turnstile.Slot

/-!
# Commands and replies

What is said to the coordination server and how its replies are read. Names in the server's key
space are built here and nowhere else.
-/

namespace Turnstile.Remote

open Text

/-- A name in the key space of the server. The names of one slot share the part in braces. -/
inductive Name
  | lock (key : String)
  | queue (key : String)
  | heartbeats (key : String)
  | pool (key : String)
  | bucket (key : String)
  | clientBucket (key : String) (client : Ulid)
  | flag (name : String)
deriving DecidableEq

namespace Name

def tagged (role key : String) : String := role ++ ":\x7b" ++ key ++ "\x7d"

def text : Name → String
  | lock key => tagged "fair_lock" key
  | queue key => tagged "fair_lock_queue" key
  | heartbeats key => tagged "fair_lock_timeout" key
  | pool key => tagged "semaphore" key
  | bucket key => tagged "rate_limit" key
  | clientBucket key client => tagged "rate_limit" key ++ ":client:" ++ String.ofList client.text
  | flag name => "feature_flag:" ++ name

end Name

inductive Argument
  | owner (u : Ulid)
  | number (n : Nat)
deriving DecidableEq

def Argument.text : Argument → String
  | owner u => String.ofList u.text
  | number n => String.ofList (Decimal.digits n)

inductive Command
  | run (script : Script) (keys : List Name) (arguments : List Argument)
  | get (name : Name)
  | load (script : Script)
deriving DecidableEq

inductive Reply
  | int (n : Int)
  | text (s : String)
  | nil
  | status (s : String)
  | error (s : String)
  /-- The connection was closed instead of a reply. -/
  | closed
deriving DecidableEq

namespace Reply

/-- The first word of an error and, if there are more, the rest. -/
def words (s : List Char) : List Char × Option (List Char) :=
  match s.dropWhile (· != ' ') with
  | _ :: rest => (s.takeWhile (· != ' '), some rest)
  | [] => (s, none)

/-- The kinds of error that the server announces by their first word. -/
def kind? : String → Option String
  | "ERR" => some "ResponseError"
  | "LOADING" => some "BusyLoadingError"
  | "NOSCRIPT" => some "NoScriptError"
  | "READONLY" => some "ReadOnly"
  | _ => none

/-- An error of a known kind is described in words; any other starts with its own first word. -/
def errorText (s : String) : String :=
  let (code, rest) := words s.toList
  match kind? (String.ofList code) with
  | some kind =>
    let description := "An error was signalled by the server"
    (ClientError.described kind description (rest.map String.ofList)).message
  | none =>
    String.ofList code ++ ": " ++
      (rest.map String.ofList).getD "Unknown extension error encountered"

/-- The server does not know the script. -/
def isUnknownScript : Reply → Bool
  | error s => (words s.toList).1 = "NOSCRIPT".toList
  | _ => false

/-- The failure that a reply amounts to, whatever was asked. -/
def failure? : Reply → Option GuardError
  | error s => some (.backend (errorText s))
  | closed => some (.unavailable "broken pipe")
  | _ => none

def wrongType : GuardError := .backend "Response was of incompatible type - TypeError"

/-- A numeral with an optional sign. -/
def signed? (s : List Char) : Option Int :=
  match s with
  | '-' :: rest =>
    if rest.head? = some '+' then none else (Decimal.ofText? rest).map fun n => -(n : Int)
  | _ => (Decimal.ofText? s).map fun n => (n : Int)

/-- A whole number of 64 bits with a sign. -/
def int64 : Reply → Except GuardError Int
  | int n => .ok n
  | text s => read s
  | status s => read s
  | r => .error (r.failure?.getD wrongType)
where
  read (s : String) : Except GuardError Int :=
    match (signed? s.toList).filter fun n =>
        -9_223_372_036_854_775_808 ≤ n ∧ n < 9_223_372_036_854_775_808 with
    | some n => .ok n
    | none => .error wrongType

/-- A whole number of 64 bits without a sign; a negative integer counts from the top. -/
def nat64 : Reply → Except GuardError Nat
  | int n => .ok (n % 18_446_744_073_709_551_616).toNat
  | text s => read s
  | status s => read s
  | r => .error (r.failure?.getD wrongType)
where
  read (s : String) : Except GuardError Nat :=
    match (Decimal.ofText? s.toList).filter fun n => n < UInt64.size with
    | some n => .ok n
    | none => .error wrongType

/-- A text, or nothing. -/
def text? : Reply → Except GuardError (Option String)
  | text s => .ok (some s)
  | status s => .ok (some s)
  | nil => .ok none
  | int n => .ok (some (String.ofList ((if n < 0 then ['-'] else []) ++ Decimal.digits n.natAbs)))
  | r => .error (r.failure?.getD wrongType)

end Reply

end Turnstile.Remote
