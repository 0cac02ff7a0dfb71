import Turnstile.Limits
import Turnstile.Text.Blank
import Turnstile.Text.Decimal

/-!
# The database of the substitute lock

A database is named by a text of options, `name=value` with blanks between them. Values may be
quoted, and a backslash takes the next character as it is.
-/

namespace Turnstile.Database

open Text

/-- What an option takes. -/
inductive Kind
  | text
  /-- One of these words. -/
  | choice (words : List String)
  /-- A number below the bound. -/
  | number (bound : Nat)
  /-- Numbers below the bound with commas between them; each may be left out. -/
  | numbers (bound : Nat)

/-- Numbers of 64 bits with a sign are below this one. -/
def signedBound : Nat := 9_223_372_036_854_775_808

/-- The options and what they take. -/
def options : List (String × Kind) :=
  [("user", .text), ("password", .text), ("dbname", .text), ("options", .text),
   ("application_name", .text), ("host", .text), ("hostaddr", .text),
   ("port", .numbers UInt16.size),
   ("sslmode", .choice ["disable", "prefer", "require"]),
   ("channel_binding", .choice ["disable", "prefer", "require"]),
   ("target_session_attrs", .choice ["any", "read-write", "read-only"]),
   ("load_balance_hosts", .choice ["disable", "random"]),
   ("connect_timeout", .number signedBound), ("tcp_user_timeout", .number signedBound),
   ("keepalives", .number UInt64.size), ("keepalives_idle", .number signedBound),
   ("keepalives_interval", .number signedBound), ("keepalives_retries", .number UInt32.size)]

def isNumber (bound : Nat) (s : List Char) : Bool := ((Decimal.ofText? s).filter (· < bound)).isSome

/-- The parts of a text between commas. -/
def parts : List Char → List (List Char)
  | [] => [[]]
  | c :: rest =>
    if c = ',' then [] :: parts rest
    else match parts rest with
      | [] => [[c]]
      | part :: more => (c :: part) :: more

def Kind.accepts (value : List Char) : Kind → Bool
  | text => true
  | choice words => words.contains (String.ofList value)
  | number bound => isNumber bound value
  | numbers bound => (parts value).all fun p => p.isEmpty || isNumber bound p

/-- A value that is not quoted ends before a blank. -/
def bareValue : List Char → Option (List Char × List Char)
  | [] => some ([], [])
  | '\\' :: c :: rest => (bareValue rest).map fun (v, rest) => (c :: v, rest)
  | c :: rest =>
    if isBlank c then some ([], c :: rest)
    else if c = '\\' then none
    else (bareValue rest).map fun (v, rest) => (c :: v, rest)

/-- The rest of a quoted value, up to its closing quote. -/
def quotedValue : List Char → Option (List Char × List Char)
  | [] => none
  | '\\' :: c :: rest => (quotedValue rest).map fun (v, rest) => (c :: v, rest)
  | c :: rest =>
    if c = '\'' then some ([], rest)
    else if c = '\\' then none
    else (quotedValue rest).map fun (v, rest) => (c :: v, rest)

def value? : List Char → Option (List Char × List Char)
  | '\'' :: rest => quotedValue rest
  | s => (bareValue s).filter fun (v, _) => !v.isEmpty

/-- Reads at most `fuel` options. -/
def readOptions : Nat → List Char → Bool
  | 0, _ => true
  | fuel + 1, s =>
    let s := dropBlanks s
    let name := s.takeWhile fun c => !isBlank c && c != '='
    if name.isEmpty then true
    else match dropBlanks (s.drop name.length) with
      | '=' :: rest =>
        match value? (dropBlanks rest) with
        | none => false
        | some (value, rest) =>
          match options.find? (·.1 = String.ofList name) with
          | some (_, kind) => kind.accepts value && readOptions fuel rest
          | none => false
      | _ => false

/-- The text names a database. -/
def isWellFormed (s : String) : Bool := readOptions (s.length + 1) s.toList

/-- Why a substitute lock is not made for a text that names no database. -/
def notAnAddress : GuardError := .invalid .databaseAddress

/-- How a text that names no database is reported otherwise. -/
def malformed : GuardError := .backend "invalid connection string"

/-- What a substitute lock answers when nobody listens at the database. -/
def unreachable (key : String) (wait : Duration) : GuardError :=
  match Limits.checkKey key, Limits.checkWait wait with
  | .error e, _ => e
  | _, .error e => e
  | .ok (), .ok () => .unavailable "error connecting to server"

end Turnstile.Database
