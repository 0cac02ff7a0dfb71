import Turnstile.Json.Token

/-!
# Readers of JSON

A reader takes a value off the front of the tokens. The fault it reports is the first one in the
text: a value of the wrong kind is a fault of shape where it stands, whatever comes later.
-/

namespace Turnstile.Json

abbrev Reader (α : Type) := List Token → Except Fault (α × List Token)

namespace Reader

variable {α σ : Type}

def fail (f : Fault) : Reader α := fun _ => .error f

/-- The fault of finding the tokens `ts` where a value of another kind is wanted. -/
def wrongKind : List Token → Fault
  | [] => .eof
  | .cut _ read _ :: _ => read
  | .halfPair :: _ => .syntactic
  | .hugeNumber :: _ => .syntactic
  | .text _ :: _ => .shape
  | .nat _ :: _ => .shape
  | .number :: _ => .shape
  | .word _ :: _ => .shape
  | .braceOpen :: _ => .shape
  | .bracketOpen :: _ => .shape
  | _ :: _ => .syntactic

/-- The fault of finding the tokens `ts` where punctuation is wanted. -/
def wrongMark : List Token → Fault
  | [] => .eof
  | _ :: _ => .syntactic

/-- A whole number below `bound`. -/
def nat (bound : Nat) : Reader Nat
  | .nat n :: rest => if n < bound then .ok (n, rest) else .error .shape
  | ts => .error (wrongKind ts)

def text : Reader String
  | .text s :: rest => .ok (String.ofList s, rest)
  | ts => .error (wrongKind ts)

def bool : Reader Bool
  | .word .true :: rest => .ok (true, rest)
  | .word .false :: rest => .ok (false, rest)
  | ts => .error (wrongKind ts)

def null : Reader Unit
  | .word .null :: rest => .ok ((), rest)
  | ts => .error (wrongKind ts)

/-- A value or `null`. -/
def optional (r : Reader α) : Reader (Option α)
  | .word .null :: rest => .ok (none, rest)
  | ts => (r ts).map fun (a, rest) => (some a, rest)

/-- Refuses values that `f` does not take. -/
def refine (r : Reader σ) (f : σ → Option α) : Reader α := fun ts =>
  match r ts with
  | .ok (s, rest) =>
    match f s with
    | some a => .ok (a, rest)
    | none => .error .shape
  | .error e => .error e

/-- The mark `t`. -/
def mark (t : Token) : Reader Unit
  | u :: rest => if u = t then .ok ((), rest) else .error .syntactic
  | [] => .error .eof

/-- What a reader that skips a value expects next. -/
inductive Skip
  | value
  /-- A bracket has just been opened. -/
  | opened
  | key
  | colon
  /-- A value has ended inside a bracket. -/
  | more

/-- Skips a value: `braces` tells, innermost first, which open brackets are braces. -/
def skipFrom : Skip → List Bool → Reader Unit
  | _, _, [] => .error .eof
  | .value, braces, t :: rest =>
    match t with
    | .braceOpen => skipFrom .opened (true :: braces) rest
    | .bracketOpen => skipFrom .opened (false :: braces) rest
    | .cut _ _ skip => .error skip
    | .braceClose => .error .syntactic
    | .bracketClose => .error .syntactic
    | .comma => .error .syntactic
    | .colon => .error .syntactic
    | _ => if braces.isEmpty then .ok ((), rest) else skipFrom .more braces rest
  | .opened, [], _ => .error .syntactic
  | .opened, true :: braces, t :: rest =>
    match t with
    | .braceClose => if braces.isEmpty then .ok ((), rest) else skipFrom .more braces rest
    | .text _ => skipFrom .colon (true :: braces) rest
    | .halfPair => skipFrom .colon (true :: braces) rest
    | .cut inText _ skip => .error (if inText then skip else .syntactic)
    | _ => .error .syntactic
  | .opened, false :: braces, t :: rest =>
    match t with
    | .bracketClose => if braces.isEmpty then .ok ((), rest) else skipFrom .more braces rest
    | .braceOpen => skipFrom .opened (true :: false :: braces) rest
    | .bracketOpen => skipFrom .opened (false :: false :: braces) rest
    | .cut _ _ skip => .error skip
    | .braceClose => .error .syntactic
    | .comma => .error .syntactic
    | .colon => .error .syntactic
    | _ => skipFrom .more (false :: braces) rest
  | .key, braces, t :: rest =>
    match t with
    | .text _ => skipFrom .colon braces rest
    | .halfPair => skipFrom .colon braces rest
    | .cut inText _ skip => .error (if inText then skip else .syntactic)
    | _ => .error .syntactic
  | .colon, braces, t :: rest =>
    match t with
    | .colon => skipFrom .value braces rest
    | _ => .error .syntactic
  | .more, [], _ => .error .syntactic
  | .more, true :: braces, t :: rest =>
    match t with
    | .comma => skipFrom .key (true :: braces) rest
    | .braceClose => if braces.isEmpty then .ok ((), rest) else skipFrom .more braces rest
    | _ => .error .syntactic
  | .more, false :: braces, t :: rest =>
    match t with
    | .comma => skipFrom .value (false :: braces) rest
    | .bracketClose => if braces.isEmpty then .ok ((), rest) else skipFrom .more braces rest
    | _ => .error .syntactic

/-- Any value, unread. -/
def skip : Reader Unit := skipFrom .value []

/-- What to do with a field of a record, given its name. -/
inductive Field (σ : Type)
  /-- The value is read into the state. -/
  | known (r : Reader σ)
  | ignored
  /-- The name alone is a fault of shape. -/
  | refused

/-- A field's colon and value. -/
def fieldValue (s : σ) : Field σ → Reader σ
  | .refused, _ => .error .shape
  | .known r, ts => do
    let (_, ts) ← mark .colon ts
    r ts
  | .ignored, ts => do
    let (_, ts) ← mark .colon ts
    let (_, ts) ← skip ts
    return (s, ts)

/-- The fields of a record up to its closing brace, which is left standing. The number of tokens is
enough fuel, for each field takes some. -/
def fieldsFuel (visit : String → σ → Field σ) : Nat → Bool → σ → Reader σ
  | 0, _, _, _ => .error .eof
  | fuel + 1, first, s, ts =>
    let field : Reader σ := fun ts =>
      match ts with
      | .text name :: rest => do
        let (s, rest) ← fieldValue s (visit (String.ofList name) s) rest
        fieldsFuel visit fuel false s rest
      | .cut true read _ :: _ => .error read
      | [] => .error .eof
      | _ => .error .syntactic
    match ts with
    | .braceClose :: _ => .ok (s, ts)
    | .comma :: rest => if first then .error .syntactic else field rest
    | _ => if first then field ts else .error (wrongMark ts)

/-- A record: its fields in any order, and what is made of them at the end. -/
def recordBody (visit : String → σ → Field σ) (s : σ) (close : σ → Option α) : Reader α :=
  fun ts => do
  let (s, ts) ← fieldsFuel visit (ts.length + 1) true s ts
  match close s with
  | none => .error .shape
  | some a => do
    let (_, ts) ← mark .braceClose ts
    return (a, ts)

/-- The next item of a list: a comma, unless it is the first, and a value. A list that has ended is
a fault of shape. -/
def item (first : Bool) (r : Reader α) : Reader α := fun ts =>
  match ts with
  | .bracketClose :: _ => .error .shape
  | .comma :: rest =>
    if first then .error .syntactic
    else match rest with
      | .bracketClose :: _ => .error .syntactic
      | _ => r rest
  | _ => if first then r ts else .error (wrongMark ts)

/-- A whole text: blanks may surround the value and nothing else may follow it. -/
def run (r : Reader α) (s : String) : Except Fault α :=
  match r (Token.scan s) with
  | .ok (a, []) => .ok a
  | .ok (_, _ :: _) => .error .syntactic
  | .error f => .error f

end Reader

end Turnstile.Json
