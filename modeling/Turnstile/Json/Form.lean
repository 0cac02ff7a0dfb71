import Turnstile.Json.Reader
import Turnstile.Json.Value

/-!
# Forms

A form is the two sides of a JSON format: how a value is read and how it is written. `Form.record`
makes the form of a record from the forms of its fields. A record is also read from a list of all
its fields in their order.
-/

namespace Turnstile.Json

structure Form (α : Type) where
  read : Reader α
  write : α → Json

/-- The values of a record's fields, in their order. -/
def Row : List Type → Type
  | [] => Unit
  | τ :: τs => τ × Row τs

/-- A record on the way: the fields that have been read. -/
def Draft : List Type → Type
  | [] => Unit
  | τ :: τs => Option τ × Draft τs

/-- The fields of a record: name, form and, if the field may be missing, its value then. -/
inductive Fields : List Type → Type 1
  | nil : Fields []
  | cons {τ : Type} {τs : List Type} (name : String) (form : Form τ) (ifMissing : Option τ)
      (rest : Fields τs) : Fields (τ :: τs)

namespace Fields

def blank : {τs : List Type} → Fields τs → Draft τs
  | _, .nil => ()
  | _, .cons _ _ _ rest => (none, rest.blank)

/-- Reads a value into the field of that name, which must still be missing. Names that no field has
are refused in a `closed` record and ignored in any other. -/
def visit (closed : Bool) :
    {τs : List Type} → Fields τs → String → Draft τs → Reader.Field (Draft τs)
  | _, .nil, _, _ => if closed then .refused else .ignored
  | _, .cons name form _ rest, key, (a, d) =>
    if key = name then
      match a with
      | some _ => .refused
      | none => .known fun ts => (form.read ts).map fun (a, ts) => ((some a, d), ts)
    else match rest.visit closed key d with
      | .refused => .refused
      | .ignored => .ignored
      | .known r => .known fun ts => (r ts).map fun (d, ts) => ((a, d), ts)

/-- The finished record, if no field is missing that has to be there. -/
def close? : {τs : List Type} → Fields τs → Draft τs → Option (Row τs)
  | _, .nil, _ => some ()
  | _, .cons _ _ ifMissing rest, (a, d) => do
    let a ← a.or ifMissing
    let row ← rest.close? d
    return (a, row)

/-- Reads all fields as the items of a list. -/
def readItems : {τs : List Type} → Fields τs → Bool → Reader (Row τs)
  | _, .nil, _, ts => .ok ((), ts)
  | _, .cons _ form _ rest, first, ts => do
    let (a, ts) ← Reader.item first form.read ts
    let (row, ts) ← rest.readItems false ts
    return ((a, row), ts)

def write : {τs : List Type} → Fields τs → Row τs → List (String × Json)
  | _, .nil, _ => []
  | _, .cons name form _ rest, (a, row) => (name, form.write a) :: rest.write row

end Fields

namespace Form

variable {α β : Type}

def nat (bound : Nat) : Form Nat := ⟨Reader.nat bound, fun n => .num n⟩

def uint64 : Form UInt64 :=
  ⟨fun ts => (Reader.nat UInt64.size ts).map fun (n, ts) => (UInt64.ofNat n, ts),
    fun n => .num n.toNat⟩

def uint32 : Form UInt32 :=
  ⟨fun ts => (Reader.nat UInt32.size ts).map fun (n, ts) => (UInt32.ofNat n, ts),
    fun n => .num n.toNat⟩

def bool : Form Bool := ⟨Reader.bool, .bool⟩

def text : Form String := ⟨Reader.text, .text⟩

/-- A text that stands for a value. -/
def ofText (read : List Char → Option α) (write : α → List Char) : Form α :=
  ⟨Reader.refine Reader.text fun s => read s.toList, fun a => .text (String.ofList (write a))⟩

def optional (f : Form α) : Form (Option α) :=
  ⟨Reader.optional f.read, fun a => match a with
    | some a => f.write a
    | none => .null⟩

/-- Another type with the same form. -/
def map (f : Form α) (there : α → β) (back : β → α) : Form β :=
  ⟨fun ts => (f.read ts).map fun (a, ts) => (there a, ts), fun b => f.write (back b)⟩

/-- The end of a list whose items have been read. -/
def endList : Reader Unit
  | .bracketClose :: ts => .ok ((), ts)
  | ts => .error (Reader.wrongMark ts)

/-- A record with the given fields, of which `close` makes the value. -/
def recordOf {τs : List Type} (closed : Bool) (fields : Fields τs) (close : Row τs → Option α)
    (row : α → Row τs) : Form α where
  read := fun ts => match ts with
    | .braceOpen :: ts =>
      Reader.recordBody (fields.visit closed) fields.blank
        (fun d => (fields.close? d).bind close) ts
    | .bracketOpen :: ts => do
      let (row, ts) ← fields.readItems true ts
      match close row with
      | none => .error .shape
      | some a => do
        let (_, ts) ← endList ts
        return (a, ts)
    | ts => .error (Reader.wrongKind ts)
  write a := .record (fields.write (row a))

/-- A record that ignores fields it does not know. -/
def record {τs : List Type} (fields : Fields τs) (ofRow : Row τs → α) (toRow : α → Row τs) :
    Form α :=
  recordOf false fields (fun r => some (ofRow r)) toRow

/-- The value that one of the names stands for. -/
def named? [DecidableEq α] (names : List (String × α)) (s : String) : Option α :=
  (names.find? (·.1 = s)).map (·.2)

/-- The fault of finding the tokens `ts` where one of several variants is wanted. -/
def wrongVariant : List Token → Fault
  | [] => .eof
  | .cut true read _ :: _ => read
  | _ :: _ => .syntactic

/-- The end of a variant that is written as a record of one field. -/
def endVariant : Reader Unit
  | .braceClose :: ts => .ok ((), ts)
  | ts => .error (Reader.wrongMark ts)

/-- A choice among names: the name as a text, or a record of one field that has the name and the
value `null`. -/
def oneOf [DecidableEq α] (names : List (String × α)) (name : α → String) : Form α where
  read := fun ts => match ts with
    | .text s :: ts =>
      match named? names (String.ofList s) with
      | some a => .ok (a, ts)
      | none => .error .shape
    | .braceOpen :: ts => do
      let (a, ts) ← Reader.refine Reader.text (named? names) ts
      let (_, ts) ← Reader.mark .colon ts
      let (_, ts) ← Reader.null ts
      let (_, ts) ← endVariant ts
      return (a, ts)
    | ts => .error (wrongVariant ts)
  write a := .text (name a)

/-- The one variant `name`, whose content has the form `f`. -/
def variant (name : String) (f : Form α) : Form α where
  read := fun ts => match ts with
    | .text _ :: _ => .error .shape
    | .braceOpen :: ts => do
      let (_, ts) ← Reader.refine Reader.text (fun s => if s = name then some () else none) ts
      let (_, ts) ← Reader.mark .colon ts
      let (a, ts) ← f.read ts
      let (_, ts) ← endVariant ts
      return (a, ts)
    | ts => .error (wrongVariant ts)
  write a := .record [(name, f.write a)]

/-- Reads a whole text. -/
def ofLine (f : Form α) (s : String) : Except Fault α := f.read.run s

/-- Writes a value as one line. -/
def toLine (f : Form α) (a : α) : String := (f.write a).line

end Form

end Turnstile.Json
