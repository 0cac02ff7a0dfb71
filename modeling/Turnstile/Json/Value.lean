import Turnstile.Text.Decimal

/-!
# JSON values and their text

A value is written without blanks. A text is quoted; quotes, backslashes and control characters in
it are escaped, everything else stands as it is.
-/

namespace Turnstile

inductive Json
  | null
  | bool (b : Bool)
  | num (n : Int)
  | text (s : String)
  | list (xs : List Json)
  | record (fields : List (String × Json))
deriving Inhabited

namespace Json

open Text

/-- A digit of an escape, in lower case. -/
def hexDigit (d : Nat) : Char := if d < 10 then Char.ofNat (48 + d) else Char.ofNat (87 + d)

/-- How a character of a text is written. -/
def escape (c : Char) : List Char :=
  match c with
  | '"' => ['\\', '"']
  | '\\' => ['\\', '\\']
  | '\n' => ['\\', 'n']
  | '\r' => ['\\', 'r']
  | '\t' => ['\\', 't']
  | '\x08' => ['\\', 'b']
  | '\x0c' => ['\\', 'f']
  | _ =>
    if c.toNat < 32 then ['\\', 'u', '0', '0', hexDigit (c.toNat / 16), hexDigit (c.toNat % 16)]
    else [c]

def quoted (s : String) : List Char := '"' :: s.toList.flatMap escape ++ ['"']

mutual

/-- The text of a value. -/
def chars : Json → List Char
  | null => "null".toList
  | bool b => (if b then "true" else "false").toList
  | num n => if n < 0 then '-' :: Decimal.digits n.natAbs else Decimal.digits n.toNat
  | text s => quoted s
  | list xs => '[' :: itemChars xs ++ [']']
  | record fields => '{' :: fieldChars fields ++ ['}']

def itemChars : List Json → List Char
  | [] => []
  | [x] => x.chars
  | x :: y :: xs => x.chars ++ ',' :: itemChars (y :: xs)

def fieldChars : List (String × Json) → List Char
  | [] => []
  | [(name, x)] => quoted name ++ ':' :: x.chars
  | (name, x) :: y :: xs => quoted name ++ ':' :: x.chars ++ ',' :: fieldChars (y :: xs)

end

/-- The text of a value as one line. -/
def line (j : Json) : String := String.ofList j.chars

end Json

end Turnstile
