import Turnstile.Text.Decimal

/-!
# JSON tokens

`Token.scan` cuts a text into tokens, character by character. Where the text stops making sense
the list ends with a `cut`, so that a reader meets the first fault of a text in the order in which
the text is written. A `cut` knows two faults: the one for a reader of the token, and the one for a
reader that skips it, who does not look whether escapes pair up.
-/

namespace Turnstile.Json

/-- Why a text could not be read. -/
inductive Fault
  /-- The text ends too early. -/
  | eof
  /-- The text is not JSON. -/
  | syntactic
  /-- The text is JSON of another shape. -/
  | shape
deriving DecidableEq

inductive Word
  | null
  | true
  | false
deriving DecidableEq

def Word.chars : Word → List Char
  | null => ['n', 'u', 'l', 'l']
  | true => ['t', 'r', 'u', 'e']
  | false => ['f', 'a', 'l', 's', 'e']

inductive Token
  | braceOpen
  | braceClose
  | bracketOpen
  | bracketClose
  | comma
  | colon
  | text (s : List Char)
  /-- A text whose escapes leave half of a surrogate pair. -/
  | halfPair
  /-- A whole number without sign, point or exponent. -/
  | nat (n : Nat)
  /-- Any other number. -/
  | number
  /-- A number beyond the range of doubles. -/
  | hugeNumber
  | word (w : Word)
  | cut (inText : Bool) (read skip : Fault)
deriving DecidableEq

namespace Token

/-- What a text is made of: a character, or an escaped unit of UTF-16. -/
inductive Piece
  | char (c : Char)
  | unit (n : Nat)

/-- A number on the way: its sign, all its digits so far, how many of them stand after the point,
and the exponent. -/
structure Numeral where
  negative : Bool
  digits : Nat
  places : Nat := 0
  exponentNegative : Bool := false
  exponent : Nat := 0

/-- Numbers from here on are nearer to the power `2 ^ 1024` than to any double. -/
def overflow : Nat := Nat.pow 2 1024 - Nat.pow 2 970

/-- The value is so large that the nearest double is infinite. -/
def Numeral.isHuge (n : Numeral) : Bool :=
  let up := if n.exponentNegative then 0 else n.exponent
  let down := n.places + (if n.exponentNegative then n.exponent else 0)
  if n.digits = 0 then false
  else if up ≥ down + 400 then true
  else if up ≤ down then n.digits ≥ overflow * Nat.pow 10 (min (down - up) (n.digits.log2 + 1))
  else n.digits * Nat.pow 10 (up - down) ≥ overflow

/-- Where in the text the scan stands. -/
inductive Mode
  | between
  | inText (pieces : List Piece)
  | escaped (pieces : List Piece)
  | hex (pieces : List Piece) (got value : Nat)
  | inWord (w : Word) (rest : List Char)
  | minus
  | leadingZero (negative : Bool)
  | whole (negative : Bool) (digits : Nat)
  | point (n : Numeral)
  | places (n : Numeral)
  | exponentMark (n : Numeral)
  | exponentSign (n : Numeral)
  | exponent (n : Numeral)
  | closed

/-- The characters of a text, or `none` if half of a surrogate pair stands alone. The pieces come
last first. -/
def assemble : List Piece → List Char → Option (List Char)
  | [], acc => some acc
  | .char c :: rest, acc => assemble rest (c :: acc)
  | .unit low :: .unit high :: rest, acc =>
    if 0xDC00 ≤ low ∧ low ≤ 0xDFFF then
      if 0xD800 ≤ high ∧ high ≤ 0xDBFF then
        assemble rest (Char.ofNat ((high - 0xD800) * 0x400 + (low - 0xDC00) + 0x10000) :: acc)
      else none
    else if 0xD800 ≤ low ∧ low ≤ 0xDBFF then none
    else assemble (.unit high :: rest) (Char.ofNat low :: acc)
  | .unit n :: rest, acc =>
    if 0xD800 ≤ n ∧ n ≤ 0xDFFF then none else assemble rest (Char.ofNat n :: acc)

/-- The fault for a reader of a text that is not closed: a pair that can still be completed does no
harm. -/
def openFault (pieces : List Piece) : Fault :=
  let settled := match pieces with
    | .unit n :: rest => if 0xD800 ≤ n ∧ n ≤ 0xDBFF then rest else pieces
    | _ => pieces
  if (assemble settled []).isSome then .eof else .syntactic

def closeText (pieces : List Piece) : Token :=
  match assemble pieces [] with
  | some s => .text s
  | none => .halfPair

def closeNumeral (n : Numeral) : Token := if n.isHuge then .hugeNumber else .number

def closeWhole (negative : Bool) (digits : Nat) : Token :=
  if Numeral.isHuge { negative, digits } then .hugeNumber
  else if negative then .number
  else .nat digits

def hexValue? (c : Char) : Option Nat :=
  if c.isDigit then some (c.toNat - 48)
  else if 'a' ≤ c ∧ c ≤ 'f' then some (c.toNat - 87)
  else if 'A' ≤ c ∧ c ≤ 'F' then some (c.toNat - 55)
  else none

def unescape? : Char → Option Char
  | '"' => some '"'
  | '\\' => some '\\'
  | '/' => some '/'
  | 'b' => some '\x08'
  | 'f' => some '\x0c'
  | 'n' => some '\n'
  | 'r' => some '\r'
  | 't' => some '\t'
  | _ => none

def isJsonBlank (c : Char) : Bool := c == ' ' || c == '\n' || c == '\t' || c == '\r'

/-- The first character of a token, or one between tokens. -/
def start (c : Char) : List Token × Mode :=
  if isJsonBlank c then ([], .between)
  else match c with
    | '{' => ([.braceOpen], .between)
    | '}' => ([.braceClose], .between)
    | '[' => ([.bracketOpen], .between)
    | ']' => ([.bracketClose], .between)
    | ',' => ([.comma], .between)
    | ':' => ([.colon], .between)
    | '"' => ([], .inText [])
    | 'n' => ([], .inWord .null ['u', 'l', 'l'])
    | 't' => ([], .inWord .true ['r', 'u', 'e'])
    | 'f' => ([], .inWord .false ['a', 'l', 's', 'e'])
    | '-' => ([], .minus)
    | '0' => ([], .leadingZero false)
    | _ =>
      if c.isDigit then ([], .whole false (Text.Decimal.digitValue c))
      else ([.cut false .syntactic .syntactic], .closed)

/-- The character ends the token `t` and belongs to what follows. -/
def after (t : Token) (c : Char) : List Token × Mode :=
  let (ts, m) := start c
  (t :: ts, m)

def syntaxCut : List Token × Mode := ([.cut false .syntactic .syntactic], .closed)

def isExponentMark (c : Char) : Bool := c == 'e' || c == 'E'

def Numeral.place (n : Numeral) (c : Char) : Numeral :=
  { n with digits := 10 * n.digits + Text.Decimal.digitValue c, places := n.places + 1 }

def Numeral.raise (n : Numeral) (c : Char) : Numeral :=
  { n with exponent := 10 * n.exponent + Text.Decimal.digitValue c }

/-- One character: the tokens that it completes, and where the scan stands after it. `rest` is what
follows it; an escape that is cut off by the end of the text is told from one that is wrong by the
number of bytes that are left. -/
def step (m : Mode) (c : Char) (rest : List Char) : List Token × Mode :=
  match m with
  | .between => start c
  | .closed => ([], .closed)
  | .inText pieces =>
    if c = '"' then ([closeText pieces], .between)
    else if c = '\\' then ([], .escaped pieces)
    else if c.toNat < 32 then ([.cut true .syntactic .syntactic], .closed)
    else ([], .inText (.char c :: pieces))
  | .escaped pieces =>
    if c = 'u' then ([], .hex pieces 0 0)
    else match unescape? c with
      | some d => ([], .inText (.char d :: pieces))
      | none => ([.cut true .syntactic .syntactic], .closed)
  | .hex pieces got value =>
    match hexValue? c with
    | some d =>
      if got = 3 then ([], .inText (.unit (16 * value + d) :: pieces))
      else ([], .hex pieces (got + 1) (16 * value + d))
    | none =>
      if (String.ofList (c :: rest)).utf8ByteSize + got < 4 then
        ([.cut true (openFault pieces) .eof], .closed)
      else ([.cut true .syntactic .syntactic], .closed)
  | .inWord w left =>
    match left with
    | [] => after (.word w) c
    | d :: left => if c = d then ([], .inWord w left) else syntaxCut
  | .minus =>
    if c = '0' then ([], .leadingZero true)
    else if c.isDigit then ([], .whole true (Text.Decimal.digitValue c))
    else syntaxCut
  | .leadingZero negative =>
    if c.isDigit then syntaxCut
    else if c = '.' then ([], .point { negative, digits := 0 })
    else if isExponentMark c then ([], .exponentMark { negative, digits := 0 })
    else after (closeWhole negative 0) c
  | .whole negative digits =>
    if c.isDigit then ([], .whole negative (10 * digits + Text.Decimal.digitValue c))
    else if c = '.' then ([], .point { negative, digits })
    else if isExponentMark c then ([], .exponentMark { negative, digits })
    else after (closeWhole negative digits) c
  | .point n => if c.isDigit then ([], .places (n.place c)) else syntaxCut
  | .places n =>
    if c.isDigit then ([], .places (n.place c))
    else if isExponentMark c then ([], .exponentMark n)
    else after (closeNumeral n) c
  | .exponentMark n =>
    if c = '+' then ([], .exponentSign n)
    else if c = '-' then ([], .exponentSign { n with exponentNegative := true })
    else if c.isDigit then ([], .exponent (n.raise c))
    else syntaxCut
  | .exponentSign n => if c.isDigit then ([], .exponent (n.raise c)) else syntaxCut
  | .exponent n => if c.isDigit then ([], .exponent (n.raise c)) else after (closeNumeral n) c

/-- What the end of the text completes or cuts off. -/
def finish : Mode → List Token
  | .between => []
  | .closed => []
  | .inText pieces => [.cut true (openFault pieces) .eof]
  | .escaped pieces => [.cut true (openFault pieces) .eof]
  | .hex pieces _ _ => [.cut true (openFault pieces) .eof]
  | .inWord w [] => [.word w]
  | .inWord _ _ => [.cut false .eof .eof]
  | .leadingZero negative => [closeWhole negative 0]
  | .whole negative digits => [closeWhole negative digits]
  | .places n => [closeNumeral n]
  | .exponent n => [closeNumeral n]
  | .minus => [.cut false .eof .eof]
  | .point _ => [.cut false .eof .eof]
  | .exponentMark _ => [.cut false .eof .eof]
  | .exponentSign _ => [.cut false .eof .eof]

/-- The tokens of a text that is read on from the mode `m`. -/
def scanFrom (m : Mode) : List Char → List Token
  | [] => finish m
  | c :: rest => (step m c rest).1 ++ scanFrom (step m c rest).2 rest

def scan (s : String) : List Token := scanFrom .between s.toList

end Token

end Turnstile.Json
