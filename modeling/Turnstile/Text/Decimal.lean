/-!
# Decimal numerals

`digits n` is the shortest decimal numeral of `n`, `padded` fills it with zeros on the left, and
`value` reads a list of digits. Main statements: `value_digits` and `value_padded`, reading gives
back the number that was written.
-/

namespace Turnstile.Text.Decimal

/-- The numeral of a number below ten. -/
def digitChar (d : Nat) : Char := Char.ofNat (48 + d)

/-- What a decimal digit counts for. -/
def digitValue (c : Char) : Nat := c.toNat - 48

/-- The digits of `n`, most significant first; `n` itself is always enough fuel. -/
def digitsFuel : Nat → Nat → List Char
  | 0, n => [digitChar (n % 10)]
  | fuel + 1, n =>
    if n < 10 then [digitChar n] else digitsFuel fuel (n / 10) ++ [digitChar (n % 10)]

/-- The shortest decimal numeral of `n`. -/
def digits (n : Nat) : List Char := digitsFuel n n

/-- The numeral of `n` with zeros in front up to `width` digits. -/
def padded (width n : Nat) : List Char :=
  List.replicate (width - (digits n).length) '0' ++ digits n

/-- The number written by a list of digits, continuing from `acc`. -/
def valueFrom (acc : Nat) (s : List Char) : Nat := s.foldl (fun a c => 10 * a + digitValue c) acc

def value (s : List Char) : Nat := valueFrom 0 s

/-- The leading digits of a text and what follows them. -/
def split (s : List Char) : List Char × List Char := s.span Char.isDigit

/-- Between one and `width` leading digits, as a number, and what follows them. -/
def upTo? (width : Nat) (s : List Char) : Option (Nat × List Char) :=
  let taken := (s.take width).takeWhile Char.isDigit
  if taken.isEmpty then none else some (value taken, s.drop taken.length)

/-- All leading digits, at least one, as a number, and what follows them. -/
def any? (s : List Char) : Option (Nat × List Char) := upTo? s.length s

/-- Reads digits with an optional plus sign in front; nothing else may stand in the text. -/
def ofText? (s : List Char) : Option Nat :=
  let body := match s with
    | '+' :: rest => rest
    | _ => s
  if body.isEmpty || !body.all Char.isDigit then none else some (value body)

theorem digitValue_digitChar {d : Nat} (h : d < 10) : digitValue (digitChar d) = d := by
  have : d = 0 ∨ d = 1 ∨ d = 2 ∨ d = 3 ∨ d = 4 ∨ d = 5 ∨ d = 6 ∨ d = 7 ∨ d = 8 ∨ d = 9 := by omega
  rcases this with rfl | rfl | rfl | rfl | rfl | rfl | rfl | rfl | rfl | rfl <;> rfl

theorem isDigit_digitChar {d : Nat} (h : d < 10) : (digitChar d).isDigit = true := by
  have : d = 0 ∨ d = 1 ∨ d = 2 ∨ d = 3 ∨ d = 4 ∨ d = 5 ∨ d = 6 ∨ d = 7 ∨ d = 8 ∨ d = 9 := by omega
  rcases this with rfl | rfl | rfl | rfl | rfl | rfl | rfl | rfl | rfl | rfl <;> rfl

theorem valueFrom_append (acc : Nat) (s t : List Char) :
    valueFrom acc (s ++ t) = valueFrom (valueFrom acc s) t := by
  simp [valueFrom]

theorem value_digitsFuel {fuel n : Nat} (h : n ≤ fuel) : value (digitsFuel fuel n) = n := by
  induction fuel generalizing n with
  | zero =>
    obtain rfl : n = 0 := by omega
    rfl
  | succ fuel ih =>
    unfold digitsFuel
    split
    · rename_i hn
      simp [value, valueFrom, digitValue_digitChar hn]
    · have hv : value (digitsFuel fuel (n / 10)) = n / 10 := ih (by omega)
      unfold value at hv ⊢
      rw [valueFrom_append, hv]
      simp [valueFrom, digitValue_digitChar (Nat.mod_lt n (by decide : 0 < 10))]
      omega

theorem value_digits (n : Nat) : value (digits n) = n := value_digitsFuel (Nat.le_refl n)

theorem value_padded (width n : Nat) : value (padded width n) = n := by
  have zeros : ∀ k, valueFrom 0 (List.replicate k '0') = 0 := by
    intro k
    induction k with
    | zero => rfl
    | succ k ih => simpa [List.replicate_succ, valueFrom, digitValue] using ih
  unfold padded value
  rw [valueFrom_append, zeros]
  exact value_digits n

theorem isDigit_of_mem_digits {c : Char} {n : Nat} (h : c ∈ digits n) : c.isDigit = true := by
  suffices H : ∀ fuel n, c ∈ digitsFuel fuel n → c.isDigit = true from H n n h
  intro fuel
  induction fuel with
  | zero => simp +contextual [digitsFuel, isDigit_digitChar (Nat.mod_lt _ (by decide : 0 < 10))]
  | succ fuel ih =>
    intro n hc
    unfold digitsFuel at hc
    split at hc
    · rename_i hn
      simp_all [isDigit_digitChar]
    · rcases List.mem_append.1 hc with hc | hc
      · exact ih _ hc
      · simp_all [isDigit_digitChar (Nat.mod_lt n (by decide : 0 < 10))]

end Turnstile.Text.Decimal
