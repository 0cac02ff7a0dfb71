/-!
# Blank characters

The characters with the Unicode property White_Space, and what it means to trim a text of them.
-/

namespace Turnstile.Text

/-- The character has the Unicode property White_Space. -/
def isBlank (c : Char) : Bool :=
  let n := c.toNat
  (9 ≤ n && n ≤ 13) || n == 0x20 || n == 0x85 || n == 0xA0 || n == 0x1680
    || (0x2000 ≤ n && n ≤ 0x200A) || n == 0x2028 || n == 0x2029 || n == 0x202F || n == 0x205F
    || n == 0x3000

/-- Every character that core calls white space is blank. -/
theorem isBlank_of_isWhitespace {c : Char} (h : c.isWhitespace = true) : isBlank c = true := by
  simp only [Char.isWhitespace, Bool.or_eq_true, decide_eq_true_eq] at h
  rcases h with ((rfl | rfl) | rfl) | rfl <;> decide

def dropBlanks (s : List Char) : List Char := s.dropWhile isBlank

/-- The text without the blanks at its two ends. -/
def trim (s : List Char) : List Char := (dropBlanks (dropBlanks s).reverse).reverse

theorem dropBlanks_of_not_isBlank {c : Char} {s : List Char} (h : isBlank c = false) :
    dropBlanks (c :: s) = c :: s := by
  simp [dropBlanks, h]

end Turnstile.Text
