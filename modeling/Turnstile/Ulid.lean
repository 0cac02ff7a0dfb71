/-!
# Sortable identifiers

A `Ulid` is a 128-bit number written as 26 base-32 digits, most significant first.
-/

namespace Turnstile

structure Ulid where
  value : BitVec 128
deriving DecidableEq, Inhabited

namespace Ulid

def ofNat (n : Nat) : Ulid := ⟨BitVec.ofNat 128 n⟩

/-- The 32 digits leave out the letters that look like others. -/
def alphabet : List Char := "0123456789ABCDEFGHJKMNPQRSTVWXYZ".toList

/-- The last `k` base-32 digits of `n`. -/
def base32 : Nat → Nat → List Char
  | 0, _ => []
  | k + 1, n => base32 k (n / 32) ++ [alphabet.getD (n % 32) '0']

def text (u : Ulid) : List Char := base32 26 u.value.toNat

theorem length_base32 (k n : Nat) : (base32 k n).length = k := by
  induction k generalizing n with
  | zero => rfl
  | succ k ih => simp [base32, ih]

theorem length_text (u : Ulid) : u.text.length = 26 := length_base32 _ _

end Ulid

end Turnstile
