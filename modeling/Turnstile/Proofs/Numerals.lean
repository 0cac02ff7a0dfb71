import Mathlib.Data.String.Basic
import Turnstile.Text.Decimal

/-!
# Written numerals

How long a numeral is, which characters it has, and that each reader gives back the number that was
written: `ofText?_digits` for a whole text, `upTo?_padded` and `any?_padded` for the head of one.
-/

namespace Turnstile.Text.Decimal

variable {m n k width : Nat} {c : Char} {s rest : List Char}

theorem digits_inj (h : digits m = digits n) : m = n := by
  rw [← value_digits m, h, value_digits]

theorem padded_inj (h : padded width m = padded width n) : m = n := by
  rw [← value_padded width m, h, value_padded]

theorem isDigit_of_mem_padded (h : c ∈ padded width n) : c.isDigit = true := by
  rcases List.mem_append.1 h with h | h
  · rw [(List.mem_replicate.1 h).2]
    rfl
  · exact isDigit_of_mem_digits h

theorem not_mem_digits (hc : c.isDigit = false) : c ∉ digits n := by
  intro h
  rw [isDigit_of_mem_digits h] at hc
  cases hc

theorem not_mem_padded (hc : c.isDigit = false) : c ∉ padded width n := by
  intro h
  rw [isDigit_of_mem_padded h] at hc
  cases hc

/-! ## Lengths -/

theorem digitsFuel_ne_nil (fuel n : Nat) : digitsFuel fuel n ≠ [] := by
  cases fuel with
  | zero => simp [digitsFuel]
  | succ fuel => unfold digitsFuel; split <;> simp

theorem digits_ne_nil (n : Nat) : digits n ≠ [] := digitsFuel_ne_nil n n

theorem padded_ne_nil (width n : Nat) : padded width n ≠ [] :=
  List.append_ne_nil_of_right_ne_nil _ (digits_ne_nil n)

theorem exists_padded_eq_cons (width n : Nat) :
    ∃ c s, padded width n = c :: s ∧ c.isDigit = true := by
  obtain ⟨c, s, hs⟩ := List.exists_cons_of_ne_nil (padded_ne_nil width n)
  exact ⟨c, s, hs, isDigit_of_mem_padded (by rw [hs]; exact List.mem_cons_self ..)⟩

/-- Only the numeral of zero starts with a zero. -/
theorem eq_zero_of_head?_digits (h : (digits n).head? = some '0') : n = 0 := by
  suffices H : ∀ fuel n, n ≤ fuel → (digitsFuel fuel n).head? = some '0' → n = 0 from
    H n n (Nat.le_refl n) h
  intro fuel
  induction fuel with
  | zero => intro n hn _; exact Nat.le_zero.1 hn
  | succ fuel ih =>
    intro n hn h
    unfold digitsFuel at h
    split at h
    · rename_i hlt
      have hvalue := digitValue_digitChar hlt
      rw [Option.some.inj h] at hvalue
      exact hvalue.symm
    · rename_i hlt
      rw [List.head?_append_of_ne_nil _ (digitsFuel_ne_nil fuel (n / 10))] at h
      have hdiv := ih (n / 10) (by omega) h
      omega

theorem length_digitsFuel_le {fuel : Nat} (h : n < 10 ^ (k + 1)) :
    (digitsFuel fuel n).length ≤ k + 1 := by
  induction fuel generalizing n k with
  | zero => exact Nat.le_add_left 1 k
  | succ fuel ih =>
    unfold digitsFuel
    split
    · exact Nat.le_add_left 1 k
    · rename_i hn
      cases k with
      | zero => exact absurd h hn
      | succ k =>
        have hdiv : n / 10 < 10 ^ (k + 1) := Nat.div_lt_of_lt_mul (by rwa [← Nat.pow_succ'])
        have hlen := ih hdiv
        rw [List.length_append]
        exact Nat.succ_le_succ hlen

theorem length_digits_le (h : n < 10 ^ (k + 1)) : (digits n).length ≤ k + 1 :=
  length_digitsFuel_le h

theorem length_padded_le (h : n < 10 ^ (k + 1)) : (padded width n).length ≤ max width (k + 1) := by
  have hlen := length_digits_le h
  unfold padded
  rw [List.length_append, List.length_replicate]
  omega

theorem length_padded (hwidth : 0 < width) (h : n < 10 ^ width) :
    (padded width n).length = width := by
  obtain ⟨k, rfl⟩ := Nat.exists_eq_succ_of_ne_zero hwidth.ne'
  have hlen := length_digits_le h
  unfold padded
  rw [List.length_append, List.length_replicate]
  omega

/-! ## Reading -/

theorem ofText?_digits (n : Nat) : ofText? (digits n) = some n := by
  have hall : (digits n).all Char.isDigit = true := by
    rw [List.all_eq_true]
    intro c hc
    exact isDigit_of_mem_digits hc
  obtain ⟨c, rest, hs⟩ := List.exists_cons_of_ne_nil (digits_ne_nil n)
  have hplus : c ≠ '+' := by
    rintro rfl
    exact not_mem_digits (n := n) (c := '+') rfl (by simp [hs])
  have hvalue := value_digits n
  rw [hs] at hall hvalue ⊢
  unfold ofText?
  split
  · rename_i h
    exact absurd (List.cons.inj h).1 hplus
  · simp only [List.isEmpty_cons, hall, hvalue, Bool.not_true, Bool.or_self, Bool.false_eq_true,
      if_false]

/-- Digits at the head of a text are read if they fill the width or no other digit follows. -/
theorem upTo?_append (hne : s ≠ []) (hs : ∀ c ∈ s, c.isDigit = true)
    (hw : s.length = width ∨ s.length ≤ width ∧ ∀ c ∈ rest.head?, c.isDigit = false) :
    upTo? width (s ++ rest) = some (value s, rest) := by
  have htaken : ((s ++ rest).take width).takeWhile Char.isDigit = s := by
    rw [List.take_append, List.take_of_length_le (by omega), List.takeWhile_append_of_pos hs]
    suffices h : (rest.take (width - s.length)).takeWhile Char.isDigit = [] by
      rw [h, List.append_nil]
    rcases hw with hw | ⟨-, hrest⟩
    · simp [hw]
    · cases rest with
      | nil => simp
      | cons c rest =>
        cases width - s.length with
        | zero => simp
        | succ k => simp [hrest c rfl]
  unfold upTo?
  simp only [htaken, List.drop_left, List.isEmpty_iff, hne, if_false]

theorem upTo?_padded (hwidth : 0 < width) (h : n < 10 ^ width) :
    upTo? width (padded width n ++ rest) = some (n, rest) := by
  rw [upTo?_append (padded_ne_nil width n) (fun _ => isDigit_of_mem_padded)
    (.inl (length_padded hwidth h)), value_padded]

theorem any?_padded (hrest : ∀ c ∈ rest.head?, c.isDigit = false) :
    any? (padded width n ++ rest) = some (n, rest) := by
  have hread := upTo?_append (padded_ne_nil width n) (fun _ => isDigit_of_mem_padded)
    (.inr ⟨Nat.le_add_right _ rest.length, hrest⟩)
  rwa [← List.length_append, value_padded] at hread

end Turnstile.Text.Decimal
