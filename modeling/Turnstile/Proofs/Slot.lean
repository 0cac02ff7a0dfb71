import Mathlib.Data.String.Basic
import Turnstile.Limits
import Turnstile.Proofs.Calendar

/-!
# Keys of slots

The key of a slot is short, whatever its restaurant, date and time are: every guard accepts it.
-/

namespace Turnstile

theorem utf8Len_le (l : List Char) : String.utf8Len l ≤ 4 * l.length := by
  induction l with
  | nil => exact Nat.le_refl 0
  | cons c l ih =>
    have hc := c.utf8Size_le_four
    rw [String.utf8Len_cons, List.length_cons]
    omega

namespace Slot

open Text

theorem length_date (d : Date) : d.text.length ≤ 13 := by
  obtain ⟨⟨hfirst, hlast⟩, -⟩ := d.exists_
  unfold Calendar.firstYear at hfirst
  unfold Calendar.lastYear at hlast
  have hyear : (Date.yearText d.year).length ≤ 7 := by
    unfold Date.yearText
    split
    · have hy : (Decimal.padded 4 d.year.toNat).length ≤ 6 :=
        Decimal.length_padded_le (k := 5) (by omega)
      omega
    · have hy : (Decimal.padded 4 d.year.natAbs).length ≤ 6 :=
        Decimal.length_padded_le (k := 5) (by omega)
      rw [List.length_cons]
      omega
  have hm : (Decimal.padded 2 d.month).length = 2 := Decimal.length_padded Nat.two_pos d.month_lt
  have hd : (Decimal.padded 2 d.day).length = 2 := Decimal.length_padded Nat.two_pos d.day_lt
  unfold Date.text
  simp only [List.length_append, List.length_cons]
  omega

theorem checkKey_key (s : Slot) : Limits.checkKey s.key.text = .ok () := by
  have hrestaurant : (Decimal.digits s.restaurant.toNat).length ≤ 20 := by
    refine Decimal.length_digits_le (Nat.lt_trans s.restaurant.toNat_lt ?_)
    decide
  have hdate := length_date s.date
  have hclock := s.time.length_clockText
  have hbytes := utf8Len_le (':' :: Decimal.digits s.restaurant.toNat ++
    ':' :: s.date.text ++ ':' :: s.time.clockText)
  simp only [List.length_append, List.length_cons] at hbytes
  have hsize : s.key.text.utf8ByteSize = 9 + String.utf8Len (':' ::
      Decimal.digits s.restaurant.toNat ++ ':' :: s.date.text ++ ':' :: s.time.clockText) := by
    unfold key
    rw [String.utf8ByteSize_append, String.utf8ByteSize_ofList]
    rfl
  unfold Limits.checkKey Limits.maxKeyBytes
  rw [if_neg (by omega), if_neg (by omega)]

end Slot

end Turnstile
