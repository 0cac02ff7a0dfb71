import Mathlib.Tactic.SplitIfs
import Turnstile.Calendar.TimeOfDay
import Turnstile.Proofs.Numerals

/-!
# The texts of dates and times

Every date is read back from its text, signed years included. Of a time of day, what is read back is
what a clock shows (`TimeOfDay.shown`): the time itself, unless it is a leap second within a minute,
which looks like the second after it. The readers drop blanks before numbers and marks; in a written
text there are none to drop.
-/

namespace Turnstile

namespace Text

theorem isBlank_of_isDigit {c : Char} (h : c.isDigit = true) : isBlank c = false := by
  simp only [Char.isDigit, Bool.and_eq_true, decide_eq_true_iff] at h
  have hlow : 48 ≤ c.toNat := UInt32.le_iff_toNat_le.1 h.1
  have hhigh : c.toNat ≤ 57 := UInt32.le_iff_toNat_le.1 h.2
  simp only [isBlank, Bool.or_eq_false_iff, Bool.and_eq_false_iff, decide_eq_false_iff_not,
    beq_eq_false_iff_ne]
  omega

theorem dropBlanks_padded (width n : Nat) (rest : List Char) :
    dropBlanks (Decimal.padded width n ++ rest) = Decimal.padded width n ++ rest := by
  obtain ⟨c, s, hs, hc⟩ := Decimal.exists_padded_eq_cons width n
  rw [hs]
  exact dropBlanks_of_not_isBlank (isBlank_of_isDigit hc)

end Text

open Text

namespace Date

variable {y : Int} {n : Nat} {c : Char} {rest : List Char}

/-- The sign of a year that does not have four digits. -/
def sign (y : Int) : Char := if y < 0 then '-' else '+'

theorem yearText_plain (h : 0 ≤ y ∧ y ≤ 9999) : yearText y = Decimal.padded 4 y.toNat := if_pos h

theorem yearText_signed (h : ¬ (0 ≤ y ∧ y ≤ 9999)) :
    yearText y = sign y :: Decimal.padded 4 y.natAbs := if_neg h

theorem day_lt (d : Date) : d.day < 100 := by
  obtain ⟨-, -, -, hday⟩ := d.exists_
  have hdays : Calendar.daysIn d.year d.month ≤ 31 := by
    unfold Calendar.daysIn
    split_ifs <;> omega
  omega

theorem month_lt (d : Date) : d.month < 100 := by
  obtain ⟨-, ⟨-, hmonth⟩, -⟩ := d.exists_
  omega

theorem readYear?_yearText (y : Int) (rest : List Char) :
    readYear? (yearText y ++ '-' :: rest) = some (y, '-' :: rest) := by
  have hdash : ∀ c ∈ ('-' :: rest).head?, c.isDigit = false := by
    rintro _ ⟨⟩
    rfl
  unfold readYear?
  by_cases hy : 0 ≤ y ∧ y ≤ 9999
  · have hread : Decimal.upTo? 4 (Decimal.padded 4 y.toNat ++ '-' :: rest) =
        some (y.toNat, '-' :: rest) := Decimal.upTo?_padded (by decide) (by omega)
    have hyear : (y.toNat : Int) = y := by omega
    -- no sign is read, for the first character is a digit
    obtain ⟨c, s, hs, hc⟩ := Decimal.exists_padded_eq_cons 4 y.toNat
    rw [yearText_plain hy, dropBlanks_padded]
    rw [hs, List.cons_append] at hread ⊢
    split
    · rename_i h
      rw [(List.cons.inj h).1] at hc
      cases hc
    · rename_i h
      rw [(List.cons.inj h).1] at hc
      cases hc
    · simp only [hread, Option.map_some, hyear]
  · rw [yearText_signed hy]
    by_cases hneg : y < 0
    · have hblank : isBlank '-' = false := by decide
      simp only [sign, if_pos hneg, List.cons_append, dropBlanks_of_not_isBlank hblank,
        Decimal.any?_padded hdash, Option.map_some]
      congr 2
      omega
    · have hblank : isBlank '+' = false := by decide
      simp only [sign, if_neg hneg, List.cons_append, dropBlanks_of_not_isBlank hblank,
        Decimal.any?_padded hdash, Option.map_some]
      congr 2
      omega

theorem readTwo?_padded (h : n < 100) (rest : List Char) :
    readTwo? (Decimal.padded 2 n ++ rest) = some (n, rest) := by
  rw [readTwo?, dropBlanks_padded, Decimal.upTo?_padded Nat.two_pos h]

theorem readMark?_cons (h : isBlank c = false) (rest : List Char) :
    readMark? c (c :: rest) = some rest := by
  simp [readMark?, dropBlanks_of_not_isBlank h]

theorem read?_text (d : Date) (rest : List Char) : read? (d.text ++ rest) = some (d, rest) := by
  have hblank : isBlank '-' = false := by decide
  have hdate : ofYmd? d.year d.month d.day = some d := dif_pos d.exists_
  simp only [read?, text, List.append_assoc, List.cons_append, readYear?_yearText,
    readMark?_cons hblank, readTwo?_padded d.month_lt, readTwo?_padded d.day_lt, hdate,
    Option.bind_eq_bind, Option.bind_some, Option.pure_def]

theorem ofText?_text (d : Date) : ofText? d.text = some d := by
  have hread := d.read?_text []
  rw [List.append_nil] at hread
  simp [ofText?, hread, dropBlanks]

end Date

namespace TimeOfDay

open Date (readMark?_cons readTwo?_padded)

variable {n bound : Nat} {t : TimeOfDay}

/-! ### What a clock shows -/

theorem hour_lt (t : TimeOfDay) : t.hour < 24 :=
  Nat.div_lt_of_lt_mul t.seconds_lt

theorem minute_lt (t : TimeOfDay) : t.minute < 60 := Nat.mod_lt _ (by decide)

theorem second_le (t : TimeOfDay) : t.second ≤ 60 := by
  have hnanos := t.nanos_lt
  unfold second
  omega

theorem fraction_lt (t : TimeOfDay) : t.fraction < 1_000_000_000 := Nat.mod_lt _ (by decide)

/-- A leap second is the last second of its minute. -/
def LeapIsLast (t : TimeOfDay) : Prop := 1_000_000_000 ≤ t.nanos → t.seconds % 60 = 59

instance (t : TimeOfDay) : Decidable t.LeapIsLast :=
  inferInstanceAs (Decidable (1_000_000_000 ≤ t.nanos → t.seconds % 60 = 59))

/-- The time that `t` is taken for by its clock. -/
def shown (t : TimeOfDay) : TimeOfDay :=
  if h : t.LeapIsLast then t
  else {
    seconds := t.seconds + 1
    nanos := t.nanos - 1_000_000_000
    seconds_lt := by
      have hlast : t.seconds % 60 ≠ 59 := fun he => h fun _ => he
      have hseconds := t.seconds_lt
      omega
    nanos_lt := Nat.lt_of_le_of_lt (Nat.sub_le ..) t.nanos_lt }

theorem shown_of_leapIsLast (h : t.LeapIsLast) : t.shown = t := dif_pos h

theorem leap_of_not_leapIsLast (h : ¬ t.LeapIsLast) :
    1_000_000_000 ≤ t.nanos ∧ t.seconds % 60 ≠ 59 := Classical.not_imp.1 h

theorem leapIsLast_shown (t : TimeOfDay) : t.shown.LeapIsLast := by
  unfold shown
  split
  · assumption
  · intro hleap
    have hnanos := t.nanos_lt
    simp only at hleap
    omega

theorem shown_eq_self_iff : t.shown = t ↔ t.LeapIsLast :=
  ⟨fun h => h ▸ t.leapIsLast_shown, shown_of_leapIsLast⟩

/-- A clock does not tell the two times apart. -/
theorem clock_shown (t : TimeOfDay) : t.shown.hour = t.hour ∧ t.shown.minute = t.minute ∧
    t.shown.second = t.second ∧ t.shown.fraction = t.fraction := by
  by_cases h : t.LeapIsLast
  · rw [shown_of_leapIsLast h]
    exact ⟨rfl, rfl, rfl, rfl⟩
  · obtain ⟨hleap, hlast⟩ := leap_of_not_leapIsLast h
    have hnanos := t.nanos_lt
    unfold hour minute second fraction shown
    simp only [dif_neg h]
    omega

theorem text_shown (t : TimeOfDay) : t.shown.text = t.text := by
  obtain ⟨hhour, hminute, hsecond, hfraction⟩ := t.clock_shown
  unfold text clockText
  rw [hhour, hminute, hsecond, hfraction]

/-- Of the times that a clock shows alike, the shown one is set. -/
theorem ofClock?_eq (t : TimeOfDay) :
    ofClock? t.hour t.minute t.second t.fraction = some t.shown := by
  have hseconds := t.seconds_lt
  have hnanos := t.nanos_lt
  unfold ofClock?
  rw [dif_pos ⟨⟨t.hour_lt, t.minute_lt⟩, t.second_le, t.fraction_lt⟩]
  refine congrArg some ?_
  by_cases h : t.LeapIsLast
  · rw [shown_of_leapIsLast h]
    have hlast : 1_000_000_000 ≤ t.nanos → t.seconds % 60 = 59 := h
    rw [TimeOfDay.mk.injEq]
    unfold hour minute second fraction
    omega
  · obtain ⟨hleap, hlast⟩ := leap_of_not_leapIsLast h
    unfold shown
    rw [dif_neg h, TimeOfDay.mk.injEq]
    unfold hour minute second fraction
    omega

/-! ### The text -/

theorem lengths (t : TimeOfDay) : (Decimal.padded 2 t.hour).length = 2 ∧
    (Decimal.padded 2 t.minute).length = 2 ∧ (Decimal.padded 2 t.second).length = 2 := by
  have hh := t.hour_lt
  have hm := t.minute_lt
  have hs := t.second_le
  exact ⟨Decimal.length_padded Nat.two_pos (by omega), Decimal.length_padded Nat.two_pos (by omega),
    Decimal.length_padded Nat.two_pos (by omega)⟩

theorem length_clockText (t : TimeOfDay) : t.clockText.length = 8 := by
  obtain ⟨hh, hm, hs⟩ := t.lengths
  unfold clockText
  simp only [List.length_append, List.length_cons, hh, hm, hs]

theorem readPart?_padded (h : n < bound) (hn : n < 100) (rest : List Char) :
    readPart? bound (':' :: (Decimal.padded 2 n ++ rest)) = some (n, rest) := by
  have hblank : isBlank ':' = false := by decide
  simp [readPart?, readMark?_cons hblank, readTwo?_padded hn, h]

theorem readFraction?_padded {k : Nat} (hk : 0 < k) (hk' : k ≤ 9) (h : n < 10 ^ k) :
    readFraction? ('.' :: Decimal.padded k n) = some (n * 10 ^ (9 - k), []) := by
  have hlen := Decimal.length_padded hk h
  have hread := @Decimal.upTo?_append 9 _ [] (Decimal.padded_ne_nil k n)
    (fun _ => Decimal.isDigit_of_mem_padded) (.inr ⟨by omega, by simp⟩)
  rw [List.append_nil, Decimal.value_padded] at hread
  simp [readFraction?, hread, hlen]

theorem readFraction?_fractionText (h : n < 1_000_000_000) :
    readFraction? (fractionText n) = some (n, []) := by
  unfold fractionText
  split_ifs with h0 h3 h6
  · subst h0
    rfl
  · rw [readFraction?_padded (by decide) (by decide) (by omega)]
    congr 2
    omega
  · rw [readFraction?_padded (by decide) (by decide) (by omega)]
    congr 2
    omega
  · rw [readFraction?_padded (by decide) (by decide) h]
    simp

theorem readSeconds?_text (t : TimeOfDay) :
    readSeconds? (':' :: (Decimal.padded 2 t.second ++ fractionText t.fraction)) =
      some ((t.second, t.fraction), []) := by
  have hsecond := t.second_le
  simp [readSeconds?, readPart?_padded (by omega : t.second < 61) (by omega),
    readFraction?_fractionText t.fraction_lt]

theorem text_eq (t : TimeOfDay) : t.text = Decimal.padded 2 t.hour ++
    ':' :: (Decimal.padded 2 t.minute ++
      ':' :: (Decimal.padded 2 t.second ++ fractionText t.fraction)) := by
  simp only [text, clockText, List.append_assoc, List.cons_append]

theorem ofText?_text (t : TimeOfDay) : ofText? t.text = some t.shown := by
  have hhour := t.hour_lt
  have hminute := t.minute_lt
  simp only [ofText?, text_eq, Option.bind_eq_bind, Option.bind_some,
    readTwo?_padded (by omega : t.hour < 100), readPart?_padded hminute (by omega),
    readSeconds?_text, Option.getD_some, ofClock?_eq]
  rfl

end TimeOfDay

namespace DateTime

open Date (readMark?_cons readTwo?_padded)

def LeapIsLast (t : DateTime) : Prop := t.time.LeapIsLast

def shown (t : DateTime) : DateTime := { t with time := t.time.shown }

theorem shown_eq_self_iff {t : DateTime} : t.shown = t ↔ t.LeapIsLast := by
  obtain ⟨date, time⟩ := t
  unfold shown LeapIsLast
  rw [DateTime.mk.injEq, eq_self_iff_true, true_and, TimeOfDay.shown_eq_self_iff]

theorem text_shown (t : DateTime) : t.shown.text = t.text := by
  unfold text shown
  rw [TimeOfDay.text_shown]

theorem ofText?_text (t : DateTime) : ofText? t.text = some t.shown := by
  have hblank : isBlank 'T' = false := by decide
  have hhour := t.time.hour_lt
  have hminute := t.time.minute_lt
  simp only [ofText?, text, TimeOfDay.text_eq, Option.bind_eq_bind, Option.bind_some,
    Date.read?_text, readMark?_cons hblank, readTwo?_padded (by omega : t.time.hour < 100),
    TimeOfDay.readPart?_padded hminute (by omega), TimeOfDay.readSeconds?_text,
    TimeOfDay.ofClock?_eq]
  rfl

end DateTime

end Turnstile
