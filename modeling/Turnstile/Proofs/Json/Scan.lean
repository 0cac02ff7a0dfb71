import Turnstile.Json.Token
import Turnstile.Json.Value
import Turnstile.Proofs.Numerals

/-!
# Written values as tokens

`Json.tokens` are the tokens of a value, and `scan_line` says that its text is cut into these. A
value is followed by more text, which must not look like the rest of a number (`Stops`); commas and
closing brackets do not.
-/

namespace Turnstile.Json

open Text Token

mutual

def tokens : Json → List Token
  | null => [.word .null]
  | bool b => [.word (if b then .true else .false)]
  | num n => [.nat n.toNat]
  | text s => [.text s.toList]
  | list xs => .bracketOpen :: itemTokens true xs ++ [.bracketClose]
  | record fields => .braceOpen :: fieldTokens true fields ++ [.braceClose]

/-- A comma stands before every item except the first. -/
def itemTokens (first : Bool) : List Json → List Token
  | [] => []
  | x :: xs => (if first then [] else [.comma]) ++ x.tokens ++ itemTokens false xs

/-- A comma stands before every field except the first. -/
def fieldTokens (first : Bool) : List (String × Json) → List Token
  | [] => []
  | (name, x) :: fields =>
    (if first then [] else [.comma]) ++ .text name.toList :: .colon :: x.tokens ++
      fieldTokens false fields

end

/-- All numbers in the value are natural and fit 64 bits. -/
inductive Plain : Json → Prop
  | null : Plain .null
  | bool (b : Bool) : Plain (.bool b)
  | num {n : Nat} (h : n < UInt64.size) : Plain (.num n)
  | text (s : String) : Plain (.text s)
  | list {xs : List Json} (h : ∀ x ∈ xs, Plain x) : Plain (.list xs)
  | record {fields : List (String × Json)} (h : ∀ p ∈ fields, Plain p.2) : Plain (.record fields)

/-- The text does not go on with a number that stands before it. -/
def Stops (rest : List Char) : Prop :=
  ∀ c ∈ rest.head?, c.isDigit = false ∧ c ≠ '.' ∧ isExponentMark c = false

variable {c : Char} {rest : List Char}

theorem stops_cons (hd : c.isDigit = false) (hp : c ≠ '.') (he : isExponentMark c = false) :
    Stops (c :: rest) := by
  rintro _ ⟨⟩
  exact ⟨hd, hp, he⟩

/-! ## Texts -/

theorem hexValue?_hexDigit {d : Nat} (h : d < 16) : hexValue? (hexDigit d) = some d := by
  revert d
  decide

/-- A character is escaped by a letter, or by its number, or stands for itself. -/
theorem escape_cases (c : Char) :
    (∃ e, escape c = ['\\', e] ∧ e ≠ 'u' ∧ unescape? e = some c) ∨
      (escape c = ['\\', 'u', '0', '0', hexDigit (c.toNat / 16), hexDigit (c.toNat % 16)] ∧
        c.toNat < 32) ∨
      escape c = [c] ∧ c ≠ '"' ∧ c ≠ '\\' ∧ ¬ c.toNat < 32 := by
  unfold escape
  split
  case h_8 hquote hback _ _ _ _ _ =>
    split
    · exact .inr (.inl ⟨rfl, ‹_›⟩)
    · exact .inr (.inr ⟨rfl, hquote, hback, ‹_›⟩)
  all_goals exact .inl ⟨_, rfl, by decide, rfl⟩

/-- The piece is one character of the text. -/
def StandsFor (p : Piece) (c : Char) : Prop := p = .char c ∨ p = .unit c.toNat ∧ c.toNat < 32

theorem assemble_cons {p : Piece} {c : Char} (h : StandsFor p c) (pieces : List Piece)
    (acc : List Char) : assemble (p :: pieces) acc = assemble pieces (c :: acc) := by
  rcases h with rfl | ⟨rfl, hc⟩
  · rfl
  · have hlow : ¬ (0xDC00 ≤ c.toNat ∧ c.toNat ≤ 0xDFFF) := by omega
    have hhigh : ¬ (0xD800 ≤ c.toNat ∧ c.toNat ≤ 0xDBFF) := by omega
    have hpair : ¬ (0xD800 ≤ c.toNat ∧ c.toNat ≤ 0xDFFF) := by omega
    cases pieces with
    | nil => simp only [assemble, hpair, if_false, Char.ofNat_toNat]
    | cons q pieces =>
      cases q with
      | char d => simp only [assemble, hpair, if_false, Char.ofNat_toNat]
      | unit n => rw [assemble, if_neg hlow, if_neg hhigh, Char.ofNat_toNat]

theorem scanFrom_escape (pieces : List Piece) (c : Char) (rest : List Char) :
    ∃ p, StandsFor p c ∧
      scanFrom (.inText pieces) (escape c ++ rest) = scanFrom (.inText (p :: pieces)) rest := by
  rcases escape_cases c with ⟨e, he, hu, hc⟩ | ⟨he, hc⟩ | ⟨he, hquote, hback, hc⟩
  · refine ⟨.char c, .inl rfl, ?_⟩
    simp [he, scanFrom, step, hu, hc]
  · refine ⟨.unit c.toNat, .inr ⟨rfl, hc⟩, ?_⟩
    have hzero : hexValue? '0' = some 0 := rfl
    have hhigh := hexValue?_hexDigit (d := c.toNat / 16) (by omega)
    have hlow := hexValue?_hexDigit (d := c.toNat % 16) (by omega)
    have hvalue : 16 * (c.toNat / 16) + c.toNat % 16 = c.toNat := Nat.div_add_mod _ _
    simp [he, scanFrom, step, hzero, hhigh, hlow, hvalue]
  · refine ⟨.char c, .inl rfl, ?_⟩
    simp [he, scanFrom, step, hquote, hback, hc]

theorem scanFrom_inText {pieces : List Piece} {done : List Char}
    (h : ∀ acc, assemble pieces acc = some (done ++ acc)) (s rest : List Char) :
    scanFrom (.inText pieces) (s.flatMap escape ++ '"' :: rest) =
      .text (done ++ s) :: scanFrom .between rest := by
  induction s generalizing pieces done with
  | nil => simp [scanFrom, step, closeText, h]
  | cons c s ih =>
    obtain ⟨p, hp, hscan⟩ := scanFrom_escape pieces c (s.flatMap escape ++ '"' :: rest)
    have hnext : ∀ acc, assemble (p :: pieces) acc = some ((done ++ [c]) ++ acc) := by
      intro acc
      rw [assemble_cons hp, h, List.append_assoc, List.singleton_append]
    rw [List.flatMap_cons, List.append_assoc, hscan, ih hnext, List.append_assoc,
      List.singleton_append]

theorem scanFrom_quoted (s : String) (rest : List Char) :
    scanFrom .between (quoted s ++ rest) = .text s.toList :: scanFrom .between rest := by
  have hbody := @scanFrom_inText [] [] (fun _ => rfl) s.toList rest
  simpa [quoted, scanFrom, step, start, isJsonBlank] using hbody

/-! ## Numbers -/

theorem closeWhole_of_lt {n : Nat} (h : n < UInt64.size) : closeWhole false n = .nat n := by
  have hsmall : UInt64.size ≤ overflow := by decide +kernel
  have hhuge : Numeral.isHuge { negative := false, digits := n } = false := by
    simp [Numeral.isHuge]
    omega
  simp [closeWhole, hhuge]

theorem start_of_isDigit (hc : c.isDigit = true) (hzero : c ≠ '0') :
    start c = ([], .whole false (Decimal.digitValue c)) := by
  have hblank : isJsonBlank c = false := by
    rw [← Bool.not_eq_true]
    intro h
    simp only [isJsonBlank, Bool.or_eq_true, beq_iff_eq] at h
    rcases h with ((rfl | rfl) | rfl) | rfl <;> cases hc
  unfold start
  rw [hblank, if_neg Bool.false_ne_true]
  split
  case h_13 => rw [if_pos hc]
  case h_12 => exact absurd rfl hzero
  all_goals cases hc

theorem scanFrom_whole {s : List Char} (hs : ∀ c ∈ s, c.isDigit = true) (hstop : Stops rest)
    (n : Nat) : scanFrom (.whole false n) (s ++ rest) =
      closeWhole false (Decimal.valueFrom n s) :: scanFrom .between rest := by
  induction s generalizing n with
  | nil =>
    cases rest with
    | nil => rfl
    | cons c rest =>
      obtain ⟨hd, hp, he⟩ := hstop c rfl
      simp [scanFrom, step, hd, hp, he, after, Decimal.valueFrom]
  | cons c s ih =>
    have hc := hs c (List.mem_cons_self ..)
    have hrest := ih (fun d hd => hs d (List.mem_cons_of_mem _ hd)) (10 * n + Decimal.digitValue c)
    simpa [scanFrom, step, hc, Decimal.valueFrom] using hrest

theorem scanFrom_digits {n : Nat} (h : n < UInt64.size) (hstop : Stops rest) :
    scanFrom .between (Decimal.digits n ++ rest) = .nat n :: scanFrom .between rest := by
  by_cases hn : n = 0
  · subst hn
    show scanFrom (.leadingZero false) rest = _
    cases rest with
    | nil => simp [scanFrom, finish, closeWhole_of_lt h]
    | cons c rest =>
      obtain ⟨hd, hp, he⟩ := hstop c rfl
      simp [scanFrom, step, hd, hp, he, after, closeWhole_of_lt h]
  · obtain ⟨c, s, hs⟩ := List.exists_cons_of_ne_nil (Decimal.digits_ne_nil n)
    have hdigits : ∀ d ∈ c :: s, d.isDigit = true := by
      rw [← hs]
      exact fun _ => Decimal.isDigit_of_mem_digits
    have hzero : c ≠ '0' := by
      rintro rfl
      exact hn (Decimal.eq_zero_of_head?_digits (by rw [hs]; rfl))
    have hvalue : Decimal.valueFrom (Decimal.digitValue c) s = n := by
      have := Decimal.value_digits n
      rw [hs] at this
      simpa [Decimal.value, Decimal.valueFrom] using this
    have hscan := scanFrom_whole (fun d hd => hdigits d (List.mem_cons_of_mem _ hd)) hstop
      (Decimal.digitValue c)
    rw [hs, List.cons_append, scanFrom, step,
      start_of_isDigit (hdigits c (List.mem_cons_self ..)) hzero, List.nil_append, hscan, hvalue,
      closeWhole_of_lt h]

/-! ## Values -/

theorem scanFrom_word (w : Word) (rest : List Char) :
    scanFrom .between (w.chars ++ rest) = .word w :: scanFrom .between rest := by
  have hend : scanFrom (.inWord w []) rest = .word w :: scanFrom .between rest := by
    cases rest <;> simp [scanFrom, finish, step, after]
  cases w <;> simpa [Word.chars, scanFrom, step, start, isJsonBlank] using hend

/-- The text of the value is cut into its tokens. -/
def Cuts (j : Json) : Prop :=
  ∀ rest, Stops rest → scanFrom .between (j.chars ++ rest) = j.tokens ++ scanFrom .between rest

theorem scanFrom_mark {t : Token} (h : start c = ([t], .between)) (rest : List Char) :
    scanFrom .between (c :: rest) = t :: scanFrom .between rest := by
  simp [scanFrom, step, h]

theorem scanFrom_items {xs : List Json} (h : ∀ x ∈ xs, x.Cuts) (rest : List Char) :
    scanFrom .between (itemChars xs ++ ']' :: rest) =
      itemTokens true xs ++ .bracketClose :: scanFrom .between rest := by
  induction xs with
  | nil => exact scanFrom_mark rfl rest
  | cons x xs ih =>
    have hx := h x (List.mem_cons_self ..)
    have hxs := ih fun y hy => h y (List.mem_cons_of_mem _ hy)
    cases xs with
    | nil =>
      have hscan := hx (']' :: rest) (stops_cons rfl (by decide) rfl)
      rw [scanFrom_mark rfl] at hscan
      simpa [itemChars, itemTokens] using hscan
    | cons y ys =>
      have hscan := hx (',' :: (itemChars (y :: ys) ++ ']' :: rest))
        (stops_cons rfl (by decide) rfl)
      rw [scanFrom_mark rfl, hxs] at hscan
      simpa [itemChars, itemTokens] using hscan

theorem scanFrom_fields {fields : List (String × Json)} (h : ∀ p ∈ fields, p.2.Cuts)
    (rest : List Char) : scanFrom .between (fieldChars fields ++ '}' :: rest) =
      fieldTokens true fields ++ .braceClose :: scanFrom .between rest := by
  have hcolon : ∀ rest, scanFrom .between (':' :: rest) = .colon :: scanFrom .between rest :=
    scanFrom_mark rfl
  induction fields with
  | nil => exact scanFrom_mark rfl rest
  | cons p fields ih =>
    obtain ⟨name, x⟩ := p
    have hx : x.Cuts := h (name, x) (List.mem_cons_self ..)
    have hfields := ih fun q hq => h q (List.mem_cons_of_mem _ hq)
    cases fields with
    | nil =>
      have hscan := hx ('}' :: rest) (stops_cons rfl (by decide) rfl)
      rw [scanFrom_mark rfl] at hscan
      simp [fieldChars, fieldTokens, scanFrom_quoted, hcolon, hscan]
    | cons q fields =>
      have hscan := hx (',' :: (fieldChars (q :: fields) ++ '}' :: rest))
        (stops_cons rfl (by decide) rfl)
      rw [scanFrom_mark rfl, hfields] at hscan
      obtain ⟨name', x'⟩ := q
      simpa [fieldChars, fieldTokens, scanFrom_quoted, hcolon] using hscan

theorem Plain.cuts {j : Json} (h : j.Plain) : j.Cuts := by
  induction h with
  | null => exact fun rest _ => scanFrom_word .null rest
  | bool b =>
    cases b
    · exact fun rest _ => scanFrom_word .false rest
    · exact fun rest _ => scanFrom_word .true rest
  | num h => exact fun rest hstop => scanFrom_digits h hstop
  | text s => exact fun rest _ => scanFrom_quoted s rest
  | list _ ih =>
    intro rest _
    simp only [chars, tokens, List.cons_append, List.append_assoc, List.nil_append]
    rw [scanFrom_mark rfl, scanFrom_items ih]
  | record _ ih =>
    intro rest _
    simp only [chars, tokens, List.cons_append, List.append_assoc, List.nil_append]
    rw [scanFrom_mark rfl, scanFrom_fields ih]

theorem scan_line {j : Json} (h : j.Plain) : scan j.line = j.tokens := by
  have hstop : Stops [] := by
    rintro _ ⟨⟩
  have hscan := h.cuts [] hstop
  simpa [scan, line, scanFrom, finish] using hscan

end Turnstile.Json
