import Turnstile.Json.Form
import Turnstile.Proofs.Json.Scan

/-!
# Faithful forms

A form is faithful if every value is read back from what is written for it. Each way to make a form
keeps this: a record is faithful if its fields are, under names that differ (`recordOf_reads`). The
line of a value is then read back as well (`Reads.ofLine_toLine`). Where two values are written
alike, the form reads one of them at most, and reads it for both (`Reads.ofLine_eq`).
-/

namespace Turnstile.Json

variable {α β σ : Type} {τ : Type} {τs : List Type}

/-- What the form writes for the value is read as the value, whatever tokens follow. -/
structure Form.Reads (f : Form α) (a : α) : Prop where
  plain : (f.write a).Plain
  read : ∀ ts, f.read ((f.write a).tokens ++ ts) = .ok (a, ts)

def Form.Faithful (f : Form α) : Prop := ∀ a, f.Reads a

/-! ## Fields -/

section Visits

variable {visit : String → σ → Reader.Field σ} {s s' : σ} {fields : List (String × Json)}

/-- Visited in this order, the fields take the state from the one to the other. -/
inductive Visits (visit : String → σ → Reader.Field σ) : σ → List (String × Json) → σ → Prop
  | nil {s : σ} : Visits visit s [] s
  | cons {s s' s'' : σ} {name : String} {x : Json} {fields : List (String × Json)} {r : Reader σ}
      (known : visit name s = .known r) (read : ∀ ts, r (x.tokens ++ ts) = .ok (s', ts))
      (rest : Visits visit s' fields s'') : Visits visit s ((name, x) :: fields) s''

theorem Visits.fieldsFuel (h : Visits visit s fields s') {fuel : Nat}
    (hfuel : fields.length < fuel) (first : Bool) (ts : List Token) :
    Reader.fieldsFuel visit fuel first s (fieldTokens first fields ++ .braceClose :: ts) =
      .ok (s', .braceClose :: ts) := by
  induction h generalizing fuel first with
  | nil =>
    obtain ⟨fuel, rfl⟩ := Nat.exists_eq_succ_of_ne_zero (Nat.ne_of_gt hfuel)
    simp [fieldTokens, Reader.fieldsFuel]
  | cons known read _ ih =>
    obtain ⟨fuel, rfl⟩ := Nat.exists_eq_succ_of_ne_zero (Nat.ne_zero_of_lt hfuel)
    have hrest := ih (Nat.lt_of_succ_lt_succ hfuel) false
    cases first <;>
      simp [fieldTokens, Reader.fieldsFuel, Reader.fieldValue, known, Reader.mark, read, hrest,
        bind, Except.bind]

theorem length_le_fieldTokens (first : Bool) (fields : List (String × Json)) :
    fields.length ≤ (fieldTokens first fields).length := by
  induction fields generalizing first with
  | nil => exact Nat.zero_le _
  | cons p fields ih =>
    have hrest := ih false
    simp [fieldTokens]
    omega

end Visits

namespace Fields

/-- The draft in which no field is missing. -/
def full : {τs : List Type} → Row τs → Draft τs
  | [], _ => ()
  | _ :: _, (a, row) => (some a, full row)

def names : {τs : List Type} → Fields τs → List String
  | _, .nil => []
  | _, .cons name _ _ rest => name :: rest.names

/-- Each form reads the value of its field. -/
def Reads : {τs : List Type} → Fields τs → Row τs → Prop
  | _, .nil, _ => True
  | _, .cons _ form _ rest, (a, row) => form.Reads a ∧ rest.Reads row

theorem close?_full (fields : Fields τs) (row : Row τs) : fields.close? (full row) = some row := by
  induction fields with
  | nil => rfl
  | cons name form ifMissing rest ih =>
    obtain ⟨a, row⟩ := row
    simp only [close?, full, ih row]
    rfl

theorem map_fst_write (fields : Fields τs) (row : Row τs) :
    (fields.write row).map (·.1) = fields.names := by
  induction fields with
  | nil => rfl
  | cons name form ifMissing rest ih =>
    obtain ⟨a, row⟩ := row
    simp [write, names, ih row]

theorem Reads.plain {fields : Fields τs} {row : Row τs} (h : fields.Reads row) :
    ∀ p ∈ fields.write row, p.2.Plain := by
  induction fields with
  | nil => simp [write]
  | cons name form ifMissing rest ih =>
    obtain ⟨a, row⟩ := row
    obtain ⟨ha, hrow⟩ := h
    simp only [write, List.forall_mem_cons]
    exact ⟨ha.plain, ih hrow⟩

/-- The fields after the first are visited as if the first was not there. -/
theorem visits_cons {name : String} {form : Form τ} {ifMissing : Option τ} {rest : Fields τs}
    {closed : Bool} {d d' : Draft τs} {fields : List (String × Json)} (a : τ)
    (h : Visits (rest.visit closed) d fields d') (hname : name ∉ fields.map (·.1)) :
    Visits ((cons name form ifMissing rest).visit closed) (some a, d) fields (some a, d') := by
  induction h with
  | nil => exact .nil
  | @cons d d₁ d' key x fields r known read _ ih =>
    simp only [List.map_cons, List.mem_cons, not_or] at hname
    have hknown : (cons name form ifMissing rest).visit closed key (some a, d) =
        .known fun ts => (r ts).map fun p => ((some a, p.1), p.2) := by
      simp only [visit, if_neg (Ne.symm hname.1), known]
    exact .cons hknown (fun ts => by simp [read, Except.map]) (ih hname.2)

theorem Reads.visits {fields : Fields τs} {row : Row τs} (h : fields.Reads row)
    (hnames : fields.names.Nodup) (closed : Bool) :
    Visits (fields.visit closed) fields.blank (fields.write row) (full row) := by
  induction fields with
  | nil => exact .nil
  | cons name form ifMissing rest ih =>
    obtain ⟨a, row⟩ := row
    obtain ⟨ha, hrow⟩ := h
    obtain ⟨hname, hnames⟩ := List.nodup_cons.1 hnames
    rw [← map_fst_write rest row] at hname
    have hknown : (cons name form ifMissing rest).visit closed name (none, rest.blank) =
        .known fun ts => (form.read ts).map fun p => ((some p.1, rest.blank), p.2) :=
      if_pos rfl
    exact .cons hknown (fun ts => by simp [ha.read, Except.map])
      (visits_cons a (ih hrow hnames) hname)

end Fields

/-! ## Forms -/

namespace Form

variable {f : Form α} {a : α}

theorem Reads.ofLine_toLine (h : f.Reads a) : f.ofLine (f.toLine a) = .ok a := by
  have hread := h.read []
  rw [List.append_nil] at hread
  simp [ofLine, toLine, Reader.run, scan_line h.plain, hread]

/-- Of the values that are written alike, the one that is read is read for each. -/
theorem Reads.ofLine_eq {b : α} (h : f.Reads b) (hwrite : f.write b = f.write a) :
    f.ofLine (f.toLine a) = .ok b := by
  have hline : f.toLine b = f.toLine a := congrArg Json.line hwrite
  rw [← hline]
  exact h.ofLine_toLine

theorem nat_reads {n bound : Nat} (h : n < bound) (hbound : bound ≤ UInt64.size) :
    (nat bound).Reads n :=
  ⟨.num (Nat.lt_of_lt_of_le h hbound), fun ts => by simp [nat, tokens, Reader.nat, h]⟩

theorem uint64_faithful : uint64.Faithful := fun n =>
  have hn : n.toNat < UInt64.size := n.toNat_lt
  ⟨.num hn, fun ts => by simp [uint64, tokens, Reader.nat, hn, Except.map]⟩

theorem uint32_faithful : uint32.Faithful := fun n =>
  have hn : n.toNat < UInt32.size := n.toNat_lt
  ⟨.num (Nat.lt_trans hn (by decide)), fun ts => by
    simp [uint32, tokens, Reader.nat, hn, Except.map]⟩

theorem bool_faithful : bool.Faithful := fun b =>
  ⟨.bool b, fun ts => by cases b <;> rfl⟩

theorem text_faithful : text.Faithful := fun s =>
  ⟨.text s, fun ts => by simp [text, tokens, Reader.text]⟩

theorem ofText_reads {read : List Char → Option α} {write : α → List Char}
    (h : read (write a) = some a) : (ofText read write).Reads a :=
  ⟨.text _, fun ts => by simp [ofText, tokens, Reader.text, Reader.refine, h]⟩

theorem map_faithful {there : α → β} {back : β → α} (hf : f.Faithful)
    (h : ∀ b, there (back b) = b) : (f.map there back).Faithful := fun b =>
  ⟨(hf (back b)).plain, fun ts => by simp [map, (hf (back b)).read, h, Except.map]⟩

/-- Only `null` starts with the token of `null`. -/
theorem tokens_append_ne {j : Json} (hj : j ≠ .null) (ts ts' : List Token) :
    j.tokens ++ ts ≠ .word .null :: ts' := by
  cases j with
  | null => exact absurd rfl hj
  | bool b => cases b <;> simp [tokens]
  | _ => simp [tokens]

theorem optional_reads {o : Option α} (ho : ∀ a ∈ o, f.Reads a)
    (hnull : ∀ a, f.write a ≠ .null) : f.optional.Reads o := by
  cases o with
  | none => exact ⟨.null, fun ts => rfl⟩
  | some a =>
    have ha : f.Reads a := ho a rfl
    refine ⟨ha.plain, fun ts => ?_⟩
    simp only [optional, Reader.optional]
    split
    · rename_i h
      exact absurd h (tokens_append_ne (hnull a) _ _)
    · simp [ha.read, Except.map]

theorem oneOf_faithful [DecidableEq α] {names : List (String × α)} {name : α → String}
    (h : ∀ a, named? names (name a) = some a) : (oneOf names name).Faithful := fun a =>
  ⟨.text _, fun ts => by simp [oneOf, tokens, h]⟩

theorem variant_faithful (name : String) (hf : f.Faithful) : (variant name f).Faithful := fun a =>
  ⟨.record (by simpa using (hf a).plain), fun ts => by
    simp [variant, tokens, fieldTokens, Reader.refine, Reader.text, Reader.mark, (hf a).read,
      endVariant, bind, Except.bind, pure, Except.pure]⟩

theorem recordOf_reads {closed : Bool} {fields : Fields τs} {close : Row τs → Option α}
    {row : α → Row τs} (hnames : fields.names.Nodup) (hrow : fields.Reads (row a))
    (hclose : close (row a) = some a) : (recordOf closed fields close row).Reads a := by
  refine ⟨.record hrow.plain, fun ts => ?_⟩
  have hfuel : (fields.write (row a)).length <
      (fieldTokens true (fields.write (row a)) ++ .braceClose :: ts).length + 1 := by
    have hlen := length_le_fieldTokens true (fields.write (row a))
    rw [List.length_append]
    omega
  have hfields := (hrow.visits hnames closed).fieldsFuel hfuel true ts
  simp only [recordOf, tokens, List.cons_append, List.append_assoc, List.nil_append,
    Reader.recordBody, hfields, bind, Except.bind, fields.close?_full, Option.bind_some, hclose]
  simp [Reader.mark, pure, Except.pure]

theorem record_reads {fields : Fields τs} {ofRow : Row τs → α} {toRow : α → Row τs}
    (hnames : fields.names.Nodup) (hrow : fields.Reads (toRow a)) (h : ofRow (toRow a) = a) :
    (record fields ofRow toRow).Reads a :=
  recordOf_reads hnames hrow (congrArg some h)

theorem record_faithful {fields : Fields τs} {ofRow : Row τs → α} {toRow : α → Row τs}
    (hnames : fields.names.Nodup) (hrow : ∀ a, fields.Reads (toRow a))
    (h : ∀ a, ofRow (toRow a) = a) : (record fields ofRow toRow).Faithful := fun a =>
  record_reads hnames (hrow a) (h a)

end Form

end Turnstile.Json
