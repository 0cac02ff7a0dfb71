import Mathlib.Data.List.Nodup
import Turnstile.Proofs.Numerals
import Turnstile.Proofs.Settings

/-!
# Settings and their variables

Each field of the settings has one variable, and all are read alike: the text of the variable, if
the kind of the field takes it, and else the default (`get_ofLookup`). So the bounds and the round
trip are facts about the five kinds. What a kind reads is within its bounds
(`Kind.admits_of_read?`), and a value within them is read from the text that renders it
(`Kind.read?_render`).
-/

namespace Turnstile.Settings

open Text

/-! ## Kinds of fields -/

inductive Kind where
  | scope
  | rate
  | interval
  | lifetime
  | wait

namespace Kind

abbrev Value : Kind → Type
  | scope => RateScope
  | rate => UInt32
  | interval | lifetime | wait => Duration

def read? : (k : Kind) → String → Option k.Value
  | scope => scope?
  | rate => permits?
  | interval => millis? isInterval
  | lifetime => millis? isLifetime
  | wait => millis? isWait

/-- The value is within the bounds of its kind. -/
def Admits : (k : Kind) → k.Value → Prop
  | scope, _ => True
  | rate, n => 1 ≤ n ∧ n ≤ Limits.maxRate
  | interval, d => Duration.zero < d ∧ d ≤ Limits.maxInterval
  | lifetime, d => Limits.minLifetime ≤ d
  | wait, d => d ≤ Limits.maxWait

/-- A duration is a whole number of milliseconds, and the number fits 64 bits. -/
def IsWhole : (k : Kind) → k.Value → Prop
  | scope, _ | rate, _ => True
  | interval, d | lifetime, d | wait, d =>
    1_000_000 ∣ d.nanos ∧ d.nanos / 1_000_000 < UInt64.size

/-- Numbers are written in decimal, and durations as their number of milliseconds. -/
def render : (k : Kind) → k.Value → String
  | scope, .whole => "whole"
  | scope, .perClient => "per_client"
  | rate, n => String.ofList (Decimal.digits n.toNat)
  | interval, d | lifetime, d | wait, d => String.ofList (Decimal.digits (d.nanos / 1_000_000))

instance : (k : Kind) → (x : k.Value) → Decidable (k.Admits x)
  | scope, _ => inferInstanceAs (Decidable True)
  | rate, n => inferInstanceAs (Decidable (1 ≤ n ∧ n ≤ Limits.maxRate))
  | interval, d => inferInstanceAs (Decidable (Duration.zero < d ∧ d ≤ Limits.maxInterval))
  | lifetime, d => inferInstanceAs (Decidable (Limits.minLifetime ≤ d))
  | wait, d => inferInstanceAs (Decidable (d ≤ Limits.maxWait))

instance : (k : Kind) → (x : k.Value) → Decidable (k.IsWhole x)
  | scope, _ | rate, _ => inferInstanceAs (Decidable True)
  | interval, d | lifetime, d | wait, d =>
    inferInstanceAs (Decidable (1_000_000 ∣ d.nanos ∧ d.nanos / 1_000_000 < UInt64.size))

end Kind

section Reading

variable {text : String} {n bound : Nat} {d : Duration} {accept : Duration → Bool}

theorem numeral?_digits (h : n < bound) :
    numeral? bound (String.ofList (Decimal.digits n)) = some n := by
  simp [numeral?, Decimal.ofText?_digits, h]

theorem isRate_iff {p : UInt32} :
    (0 < p && p ≤ Limits.maxRate) = true ↔ Kind.rate.Admits p := by
  simp only [Bool.and_eq_true, decide_eq_true_iff, Kind.Admits, UInt32.lt_iff_toNat_lt,
    UInt32.le_iff_toNat_le]
  rfl

theorem isWait_iff : isWait d = true ↔ Kind.wait.Admits d := decide_eq_true_iff

theorem isLifetime_iff : isLifetime d = true ↔ Kind.lifetime.Admits d := decide_eq_true_iff

theorem isInterval_iff : isInterval d = true ↔ Kind.interval.Admits d := by
  have hzero : d.isZero = false ↔ Duration.zero < d := by
    refine Iff.trans ?_ Nat.pos_iff_ne_zero.symm
    exact beq_eq_false_iff_ne
  simp [isInterval, Kind.Admits, hzero]

theorem isWhole_of_millis? (h : millis? accept text = some d) :
    1_000_000 ∣ d.nanos ∧ d.nanos / 1_000_000 < UInt64.size := by
  obtain ⟨n, -, rfl⟩ := Option.map_eq_some_iff.1 (Option.filter_eq_some_iff.1 h).1
  have hn := (UInt64.ofNat n).toNat_lt
  refine ⟨Nat.dvd_mul_left _ _, ?_⟩
  simpa [Duration.ofMillis] using hn

theorem millis?_digits (ha : accept d = true) (hd : 1_000_000 ∣ d.nanos)
    (hn : d.nanos / 1_000_000 < UInt64.size) :
    millis? accept (String.ofList (Decimal.digits (d.nanos / 1_000_000))) = some d := by
  have hback : Duration.ofMillis (UInt64.ofNat (d.nanos / 1_000_000)) = d := by
    ext
    simp only [Duration.ofMillis, UInt64.toNat_ofNat_of_lt' hn, Nat.div_mul_cancel hd]
  simp [millis?, numeral?_digits hn, hback, ha]

end Reading

namespace Kind

variable {k : Kind} {text : String} {x : k.Value}

theorem admits_of_read? (h : k.read? text = some x) : k.Admits x := by
  cases k with
  | scope => trivial
  | rate => exact isRate_iff.1 (Option.filter_eq_some_iff.1 h).2
  | interval => exact isInterval_iff.1 (accept_of_millis? h)
  | lifetime => exact isLifetime_iff.1 (accept_of_millis? h)
  | wait => exact isWait_iff.1 (accept_of_millis? h)

theorem isWhole_of_read? (h : k.read? text = some x) : k.IsWhole x := by
  cases k with
  | scope | rate => trivial
  | interval | lifetime | wait => exact isWhole_of_millis? h

theorem read?_render (ha : k.Admits x) (hw : k.IsWhole x) : k.read? (k.render x) = some x := by
  cases k with
  | scope => cases x <;> rfl
  | rate =>
    have hn : x.toNat < UInt32.size := x.toNat_lt
    have hread := Option.filter_some_pos (isRate_iff.2 ha)
    simpa [read?, render, permits?, numeral?_digits hn] using hread
  | interval => exact millis?_digits (isInterval_iff.2 ha) hw.1 hw.2
  | lifetime => exact millis?_digits (isLifetime_iff.2 ha) hw.1 hw.2
  | wait => exact millis?_digits (isWait_iff.2 ha) hw.1 hw.2

end Kind

/-! ## Variables -/

inductive Variable where
  | scope
  | permits
  | interval
  | bucketLifetime
  | rateWait
  | lockWait
  | lockLease
  | permitWait
  | poolLifetime
  | spareLockWait

namespace Variable

def all : List Variable :=
  [scope, permits, interval, bucketLifetime, rateWait, lockWait, lockLease, permitWait,
    poolLifetime, spareLockWait]

def name : Variable → String
  | scope => names.scope
  | permits => names.permits
  | interval => names.interval
  | bucketLifetime => names.bucketLifetime
  | rateWait => names.rateWait
  | lockWait => names.lockWait
  | lockLease => names.lockLease
  | permitWait => names.permitWait
  | poolLifetime => names.poolLifetime
  | spareLockWait => names.spareLockWait

def kind : Variable → Kind
  | scope => .scope
  | permits => .rate
  | interval => .interval
  | bucketLifetime | lockLease | poolLifetime => .lifetime
  | rateWait | lockWait | permitWait | spareLockWait => .wait

theorem mem_all (v : Variable) : v ∈ all := by cases v <;> simp [all]

theorem nodup_names : (all.map name).Nodup := by decide

theorem name_inj {v w : Variable} (h : v.name = w.name) : v = w :=
  List.inj_on_of_nodup_map nodup_names v.mem_all w.mem_all h

end Variable

/-- The field of a variable. -/
def get (s : Settings) : (v : Variable) → v.kind.Value
  | .scope => s.rate.scope
  | .permits => s.rate.permits
  | .interval => s.rate.interval
  | .bucketLifetime => s.rate.lifetime
  | .rateWait => s.rateWait
  | .lockWait => s.lockWait
  | .lockLease => s.lockLease
  | .permitWait => s.permitWait
  | .poolLifetime => s.poolLifetime
  | .spareLockWait => s.spareLockWait

/-- The variables that describe the settings. -/
def environment (s : Settings) : List (String × String) :=
  Variable.all.map fun v => (v.name, v.kind.render (s.get v))

variable {lookup : String → Option String} {s s' : Settings}

theorem ext_get (h : ∀ v, s.get v = s'.get v) : s = s' := by
  obtain ⟨⟨scope, permits, interval, lifetime⟩, rateWait, lockWait, lockLease, permitWait,
    poolLifetime, spareLockWait⟩ := s
  obtain rfl := h .scope
  obtain rfl := h .permits
  obtain rfl := h .interval
  obtain rfl := h .bucketLifetime
  obtain rfl := h .rateWait
  obtain rfl := h .lockWait
  obtain rfl := h .lockLease
  obtain rfl := h .permitWait
  obtain rfl := h .poolLifetime
  obtain rfl := h .spareLockWait
  rfl

/-- Every field is read alike, from its own variable. -/
theorem get_ofLookup (lookup : String → Option String) (v : Variable) :
    (ofLookup lookup).get v = ((lookup v.name).bind v.kind.read?).getD (default.get v) := by
  cases v <;> rfl

theorem admits_default (v : Variable) : v.kind.Admits (default.get v) := by
  cases v <;> decide

theorem isWhole_default (v : Variable) : v.kind.IsWhole (default.get v) := by
  cases v <;> decide

theorem ofLookup_get_eq_or (lookup : String → Option String) (v : Variable) :
    (∃ text, v.kind.read? text = some ((ofLookup lookup).get v)) ∨
      (ofLookup lookup).get v = default.get v := by
  rw [get_ofLookup]
  cases h : (lookup v.name).bind v.kind.read? with
  | none => exact .inr rfl
  | some x =>
    obtain ⟨text, -, hread⟩ := Option.bind_eq_some_iff.1 h
    exact .inl ⟨text, hread⟩

theorem admits_ofLookup (lookup : String → Option String) (v : Variable) :
    v.kind.Admits ((ofLookup lookup).get v) := by
  rcases ofLookup_get_eq_or lookup v with ⟨text, h⟩ | h
  · exact Kind.admits_of_read? h
  · rw [h]
    exact admits_default v

theorem isWhole_ofLookup (lookup : String → Option String) (v : Variable) :
    v.kind.IsWhole ((ofLookup lookup).get v) := by
  rcases ofLookup_get_eq_or lookup v with ⟨text, h⟩ | h
  · exact Kind.isWhole_of_read? h
  · rw [h]
    exact isWhole_default v

theorem ofLookup_eq (ha : ∀ v : Variable, v.kind.Admits (s.get v))
    (hw : ∀ v : Variable, v.kind.IsWhole (s.get v))
    (hl : ∀ v : Variable, lookup v.name = some (v.kind.render (s.get v))) :
    ofLookup lookup = s := by
  refine ext_get fun v => ?_
  rw [get_ofLookup, hl v, Option.bind_some, Kind.read?_render (ha v) (hw v), Option.getD_some]

theorem lookupLast_environment (s : Settings) (v : Variable) :
    lookupLast s.environment v.name = some (v.kind.render (s.get v)) := by
  have hmem : (v.name, v.kind.render (s.get v)) ∈ s.environment.reverse :=
    List.mem_reverse.2 (List.mem_map_of_mem v.mem_all)
  have hfind : (s.environment.reverse.find? (·.1 == v.name)).isSome :=
    List.find?_isSome.2 ⟨_, hmem, beq_self_eq_true _⟩
  obtain ⟨p, hp⟩ := Option.isSome_iff_exists.1 hfind
  obtain ⟨w, -, rfl⟩ := List.mem_map.1 (List.mem_reverse.1 (List.mem_of_find?_eq_some hp))
  have hname := List.find?_some hp
  obtain rfl : w = v := Variable.name_inj (eq_of_beq hname)
  simp [lookupLast, hp]

/-- Exactly the settings of whole milliseconds within the bounds can be read. -/
theorem exists_ofLookup_eq_iff : (∃ lookup, ofLookup lookup = s) ↔
    ∀ v : Variable, v.kind.Admits (s.get v) ∧ v.kind.IsWhole (s.get v) := by
  constructor
  · rintro ⟨lookup, rfl⟩ v
    exact ⟨admits_ofLookup lookup v, isWhole_ofLookup lookup v⟩
  · intro h
    exact ⟨lookupLast s.environment, ofLookup_eq (fun v => (h v).1) (fun v => (h v).2)
      (lookupLast_environment s)⟩

/-- What is read is within the bounds, field by field from the variable of the field, and settings
of whole milliseconds within the bounds are read back from the variables that describe them. -/
theorem ofLookup_faithful :
    (∀ lookup, ∀ v : Variable, v.kind.Admits ((ofLookup lookup).get v)) ∧
      (∀ (v : Variable) (lookup lookup' : String → Option String),
        lookup v.name = lookup' v.name → (ofLookup lookup).get v = (ofLookup lookup').get v) ∧
      ∀ s : Settings, (∀ v : Variable, lookupLast s.environment v.name =
          some (v.kind.render (s.get v))) ∧
        ((∀ v : Variable, v.kind.Admits (s.get v)) → (∀ v : Variable, v.kind.IsWhole (s.get v)) →
          ∀ lookup, (∀ v : Variable, lookup v.name = some (v.kind.render (s.get v))) →
            ofLookup lookup = s) := by
  refine ⟨admits_ofLookup, ?_, fun s => ⟨lookupLast_environment s, ?_⟩⟩
  · intro v lookup lookup' h
    rw [get_ofLookup, get_ofLookup, h]
  · intro ha hw lookup hl
    exact ofLookup_eq ha hw hl

/-- Each field at a bound of its own: the longest waits and interval, and a lifetime of as many
milliseconds as fit 64 bits. -/
def atBounds : Settings where
  rate := ⟨.perClient, 1, Limits.maxInterval, .ofMillis 18_446_744_073_709_551_615⟩
  rateWait := .zero
  lockWait := Limits.maxWait
  lockLease := Limits.minLifetime
  permitWait := Limits.maxWait
  poolLifetime := Limits.minLifetime
  spareLockWait := .ofMillis 1

theorem ofLookup_faithful_atBounds :
    (∀ v : Variable, v.kind.Admits (atBounds.get v)) ∧
      (∀ v : Variable, v.kind.IsWhole (atBounds.get v)) ∧
      ofLookup (lookupLast atBounds.environment) = atBounds ∧
      (ofLookup fun _ => some "100001").rateWait =
        (ofLookup fun name => if name = names.rateWait then some "100001" else none).rateWait := by
  have ha : ∀ v : Variable, v.kind.Admits (atBounds.get v) := by
    intro v
    cases v <;> decide
  have hw : ∀ v : Variable, v.kind.IsWhole (atBounds.get v) := by
    intro v
    cases v <;> decide
  obtain ⟨hlast, hback⟩ := ofLookup_faithful.2.2 atBounds
  exact ⟨ha, hw, hback ha hw _ hlast, ofLookup_faithful.2.1 .rateWait _ _ rfl⟩

end Turnstile.Settings
