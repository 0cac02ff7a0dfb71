/-!
# Spans and points of time

A `Duration` is a whole number of nanoseconds with less than `2 ^ 64` whole seconds. An instant is
the number of nanoseconds since a clock was started, a plain `Nat`. Timers are kept in whole
milliseconds: `Clock.tick` is the first one at or after an instant.
-/

namespace Turnstile

/-- `2 ^ 64` seconds in nanoseconds. -/
def Duration.limit : Nat := 18_446_744_073_709_551_616_000_000_000

structure Duration where
  nanos : Nat
  bounded : nanos < Duration.limit
deriving DecidableEq

namespace Duration

@[ext] theorem ext {d e : Duration} (h : d.nanos = e.nanos) : d = e := by
  cases d; cases e; cases h; rfl

instance : LE Duration := ⟨fun d e => d.nanos ≤ e.nanos⟩
instance : LT Duration := ⟨fun d e => d.nanos < e.nanos⟩
instance (d e : Duration) : Decidable (d ≤ e) := inferInstanceAs (Decidable (d.nanos ≤ e.nanos))
instance (d e : Duration) : Decidable (d < e) := inferInstanceAs (Decidable (d.nanos < e.nanos))

/-- The longest duration. -/
def longest : Duration := ⟨limit - 1, by decide⟩

def zero : Duration := ⟨0, by decide⟩

instance : Inhabited Duration := ⟨zero⟩

/-- So many nanoseconds, or the longest duration if they are too many. -/
def ofNanos (n : Nat) : Duration := ⟨min n longest.nanos, by simp only [longest, limit]; omega⟩

def ofSecs (s : UInt64) : Duration :=
  ⟨s.toNat * 1_000_000_000, by have := s.toNat_lt; simp only [limit]; omega⟩

def ofMillis (ms : UInt64) : Duration :=
  ⟨ms.toNat * 1_000_000, by have := ms.toNat_lt; simp only [limit]; omega⟩

/-- Nanoseconds beyond a second carry; there is no duration of `2 ^ 64` seconds or more. -/
def ofParts? (secs nanos : Nat) : Option Duration :=
  if h : secs * 1_000_000_000 + nanos < limit then some ⟨secs * 1_000_000_000 + nanos, h⟩ else none

def wholeSecs (d : Duration) : Nat := d.nanos / 1_000_000_000

/-- The nanoseconds past the last whole second. -/
def subsecNanos (d : Duration) : Nat := d.nanos % 1_000_000_000

/-- The whole milliseconds, as many as fit 64 bits. -/
def millis (d : Duration) : Nat := min (d.nanos / 1_000_000) (UInt64.size - 1)

def isZero (d : Duration) : Bool := d.nanos == 0

instance : Max Duration := ⟨fun d e => if d ≤ e then e else d⟩
instance : Min Duration := ⟨fun d e => if d ≤ e then d else e⟩

/-- The `n`-th part of a duration, rounded down. -/
def part (d : Duration) (n : Nat) : Duration :=
  ⟨d.nanos / n, Nat.lt_of_le_of_lt (Nat.div_le_self _ _) d.bounded⟩

theorem ofParts?_wholeSecs_subsecNanos (d : Duration) :
    ofParts? d.wholeSecs d.subsecNanos = some d := by
  have h := Nat.div_add_mod' d.nanos 1_000_000_000
  simp only [ofParts?, wholeSecs, subsecNanos, h, d.bounded, dite_true]

theorem wholeSecs_lt (d : Duration) : d.wholeSecs < UInt64.size := by
  have := d.bounded
  unfold limit at this
  unfold wholeSecs UInt64.size
  omega

end Duration

namespace Clock

def ofMillis (ms : Nat) : Nat := ms * 1_000_000

def millis (t : Nat) : Nat := t / 1_000_000

/-- The first whole millisecond at or after the instant `t`. -/
def tick (t : Nat) : Nat := (t + 999_999) / 1_000_000 * 1_000_000

/-- The time from `earlier` to `now`, zero if `earlier` is later. -/
def since (now earlier : Nat) : Duration := Duration.ofNanos (now - earlier)

theorem le_tick (t : Nat) : t ≤ tick t := by
  unfold tick
  omega

theorem tick_lt (t : Nat) : tick t < t + 1_000_000 := by
  unfold tick
  omega

end Clock

end Turnstile
