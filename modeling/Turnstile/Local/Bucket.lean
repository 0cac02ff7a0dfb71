import Turnstile.Duration
import Turnstile.Slot

/-!
# Token buckets

A bucket earns tokens continuously, at the rate of its plan and up to the plan's number of permits,
and each call takes one. The arithmetic is written over any `Quantity`; it runs on doubles.
-/

namespace Turnstile

/-- Numbers in which tokens are counted. -/
class Quantity (ν : Type) where
  count : UInt32 → ν
  /-- A duration in seconds. -/
  seconds : Duration → ν
  /-- The nearest number of nanoseconds, a half going to the even one; the longest duration if
  there is none. -/
  duration : ν → Duration
  add : ν → ν → ν
  sub : ν → ν → ν
  mul : ν → ν → ν
  div : ν → ν → ν
  le : ν → ν → Bool
  one : ν

namespace Quantity

variable {ν : Type} [Quantity ν]

def atMost (a b : ν) : ν := if le a b then a else b

end Quantity

/-- `n / d` rounded to the nearest whole number, a half going to the even one. -/
def roundHalfEven (n d : Nat) : Nat :=
  let q := n / d
  let r := n % d
  if 2 * r < d then q
  else if 2 * r = d then q + q % 2
  else q + 1

/-- The nearest number of nanoseconds of a double counting seconds, read off its bits. -/
def nanosOfSeconds? (x : Float) : Option Nat :=
  let bits := x.toBits.toNat
  let exponent := bits / Nat.pow 2 52 % Nat.pow 2 11
  let fraction := bits % Nat.pow 2 52
  if Nat.pow 2 63 ≤ bits ∨ exponent = 2047 then none
  else
    let mantissa := if exponent = 0 then fraction else Nat.pow 2 52 + fraction
    let power := if exponent = 0 then 1 else exponent
    if power ≥ 1075 then some (mantissa * Nat.pow 2 (power - 1075) * 1_000_000_000)
    else some (roundHalfEven (mantissa * 1_000_000_000) (Nat.pow 2 (1075 - power)))

/-- Doubles. A duration counts its whole seconds and its nanoseconds apart. -/
instance : Quantity Float where
  count n := Float.ofNat n.toNat
  seconds d := Float.ofNat d.wholeSecs + Float.ofNat d.subsecNanos / 1000000000.0
  duration x := match nanosOfSeconds? x with
    | some n => .ofNanos n
    | none => .longest
  add a b := a + b
  sub a b := a - b
  mul a b := a * b
  div a b := a / b
  le a b := a ≤ b
  one := 1.0

namespace Local

structure Bucket (ν : Type) where
  tokens : ν
  lastRefill : Nat
  lastTouched : Nat
  plan : RatePlan

/-- The answer of a bucket to one look. -/
inductive Take
  | taken
  /-- The time until the next whole token is earned. -/
  | wait (d : Duration)
deriving DecidableEq

namespace Bucket

open Quantity

variable {ν : Type} [Quantity ν]

/-- The bucket has been idle for longer than its lifetime. -/
def isExpired (b : Bucket ν) (now : Nat) : Bool := b.plan.lifetime < Clock.since now b.lastTouched

def full (plan : RatePlan) (now : Nat) : Bucket ν := ⟨count plan.permits, now, now, plan⟩

/-- Adds what was earned since the last refill under the bucket's own plan. -/
def refill (b : Bucket ν) (now : Nat) : Bucket ν :=
  let cap := count b.plan.permits
  let tokens :=
    if now ≤ b.lastRefill then b.tokens
    else
      let rate := div cap (seconds b.plan.interval)
      add b.tokens (mul (seconds (Clock.since now b.lastRefill)) rate)
  { b with tokens := atMost tokens cap, lastRefill := now }

/-- Earned tokens outlive a change of plan, as far as the new plan can hold them. -/
def adopt (b : Bucket ν) (plan : RatePlan) (now : Nat) : Bucket ν :=
  { b with tokens := atMost b.tokens (count plan.permits), lastTouched := now, plan := plan }

/-- An expired bucket is full again by the new plan. -/
def renew (b : Bucket ν) (plan : RatePlan) (now : Nat) : Bucket ν :=
  if b.isExpired now then { b with tokens := count plan.permits, lastRefill := now } else b

/-- The time in which `missing` tokens are earned, at least a millisecond. -/
def waitFor (plan : RatePlan) (missing : ν) : Duration :=
  max (duration (mul missing (div (seconds plan.interval) (count plan.permits)))) (.ofMillis 1)

/-- One look at a bucket under `plan`, taking a token if there is one. -/
def take (b : Bucket ν) (plan : RatePlan) (now : Nat) : Bucket ν × Take :=
  let b := (((b.renew plan now).refill now).adopt plan now)
  if le one b.tokens then ({ b with tokens := sub b.tokens one }, .taken)
  else (b, .wait (waitFor plan (sub one b.tokens)))

end Bucket

end Local

end Turnstile
