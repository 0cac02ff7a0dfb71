import Turnstile.Limits

/-!
# Settings

Waits, leases and lifetimes of one controller. `Settings.ofLookup` reads them from named
variables and keeps the default where a value is missing, is no numeral or is out of bounds.
-/

namespace Turnstile

structure Settings where
  rate : RatePlan
  rateWait : Duration
  lockWait : Duration
  /-- How long a remote lock outlives a holder that has stopped renewing it. -/
  lockLease : Duration
  permitWait : Duration
  poolLifetime : Duration
  /-- How long to wait for the substitute lock. -/
  spareLockWait : Duration
deriving DecidableEq

def RatePlan.default : RatePlan := ⟨.whole, 100, .ofSecs 1, .ofSecs 60⟩

namespace Settings

def default : Settings where
  rate := .default
  rateWait := .ofMillis 100
  lockWait := .ofSecs 3
  lockLease := .ofSecs 10
  permitWait := .ofMillis 500
  poolLifetime := .ofSecs 60
  spareLockWait := .ofSecs 3

/-- The names of the variables. -/
structure Names where
  scope : String
  permits : String
  interval : String
  bucketLifetime : String
  rateWait : String
  lockWait : String
  lockLease : String
  permitWait : String
  poolLifetime : String
  spareLockWait : String

def names : Names where
  scope := "SLOTGUARD_RATE_SCOPE"
  permits := "SLOTGUARD_RATE_PERMITS"
  interval := "SLOTGUARD_RATE_INTERVAL_MS"
  bucketLifetime := "SLOTGUARD_RATE_BUCKET_LIFETIME_MS"
  rateWait := "SLOTGUARD_RATE_WAIT_MS"
  lockWait := "SLOTGUARD_LOCK_WAIT_MS"
  lockLease := "SLOTGUARD_LOCK_LEASE_MS"
  permitWait := "SLOTGUARD_SEMAPHORE_WAIT_MS"
  poolLifetime := "SLOTGUARD_SEMAPHORE_LIFETIME_MS"
  spareLockWait := "SLOTGUARD_FALLBACK_LOCK_WAIT_MS"

/-- A numeral below `bound`. -/
def numeral? (bound : Nat) (text : String) : Option Nat :=
  (Text.Decimal.ofText? text.toList).filter (· < bound)

/-- A number of milliseconds that passes `accept`. -/
def millis? (accept : Duration → Bool) (text : String) : Option Duration :=
  ((numeral? UInt64.size text).map fun n => Duration.ofMillis (UInt64.ofNat n)).filter accept

def isWait (d : Duration) : Bool := d ≤ Limits.maxWait

def isLifetime (d : Duration) : Bool := Limits.minLifetime ≤ d

def isInterval (d : Duration) : Bool := !d.isZero && d ≤ Limits.maxInterval

def scope? : String → Option RateScope
  | "per_client" => some .perClient
  | "PER_CLIENT" => some .perClient
  | "whole" => some .whole
  | "WHOLE" => some .whole
  | _ => none

def permits? (text : String) : Option UInt32 :=
  ((numeral? UInt32.size text).map UInt32.ofNat).filter fun p => 0 < p && p ≤ Limits.maxRate

/-- The settings that the variables describe; each field depends on its own variable only. -/
def ofLookup (lookup : String → Option String) : Settings where
  rate :=
    { scope := ((lookup names.scope).bind scope?).getD default.rate.scope
      permits := ((lookup names.permits).bind permits?).getD default.rate.permits
      interval := ((lookup names.interval).bind (millis? isInterval)).getD default.rate.interval
      lifetime :=
        ((lookup names.bucketLifetime).bind (millis? isLifetime)).getD default.rate.lifetime }
  rateWait := ((lookup names.rateWait).bind (millis? isWait)).getD default.rateWait
  lockWait := ((lookup names.lockWait).bind (millis? isWait)).getD default.lockWait
  lockLease := ((lookup names.lockLease).bind (millis? isLifetime)).getD default.lockLease
  permitWait := ((lookup names.permitWait).bind (millis? isWait)).getD default.permitWait
  poolLifetime := ((lookup names.poolLifetime).bind (millis? isLifetime)).getD default.poolLifetime
  spareLockWait := ((lookup names.spareLockWait).bind (millis? isWait)).getD default.spareLockWait

/-- The value of a name in a list of pairs, where the last pair of a name counts. -/
def lookupLast (env : List (String × String)) (name : String) : Option String :=
  (env.reverse.find? (·.1 == name)).map (·.2)

end Settings

end Turnstile
