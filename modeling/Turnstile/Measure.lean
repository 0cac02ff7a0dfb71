import Turnstile.Admission.Call
import Turnstile.Table

/-!
# Measurements

Counters, gauges and numbers of samples by the name of their series. A series with a label is
named `name{label=value}`.
-/

namespace Turnstile

structure Measures where
  counters : Table String Nat
  gauges : Table String Nat
  samples : Table String Nat

namespace Measures

open Admission

def none : Measures := ⟨.empty, .empty, .empty⟩

instance : Inhabited Measures := ⟨none⟩

/-- The names of all series. -/
structure Names where
  admissions : String
  admissionSeconds : String
  fallbacks : String
  waitSeconds : String
  releaseFailures : String
  buckets : String
  pools : String
  locks : String

def names : Names where
  admissions := "slotguard_admissions_total"
  admissionSeconds := "slotguard_admission_duration_seconds"
  fallbacks := "slotguard_fallback_total"
  waitSeconds := "slotguard_guard_wait_seconds"
  releaseFailures := "slotguard_release_failures_total"
  buckets := "slotguard_local_rate_buckets"
  pools := "slotguard_local_semaphore_pools"
  locks := "slotguard_local_fair_locks"

def Names.all (n : Names) : List String :=
  [n.admissions, n.admissionSeconds, n.fallbacks, n.waitSeconds, n.releaseFailures, n.buckets,
    n.pools, n.locks]

def labelled (name label value : String) : String :=
  name ++ "\x7b" ++ label ++ "=" ++ value ++ "\x7d"

def bump (t : Table String Nat) (series : String) : Table String Nat :=
  t.insert series ((t.get? series).getD 0 + 1)

def count (m : Measures) (series : String) : Measures :=
  { m with counters := bump m.counters series }

def sample (m : Measures) (series : String) : Measures :=
  { m with samples := bump m.samples series }

def gauge (m : Measures) (series : String) (value : Nat) : Measures :=
  { m with gauges := m.gauges.insert series value }

/-- The names of the guards where a substitute is counted. -/
def fallbackLabel : GuardName → String
  | .rate => "rate_limiter"
  | .lock => "lock"
  | .spareLock => "fallback_lock"
  | .permits => "semaphore"

/-- The names of the guards where waits and failed releases are counted. -/
def guardLabel : GuardName → String
  | .rate => "rate_limiter"
  | .lock => "fair_lock"
  | .spareLock => "fallback_lock"
  | .permits => "semaphore"

def note (m : Measures) : Note → Measures
  | .ended outcome =>
    (m.count (labelled names.admissions "outcome" outcome)).sample
      (labelled names.admissionSeconds "outcome" outcome)
  | .fellBack g => m.count (labelled names.fallbacks "guard" (fallbackLabel g))
  | .waited g => m.sample (labelled names.waitSeconds "guard" (guardLabel g))
  | .releaseFailed g => m.count (labelled names.releaseFailures "guard" (guardLabel g))

end Measures

end Turnstile
