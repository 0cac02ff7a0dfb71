import Turnstile.Failure
import Turnstile.Slot

/-!
# Limits

What every guard accepts: bounds on keys, waits, rates and permits. Each check names the first
bound that is broken.
-/

namespace Turnstile.Limits

/-- The longest key, in bytes. -/
def maxKeyBytes : Nat := 256

def maxWait : Duration := .ofSecs 30

def maxPermits : UInt32 := 10000

def maxRate : UInt32 := 1000000

def minLifetime : Duration := .ofMillis 1

/-- One day. -/
def maxInterval : Duration := .ofSecs 86400

def checkKey (key : String) : Except GuardError Unit :=
  if key.utf8ByteSize = 0 then .error (.invalid .emptyKey)
  else if key.utf8ByteSize > maxKeyBytes then .error (.invalid .keyTooLong)
  else .ok ()

def checkWait (wait : Duration) : Except GuardError Unit :=
  if wait > maxWait then .error (.invalid .waitTooLong) else .ok ()

def checkRate (plan : RatePlan) : Except GuardError Unit :=
  if plan.permits = 0 then .error (.invalid .noRate)
  else if plan.permits > maxRate then .error (.invalid .rateTooLarge)
  else if plan.interval.isZero then .error (.invalid .noInterval)
  else if plan.interval > maxInterval then .error (.invalid .intervalTooLong)
  else if plan.lifetime < minLifetime then .error (.invalid .lifetimeTooShort)
  else .ok ()

def checkPermits (permits capacity : UInt32) : Except GuardError Unit :=
  if permits = 0 then .error (.invalid .noPermits)
  else if permits > maxPermits ∨ capacity > maxPermits then .error (.invalid .tooManyPermits)
  else .ok ()

end Turnstile.Limits
