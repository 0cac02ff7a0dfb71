/-!
# Failures

Three layers of failure: a guard that could not answer, a store that could not answer, and the
refusal that the caller of a reservation sees. Being too late or too many is no failure of a
guard; it answers "no".
-/

namespace Turnstile

/-- Why an input was turned away before any guard looked at it. -/
inductive Rejection
  | emptyKey
  | keyTooLong
  | waitTooLong
  | noRate
  | rateTooLarge
  | noInterval
  | intervalTooLong
  | lifetimeTooShort
  | noPermits
  | tooManyPermits
  | databaseAddress
  | stated (text : String)
deriving DecidableEq

inductive GuardError
  /-- The coordination tier could not be reached; a substitute may be tried. -/
  | unavailable (text : String)
  /-- The tier answered, but not with success. -/
  | backend (text : String)
  | invalid (why : Rejection)
deriving DecidableEq

inductive StoreError
  | constraint (text : String)
  | connection (text : String)
  | transient (text : String)
  | other (text : String)
deriving DecidableEq

inductive AdmissionError
  | featureDisabled
  | rateLimited
  | lockContention
  | noCandidates
  | capacityExhausted
  | infrastructureUnavailable (text : String)
  | persistenceUnprocessable (text : String)
  | store (error : StoreError)
  | invalid (why : Rejection)
deriving DecidableEq

def Rejection.message : Rejection → String
  | emptyKey => "empty key"
  | keyTooLong => "key too long"
  | waitTooLong => "wait too long"
  | noRate => "permits per interval must be positive"
  | rateTooLarge => "permits per interval too large"
  | noInterval => "interval must be positive"
  | intervalTooLong => "interval too long"
  | lifetimeTooShort => "bucket lifetime too short"
  | noPermits => "permits must be positive"
  | tooManyPermits => "too many permits"
  | databaseAddress => "invalid postgres connection string"
  | stated text => text

namespace GuardError

def isUnavailable : GuardError → Bool
  | unavailable _ => true
  | _ => false

def message : GuardError → String
  | unavailable text => "coordination backend unavailable: " ++ text
  | backend text => "coordination backend error: " ++ text
  | invalid why => "invalid guard input: " ++ why.message

/-- What a caller of a reservation sees of a guard that failed. -/
def toAdmission : GuardError → AdmissionError
  | unavailable text => .infrastructureUnavailable text
  | backend text => .infrastructureUnavailable text
  | invalid why => .invalid why

end GuardError

namespace StoreError

/-- The kinds that one transaction of the substitute lock reports as one. -/
def isUnprocessable : StoreError → Bool
  | other _ => false
  | _ => true

def message : StoreError → String
  | constraint text => "constraint violation: " ++ text
  | connection text => "store connection failure: " ++ text
  | transient text => "transient store failure: " ++ text
  | other text => "store error: " ++ text

end StoreError

namespace AdmissionError

/-- The label of the outcome in measurements. -/
def label : AdmissionError → String
  | featureDisabled => "feature_disabled"
  | rateLimited => "rate_limited"
  | lockContention => "lock_contention"
  | noCandidates => "no_candidates"
  | capacityExhausted => "capacity_exhausted"
  | infrastructureUnavailable _ => "infrastructure_unavailable"
  | persistenceUnprocessable _ => "persistence_unprocessable"
  | store _ => "store_error"
  | invalid _ => "invalid"

def message : AdmissionError → String
  | featureDisabled => "reservations are disabled"
  | rateLimited => "too many requests for this slot"
  | lockContention => "simultaneous request conflict: slot is being reserved"
  | noCandidates => "all seats already occupied"
  | capacityExhausted => "all tables already occupied"
  | infrastructureUnavailable text => "coordination unavailable: " ++ text
  | persistenceUnprocessable text => "unprocessable reservation: " ++ text
  | store error => error.message
  | invalid why => "invalid request: " ++ why.message

end AdmissionError

end Turnstile
