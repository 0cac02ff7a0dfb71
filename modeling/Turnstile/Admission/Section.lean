import Turnstile.Admission.Call

/-!
# Sections

Work that is done while a lock is held. The lock is released after the work whatever the work
returns, and a lock that was not obtained is not released.
-/

namespace Turnstile.Admission

variable {α : Type}

/-- What became of work under the fair lock. -/
inductive Locked (α : Type)
  /-- The work ran, or the lock was not obtained. -/
  | completed (r : Except AdmissionError α)
  /-- The lock could not be reached; nothing ran and nothing is held. -/
  | unreachable (e : GuardError)

/-- Does `work` while holding the fair lock of `key` under a new owner. -/
def underLock (key : SlotKey) (wait : Duration) (work : Routine (Except AdmissionError α)) :
    Routine (Locked α) :=
  .call .newOwner fun owner =>
  .call (.lock key owner wait) fun answer =>
  .call (.note (.waited .lock)) fun _ =>
  match answer with
  | .ok true => (work.owing (.lock key owner)).bind fun r => .done (.completed r)
  | .ok false => .done (.completed (.error .lockContention))
  | .error e =>
    if e.isUnavailable then .done (.unreachable e) else .done (.completed (.error e.toAdmission))

/-- Failures of a store that are reported as one. -/
def unprocessable : AdmissionError → AdmissionError
  | .store e => if e.isUnprocessable then .persistenceUnprocessable e.message else .store e
  | e => e

/-- Does `work` while holding the substitute lock of `key`. -/
def underSpareLock (key : SlotKey) (wait : Duration) (work : Routine (Except AdmissionError α)) :
    Routine (Except AdmissionError α) :=
  .call (.spareLock key wait) fun answer =>
  .call (.note (.waited .spareLock)) fun _ =>
  match answer with
  | .ok (some held) =>
    (work.bind fun r => .done (r.mapError unprocessable)).owing (.spareLock held)
  | .ok none => .done (.error .lockContention)
  | .error e => .done (.error e.toAdmission)

end Turnstile.Admission
