import Turnstile.Program
import Turnstile.Failure
import Turnstile.Slot

/-!
# The collaborators of a reservation

The calls that a reservation makes, and what it owes once a guard has let it in. `Release.program`
says how each obligation is settled.
-/

namespace Turnstile.Admission

/-- A named lock that was granted. -/
structure Held where
  key : String
  ticket : Nat
deriving DecidableEq

/-- The guards in the names of measurements. -/
inductive GuardName
  | rate
  | lock
  | spareLock
  | permits
deriving DecidableEq

/-- What is worth counting. -/
inductive Note
  /-- A reservation ended, with its outcome. -/
  | ended (outcome : String)
  /-- A substitute was used in place of a guard. -/
  | fellBack (guard : GuardName)
  /-- A guard was waited for. -/
  | waited (guard : GuardName)
  /-- A release failed. -/
  | releaseFailed (guard : GuardName)
deriving DecidableEq

/-- A call to a collaborator; `spare` asks a guard's substitute. -/
inductive Call
  | flag (name : String)
  | wallClock
  | newOwner
  | rate (spare : Bool) (key : SlotKey) (wait : Duration) (plan : RatePlan)
  | lock (key : SlotKey) (owner : Ulid) (wait : Duration)
  | isHeldBy (key : SlotKey) (owner : Ulid)
  | unlock (key : SlotKey) (owner : Ulid)
  | spareLock (key : SlotKey) (wait : Duration)
  | spareUnlock (held : Held)
  | permits (spare : Bool) (key : SlotKey) (plan : PoolPlan) (demand : PoolDemand)
  | giveBack (spare : Bool) (key : SlotKey)
  | query (slot : Slot)
  | create (entry : Occupancy)
  | publish (event : Event)
  | note (n : Note)
  /-- Lets time pass. -/
  | pause (d : Duration)
deriving DecidableEq

@[reducible] def Call.Answer : Call → Type
  | flag _ => Except GuardError Bool
  | wallClock => DateTime
  | newOwner => Ulid
  | rate _ _ _ _ => Except GuardError Bool
  | lock _ _ _ => Except GuardError Bool
  | isHeldBy _ _ => Except GuardError Bool
  | unlock _ _ => Except GuardError Bool
  | spareLock _ _ => Except GuardError (Option Held)
  | spareUnlock _ => Except GuardError Unit
  | permits _ _ _ _ => Except GuardError Bool
  | giveBack _ _ => Except GuardError Unit
  | query _ => Except StoreError (List Candidate)
  | create _ => Except StoreError (Option UInt64)
  | publish _ => Unit
  | note _ => Unit
  | pause _ => Unit

abbrev collaborators : Interface := ⟨Call, Call.Answer⟩

/-- What is owed for a guard that let the caller in. -/
inductive Release
  | lock (key : SlotKey) (owner : Ulid)
  | spareLock (held : Held)
  | permits (spare : Bool) (key : SlotKey)
deriving DecidableEq

/-- A program that calls collaborators. -/
abbrev Routine := Program collaborators Release

namespace Release

/-- Notes a release that failed; the guard then frees itself in time. -/
def noteFailure {ε : Type} (guard : GuardName) : Except ε Bool → Routine Unit
  | .ok _ => .done ()
  | .error _ => .call (.note (.releaseFailed guard)) fun _ => .done ()

/-- How an obligation is settled. A fair lock is unlocked only if its owner still holds it. -/
def program : Release → Routine Unit
  | lock key owner =>
    .call (.isHeldBy key owner) fun
      | .ok true => .call (.unlock key owner) fun answer => noteFailure .lock answer
      | .ok false => .done ()
      | .error e => noteFailure .lock (.error e)
  | spareLock held =>
    .call (.spareUnlock held) fun answer => noteFailure .spareLock (answer.map fun _ => true)
  | permits spare key =>
    .call (.giveBack spare key) fun answer => noteFailure .permits (answer.map fun _ => true)

end Release

end Turnstile.Admission
