import Turnstile.Admission.Section
import Turnstile.Settings

/-!
# Reservations

A reservation passes the feature flag, the rate limiter, the fair lock or its substitute, the
candidate query, the permit pool and the writer, in this order. It takes the candidate with the
least number that the writer accepts.
-/

namespace Turnstile.Admission

/-- What a controller is made of besides its guards. -/
structure Policy where
  settings : Settings
  /-- Whether there is a flag to look at and somebody to tell. -/
  hasFlags : Bool
  hasPublisher : Bool
  /-- Which guards have a substitute. -/
  spareRate : Bool
  spareLock : Bool
  sparePermits : Bool

/-- The flag that switches reservations. -/
def reservationFlag : String := "reservation"

namespace Policy

/-- A flag that cannot be read lets the request through. -/
def checkEnabled (p : Policy) : Routine (Except AdmissionError Unit) :=
  if p.hasFlags then
    .call (.flag reservationFlag) fun
      | .ok false => .done (.error .featureDisabled)
      | _ => .done (.ok ())
  else .done (.ok ())

def rateVerdict : Except GuardError Bool → Except AdmissionError Unit
  | .ok true => .ok ()
  | .ok false => .error .rateLimited
  | .error e => .error e.toAdmission

def takeToken (p : Policy) (key : SlotKey) : Routine (Except AdmissionError Unit) :=
  .call (.rate false key p.settings.rateWait p.settings.rate) fun
    | .error e =>
      if e.isUnavailable && p.spareRate then
        .call (.note (.fellBack .rate)) fun _ =>
        .call (.rate true key p.settings.rateWait p.settings.rate) fun answer =>
        .done (rateVerdict answer)
      else .done (rateVerdict (.error e))
    | answer => .done (rateVerdict answer)

/-- Whether permits were granted, given who granted them. -/
def permitVerdict (spare : Bool) : Except GuardError Bool → Routine (Except AdmissionError Bool)
  | .error e => .done (.error e.toAdmission)
  | .ok granted =>
    .call (.note (.waited .permits)) fun _ =>
    .done (if granted then .ok spare else .error .capacityExhausted)

/-- One permit for each of `count` candidates; whether the substitute granted them. -/
def takePermits (p : Policy) (key : SlotKey) (permits : UInt32) :
    Routine (Except AdmissionError Bool) :=
  let plan : PoolPlan := ⟨permits, p.settings.poolLifetime⟩
  let demand : PoolDemand := ⟨permits, p.settings.permitWait⟩
  .call (.permits false key plan demand) fun
    | .error e =>
      if e.isUnavailable && p.sparePermits then
        .call (.note (.fellBack .permits)) fun _ =>
        .call (.permits true key plan demand) fun answer => permitVerdict true answer
      else .done (.error e.toAdmission)
    | answer => permitVerdict false answer

/-- Offers the candidates to the writer one by one; the first that it accepts is taken, and a
failure ends the walk. -/
def walk (user : UInt64) (now : DateTime) :
    List Candidate → Routine (Except AdmissionError (UInt64 × Candidate))
  | [] => .done (.error .noCandidates)
  | c :: rest =>
    .call (.create (.take c user now)) fun
      | .ok (some id) => .done (.ok (id, c))
      | .ok none => walk user now rest
      | .error e => .done (.error (.store e))

/-- The candidates by ascending number. -/
def ranked (candidates : List Candidate) : List Candidate :=
  candidates.mergeSort fun a b => a.id ≤ b.id

/-- How many permits a list of candidates asks for. -/
def permitCount (candidates : List Candidate) : UInt32 :=
  UInt32.ofNat (min candidates.length Limits.maxPermits.toNat)

/-- What is done under the lock. -/
def occupy (p : Policy) (request : Request) (key : SlotKey) :
    Routine (Except AdmissionError (UInt64 × Candidate)) :=
  .call (.query request.slot) fun
    | .error e => .done (.error (.store e))
    | .ok [] => .done (.error .noCandidates)
    | .ok candidates =>
      (p.takePermits key (permitCount candidates)).bind fun
        | .error e => .done (.error e)
        | .ok spare =>
          Program.owing (.permits spare key) <|
            .call .wallClock fun now => walk request.user now (ranked candidates)

/-- Tells the publisher and makes the reservation. -/
def confirm (p : Policy) (request : Request) (key : SlotKey) (degraded : Bool) :
    Except AdmissionError (UInt64 × Candidate) → Routine (Except AdmissionError Reservation)
  | .error e => .done (.error e)
  | .ok (id, c) =>
    let reservation : Reservation := ⟨id, c.id, c.table, key, degraded⟩
    if p.hasPublisher then
      .call (.publish (.occupied id c.restaurant c.table request.user key)) fun _ =>
      .done (.ok reservation)
    else .done (.ok reservation)

/-- Under the fair lock or, if that cannot be reached, under its substitute. -/
def admitLocked (p : Policy) (request : Request) (key : SlotKey) :
    Routine (Except AdmissionError Reservation) :=
  (underLock key p.settings.lockWait (p.occupy request key)).bind fun
    | .completed r => p.confirm request key false r
    | .unreachable e =>
      if p.spareLock then
        .call (.note (.fellBack .lock)) fun _ =>
        (underSpareLock key p.settings.spareLockWait (p.occupy request key)).bind
          (p.confirm request key true)
      else .done (.error e.toAdmission)

def admitted (p : Policy) (request : Request) : Routine (Except AdmissionError Reservation) :=
  p.checkEnabled.bind fun
    | .error e => .done (.error e)
    | .ok () =>
      (p.takeToken request.slot.key).bind fun
        | .error e => .done (.error e)
        | .ok () => p.admitLocked request request.slot.key

/-- The label of an outcome in measurements. -/
def outcome : Except AdmissionError Reservation → String
  | .ok r => if r.degraded then "reserved_degraded" else "reserved"
  | .error e => e.label

/-- Reserves the free table with the least number in the requested slot. -/
def reserve (p : Policy) (request : Request) : Routine (Except AdmissionError Reservation) :=
  (p.admitted request).bind fun r => .call (.note (.ended (outcome r))) fun _ => .done r

end Policy

end Turnstile.Admission
