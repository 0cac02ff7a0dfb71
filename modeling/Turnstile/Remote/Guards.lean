import Turnstile.Limits
import Turnstile.Program
import Turnstile.Remote.Exchange

/-!
# The remote guards

Fair lock, rate limiter, permit pools and flags as their clients see them: routines that exchange
commands with the coordination server. A lock and a pool are polled until the wait is over; since
every pause between two polls takes at least a millisecond, `polls` bounds their number.
-/

namespace Turnstile.Remote

/-- What a client does besides thinking. -/
inductive Call
  | send (c : Command)
  | clock
  | pause (d : Duration)
  /-- Keeps the lease of a lock alive from now on. -/
  | watch (lock : Name) (owner : Ulid) (lease : Duration)
  | unwatch (lock : Name) (owner : Ulid)
  /-- Notes permits that were granted, to be given back later. -/
  | remember (key : String) (permits : UInt32) (lifetime : Duration)
  /-- Forgets the latest permits that were granted. -/
  | takeLatest (key : String)
deriving DecidableEq

def Call.Answer : Call → Type
  | send _ => Reply
  | clock => Nat
  | pause _ => Unit
  | watch _ _ _ => Unit
  | unwatch _ _ => Unit
  | remember _ _ _ => Unit
  | takeLatest _ => Option (UInt32 × Duration)

def client : Interface := ⟨Call, Call.Answer⟩

/-- A client owes nothing when it is dropped. -/
abbrev Routine := Program client Empty

/-- Milliseconds as a script wants them, at least one. -/
def atLeastOneMilli (d : Duration) : Nat := max d.millis 1

/-- Runs a script. A server that does not know it is sent the text, and asked once more. -/
def run {α : Type} (script : Script) (keys : List Name) (arguments : List Argument)
    (read : Reply → Except GuardError α) : Routine (Except GuardError α) :=
  .call (.send (.run script keys arguments)) fun reply =>
    if reply.isUnknownScript then
      .call (.send (.load script)) fun reply =>
        match reply.failure? with
        | some e => .done (.error e)
        | none => .call (.send (.run script keys arguments)) fun reply => .done (read reply)
    else .done (read reply)

/-- The pause between two polls. -/
def pollInterval : Duration := .ofMillis 20

/-- How many polls a wait has room for. -/
def polls (wait : Duration) : Nat := Clock.millis (Clock.tick wait.nanos) + 1

namespace Lock

def keys (key : String) : List Name := [.lock key, .queue key, .heartbeats key]

/-- How long a waiter counts as alive without polling. -/
def heartbeatMillis : Nat := pollInterval.millis * 10

/-- Leaves the queue; if that fails, the heartbeat runs out by itself. -/
def giveUp (key : String) (owner : Ulid) : Routine (Except GuardError Bool) :=
  (run .abandon (keys key) [.owner owner] Reply.int64).bind fun _ => .done (.ok false)

def poll (lease : Duration) (key : String) (owner : Ulid) (deadline : Nat) :
    Nat → Routine (Except GuardError Bool)
  | 0 => giveUp key owner
  | n + 1 =>
    (run .acquire (keys key)
        [.owner owner, .number (atLeastOneMilli lease), .number heartbeatMillis]
        Reply.int64).bind fun
      | .error e => .done (.error e)
      | .ok granted =>
        if granted = 1 then .call (.watch (.lock key) owner lease) fun _ => .done (.ok true)
        else .call .clock fun (now : Nat) =>
          if deadline ≤ now then giveUp key owner
          else .call (.pause (min pollInterval (Clock.since deadline now))) fun _ =>
            poll lease key owner deadline n

/-- Takes the lock of `key` for `owner`, whose lease is kept alive from then on. -/
def take (lease : Duration) (key : String) (owner : Ulid) (wait : Duration) :
    Routine (Except GuardError Bool) :=
  match Limits.checkKey key, Limits.checkWait wait with
  | .error e, _ => .done (.error e)
  | _, .error e => .done (.error e)
  | .ok (), .ok () =>
    .call .clock fun (now : Nat) => poll lease key owner (now + wait.nanos) (polls wait)

def isHeldBy (key : String) (owner : Ulid) : Routine (Except GuardError Bool) :=
  .call (.send (.get (.lock key))) fun reply =>
    .done (reply.text?.map fun holder => holder = some (String.ofList owner.text))

/-- Unlocks and lets the lease run out, unless the server could not be asked. -/
def unlock (key : String) (owner : Ulid) : Routine (Except GuardError Bool) :=
  (run .release [.lock key] [.owner owner] Reply.int64).bind fun
    | .error e => .done (.error e)
    | .ok removed => .call (.unwatch (.lock key) owner) fun _ => .done (.ok (removed = 1))

/-- The pause between two renewals of a lease. -/
def renewalInterval (lease : Duration) : Duration := max (lease.part 3) (.ofMillis 1)

/-- One renewal after its pause; whether to go on. A renewal that failed is tried again. -/
def renewal (lock : Name) (owner : Ulid) (lease : Duration) : Routine Bool :=
  .call (.pause (renewalInterval lease)) fun _ =>
    (run .renew [lock] [.owner owner, .number (atLeastOneMilli lease)] Reply.int64).bind fun
      | .ok n => .done (n = 1)
      | .error _ => .done true

end Lock

namespace Rate

def bucket (key : String) (client : Ulid) : RateScope → Name
  | .whole => .bucket key
  | .perClient => .clientBucket key client

/-- When to look again at a bucket that asks for `wait`, if that is not too late. -/
def wakeFor? (now deadline : Nat) (wait : Duration) : Option Nat :=
  if deadline < now + wait.nanos then none else some (now + wait.nanos)

def look (bucket : Name) (plan : RatePlan) (deadline : Nat) : Nat → Routine (Except GuardError Bool)
  | 0 => .done (.ok false)
  | n + 1 =>
    (run .takeToken [bucket]
        [.number plan.permits.toNat, .number (atLeastOneMilli plan.interval),
          .number (atLeastOneMilli plan.lifetime)] Reply.nat64).bind fun
      | .error e => .done (.error e)
      | .ok millis =>
        if millis = 0 then .done (.ok true)
        else .call .clock fun (now : Nat) =>
          let wait := Duration.ofNanos (Clock.ofMillis millis)
          if (wakeFor? now deadline wait).isNone then .done (.ok false)
          else .call (.pause wait) fun _ => look bucket plan deadline n

/-- Takes a token of the bucket of `key`. -/
def take (client : Ulid) (key : String) (wait : Duration) (plan : RatePlan) :
    Routine (Except GuardError Bool) :=
  match Limits.checkKey key, Limits.checkWait wait, Limits.checkRate plan with
  | .error e, _, _ => .done (.error e)
  | _, .error e, _ => .done (.error e)
  | _, _, .error e => .done (.error e)
  | .ok (), .ok (), .ok () =>
    .call .clock fun (now : Nat) =>
      look (bucket key client plan.scope) plan (now + wait.nanos) (polls wait)

end Rate

namespace Permits

def poll (key : String) (plan : PoolPlan) (permits : UInt32) (deadline : Nat) :
    Nat → Routine (Except GuardError Bool)
  | 0 => .done (.ok false)
  | n + 1 =>
    (run .takePermits [.pool key]
        [.number plan.capacity.toNat, .number permits.toNat,
          .number (atLeastOneMilli plan.lifetime)] Reply.int64).bind fun
      | .error e => .done (.error e)
      | .ok taken =>
        if taken = 1 then .call (.remember key permits plan.lifetime) fun _ => .done (.ok true)
        else if taken = -1 then .done (.ok false)
        else .call .clock fun (now : Nat) =>
          if deadline ≤ now then .done (.ok false)
          else .call (.pause (min pollInterval (Clock.since deadline now))) fun _ =>
            poll key plan permits deadline n

def take (key : String) (plan : PoolPlan) (demand : PoolDemand) :
    Routine (Except GuardError Bool) :=
  match Limits.checkKey key, Limits.checkWait demand.wait,
      Limits.checkPermits demand.permits plan.capacity with
  | .error e, _, _ => .done (.error e)
  | _, .error e, _ => .done (.error e)
  | _, _, .error e => .done (.error e)
  | .ok (), .ok (), .ok () =>
    .call .clock fun (now : Nat) =>
      poll key plan demand.permits (now + demand.wait.nanos) (polls demand.wait)

/-- Gives back the latest permits that were granted on `key`. -/
def give (key : String) : Routine (Except GuardError Unit) :=
  .call (.takeLatest key) fun (latest : Option (UInt32 × Duration)) =>
    match latest with
    | none => .done (.ok ())
    | some (permits, lifetime) =>
      (run .givePermits [.pool key] [.number permits.toNat, .number (atLeastOneMilli lifetime)]
        Reply.int64).bind fun answer => .done (answer.map fun _ => ())

end Permits

namespace Flags

/-- The values that switch a flag off, whatever their case and the blanks around them. -/
def isOff (value : String) : Bool :=
  let v := String.ofList ((Text.trim value.toList).map Char.toLower)
  v == "0" || v == "false" || v == "off"

def isEnabled (name : String) : Routine (Except GuardError Bool) :=
  .call (.send (.get (.flag name))) fun reply =>
    .done (reply.text?.map fun value => match value with
      | some v => !isOff v
      | none => true)

end Flags

end Turnstile.Remote
