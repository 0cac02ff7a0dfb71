import Turnstile.Admission.Reserve
import Turnstile.Database
import Turnstile.Json.Forms
import Turnstile.Remote.Guards
import Turnstile.Sim.Op

/-!
# Carrying out the calls of a controller

`Wiring.serve` carries out each call of a reservation where the collaborator stands: in a local
store, watched or not, or at the coordination server. `Wiring.run` does so for a whole routine, and
what the routine owes becomes a pledge of the task that runs it.
-/

namespace Turnstile.Sim

open Admission (Held)
open Text

variable {α : Type}

/-- A named number in a line of the trace. -/
def shown (name : String) (n : Nat) : String := name ++ "=" ++ String.ofList (Decimal.digits n)

/-- A duration in a line of the trace, in whole milliseconds. -/
def shownMillis (name : String) (d : Duration) : String := shown name (Clock.millis d.nanos)

def number (n : UInt64) : String := String.ofList (Decimal.digits n.toNat)

namespace FaultKind

/-- What a guard answers under a fault; `no` is its refusal. -/
def guardAnswer? (no : α) : FaultKind → Option (Except GuardError α)
  | deny => some (.ok no)
  | guard e => some (.error e)
  | _ => Option.none

/-- What the release of a named lock answers under a fault; it cannot be refused. -/
def releaseAnswer? : FaultKind → Option (Except GuardError Unit)
  | guard e => some (.error e)
  | _ => Option.none

/-- What the ledger answers under a fault. -/
def storeAnswer? (no : α) : FaultKind → Option (Except StoreError α)
  | deny => some (.ok no)
  | store e => some (.error e)
  | _ => Option.none

end FaultKind

namespace Code

/-- Lets time pass, if any is asked for. -/
def rest : Option Duration → Code Unit
  | some d => wait (.sleep d)
  | none => .done ()

/-- A watched call. A fault delays it and may answer in its place; else the call goes ahead with
the capacity that the fault asks for. -/
def watched (points : List String) (words : List String) (answer? : FaultKind → Option α)
    (go : Option UInt32 → Code α) : Code α :=
  (deed (.watched points (" ".intercalate words))).bind fun (f : Option Fault) =>
    match f with
    | none => go none
    | some f => (rest f.delay).bind fun _ =>
      match answer? f.kind with
      | some a => .done a
      | none => go f.capacity

/-- An attempt at a guard of a local store: the ticket that was granted, if any. -/
def attempt (side : Side) (a : Local.Attempt) : Code (Except GuardError (Option Ticket)) :=
  wait (.attempt side a)

/-- An attempt at a guard of a local store: whether it was granted. -/
def isGranted (side : Side) (a : Local.Attempt) : Code (Except GuardError Bool) :=
  (attempt side a).bind fun o => .done (o.map Option.isSome)

/-- How a client of the coordination server does what its routines ask for. -/
def serveClient (n : Nat) : (c : Remote.Call) → Code c.Answer
  | .send c => wait (.exchange c)
  | .clock => deed .clock
  | .pause d => wait (.sleep d)
  | .watch lock owner lease => deed (.watch n lock owner lease)
  | .unwatch lock owner => deed (.unwatch n lock owner)
  | .remember key permits lifetime => deed (.remember n key permits lifetime)
  | .takeLatest key => deed (.takeLatest n key)

/-- A routine of the `n`-th client. -/
def remote (n : Nat) (p : Remote.Routine α) : Code α := p.lower (serveClient n) Empty.elim

end Code

namespace Watch

/-- A call to a guard, watched or not. The guard's point has the name `name`. -/
def call (w : Watch) (name : String) (details : List String) (answer? : FaultKind → Option α)
    (go : Option UInt32 → Code α) : Code α :=
  match w with
  | off => go none
  | _ => Code.watched [w.point name] (w.point name :: details) answer? go

end Watch

/-- The identity of the `n`-th client; those of stores and owners are apart from it. -/
def clientId (n : Nat) : Ulid := .ofNat (Nat.pow 2 100 + n)

namespace Post

def rate (p : Post) (key : String) (wait : Duration) (plan : RatePlan) :
    Code (Except GuardError Bool) :=
  match p with
  | store side watch =>
    watch.call "rate" [key, shownMillis "wait" wait, shown "permits" plan.permits.toNat]
      (FaultKind.guardAnswer? false) fun _ => Code.isGranted side (.token key wait plan)
  | remote n => Code.remote n (Remote.Rate.take (clientId n) key wait plan)

/-- Takes a fair lock; a remote one has the given lease. -/
def lock (p : Post) (lease : Duration) (key : String) (owner : Ulid) (wait : Duration) :
    Code (Except GuardError Bool) :=
  match p with
  | store side watch =>
    watch.call "lock" [key, shownMillis "wait" wait] (FaultKind.guardAnswer? false) fun _ =>
      Code.isGranted side (.lock key owner wait)
  | remote n => Code.remote n (Remote.Lock.take lease key owner wait)

def isHeldBy (p : Post) (key : String) (owner : Ulid) : Code (Except GuardError Bool) :=
  match p with
  | store side watch =>
    watch.call "held" [key] (FaultKind.guardAnswer? false) fun _ =>
      (Code.deed (.isHeldBy side key owner)).bind fun (b : Bool) => .done (.ok b)
  | remote n => Code.remote n (Remote.Lock.isHeldBy key owner)

def unlock (p : Post) (key : String) (owner : Ulid) : Code (Except GuardError Bool) :=
  match p with
  | store side watch =>
    watch.call "unlock" [key] (FaultKind.guardAnswer? false) fun _ =>
      (Code.deed (.unlock side key owner)).bind fun (b : Bool) => .done (.ok b)
  | remote n => Code.remote n (Remote.Lock.unlock key owner)

def permits (p : Post) (key : String) (plan : PoolPlan) (demand : PoolDemand) :
    Code (Except GuardError Bool) :=
  match p with
  | store side watch =>
    watch.call "sem"
      [key, shown "permits" demand.permits.toNat, shown "capacity" plan.capacity.toNat,
        shownMillis "wait" demand.wait, shownMillis "lifetime" plan.lifetime]
      (FaultKind.guardAnswer? false) fun capacity =>
        let plan := { plan with capacity := capacity.getD plan.capacity }
        Code.isGranted side (.permits key plan demand)
  | remote n => Code.remote n (Remote.Permits.take key plan demand)

def giveBack (p : Post) (key : String) : Code (Except GuardError Unit) :=
  match p with
  | store side watch =>
    watch.call "sem_release" [key] (FaultKind.guardAnswer? ()) fun _ =>
      (Code.deed (.giveBack side key)).bind fun _ => .done (.ok ())
  | remote n => Code.remote n (Remote.Permits.give key)

end Post

namespace SpareLockPost

def lock (p : SpareLockPost) (key : String) (wait : Duration) :
    Code (Except GuardError (Option Held)) :=
  match p with
  | store side watch =>
    watch.call "lock" [key, shownMillis "wait" wait] (FaultKind.guardAnswer? none) fun _ =>
      (Code.attempt side (.named key wait)).bind fun o => .done (o.map fun t => t.map (Held.mk key))
  | unreachable => .done (.error (Database.unreachable key wait))

/-- Releases a named lock. It is let go even if the release fails or is given up. -/
def unlock (p : SpareLockPost) (held : Held) : Code (Except GuardError Unit) :=
  match p with
  | store side watch =>
    Program.owing (.free side held) <|
      watch.call "release" [held.key] FaultKind.releaseAnswer? fun _ => .done (.ok ())
  | unreachable => .done (.ok ())

end SpareLockPost

def FlagPost.isEnabled (p : FlagPost) (name : String) : Code (Except GuardError Bool) :=
  match p with
  | watched =>
    Watch.primary.call "flag" [name] (FaultKind.guardAnswer? false) fun _ =>
      (Code.deed (.flag name)).bind fun (b : Bool) => .done (.ok b)
  | remote n => Code.remote n (Remote.Flags.isEnabled name)

namespace Wiring

def query (slot : Slot) : Code (Except StoreError (List Candidate)) :=
  Watch.primary.call "query"
    [number slot.restaurant, String.ofList slot.date.text, String.ofList slot.time.text]
    (FaultKind.storeAnswer? []) fun _ =>
      (Code.deed (.query slot)).bind fun (cs : List Candidate) => .done (.ok cs)

/-- A fault may be set for one candidate or for all of them. -/
def create (o : Occupancy) : Code (Except StoreError (Option UInt64)) :=
  Code.watched ["create:" ++ number o.candidate, "create"]
    ["create", number o.candidate, "restaurant=" ++ number o.restaurant, "table=" ++ number o.table,
      "user=" ++ number o.user, o.status.name,
      if o.unoccupiedAt.isSome then "released=true" else "released=false"]
    (FaultKind.storeAnswer? none) fun _ => Code.deed (.create o)

/-- Carries out a call of a reservation. -/
def serve (w : Wiring) : (c : Admission.Call) → Code c.Answer
  | .flag name => w.flags.isEnabled name
  | .wallClock => Code.deed .wallClock
  | .newOwner => Code.deed .newOwner
  | .rate spare key wait plan => (if spare then w.spareRate else w.rate).rate key.text wait plan
  | .lock key owner wait => w.lock.lock w.lease key.text owner wait
  | .isHeldBy key owner => w.lock.isHeldBy key.text owner
  | .unlock key owner => w.lock.unlock key.text owner
  | .spareLock key wait => w.spareLock.lock key.text wait
  | .spareUnlock held => w.spareLock.unlock held
  | .permits spare key plan demand =>
    (if spare then w.sparePermits else w.permits).permits key.text plan demand
  | .giveBack spare key => (if spare then w.sparePermits else w.permits).giveBack key.text
  | .query slot => query slot
  | .create entry => create entry
  | .publish event => Code.deed (.publish w.audience event)
  | .note n => Code.deed (.note n)
  | .pause d => Code.wait (.sleep d)

/-- Runs a routine of a controller. -/
def run (w : Wiring) (p : Admission.Routine α) : Code α := p.lower w.serve (Pledge.release w)

/-- Runs `p` while it uses the client of the controller's lock. -/
def holding (w : Wiring) (p : Code α) : Code α :=
  match w.lockClient? with
  | some n => p.owing (.letGo n)
  | none => p

end Wiring

namespace Pledge

/-- How a task settles what it owes. -/
def code : Pledge → Code Unit
  | release w r => w.run r.program
  | free side held => Code.deed (.free side held)
  | letGo n => Code.deed (.letGo n)

end Pledge

namespace Service

/-- One round of a service. -/
def round : Service → Code Ending
  | reaper next every =>
    (Code.wait (.sleepUntil next)).bind fun _ =>
    (Code.deed .reap).bind fun _ =>
    .done (.again (.reaper (next + every.nanos) every))
  | server =>
    (Code.wait .nextCommand).bind fun ((t, c) : Ticket × Remote.Command) =>
    (Code.deed (.record c)).bind fun (s : Scripted) =>
    (Code.wait (.sleep s.delay)).bind fun _ =>
    (Code.deed (.deliver t c s.reply)).bind fun _ =>
    .done (.again .server)
  | watchdog n lock owner lease =>
    (Code.remote n (Remote.Lock.renewal lock owner lease)).bind fun goesOn =>
    .done (if goesOn then .again (.watchdog n lock owner lease) else .finished .null)

end Service

end Turnstile.Sim
