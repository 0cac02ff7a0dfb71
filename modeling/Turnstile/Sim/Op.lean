import Turnstile.Json.Value
import Turnstile.Local.Attempt
import Turnstile.Measure
import Turnstile.Notice
import Turnstile.Schedule.Host
import Turnstile.Sim.Post

/-!
# Operations of the simulation

What a task can ask for: a `Wait` may block, and `Wait.Pending` is what it remembers then; a `Deed`
answers at once. An `Act` is a step of a scenario that answers at once.
-/

namespace Turnstile.Sim

open Admission (Held)

/-- A scripted reply of the coordination server. -/
structure Scripted where
  /-- How long the server takes for it. -/
  delay : Duration
  reply : Remote.Reply

/-- The state of a ledger as a scenario shows it. -/
structure LedgerView where
  entries : List Occupancy
  withTimes : Bool

/-- The answer to a step of a scenario. -/
inductive Answer
  | null
  | bool (b : Bool)
  | nat (n : Nat)
  | nats (ns : List Nat)
  | bools (bs : List Bool)
  | verdict (r : Except GuardError Bool)
  | settled (r : Except GuardError Unit)
  | candidates (cs : List Candidate)
  | created (r : Except StoreError (Option UInt64))
  | ledger (v : LedgerView)
  | receipt (r : Receipt)
  | events (es : List Event)
  | lease (d : Duration)
  | duration (d : Duration)
  | reservation (r : Except AdmissionError Reservation)
  | work (r : Except AdmissionError Json)
  | underLock (r : Admission.Locked Json)
  | lines (ls : List String)
  | measures (m : Measures)
  | commands (cs : List Remote.Command)
  | occupied (ids : List UInt64)
  | noController
  | noLock

/-- A step that answers at once. -/
inductive Act
  | available (key : String) (side : Side)
  | counts (side : Side)
  | sweep (after : Duration)
  | startReaper (every : Duration)
  | stopReaper
  | keepNamed (name : String) (held : Held)
  | releaseNamed (name : String)
  | addCandidate (c : Candidate)
  | addTables (slot : Slot) (firstId : UInt64) (count : Nat)
  | query (slot : Slot)
  | create (c : Candidate) (user : UInt64) (now : DateTime)
  | entries (withTimes : Bool)
  | occupied
  | setFlag (name : String) (enabled : Bool)
  | getFlag (name : String)
  | subscribe (name : String) (restaurant : UInt64)
  | unsubscribe (name : String)
  | send (audience : Audience) (e : Event)
  | removeChannel (restaurant : UInt64)
  | receive (name : String)
  | takeEvents
  | setController (c : Controller)
  | setRemoteController (settings : Settings) (flags degraded : Bool)
  | setFault (point : String) (f : Option Fault)
  | takeTrace
  | showMeasures
  | renewing
  | lease
  | dropLock
  | script (name : String) (replies : List Scripted)
  | takeCommands

/-- An operation that may block. -/
inductive Wait
  | sleep (d : Duration)
  | sleepUntil (t : Nat)
  | attempt (side : Side) (a : Local.Attempt)
  | exchange (c : Remote.Command)
  /-- The next command that the coordination server has to handle. -/
  | nextCommand

/-- An operation that answers at once. -/
inductive Deed
  /-- Notes a command and chooses the reply to it. -/
  | record (c : Remote.Command)
  | deliver (t : Ticket) (c : Remote.Command) (r : Remote.Reply)
  | clock
  | wallClock
  | newOwner
  /-- Leaves a line in the trace and uses up a fault, set for the first point that has any. -/
  | watched (points : List String) (line : String)
  | isHeldBy (side : Side) (key : String) (owner : Ulid)
  | unlock (side : Side) (key : String) (owner : Ulid)
  | giveBack (side : Side) (key : String)
  | free (side : Side) (held : Held)
  | flag (name : String)
  | query (slot : Slot)
  | create (entry : Occupancy)
  | publish (audience : Audience) (e : Event)
  | note (n : Admission.Note)
  /-- Sweeps the primary store and reports what is left. -/
  | reap
  | watch (client : Nat) (lock : Remote.Name) (owner : Ulid) (lease : Duration)
  | unwatch (client : Nat) (lock : Remote.Name) (owner : Ulid)
  | remember (client : Nat) (key : String) (permits : UInt32) (lifetime : Duration)
  | takeLatest (client : Nat) (key : String)
  /-- Begins to use the lock of the scenario, if it is still there; the lease of the lock. -/
  | useLock
  /-- Begins to use the controller, if there is one. -/
  | useController
  | letGo (client : Nat)
  | act (a : Act)

inductive Op
  | wait (w : Wait)
  | deed (d : Deed)

namespace Wait

def Answer : Wait → Type
  | sleep _ => Unit
  | sleepUntil _ => Unit
  | attempt _ _ => Local.Outcome
  | exchange _ => Remote.Reply
  | nextCommand => Ticket × Remote.Command

/-- What an operation remembers while it is blocked. -/
def Pending : Wait → Type
  | sleep _ => Nat
  | sleepUntil _ => Nat
  | attempt _ _ => Ticket × Local.Waiting
  | exchange _ => Ticket
  | nextCommand => Unit

/-- The instant at which a blocked operation looks again by itself. -/
def due? : (w : Wait) → w.Pending → Option Nat
  | sleep _, (t : Nat) => some t
  | sleepUntil _, (t : Nat) => some t
  | attempt _ _, (_, p) => some p.due
  | exchange _, _ => none
  | nextCommand, _ => none

/-- The signal for the holder of a ticket. -/
def ticketSignal (t : Ticket) : Nat := t + 1

/-- The signal that a command has come. -/
def commandSignal : Nat := 0

def signal? : (w : Wait) → w.Pending → Option Nat
  | sleep _, _ => none
  | sleepUntil _, _ => none
  | attempt _ _, (t, _) => some (ticketSignal t)
  | exchange _, (t : Nat) => some (ticketSignal t)
  | nextCommand, _ => some commandSignal

end Wait

def Deed.Answer : Deed → Type
  | record _ => Scripted
  | deliver _ _ _ => Unit
  | clock => Nat
  | wallClock => DateTime
  | newOwner => Ulid
  | watched _ _ => Option Fault
  | isHeldBy _ _ _ => Bool
  | unlock _ _ _ => Bool
  | giveBack _ _ => Unit
  | free _ _ => Unit
  | flag _ => Bool
  | query _ => List Candidate
  | create _ => Except StoreError (Option UInt64)
  | publish _ _ => Unit
  | note _ => Unit
  | reap => Unit
  | watch _ _ _ _ => Unit
  | unwatch _ _ _ => Unit
  | remember _ _ _ _ => Unit
  | takeLatest _ _ => Option (UInt32 × Duration)
  | useLock => Option Duration
  | useController => Option Controller
  | letGo _ => Unit
  | act _ => Sim.Answer

namespace Op

def Answer : Op → Type
  | wait w => w.Answer
  | deed d => d.Answer

/-- Deeds never block. -/
def Pending : Op → Type
  | wait w => w.Pending
  | deed _ => Empty

def due? : (op : Op) → op.Pending → Option Nat
  | wait w, (p : w.Pending) => w.due? p
  | deed _, (p : Empty) => p.elim

def signal? : (op : Op) → op.Pending → Option Nat
  | wait w, (p : w.Pending) => w.signal? p
  | deed _, (p : Empty) => p.elim

end Op

def operations : Interface := ⟨Op, Op.Answer⟩

/-- A program of the simulation. -/
abbrev Code := Program operations Pledge

def Code.wait (w : Wait) : Code w.Answer := .call (I := operations) (.wait w) .done

def Code.deed (d : Deed) : Code d.Answer := .call (I := operations) (.deed d) .done

/-- How a task ends. -/
inductive Ending
  | finished (a : Answer)
  | again (s : Service)

end Turnstile.Sim
