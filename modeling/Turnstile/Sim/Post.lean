import Turnstile.Admission.Reserve
import Turnstile.Remote.Exchange

/-!
# Posts

Where each guard of a controller stands: in one of two local stores, in the open or watched, or at
the coordination server. A watched guard leaves a line in the trace for every call, and a fault set
for its point may make it slow, refuse or fail.
-/

namespace Turnstile.Sim

/-- The two local stores. -/
inductive Side
  | primary
  | separate
deriving DecidableEq

inductive Watch
  | off
  | primary
  /-- Watched as a substitute, whose points have names of their own. -/
  | spare
deriving DecidableEq

/-- The name of a point. -/
def Watch.point (w : Watch) (name : String) : String :=
  match w with
  | spare => "d_" ++ name
  | _ => name

inductive Post
  | store (side : Side) (watch : Watch)
  /-- A client of the coordination server, by its number. -/
  | remote (client : Nat)

inductive SpareLockPost
  | store (side : Side) (watch : Watch)
  /-- A database that nobody answers for. -/
  | unreachable

inductive FlagPost
  | watched
  | remote (client : Nat)

inductive Audience
  | hub
  | log
deriving DecidableEq

/-- Where a controller finds its collaborators. -/
structure Wiring where
  rate : Post
  lock : Post
  permits : Post
  spareRate : Post
  spareLock : SpareLockPost
  sparePermits : Post
  flags : FlagPost
  audience : Audience
  /-- The lease of a remote lock. -/
  lease : Duration

/-- The client of the coordination server whose lock a controller uses. -/
def Wiring.lockClient? (w : Wiring) : Option Nat :=
  match w.lock with
  | .remote n => some n
  | .store _ _ => none

structure Controller where
  policy : Admission.Policy
  wiring : Wiring

/-- What a fault does to a call, besides making it late. -/
inductive FaultKind
  | none
  | deny
  | guard (e : GuardError)
  | store (e : StoreError)

structure Fault where
  kind : FaultKind
  delay : Option Duration
  /-- How many more calls it applies to, if not to all. -/
  left : Option Nat
  /-- The capacity that replaces the one asked for. -/
  capacity : Option UInt32

/-- What a task owes. A release is carried out by a task of its own when the task is dropped;
everything else is done at once. -/
inductive Pledge
  | release (w : Wiring) (r : Admission.Release)
  | free (side : Side) (held : Admission.Held)
  /-- Stops using a client of the coordination server. -/
  | letGo (client : Nat)

/-- What runs in the background, again and again. -/
inductive Service
  /-- Sweeps the primary store, next at the instant `next`. -/
  | reaper (next : Nat) (every : Duration)
  /-- The coordination server. -/
  | server
  | watchdog (client : Nat) (lock : Remote.Name) (owner : Ulid) (lease : Duration)

end Turnstile.Sim
