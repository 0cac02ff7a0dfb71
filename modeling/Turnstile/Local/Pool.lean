import Turnstile.Local.Latch
import Turnstile.Slot

/-!
# Permit pools

A pool has a capacity, permits that are available and, latest first, the acquisitions that have not
been given back. Callers that were refused wait in a line; giving permits back calls all of them
for another try, in their order.
-/

namespace Turnstile.Local

structure Pool where
  capacity : Nat
  available : Nat
  /-- The permits of the acquisitions that were not given back, latest first. -/
  outstanding : List Nat
  lastTouched : Nat
  lifetime : Duration
  /-- Callers that wait, oldest first. -/
  line : List Ticket
  /-- Callers that were called and have not tried again yet. -/
  called : List Ticket

namespace Pool

def full (plan : PoolPlan) (now : Nat) : Pool :=
  ⟨plan.capacity.toNat, plan.capacity.toNat, [], now, plan.lifetime, [], []⟩

/-- The pool has been idle for longer than its lifetime. -/
def isExpired (p : Pool) (now : Nat) : Bool := p.lifetime < Clock.since now p.lastTouched

/-- Some caller waits for permits of this pool. -/
def isAwaited (p : Pool) : Bool := !p.line.isEmpty || !p.called.isEmpty

/-- The capacity of the last caller counts: the available permits move with it, within bounds. An
expired pool starts afresh. -/
def reshape (p : Pool) (plan : PoolPlan) (now : Nat) : Pool :=
  let capacity := plan.capacity.toNat
  if p.isExpired now then
    { p with
      capacity, available := capacity, outstanding := [], lastTouched := now
      lifetime := plan.lifetime }
  else
    { p with
      capacity
      available := min capacity (p.available + capacity - p.capacity)
      lastTouched := now
      lifetime := plan.lifetime }

/-- The answer of a pool to one look. -/
inductive Look
  | granted
  | short
  /-- The pool could never hold so many permits. -/
  | impossible
deriving DecidableEq

/-- One look at a pool under `plan`, taking the permits if they are there. -/
def take (p : Pool) (plan : PoolPlan) (permits : Nat) (now : Nat) : Pool × Look :=
  let p := p.reshape plan now
  if p.capacity < permits then (p, .impossible)
  else if permits ≤ p.available then
    ({ p with
        available := p.available - permits
        outstanding := permits :: p.outstanding }, .granted)
  else (p, .short)

/-- Gives back the latest acquisition, if there is one, and calls the line. -/
def giveBack (p : Pool) (now : Nat) : Pool × List Ticket :=
  match p.outstanding with
  | [] => (p, [])
  | permits :: rest =>
    ({ p with
        available := min p.capacity (p.available + permits)
        outstanding := rest
        lastTouched := now
        line := []
        called := p.called ++ p.line }, p.line)

def join (p : Pool) (t : Ticket) : Pool := { p with line := p.line ++ [t] }

/-- Forgets a caller, whether it waits or was called. -/
def leave (p : Pool) (t : Ticket) : Pool :=
  { p with line := p.line.erase t, called := p.called.erase t }

end Pool

end Turnstile.Local
