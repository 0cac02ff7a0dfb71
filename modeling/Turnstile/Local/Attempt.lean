import Turnstile.Limits
import Turnstile.Local.Store

/-!
# Attempts

An attempt asks one guard of a store for something and may wait for it. `begin` makes the first
try; `resume` is another look after the attempt was woken or its time has come; `cancel` takes it
out of every line. What a waiting attempt remembers is a `Waiting`.
-/

namespace Turnstile.Local

inductive Attempt
  /-- A token of the bucket of `key`. -/
  | token (key : String) (wait : Duration) (plan : RatePlan)
  /-- The fair lock of `key`, for `owner`. -/
  | lock (key : String) (owner : Ulid) (wait : Duration)
  | permits (key : String) (plan : PoolPlan) (demand : PoolDemand)
  /-- The named lock of `key`, for whoever has the ticket. -/
  | named (key : String) (wait : Duration)

/-- What an attempt came to: the ticket that was granted, or nothing within the wait. -/
abbrev Outcome := Except GuardError (Option Ticket)

inductive Waiting
  /-- Sleeps until `wake`, when a token should be there. -/
  | token (bucket : String) (plan : RatePlan) (deadline wake : Nat)
  /-- Stands in the line of a latch; for a fair lock, `owner` is who wants it. -/
  | turn (latch : String) (owner : Option Ulid) (deadline : Nat)
  /-- Waits to be called by a pool. -/
  | permits (key : String) (plan : PoolPlan) (permits : Nat) (deadline : Nat)

inductive Progress
  | done (o : Outcome)
  | waiting (w : Waiting)

namespace Waiting

/-- The instant at which the attempt looks again unless it is woken before. -/
def due : Waiting → Nat
  | token _ _ _ wake => wake
  | turn _ _ deadline => deadline
  | permits _ _ _ deadline => deadline

/-- The timer of the attempt has fired. -/
def isDue (w : Waiting) (now : Nat) : Bool := Clock.tick w.due ≤ now

end Waiting

/-- When to look again at a bucket that asks for `wait`, if that is not too late. -/
def wakeFor? (now deadline : Nat) (wait : Duration) : Option Nat :=
  if Clock.since deadline now < wait then none else some (now + wait.nanos)

namespace Store

def tryToken (s : Store) (t : Ticket) (now : Nat) (bucket : String) (plan : RatePlan)
    (deadline : Nat) : Store × Progress :=
  match s.takeToken bucket plan now with
  | (s, .taken) => (s, .done (.ok (some t)))
  | (s, .wait d) =>
    match wakeFor? now deadline d with
    | some wake => (s, .waiting (.token bucket plan deadline wake))
    | none => (s, .done (.ok none))

/-- The latch is held by `t`, whose attempt ends. -/
def grantLatch (s : Store) (t : Ticket) (name : String) : Option Ulid → Store
  | some owner => { s with holders := s.holders.insert name (owner, t) }
  | none => s

/-- Enters the line of a latch; an idle one is taken at once. -/
def enterLatch (s : Store) (t : Ticket) (name : String) (owner : Option Ulid) (deadline : Nat) :
    Store × Progress :=
  let s' := s.setLatch name ((s.latch name).enter t)
  if (s.latch name).isIdle then (s'.grantLatch t name owner, .done (.ok (some t)))
  else (s', .waiting (.turn name owner deadline))

/-- Takes an idle latch and gives up on one that is held. -/
def tryLatch (s : Store) (t : Ticket) (name : String) (owner : Ulid) : Store × Progress :=
  if (s.latch name).isIdle then
    ((s.setLatch name (.held t [])).grantLatch t name (some owner), .done (.ok (some t)))
  else (s, .done (.ok none))

def tryPermits (s : Store) (t : Ticket) (now : Nat) (key : String) (plan : PoolPlan) (permits : Nat)
    (deadline : Nat) : Store × Progress :=
  match s.takePermits key plan permits now with
  | (s, .granted) => (s, .done (.ok (some t)))
  | (s, .impossible) => (s, .done (.ok none))
  | (s, .short) =>
    if Clock.tick deadline ≤ now then (s, .done (.ok none))
    else
      ({ s with pools := s.pools.modify key (·.join t) },
        .waiting (.permits key plan permits deadline))

/-- Takes a waiting attempt out of every line; the tickets that are to be woken. -/
def cancel (s : Store) (t : Ticket) : Waiting → Store × List Ticket
  | .token _ _ _ _ => (s, [])
  | .turn name _ _ => s.leaveLatch name t
  | .permits key _ _ _ => ({ s with pools := s.pools.modify key (·.leave t) }, [])

/-- The first try of an attempt, after its input was checked. -/
def start (s : Store) (t : Ticket) (now : Nat) : Attempt → Store × Progress
  | .token key wait plan => s.tryToken t now (s.bucketName key plan.scope) plan (now + wait.nanos)
  | .lock key owner wait =>
    if wait.isZero then s.tryLatch t key owner
    else s.enterLatch t key (some owner) (now + wait.nanos)
  | .named key wait =>
    match s.enterLatch t (lockName key) none (now + wait.nanos) with
    | (s', .waiting w) =>
      if w.isDue now then ((s'.cancel t w).1, .done (.ok none)) else (s', .waiting w)
    | answered => answered
  | .permits key plan demand =>
    s.tryPermits t now key plan demand.permits.toNat (now + demand.wait.nanos)

end Store

/-- The first bound that the input of an attempt breaks. -/
def Attempt.check : Attempt → Except GuardError Unit
  | token key wait plan => do
    Limits.checkKey key
    Limits.checkWait wait
    Limits.checkRate plan
  | lock key _ wait => do
    Limits.checkKey key
    Limits.checkWait wait
  | named key wait => do
    Limits.checkKey key
    Limits.checkWait wait
  | permits key plan demand => do
    Limits.checkKey key
    Limits.checkWait demand.wait
    Limits.checkPermits demand.permits plan.capacity

namespace Store

/-- Begins an attempt under the ticket `t`. -/
def begin (s : Store) (t : Ticket) (now : Nat) (a : Attempt) : Store × Progress :=
  match a.check with
  | .error e => (s, .done (.error e))
  | .ok () => s.start t now a

/-- A waiting attempt looks again; the tickets that are to be woken. -/
def resume (s : Store) (t : Ticket) (now : Nat) (w : Waiting) : Store × List Ticket × Progress :=
  match w with
  | .token bucket plan deadline _ =>
    if w.isDue now then
      let (s, p) := s.tryToken t now bucket plan deadline
      (s, [], p)
    else (s, [], .waiting w)
  | .turn name owner _ =>
    if (s.latch name).holder? = some t then (s.grantLatch t name owner, [], .done (.ok (some t)))
    else if w.isDue now then
      let (s, woken) := s.leaveLatch name t
      (s, woken, .done (.ok none))
    else (s, [], .waiting w)
  | .permits key plan permits deadline =>
    match s.pools.get? key with
    | none => (s, [], .done (.ok none))
    | some pool =>
      if t ∈ pool.called then
        let s := { s with pools := s.pools.insert key (pool.leave t) }
        let (s, p) := s.tryPermits t now key plan permits deadline
        (s, [], p)
      else if w.isDue now then
        ({ s with pools := s.pools.insert key (pool.leave t) }, [], .done (.ok none))
      else (s, [], .waiting w)

end Store

end Turnstile.Local
