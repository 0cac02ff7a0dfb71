import Turnstile.Local.Bucket
import Turnstile.Local.Pool
import Turnstile.Table

/-!
# The store of one process

All buckets, pools and latches of a process by their names, and who holds which fair lock. The
operations here answer at once; attempts that may have to wait are in `Turnstile.Local.Attempt`.
-/

namespace Turnstile.Local

structure Store where
  buckets : Table String (Bucket Float)
  pools : Table String Pool
  latches : Table String Latch
  /-- The owner of each fair lock that is held, and the ticket that holds its latch. -/
  holders : Table String (Ulid × Ticket)
  /-- Who this process is in the names of its own buckets. -/
  client : Ulid

namespace Store

def fresh (client : Ulid) : Store := ⟨.empty, .empty, .empty, .empty, client⟩

/-- The name of the bucket for a key. -/
def bucketName (s : Store) (key : String) : RateScope → String
  | .whole => key
  | .perClient => SlotKey.scopedTo ⟨key⟩ s.client

/-- The name of the latch of a named lock; a fair lock's latch has the name of its key. -/
def lockName (key : String) : String := "named_lock:" ++ key

def latch (s : Store) (name : String) : Latch := (s.latches.get? name).getD .idle

def setLatch (s : Store) (name : String) (l : Latch) : Store :=
  { s with latches := s.latches.insert name l }

/-- One look at a bucket, which is created full. -/
def takeToken (s : Store) (name : String) (plan : RatePlan) (now : Nat) : Store × Take :=
  let bucket := (s.buckets.get? name).getD (.full plan now)
  let (bucket, answer) := bucket.take plan now
  ({ s with buckets := s.buckets.insert name bucket }, answer)

/-- One look at a pool, which is created full. -/
def takePermits (s : Store) (key : String) (plan : PoolPlan) (permits : Nat) (now : Nat) :
    Store × Pool.Look :=
  let pool := (s.pools.get? key).getD (.full plan now)
  let (pool, answer) := pool.take plan permits now
  ({ s with pools := s.pools.insert key pool }, answer)

def isHeldBy (s : Store) (key : String) (owner : Ulid) : Bool :=
  match s.holders.get? key with
  | some (holder, _) => holder = owner
  | none => false

/-- The ticket lets go of the latch or leaves its line; the ticket that is to be woken. -/
def leaveLatch (s : Store) (name : String) (t : Ticket) : Store × List Ticket :=
  match s.latches.get? name with
  | none => (s, [])
  | some l => (s.setLatch name (l.leave t).1, (l.leave t).2.toList)

/-- Unlocks a fair lock if `owner` holds it. -/
def unlock (s : Store) (key : String) (owner : Ulid) : Store × Bool × List Ticket :=
  match s.holders.get? key with
  | some (holder, t) =>
    if holder = owner then
      let (s, woken) := { s with holders := s.holders.erase key }.leaveLatch key t
      (s, true, woken)
    else (s, false, [])
  | none => (s, false, [])

/-- Gives back the latest acquisition of a pool. -/
def giveBack (s : Store) (key : String) (now : Nat) : Store × List Ticket :=
  match s.pools.get? key with
  | some pool =>
    let (pool, woken) := pool.giveBack now
    ({ s with pools := s.pools.insert key pool }, woken)
  | none => (s, [])

def available? (s : Store) (key : String) : Option Nat := (s.pools.get? key).map (·.available)

def entryCount (s : Store) : Nat := s.buckets.size + s.pools.size + s.latches.size

/-- Drops what is unused: buckets and pools idle past their lifetime, unless somebody waits for
permits, and latches that nobody holds. -/
def sweep (s : Store) (now : Nat) : Store :=
  { s with
    buckets := s.buckets.retain fun _ b => !b.isExpired now
    pools := s.pools.retain fun _ p => p.isAwaited || !p.isExpired now
    latches := s.latches.retain fun _ l => !l.isIdle }

/-- How many entries a sweep drops. -/
def swept (s : Store) (now : Nat) : Nat := s.entryCount - (s.sweep now).entryCount

end Store

end Turnstile.Local
