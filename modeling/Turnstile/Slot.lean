import Turnstile.Calendar.TimeOfDay
import Turnstile.Duration
import Turnstile.Ulid

/-!
# Slots and what is booked in them

A slot is one start time of one restaurant. Its candidates are the tables that can be booked then,
and its key is the name under which every guard knows it.
-/

namespace Turnstile

/-- The name of a slot among the guards. -/
structure SlotKey where
  text : String
deriving DecidableEq, Inhabited

structure Slot where
  restaurant : UInt64
  date : Date
  time : TimeOfDay
deriving DecidableEq

/-- A request to occupy any free table of one slot. -/
structure Request where
  restaurant : UInt64
  user : UInt64
  date : Date
  time : TimeOfDay
deriving DecidableEq

/-- A table at a start time that may be booked. -/
structure Candidate where
  id : UInt64
  restaurant : UInt64
  table : UInt64
  date : Date
  time : TimeOfDay
deriving DecidableEq

inductive OccupancyStatus
  | occupied
  | unoccupied
deriving DecidableEq

/-- The entry that a writer stores for a candidate. -/
structure Occupancy where
  candidate : UInt64
  restaurant : UInt64
  table : UInt64
  user : UInt64
  status : OccupancyStatus
  occupiedAt : DateTime
  unoccupiedAt : Option DateTime
deriving DecidableEq

structure Reservation where
  occupancy : UInt64
  candidate : UInt64
  table : UInt64
  key : SlotKey
  /-- The lock came from the substitute. -/
  degraded : Bool
deriving DecidableEq

/-- What subscribers are told. -/
inductive Event
  | occupied (occupancy restaurant table user : UInt64) (key : SlotKey)
deriving DecidableEq

namespace SlotKey

/-- The first part of every slot key. -/
def domain : String := "occupancy"

/-- The key of the bucket that one client has to itself. -/
def scopedTo (k : SlotKey) (client : Ulid) : String :=
  k.text ++ ":client:" ++ String.ofList client.text

end SlotKey

namespace Slot

open Text

/-- The key joins the domain, the restaurant, the date and the time to the second. -/
def key (s : Slot) : SlotKey :=
  ⟨SlotKey.domain ++ String.ofList (':' :: Decimal.digits s.restaurant.toNat ++
    ':' :: s.date.text ++ ':' :: s.time.clockText)⟩

end Slot

def Request.slot (r : Request) : Slot := ⟨r.restaurant, r.date, r.time⟩

def Candidate.slot (c : Candidate) : Slot := ⟨c.restaurant, c.date, c.time⟩

namespace Occupancy

/-- The entry for a candidate that `user` takes `now`. -/
def take (c : Candidate) (user : UInt64) (now : DateTime) : Occupancy :=
  ⟨c.id, c.restaurant, c.table, user, .occupied, now, none⟩

end Occupancy

def Event.restaurant : Event → UInt64
  | .occupied _ restaurant _ _ _ => restaurant

/-- Which callers share a bucket. -/
inductive RateScope
  | whole
  | perClient
deriving DecidableEq

/-- How fast a bucket fills and how long it is kept idle. -/
structure RatePlan where
  scope : RateScope
  permits : UInt32
  interval : Duration
  lifetime : Duration
deriving DecidableEq

/-- The size of a pool and how long it is kept idle. -/
structure PoolPlan where
  capacity : UInt32
  lifetime : Duration
deriving DecidableEq

/-- How many permits one acquisition wants and how long it may wait. -/
structure PoolDemand where
  permits : UInt32
  wait : Duration
deriving DecidableEq

end Turnstile
