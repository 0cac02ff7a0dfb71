import Turnstile.Json.Form
import Turnstile.Slot

/-!
# The forms of slots and bookings

The names and the order of the fields of every record that is exchanged as JSON.
-/

namespace Turnstile

open Json

def Duration.form : Form Duration :=
  Form.recordOf true
    (.cons "secs" (Form.nat UInt64.size) none (.cons "nanos" (Form.nat UInt32.size) none .nil))
    (fun (secs, nanos, _) => Duration.ofParts? secs nanos)
    (fun d => (d.wholeSecs, d.subsecNanos, ()))

def Date.form : Form Date := Form.ofText Date.ofText? Date.text

def TimeOfDay.form : Form TimeOfDay := Form.ofText TimeOfDay.ofText? TimeOfDay.text

def DateTime.form : Form DateTime := Form.ofText DateTime.ofText? DateTime.text

def SlotKey.form : Form SlotKey := Form.text.map SlotKey.mk SlotKey.text

def Request.form : Form Request :=
  Form.record
    (.cons "restaurant_id" .uint64 none (.cons "user_id" .uint64 none
      (.cons "date" Date.form none (.cons "start_time" TimeOfDay.form none .nil))))
    (fun (restaurant, user, date, time, _) => ⟨restaurant, user, date, time⟩)
    (fun r => (r.restaurant, r.user, r.date, r.time, ()))

def Candidate.form : Form Candidate :=
  Form.record
    (.cons "id" .uint64 none (.cons "restaurant_id" .uint64 none (.cons "table_id" .uint64 none
      (.cons "date" Date.form none (.cons "start_time" TimeOfDay.form none .nil)))))
    (fun (id, restaurant, table, date, time, _) => ⟨id, restaurant, table, date, time⟩)
    (fun c => (c.id, c.restaurant, c.table, c.date, c.time, ()))

namespace OccupancyStatus

def name : OccupancyStatus → String
  | occupied => "Occupied"
  | unoccupied => "Unoccupied"

def form : Form OccupancyStatus :=
  Form.oneOf [("Occupied", occupied), ("Unoccupied", unoccupied)] name

end OccupancyStatus

def Occupancy.form : Form Occupancy :=
  Form.record
    (.cons "candidate_id" .uint64 none (.cons "restaurant_id" .uint64 none
      (.cons "table_id" .uint64 none (.cons "user_id" .uint64 none
        (.cons "status" OccupancyStatus.form none (.cons "occupied_at" DateTime.form none
          (.cons "unoccupied_at" DateTime.form.optional (some none) .nil)))))))
    (fun (candidate, restaurant, table, user, status, occupiedAt, unoccupiedAt, _) =>
      ⟨candidate, restaurant, table, user, status, occupiedAt, unoccupiedAt⟩)
    (fun o =>
      (o.candidate, o.restaurant, o.table, o.user, o.status, o.occupiedAt, o.unoccupiedAt, ()))

def Reservation.form : Form Reservation :=
  Form.record
    (.cons "occupancy_id" .uint64 none (.cons "candidate_id" .uint64 none
      (.cons "table_id" .uint64 none (.cons "key" SlotKey.form none
        (.cons "degraded" .bool none .nil)))))
    (fun (occupancy, candidate, table, key, degraded, _) =>
      ⟨occupancy, candidate, table, key, degraded⟩)
    (fun r => (r.occupancy, r.candidate, r.table, r.key, r.degraded, ()))

def Event.form : Form Event :=
  Form.variant "Occupied" <| Form.record
    (.cons "occupancy_id" .uint64 none (.cons "restaurant_id" .uint64 none
      (.cons "table_id" .uint64 none (.cons "user_id" .uint64 none
        (.cons "key" SlotKey.form none .nil)))))
    (fun (occupancy, restaurant, table, user, key, _) =>
      .occupied occupancy restaurant table user key)
    (fun
      | .occupied occupancy restaurant table user key =>
        (occupancy, restaurant, table, user, key, ()))

namespace RateScope

def name : RateScope → String
  | whole => "Whole"
  | perClient => "PerClient"

def form : Form RateScope := Form.oneOf [("Whole", whole), ("PerClient", perClient)] name

end RateScope

def RatePlan.form : Form RatePlan :=
  Form.record
    (.cons "scope" RateScope.form none (.cons "permits_per_interval" .uint32 none
      (.cons "interval" Duration.form none (.cons "bucket_lifetime" Duration.form none .nil))))
    (fun (scope, permits, interval, lifetime, _) => ⟨scope, permits, interval, lifetime⟩)
    (fun p => (p.scope, p.permits, p.interval, p.lifetime, ()))

def PoolPlan.form : Form PoolPlan :=
  Form.record (.cons "capacity" .uint32 none (.cons "lifetime" Duration.form none .nil))
    (fun (capacity, lifetime, _) => ⟨capacity, lifetime⟩)
    (fun p => (p.capacity, p.lifetime, ()))

def PoolDemand.form : Form PoolDemand :=
  Form.record (.cons "permits" .uint32 none (.cons "wait" Duration.form none .nil))
    (fun (permits, wait, _) => ⟨permits, wait⟩)
    (fun p => (p.permits, p.wait, ()))

end Turnstile
