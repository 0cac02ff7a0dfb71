import Turnstile.Json.Forms
import Turnstile.Proofs.Calendar
import Turnstile.Proofs.Json.Faithful
import Turnstile.Sim.World

/-!
# The forms read what they write

The forms of slots and bookings are faithful: a record because its fields have different names and
faithful forms, a duration because seconds and nanoseconds fit their bounds and determine it. So
the lines of the log give back the events that were published (`loggedEvents_publish`).

Times are read back as a clock shows them. A record with a time in it is read back as it was if its
leap seconds are the last of their minutes, and only then (`forms_faithful`).
-/

namespace Turnstile

open Json

theorem Duration.form_faithful : Duration.form.Faithful := by
  intro d
  have hnanos : d.subsecNanos < UInt32.size :=
    Nat.lt_trans (Nat.mod_lt _ (by decide)) (by decide : 1_000_000_000 < UInt32.size)
  exact Form.recordOf_reads (by decide)
    ⟨Form.nat_reads d.wholeSecs_lt (Nat.le_refl _), Form.nat_reads hnanos (by decide), trivial⟩
    d.ofParts?_wholeSecs_subsecNanos

theorem Date.form_faithful : Date.form.Faithful := fun d => Form.ofText_reads d.ofText?_text

namespace TimeOfDay

variable {t : TimeOfDay}

theorem form_reads (h : t.LeapIsLast) : form.Reads t :=
  Form.ofText_reads (t.ofText?_text.trans (congrArg some (shown_of_leapIsLast h)))

theorem write_shown (t : TimeOfDay) : form.write t.shown = form.write t :=
  congrArg (fun s => Json.text (String.ofList s)) t.text_shown

/-- A leap second, and a fraction of as few digits as are exact. -/
example : form.toLine ⟨86_399, 1_000_500_000, by decide, by decide⟩ = "\"23:59:60.000500\"" := by
  decide

end TimeOfDay

namespace DateTime

variable {t : DateTime}

theorem form_reads (h : t.LeapIsLast) : form.Reads t :=
  Form.ofText_reads (t.ofText?_text.trans (congrArg some (shown_eq_self_iff.2 h)))

theorem write_shown (t : DateTime) : form.write t.shown = form.write t :=
  congrArg (fun s => Json.text (String.ofList s)) t.text_shown

end DateTime

theorem SlotKey.form_faithful : SlotKey.form.Faithful :=
  Form.map_faithful Form.text_faithful fun _ => rfl

namespace Request

variable {r : Request}

def LeapIsLast (r : Request) : Prop := r.time.LeapIsLast

/-- The request for the time that the clock shows. -/
def shown (r : Request) : Request := { r with time := r.time.shown }

theorem shown_eq_self_iff : r.shown = r ↔ r.LeapIsLast := by
  obtain ⟨restaurant, user, date, time⟩ := r
  simp [shown, LeapIsLast, TimeOfDay.shown_eq_self_iff]

theorem form_reads (h : r.LeapIsLast) : form.Reads r :=
  Form.record_reads (by decide)
    ⟨Form.uint64_faithful r.restaurant, Form.uint64_faithful r.user, Date.form_faithful r.date,
      TimeOfDay.form_reads h, trivial⟩
    rfl

theorem write_shown (r : Request) : form.write r.shown = form.write r := by
  simp [form, Form.record, Form.recordOf, Fields.write, shown, TimeOfDay.write_shown]

theorem ofLine_toLine (r : Request) : form.ofLine (form.toLine r) = .ok r.shown := by
  have hread : form.Reads r.shown := form_reads r.time.leapIsLast_shown
  exact hread.ofLine_eq r.write_shown

end Request

namespace Candidate

variable {c : Candidate}

def LeapIsLast (c : Candidate) : Prop := c.time.LeapIsLast

/-- The candidate at the time that the clock shows. -/
def shown (c : Candidate) : Candidate := { c with time := c.time.shown }

theorem shown_eq_self_iff : c.shown = c ↔ c.LeapIsLast := by
  obtain ⟨id, restaurant, table, date, time⟩ := c
  simp [shown, LeapIsLast, TimeOfDay.shown_eq_self_iff]

theorem form_reads (h : c.LeapIsLast) : form.Reads c :=
  Form.record_reads (by decide)
    ⟨Form.uint64_faithful c.id, Form.uint64_faithful c.restaurant, Form.uint64_faithful c.table,
      Date.form_faithful c.date, TimeOfDay.form_reads h, trivial⟩
    rfl

theorem write_shown (c : Candidate) : form.write c.shown = form.write c := by
  simp [form, Form.record, Form.recordOf, Fields.write, shown, TimeOfDay.write_shown]

theorem ofLine_toLine (c : Candidate) : form.ofLine (form.toLine c) = .ok c.shown := by
  have hread : form.Reads c.shown := form_reads c.time.leapIsLast_shown
  exact hread.ofLine_eq c.write_shown

end Candidate

theorem OccupancyStatus.form_faithful : OccupancyStatus.form.Faithful :=
  Form.oneOf_faithful fun s => by cases s <;> rfl

namespace Occupancy

variable {o : Occupancy}

/-- The leap seconds of both times are the last of their minutes. -/
def LeapsAreLast (o : Occupancy) : Prop :=
  o.occupiedAt.LeapIsLast ∧ ∀ t ∈ o.unoccupiedAt, t.LeapIsLast

/-- The entry with the times that the clock shows. -/
def shown (o : Occupancy) : Occupancy :=
  { o with occupiedAt := o.occupiedAt.shown, unoccupiedAt := o.unoccupiedAt.map .shown }

theorem leapsAreLast_shown (o : Occupancy) : o.shown.LeapsAreLast := by
  refine ⟨o.occupiedAt.time.leapIsLast_shown, fun t ht => ?_⟩
  obtain ⟨t, -, rfl⟩ := Option.map_eq_some_iff.1 ht
  exact t.time.leapIsLast_shown

theorem shown_eq_self_iff : o.shown = o ↔ o.LeapsAreLast := by
  obtain ⟨candidate, restaurant, table, user, status, occupiedAt, unoccupiedAt⟩ := o
  cases unoccupiedAt <;> simp [shown, LeapsAreLast, DateTime.shown_eq_self_iff]

theorem form_reads (h : o.LeapsAreLast) : form.Reads o := by
  have hoptional : DateTime.form.optional.Reads o.unoccupiedAt :=
    Form.optional_reads (fun t ht => DateTime.form_reads (h.2 t ht)) fun _ => Json.noConfusion
  exact Form.record_reads (by decide)
    ⟨Form.uint64_faithful o.candidate, Form.uint64_faithful o.restaurant,
      Form.uint64_faithful o.table, Form.uint64_faithful o.user,
      OccupancyStatus.form_faithful o.status, DateTime.form_reads h.1, hoptional, trivial⟩
    rfl

theorem write_shown (o : Occupancy) : form.write o.shown = form.write o := by
  obtain ⟨candidate, restaurant, table, user, status, occupiedAt, unoccupiedAt⟩ := o
  cases unoccupiedAt <;>
    simp [form, Form.record, Form.recordOf, Form.optional, Fields.write, shown,
      DateTime.write_shown]

theorem ofLine_toLine (o : Occupancy) : form.ofLine (form.toLine o) = .ok o.shown :=
  (form_reads o.leapsAreLast_shown).ofLine_eq o.write_shown

end Occupancy

theorem Reservation.form_faithful : Reservation.form.Faithful :=
  Form.record_faithful (by decide)
    (fun r => ⟨Form.uint64_faithful r.occupancy, Form.uint64_faithful r.candidate,
      Form.uint64_faithful r.table, SlotKey.form_faithful r.key, Form.bool_faithful r.degraded,
      trivial⟩)
    fun _ => rfl

theorem Event.form_faithful : Event.form.Faithful := by
  refine Form.variant_faithful _ (Form.record_faithful (by decide) ?_ fun _ => rfl)
  rintro ⟨occupancy, restaurant, table, user, key⟩
  exact ⟨Form.uint64_faithful occupancy, Form.uint64_faithful restaurant,
    Form.uint64_faithful table, Form.uint64_faithful user, SlotKey.form_faithful key, trivial⟩

theorem RateScope.form_faithful : RateScope.form.Faithful :=
  Form.oneOf_faithful fun s => by cases s <;> rfl

theorem RatePlan.form_faithful : RatePlan.form.Faithful :=
  Form.record_faithful (by decide)
    (fun p => ⟨RateScope.form_faithful p.scope, Form.uint32_faithful p.permits,
      Duration.form_faithful p.interval, Duration.form_faithful p.lifetime, trivial⟩)
    fun _ => rfl

theorem PoolPlan.form_faithful : PoolPlan.form.Faithful :=
  Form.record_faithful (by decide)
    (fun p => ⟨Form.uint32_faithful p.capacity, Duration.form_faithful p.lifetime, trivial⟩)
    fun _ => rfl

theorem PoolDemand.form_faithful : PoolDemand.form.Faithful :=
  Form.record_faithful (by decide)
    (fun p => ⟨Form.uint32_faithful p.permits, Duration.form_faithful p.wait, trivial⟩)
    fun _ => rfl

namespace Sim.World

theorem loggedEvents_publish (w : World) (events : List Event) :
    (events.foldl (fun w e => w.publish e .log) w).loggedEvents = w.loggedEvents ++ events := by
  induction events generalizing w with
  | nil => simp
  | cons e events ih =>
    have hread := (Event.form_faithful e).ofLine_toLine
    have hone : (w.publish e .log).loggedEvents = w.loggedEvents ++ [e] := by
      simp [publish, loggedEvents, hread, Except.toOption]
    rw [List.foldl_cons, ih, hone, List.append_assoc, List.singleton_append]

end Sim.World

/-- Whatever is written as a line of JSON is read back from it, the events of the log in their
order. Of times it is what the clock shows that is read back: the same time, unless it is a leap
second within a minute. -/
theorem Json.forms_faithful :
    (∀ k, SlotKey.form.ofLine (SlotKey.form.toLine k) = .ok k) ∧
      (∀ r, Request.form.ofLine (Request.form.toLine r) = .ok r.shown ∧
        (Request.form.ofLine (Request.form.toLine r) = .ok r ↔ r.LeapIsLast)) ∧
      (∀ c, Candidate.form.ofLine (Candidate.form.toLine c) = .ok c.shown ∧
        (Candidate.form.ofLine (Candidate.form.toLine c) = .ok c ↔ c.LeapIsLast)) ∧
      (∀ s, OccupancyStatus.form.ofLine (OccupancyStatus.form.toLine s) = .ok s) ∧
      (∀ o, Occupancy.form.ofLine (Occupancy.form.toLine o) = .ok o.shown ∧
        (Occupancy.form.ofLine (Occupancy.form.toLine o) = .ok o ↔ o.LeapsAreLast)) ∧
      (∀ r, Reservation.form.ofLine (Reservation.form.toLine r) = .ok r) ∧
      (∀ e, Event.form.ofLine (Event.form.toLine e) = .ok e) ∧
      (∀ s, RateScope.form.ofLine (RateScope.form.toLine s) = .ok s) ∧
      (∀ p, RatePlan.form.ofLine (RatePlan.form.toLine p) = .ok p) ∧
      (∀ p, PoolPlan.form.ofLine (PoolPlan.form.toLine p) = .ok p) ∧
      (∀ p, PoolDemand.form.ofLine (PoolDemand.form.toLine p) = .ok p) ∧
      (∀ (w : Sim.World) (e : Event), ∃ line,
        (w.publish e .log).log = w.log ++ [line] ∧ Event.form.ofLine line = .ok e) ∧
      ∀ (w : Sim.World) (events : List Event),
        (events.foldl (fun w e => w.publish e .log) w).loggedEvents = w.loggedEvents ++ events := by
  refine ⟨fun k => (SlotKey.form_faithful k).ofLine_toLine, fun r => ⟨r.ofLine_toLine, ?_⟩,
    fun c => ⟨c.ofLine_toLine, ?_⟩, fun s => (OccupancyStatus.form_faithful s).ofLine_toLine,
    fun o => ⟨o.ofLine_toLine, ?_⟩, fun r => (Reservation.form_faithful r).ofLine_toLine,
    fun e => (Event.form_faithful e).ofLine_toLine,
    fun s => (RateScope.form_faithful s).ofLine_toLine,
    fun p => (RatePlan.form_faithful p).ofLine_toLine,
    fun p => (PoolPlan.form_faithful p).ofLine_toLine,
    fun p => (PoolDemand.form_faithful p).ofLine_toLine,
    fun _ e => ⟨Event.form.toLine e, rfl, (Event.form_faithful e).ofLine_toLine⟩,
    Sim.World.loggedEvents_publish⟩
  · rw [r.ofLine_toLine, Except.ok.injEq, Request.shown_eq_self_iff]
  · rw [c.ofLine_toLine, Except.ok.injEq, Candidate.shown_eq_self_iff]
  · rw [o.ofLine_toLine, Except.ok.injEq, Occupancy.shown_eq_self_iff]

/-- A leap second after 11:00:30 is written as `11:00:31.500`, and that is read as the half second
after 11:00:31. -/
theorem Json.leap_misread :
    let leap : TimeOfDay := ⟨39_630, 1_500_000_000, by decide, by decide⟩
    let after : TimeOfDay := ⟨39_631, 500_000_000, by decide, by decide⟩
    let request : TimeOfDay → Request := fun t => ⟨1, 5, .epoch, t⟩
    leap ≠ after ∧
      Request.form.toLine (request leap) = Request.form.toLine (request after) ∧
      Request.form.ofLine (Request.form.toLine (request leap)) = .ok (request after) ∧
      Request.form.ofLine (Request.form.toLine (request leap)) ≠ .ok (request leap) := by
  intro leap after request
  have hshown : (request leap).shown = request after := by decide
  have hread : Request.form.ofLine (Request.form.toLine (request leap)) = .ok (request after) :=
    hshown ▸ (request leap).ofLine_toLine
  have hwrite : Request.form.toLine (request leap) = Request.form.toLine (request after) :=
    hshown ▸ congrArg Json.line (request leap).write_shown.symm
  refine ⟨by decide, hwrite, hread, fun h => ?_⟩
  rw [hread, Except.ok.injEq] at h
  exact absurd (congrArg (fun r => r.time.nanos) h) (by decide)

end Turnstile
