import Turnstile.Proofs.Admission.Desk

/-!
# A hall

Reservations at the guards of one local store, without substitutes. Everybody else whom they call,
the flags, the writer, the publisher, the clock and the maker of owners, are `Surroundings`, of
which nothing is assumed: they have a state of their own, answer as they like and may keep a caller
waiting. `Hall.look` is one look at a call, the first one or a later one.
-/

namespace Turnstile

/-- The same look at a call that remembers otherwise. -/
def Look.remember {α π π' : Type} (f : π → π') : Look α π → Look α π'
  | answered a => answered a
  | blocked w => blocked (f w)

namespace Admission

/-- Those who are called besides the guards. -/
structure Surroundings where
  State : Type
  /-- What a call that blocks remembers. -/
  Pending : Type
  /-- The instant at which it looks again by itself. -/
  due? : Pending → Option Nat
  /-- A call that is not awaited. -/
  tell : State → (now : Nat) → (c : Call) → State × c.Answer
  /-- One look at a call that is awaited, under its ticket, and the tickets that it wakes. -/
  look : State → (now : Nat) → Ticket → (c : Call) → Option Pending →
    State × List Ticket × Look c.Answer Pending
  /-- Forgets a call whose caller is dropped. -/
  cancel : State → (now : Nat) → Ticket → Pending → State × List Ticket

structure Hall (E : Surroundings) where
  store : Local.Store
  others : E.State

/-- The guards that a controller with these settings asks have no substitutes. -/
def Policy.plain (settings : Settings) (hasFlags hasPublisher : Bool) : Policy :=
  ⟨settings, hasFlags, hasPublisher, false, false, false⟩

/-- The call asks a guard for something and may have to wait for it. -/
def Call.isAttempt : Call → Bool
  | rate spare _ _ _ => !spare
  | lock _ _ _ => true
  | permits spare _ _ _ => !spare
  | _ => false

namespace Hall

variable {E : Surroundings}

/-- What a call waits for. -/
inductive Waiting (E : Surroundings)
  | guard (w : Local.Waiting)
  | other (w : E.Pending)

/-- What a call that blocks remembers: its ticket, and what it waits for. -/
abbrev Pending (E : Surroundings) := Ticket × Waiting E

namespace Waiting

def guard? : Waiting E → Option Local.Waiting
  | guard w => some w
  | other _ => none

def other? : Waiting E → Option E.Pending
  | guard _ => none
  | other w => some w

def due? : Waiting E → Option Nat
  | guard w => some w.due
  | other w => E.due? w

end Waiting

/-- What became of an attempt under the ticket `t`. -/
def settle (t : Ticket) : Local.Progress → Look (Except GuardError Bool) (Pending E)
  | .done o => .answered (o.map Option.isSome)
  | .waiting w => .blocked (t, .guard w)

def attempt (h : Hall E) (now : Nat) (t : Ticket) (a : Local.Attempt) :
    Option Local.Waiting → Hall E × List Ticket × Look (Except GuardError Bool) (Pending E)
  | none =>
    let r := h.store.begin t now a
    ({ h with store := r.1 }, [], settle t r.2)
  | some w =>
    let r := h.store.resume t now w
    ({ h with store := r.1 }, r.2.1, settle t r.2.2)

def elsewhere (h : Hall E) (now : Nat) (t : Ticket) (c : Call) (v : Option E.Pending) :
    Hall E × List Ticket × Look c.Answer (Pending E) :=
  if c.isAwaited then
    let r := E.look h.others now t c v
    ({ h with others := r.1 }, r.2.1, r.2.2.remember fun w => (t, .other w))
  else
    let r := E.tell h.others now c
    ({ h with others := r.1 }, [], .answered r.2)

/-- One look at the call `c` under the ticket `t`, and the tickets that it wakes. -/
def look (h : Hall E) (now : Nat) (t : Ticket) (c : Call) (v : Option (Waiting E)) :
    Hall E × List Ticket × Look c.Answer (Pending E) :=
  match c with
  | .rate false key wait plan => h.attempt now t (.token key.text wait plan) (v.bind Waiting.guard?)
  | .lock key owner wait => h.attempt now t (.lock key.text owner wait) (v.bind Waiting.guard?)
  | .permits false key plan demand =>
    h.attempt now t (.permits key.text plan demand) (v.bind Waiting.guard?)
  | .isHeldBy key owner => (h, [], .answered (.ok (h.store.isHeldBy key.text owner)))
  | .unlock key owner =>
    let r := h.store.unlock key.text owner
    ({ h with store := r.1 }, r.2.2, .answered (.ok r.2.1))
  | .giveBack false key =>
    let r := h.store.giveBack key.text now
    ({ h with store := r.1 }, r.2, .answered (.ok ()))
  | c => h.elsewhere now t c (v.bind Waiting.other?)

/-- Forgets a call that waits; the tickets that are woken. -/
def cancel (h : Hall E) (now : Nat) : Pending E → Hall E × List Ticket
  | (t, .guard w) =>
    let r := h.store.cancel t w
    ({ h with store := r.1 }, r.2)
  | (t, .other w) =>
    let r := E.cancel h.others now t w
    ({ h with others := r.1 }, r.2)

/-- The reaper passes. -/
def sweep (h : Hall E) (now : Nat) : Hall E := { h with store := h.store.sweep now }

end Hall

end Admission

end Turnstile
