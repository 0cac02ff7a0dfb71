import Turnstile.Slot
import Turnstile.Table

/-!
# Notices

A channel per restaurant. A subscription reads the events of its channel that were sent after it
was made; a channel keeps the last 256, and a subscription that fell further behind is told how
many it missed. Removing a channel closes it; a later subscription opens another.
-/

namespace Turnstile

/-- How many events a channel keeps. -/
def Notice.kept : Nat := 256

structure Channel where
  /-- All events that were sent, oldest first. -/
  sent : List Event
  isOpen : Bool

structure Hub where
  channels : List Channel
  /-- The channel of each restaurant that has an open one, by its place in `channels`. -/
  current : Table UInt64 Nat

structure Subscription where
  channel : Nat
  /-- How many events of the channel lie behind. -/
  position : Nat
deriving DecidableEq

inductive Receipt
  | event (e : Event)
  | empty
  | closed
  | lagged (missed : Nat)
deriving DecidableEq

namespace Hub

def fresh : Hub := ⟨[], .empty⟩

instance : Inhabited Hub := ⟨fresh⟩

/-- Opens the channel of a restaurant if there is none. -/
def ensure (h : Hub) (restaurant : UInt64) : Hub × Nat :=
  match h.current.get? restaurant with
  | some n => (h, n)
  | none =>
    ({ channels := h.channels ++ [⟨[], true⟩]
       current := h.current.insert restaurant h.channels.length }, h.channels.length)

def subscribe (h : Hub) (restaurant : UInt64) : Hub × Subscription :=
  let (h, n) := h.ensure restaurant
  (h, ⟨n, (h.channels[n]?.map (·.sent.length)).getD 0⟩)

/-- Sends an event to the channel of its restaurant; without a channel nobody listens. -/
def send (h : Hub) (e : Event) : Hub :=
  match h.current.get? e.restaurant with
  | some n => { h with channels := h.channels.modify n fun c => { c with sent := c.sent ++ [e] } }
  | none => h

def remove (h : Hub) (restaurant : UInt64) : Hub :=
  match h.current.get? restaurant with
  | some n =>
    { channels := h.channels.modify n fun c => { c with isOpen := false }
      current := h.current.erase restaurant }
  | none => h

/-- What a subscription reads next, without waiting. -/
def receive (h : Hub) (s : Subscription) : Subscription × Receipt :=
  match h.channels[s.channel]? with
  | none => (s, .closed)
  | some c =>
    let oldest := c.sent.length - Notice.kept
    if s.position < oldest then ({ s with position := oldest }, .lagged (oldest - s.position))
    else match c.sent[s.position]? with
      | some e => ({ s with position := s.position + 1 }, .event e)
      | none => (s, if c.isOpen then .empty else .closed)

end Hub

end Turnstile
