/-!
# Latches

A latch is held by at most one ticket. Tickets that come while it is held stand in line, and a
latch that is let go is handed to the first of them at once.
-/

namespace Turnstile

/-- The number of an attempt; no two attempts share one. -/
abbrev Ticket := Nat

namespace Local

inductive Latch
  | idle
  /-- Held by `holder`, who may not know yet that it was handed over; `line` waits, oldest first. -/
  | held (holder : Ticket) (line : List Ticket)
deriving DecidableEq

namespace Latch

def holder? : Latch → Option Ticket
  | idle => none
  | held h _ => some h

def line : Latch → List Ticket
  | idle => []
  | held _ l => l

def isIdle : Latch → Bool
  | idle => true
  | held _ _ => false

/-- Takes an idle latch or goes to the end of the line. -/
def enter (l : Latch) (t : Ticket) : Latch :=
  match l with
  | idle => held t []
  | held h line => held h (line ++ [t])

/-- The latch after its holder let go. -/
def next : List Ticket → Latch
  | [] => idle
  | t :: line => held t line

/-- Lets go of the latch or leaves the line, wherever `t` stands; the ticket that the latch is
handed to, if any. -/
def leave (l : Latch) (t : Ticket) : Latch × Option Ticket :=
  match l with
  | idle => (idle, none)
  | held h line => if h = t then (next line, line.head?) else (held h (line.erase t), none)

end Latch

end Local

end Turnstile
