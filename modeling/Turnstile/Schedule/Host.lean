import Turnstile.Program

/-!
# Hosts

A host carries out the calls of the tasks that run on it. A call is answered at once or blocks;
what a blocked call remembers is its `Pending`. A blocked call looks again when a signal that it
waits for is given or when its time has come. Besides its answer a call may have orders for the
scheduler: to give signals, and to start and to stop tasks.
-/

namespace Turnstile

inductive Order (I : Interface) (ρ α : Type)
  | wake (signal : Nat)
  /-- Starts a task that owes `owed`; a tag lets it be stopped later. -/
  | start (tag : Option Nat) (p : Program I ρ α) (owed : List ρ)
  | stop (tag : Nat)

/-- What became of one look at a call. -/
inductive Look (answer pending : Type)
  | answered (a : answer)
  | blocked (w : pending)

structure Host where
  calls : Interface
  Pledge : Type
  Result : Type
  State : Type
  Pending : calls.Call → Type
  /-- The instant at which a blocked call looks again by itself. -/
  due? : (c : calls.Call) → Pending c → Option Nat
  /-- The signal that a blocked call waits for. -/
  signal? : (c : calls.Call) → Pending c → Option Nat
  /-- The first look, under a ticket that no other call has. -/
  perform : State → (now ticket : Nat) → (c : calls.Call) →
    State × List (Order calls Pledge Result) × Look (calls.Answer c) (Pending c)
  /-- A later look. -/
  resume : State → (now : Nat) → (c : calls.Call) → Pending c →
    State × List (Order calls Pledge Result) × Look (calls.Answer c) (Pending c)
  /-- Forgets a blocked call whose task is dropped. -/
  cancel : State → (now : Nat) → (c : calls.Call) → Pending c →
    State × List (Order calls Pledge Result)
  /-- How a task settles what it owes. -/
  settle : Pledge → Program calls Pledge Unit
  /-- What happens to something owed by a task that is dropped. -/
  forfeit : State → (now : Nat) → Pledge → State × List (Order calls Pledge Result)
  /-- A task whose result says so goes on with another program. -/
  next? : Result → Option (Program calls Pledge Result)

namespace Host

abbrev Code (H : Host) := Program H.calls H.Pledge H.Result

abbrev Orders (H : Host) := List (Order H.calls H.Pledge H.Result)

end Host

end Turnstile
