import Turnstile.Failure
import Turnstile.Slot

/-!
# The ledger of candidates

All candidates in the order in which they were added, each with the occupancy that took it, and the
entries of all occupancies. A candidate is taken once; after that no query returns it.
-/

namespace Turnstile

structure Ledger where
  rows : List (Candidate × Option UInt64)
  entries : List Occupancy
  /-- The number of the next occupancy. -/
  nextId : UInt64

namespace Ledger

def empty : Ledger := ⟨[], [], 1⟩

instance : Inhabited Ledger := ⟨empty⟩

def add (l : Ledger) (c : Candidate) : Ledger := { l with rows := l.rows ++ [(c, none)] }

/-- The `n`-th of several tables in one slot, counted from zero. -/
def tableAt (slot : Slot) (firstId : UInt64) (n : Nat) : Candidate :=
  ⟨firstId + UInt64.ofNat n, slot.restaurant, UInt64.ofNat (n + 1), slot.date, slot.time⟩

/-- Adds one candidate for each of `count` tables, numbered from `firstId`. -/
def addTables (l : Ledger) (slot : Slot) (firstId : UInt64) (count : Nat) : Ledger :=
  ((List.range count).map (tableAt slot firstId)).foldl add l

/-- The candidates of a slot that are free. Slots with one key are one slot. -/
def query (l : Ledger) (slot : Slot) : List Candidate :=
  (l.rows.filter fun (c, taken) => taken.isNone && c.slot.key = slot.key).map (·.1)

def find? (id : UInt64) : List (Candidate × Option UInt64) → Option (Option UInt64)
  | [] => none
  | (c, taken) :: rest => if c.id = id then some taken else find? id rest

/-- Marks the first candidate of that number as taken. -/
def mark (id occupancy : UInt64) :
    List (Candidate × Option UInt64) → List (Candidate × Option UInt64)
  | [] => []
  | (c, taken) :: rest =>
    if c.id = id then (c, some occupancy) :: rest else (c, taken) :: mark id occupancy rest

def unknownCandidate (id : UInt64) : StoreError :=
  .other ("unknown candidate " ++ String.ofList (Text.Decimal.digits id.toNat))

/-- Takes the candidate of an entry, if it is free: the number of the occupancy. -/
def create (l : Ledger) (entry : Occupancy) : Ledger × Except StoreError (Option UInt64) :=
  match find? entry.candidate l.rows with
  | none => (l, .error (unknownCandidate entry.candidate))
  | some (some _) => (l, .ok none)
  | some none =>
    ({ rows := mark entry.candidate l.nextId l.rows
       entries := l.entries ++ [entry]
       nextId := l.nextId + 1 }, .ok (some l.nextId))

end Ledger

end Turnstile
